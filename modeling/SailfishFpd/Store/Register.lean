import SailfishFpd.Hal.Device
import SailfishFpd.Session.History
import SailfishFpd.Store.Lookup

/-!
# A register of named fingers

What the daemon and its HAL are for: a register of named fingers, on which one
operation of a client is pending at a time. An operation takes effect in one
step, or is given up. What the source adds to that has steps of its own: after
an identification the sensor may go on matching until the next operation is
accepted, and the timer of an `Identify` that failed otherwise may give up what
is pending by then, once. `register` is that machine; it knows no requests,
reports, files or states. `device_refines_register` says that clients see of the
device, once the fingers are loaded, what they could see of the register.
-/

namespace SailfishFpd

open FPDCommunity
open Reactive.Machine (Refines along_cons along_nil)

/-! ## The register -/

structure Register where
  fingers : FingerMap
  pending : Option Call := none
  /-- The sensor may match on, after an identification. -/
  matching : Bool := false
  /-- The timer of an `Identify` that is over may still run. -/
  alarm : Bool := false

inductive RegisterInput where
  | accept (c : Call)
  /-- The operation is accepted and given up at once. -/
  | refuse (c : Call)
  | enrolled (finger : UInt32)
  | removed (finger : UInt32)
  | cleared
  | identified (finger : UInt32)
  /-- A match that no operation waits for. -/
  | rematched (finger : UInt32)
  /-- The pending operation ends without an effect; the timer of an `Identify` may run on. -/
  | giveUp (alarm : Bool)
  /-- The timer that ran on gives up what is pending. -/
  | alarm
  | list

/-- What clients see of the register. -/
inductive Seen where
  | accepted (c : Call)
  | change (c : Change)
  | identified (name : String)
  /-- `Failed` or `Aborted`. -/
  | ended
  | listing (names : List String)
  deriving DecidableEq

namespace Register

/-- The operation can be accepted when none is pending. -/
def Admits (r : Register) : Call → Prop
  | .Enroll finger => finger ∉ FingerMap.values r.fingers
  | .Remove finger => finger ∈ FingerMap.values r.fingers
  | .Identify => r.fingers.size ≠ 0
  | .Verify | .Clear => True
  | .GetState | .GetAll | .Abort => False

instance (r : Register) : (c : Call) → Decidable (r.Admits c)
  | .Enroll finger => inferInstanceAs (Decidable (finger ∉ FingerMap.values r.fingers))
  | .Remove finger => inferInstanceAs (Decidable (finger ∈ FingerMap.values r.fingers))
  | .Identify => inferInstanceAs (Decidable (r.fingers.size ≠ 0))
  | .Verify | .Clear => isTrue trivial
  | .GetState | .GetAll | .Abort => isFalse id

/-- The pending operation makes an edit, and clients see it. -/
def effect (r : Register) (e : Edit) : Register × List Seen :=
  ({ fingers := e.apply r.fingers, alarm := r.alarm }, (e.changes r.fingers).map .change)

/-- The operation is pending; an `Identify` starts the timer anew. -/
def begin (r : Register) (c : Call) : Register :=
  { r with pending := some c, matching := false, alarm := r.alarm && c != .Identify }

def stop (r : Register) (alarm : Bool) : Register :=
  { r with pending := none, matching := false, alarm }

def step (r : Register) : RegisterInput → Register × List Seen
  | .accept c => if r.pending = none ∧ r.Admits c then (r.begin c, [.accepted c]) else (r, [])
  | .refuse c =>
    if r.pending = none ∧ r.Admits c then
      ({ r with alarm := r.alarm || c == .Identify }, [.accepted c, .ended])
    else (r, [])
  | .enrolled finger =>
    match r.pending with
    | some (.Enroll name) => if finger ∈ r.fingers then (r, []) else r.effect (.add finger name)
    | _ => (r, [])
  | .removed finger =>
    match r.pending with
    | some (.Remove name) =>
      if r.fingers[finger]? = some name then r.effect (.drop finger) else (r, [])
    | _ => (r, [])
  | .cleared => if r.pending = some .Clear then r.effect .wipe else (r, [])
  | .identified finger =>
    match r.fingers[finger]? with
    | some name =>
      if r.pending = some .Identify then
        ({ r with pending := none, matching := true, alarm := false }, [.identified name])
      else (r, [])
    | none => (r, [])
  | .rematched finger =>
    match r.fingers[finger]? with
    | some name =>
      if r.pending = none ∧ r.matching then ({ r with alarm := false }, [.identified name])
      else (r, [])
    | none => (r, [])
  | .giveUp alarm =>
    if r.pending = none then (r, [])
    else (r.stop (alarm && (r.alarm || r.pending == some .Identify)), [.ended])
  | .alarm => if r.alarm then (r.stop false, [.ended]) else (r, [])
  | .list => (r, [.listing (FingerMap.values r.fingers)])

end Register

def register : Reactive.Machine Register RegisterInput (List Seen) where
  step := Register.step

theorem register_accept {r : Register} {c : Call} (hr : r.pending = none) (hc : r.Admits c) :
    register.step r (.accept c) = (r.begin c, [.accepted c]) := if_pos ⟨hr, hc⟩

theorem register_refuse {r : Register} {c : Call} (hr : r.pending = none) (hc : r.Admits c) :
    register.step r (.refuse c) =
      ({ r with alarm := r.alarm || c == .Identify }, [.accepted c, .ended]) := if_pos ⟨hr, hc⟩

theorem register_giveUp {r : Register} (hr : r.pending ≠ none) (alarm : Bool) :
    register.step r (.giveUp alarm) =
      (r.stop (alarm && (r.alarm || r.pending == some .Identify)), [.ended]) := if_neg hr

theorem register_alarm {r : Register} (hr : r.alarm = true) :
    register.step r .alarm = (r.stop false, [.ended]) := if_pos hr

/-- An `Identify` is answered by one match. -/
example : (register.edges { fingers := (∅ : FingerMap).insert 7 "left" }
    [.accept .Identify, .identified 7, .identified 7]).flatMap (·.out) =
      [.accepted .Identify, .identified "left"] := by decide

/-! ## What clients see of the device -/

def Output.seen? : Output → Option Seen
  | .signal (.Identified name) => some (.identified name)
  | .signal .Failed | .signal .Aborted => some .ended
  | o => o.change.map .change

/-- The changes, the matches and the failures that are told. -/
def seenOf (out : List Output) : List Seen := out.filterMap Output.seen?

/-- What a client sees of its own call: that it is accepted, or the answer of `GetAll`. -/
def DeviceEvent.seen (event : DeviceEvent) (r : Response) : List Seen :=
  match event, r.answer with
  | .call _ .GetAll, some (.list names) => [.listing names]
  | .call _ c, _ => if c.acceptedBy r then [.accepted c] else []
  | _, _ => []

def seen (e : DeviceEdge) : List Seen := e.input.event.seen e.out ++ seenOf e.out.out

/-- A `Clear` that has begun to delete is not stopped, `postEnroll` succeeds, and an enrolment that
serves `Verify` does not get as far as a template. -/
structure Orderly (e : DeviceEdge) : Prop where
  post : e.input.env.hal .postEnroll = SYS_OK
  clear : FinishesClear e
  verify : e.src.fpd.m_state = .FPSTATE_VERIFYING →
    ∀ finger, e.input.event ≠ .hal (.enrolled finger)

/-! ## The device stands for a register -/

/-- What the HAL is doing for the pending operation. -/
def HalOp.Serves (r : Register) : HalOp → Prop
  | .rest | .enrolling => True
  | .removing finger => ∃ name, r.pending = some (.Remove name) ∧ r.fingers[finger]? = some name
  | .clearing _ => r.pending = some .Clear
  | .authenticating => r.pending = some .Identify ∨ r.pending = none ∧ r.matching = true
  | .enumerating _ => False

/-- The state and the name to enrol are those of the pending operation, and so is the timer, unless
it runs on. -/
structure Register.Tracks (r : Register) (c : Control) : Prop where
  armed : c.armed = true → r.pending = some .Identify ∨ r.alarm = true
  state : c.state = (r.pending.map Call.busyState).getD .FPSTATE_IDLE
  busy : ∀ call ∈ r.pending, call.busyState ≠ .FPSTATE_IDLE
  adding : ∀ name, r.pending = some (.Enroll name) → c.adding = name

/-- The register of an idle device. -/
def Device.asRegister (s : Device) : Register where
  fingers := s.fpd.m_fingerMap
  matching := s.hal.op = .authenticating
  alarm := s.fpd.m_cancelTimer

structure Represents (s : Device) (r : Register) : Prop where
  fingers : r.fingers = s.fpd.m_fingerMap
  tracks : r.Tracks s.fpd.control
  serves : s.hal.op.Serves r
  synced : ∃ past, Enumerated past ∧ Synced past s

@[simp] theorem seenOf_nil : seenOf [] = [] := rfl

@[simp] theorem seenOf_cons (o : Output) (out : List Output) :
    seenOf (o :: out) = o.seen?.toList ++ seenOf out :=
  filterMap_output_cons Output.seen? o out

@[simp] theorem seenOf_append (a b : List Output) : seenOf (a ++ b) = seenOf a ++ seenOf b :=
  List.filterMap_append

@[simp] theorem seenOf_stateChange (old new : State) : seenOf (stateChange old new) = [] :=
  filterMap_stateChange (fun _ => rfl) old new

@[simp] theorem seenOf_map_removed (fs : List String) :
    seenOf (fs.map fun f => .signal (.Removed f)) = fs.map fun f => .change (.removed f) := by
  induction fs with
  | nil => rfl
  | cons f fs ih => simpa [Output.seen?, Output.change] using ih

@[simp] theorem seenOf_requestOutput (hal : Hal) (r : Request) :
    seenOf (requestOutput hal r) = if hal r = SYS_OK then [] else [.ended] := by
  by_cases h : hal r = SYS_OK <;> simp [requestOutput, Output.seen?, Output.change, h]

/-- The failure or the abort that a move reports. -/
def Move.ended (m : Move) : List Seen := m.reports.map fun _ => .ended

@[simp] theorem Move.ended_start (caller : String) (c : Call) : (start caller c).ended = [] := rfl

@[simp] theorem Move.ended_bounce (caller : String) (c : Call) :
    (bounce caller c).ended = [.ended] := rfl

/-- What a slot shows: a match, or the changes of its edit and the end of the operation. -/
def FPDCommunity.signalSeen [QDataStream] (env : Env) (d : FPDCommunity) (signal : Signal) :
    List Seen :=
  match signal with
  | .authenticated finger => [.identified (d.identifiedName finger)]
  | _ =>
    ((d.signalEdit env signal).changes d.m_fingerMap).map .change ++ (d.signalMove signal).ended

section Handlers

variable {x : Exec} {env : Env} {caller : String}

attribute [local simp] signalSeen signalEdit signalMove Move.ended Move.reports Edit.changes
  Output.seen? Output.change

theorem seenOf_invoke (c : Call) :
    seenOf (invoke env caller c x).1.out =
      seenOf x.out ++ (x.self.callMove env.hal caller c).ended := by
  cases h : x.self.requestOf caller c with
  | some r =>
    rw [invoke_request h]
    by_cases hr : env.hal r = SYS_OK <;> by_cases he : c.enrols <;>
      simp [callMove, h, hr, he]
  | none =>
    by_cases ha : c = .Abort ∧ ¬ x.self.busyForOther caller ∧ x.self.m_state ≠ .FPSTATE_IDLE
    · obtain ⟨rfl, hb, hs⟩ := ha
      simp [invoke_abort hb hs, abort, callMove, h, hb, hs]
    · rw [invoke_idle h (by tauto)]
      simp [callMove, h, ha]

theorem seenOf_slot [QDataStream] (signal : Signal) :
    seenOf (slot env signal x).out = seenOf x.out ++ x.self.signalSeen env signal := by
  cases signal with
  | failed message =>
    by_cases ht : x.self.tolerates message
    · simp [slot, slot_failed_tolerated ht, ht]
    · simp [slot, slot_failed_ends ht, ht]
  | succeeded finger => simp [slot, slot_succeeded]
  | removed finger =>
    by_cases h : finger = 0 <;> simp [slot, slot_removed, foldl_removed, h, Function.comp_def]
  | authenticated finger => simp [slot, slot_authenticated_out]
  | enrollProgress pc =>
    by_cases hv : x.self.m_state = .FPSTATE_VERIFYING <;>
      simp [slot, slot_enrollProgress, hv, abort]
  | acquired info =>
    by_cases h : acquiredState info = x.self.m_acquired <;> simp [slot, slot_acquired_out, h]
  | enumerated => simp [slot, slot_enumerated]

end Handlers

/-! ## Every step of the device is a run of the register -/

section Steps

variable [QDataStream] {s : Device} {r r' : Register} {i : DeviceInput}

/-- The register has a run for the step, with the same seen of both. -/
def Simulates (s : Device) (r : Register) (i : DeviceInput) : Prop :=
  ∃ js, Represents (device.step s i).1 (register.final r js) ∧
    (register.edges r js).flatMap (·.out) = seen (device.edge s i)

theorem Represents.next (h : Represents s r) (ho : Orderly (device.edge s i))
    (hfingers : r'.fingers = (device.step s i).1.fpd.m_fingerMap)
    (htracks : r'.Tracks (device.step s i).1.fpd.control)
    (hserves : (device.step s i).1.hal.op.Serves r') : Represents (device.step s i).1 r' := by
  obtain ⟨past, he, hsynced⟩ := h.synced
  exact ⟨hfingers, htracks, hserves, past ++ [device.edge s i], enumerated_snoc.mpr (.inl he),
    synced_step hsynced ho.post ho.clear⟩

omit [QDataStream] in
theorem Register.Tracks.idle {c : Control} (hr : r.pending = none)
    (hc : c.state = .FPSTATE_IDLE) (harmed : c.armed = true → r.alarm = true) : r.Tracks c :=
  ⟨fun ha => .inr (harmed ha), by simp [hr, hc], by simp [hr], by simp [hr]⟩

omit [QDataStream] in
/-- The end of an operation leaves no timer running that did not run. -/
theorem Register.Tracks.stop {c : Control} (h : r.Tracks c) (e : Ending) :
    (r.stop ((c.apply (.finish e)).armed && (r.alarm || r.pending == some .Identify))).Tracks
      (c.apply (.finish e)) := by
  refine .idle rfl rfl fun ha => ?_
  have hc : c.armed = true := (Bool.and_eq_true_iff.mp ha).1
  have halarm : (r.alarm || r.pending == some .Identify) = true := by
    simpa [or_comm] using h.armed hc
  exact Bool.and_eq_true_iff.mpr ⟨ha, halarm⟩

omit [QDataStream] in
theorem Represents.idle_iff (h : Represents s r) :
    s.fpd.m_state = .FPSTATE_IDLE ↔ r.pending = none := by
  have hstate : s.fpd.m_state = _ := h.tracks.state
  cases hr : r.pending with
  | none => simp [hstate, hr]
  | some c => simpa [hstate, hr] using h.tracks.busy c hr

omit [QDataStream] in
theorem Represents.busy (h : Represents s r) {c : Call} (hc : c ∈ r.pending) :
    s.fpd.m_state = c.busyState := by
  have hstate : s.fpd.m_state = _ := h.tracks.state
  rw [hstate, Option.mem_def.mp hc]
  rfl

omit [QDataStream] in
theorem Represents.admits (h : Represents s r) {caller : String} {c : Call} {req : Request}
    (hreq : s.fpd.requestOf caller c = some req) : r.pending = none ∧ r.Admits c := by
  refine ⟨h.idle_iff.mp (requestOf_free hreq).2, ?_⟩
  have hc := requests_of_some hreq
  cases c with
  | Enroll finger =>
    show finger ∉ FingerMap.values r.fingers
    rw [h.fingers]
    exact hc.1
  | Identify =>
    show r.fingers.size ≠ 0
    rw [h.fingers]
    exact hc.1
  | Remove finger =>
    show finger ∈ FingerMap.values r.fingers
    rw [h.fingers]
    by_contra hno
    exact hc.1 (keyOf_unlisted hno)
  | Verify | Clear => trivial
  | GetState | GetAll | Abort => exact hc.elim

theorem seen_call (s : Device) (caller : String) (c : Call) (env : Env) :
    seen (device.edge s ⟨.call caller c, env⟩) =
      (if c = .GetAll then [.listing (FingerMap.values s.fpd.m_fingerMap)]
        else if (s.fpd.requestOf caller c).isSome then [.accepted c] else []) ++
      (s.fpd.callMove env.hal caller c).ended := by
  have haccepted := acceptedBy_eq ⟨s.fpd, []⟩ env caller c
  have hstep : (device.step s ⟨.call caller c, env⟩).2 =
      (daemon.step ⟨s.fpd, []⟩ ⟨.call caller c, env⟩).2 := rfl
  have hout : seenOf (daemon.step ⟨s.fpd, []⟩ ⟨.call caller c, env⟩).2.out =
      (s.fpd.callMove env.hal caller c).ended := seenOf_invoke c
  rw [seen, device.edge_out, device.edge_input, hstep, hout]
  refine congrArg (· ++ _) ?_
  cases c with
  | GetAll => rfl
  | _ =>
    rw [if_neg (by simp), ← haccepted]
    rfl

omit [QDataStream] in
/-- Nothing is pending, and the HAL rests or matches on. -/
theorem Represents.serves_idle (h : Represents s r) (hr : r.pending = none)
    (hr' : r'.pending = none) (hm : r'.matching = r.matching) : s.hal.op.Serves r' := by
  obtain ⟨past, -, hsynced⟩ := h.synced
  rcases hsynced.idle (h.idle_iff.mpr hr) with hop | hop <;> rw [hop]
  · trivial
  · have hserves : HalOp.Serves r .authenticating := hop ▸ h.serves
    have hmatching : r.matching = true := by simpa [HalOp.Serves, hr] using hserves
    exact .inr ⟨hr', hm.trans hmatching⟩

omit [QDataStream] in
theorem Represents.serves_started (h : Represents s r) {caller : String} {c : Call} {req : Request}
    (hreq : s.fpd.requestOf caller c = some req) :
    (s.hal.request (req, SYS_OK)).op.Serves (r.begin c) := by
  have hadmits := (h.admits hreq).2
  have hc := requests_of_some hreq
  cases c with
  | Enroll finger =>
    obtain ⟨-, rfl⟩ := hc
    trivial
  | Identify =>
    obtain ⟨-, rfl⟩ := hc
    exact .inl rfl
  | Verify =>
    obtain rfl : req = _ := hc
    trivial
  | Remove finger =>
    obtain ⟨hk, rfl⟩ := hc
    have hlisted : finger ∈ FingerMap.values r.fingers := hadmits
    rw [h.fingers] at hlisted
    have hname : s.fpd.m_fingerMap[s.fpd.keyOf finger]? = some finger := getElem?_keyOf hlisted
    have hop : (s.hal.request (.remove 0 (s.fpd.keyOf finger), SYS_OK)).op =
        .removing (s.fpd.keyOf finger) := by
      simp [TemplateHal.request, TemplateHal.operationOf, hk]
    rw [hop]
    exact ⟨finger, rfl, h.fingers ▸ hname⟩
  | Clear =>
    obtain rfl : req = _ := hc
    rfl
  | GetState | GetAll | Abort => exact hc.elim

omit [QDataStream] in
theorem requestOf_ne_getAll {d : FPDCommunity} {caller : String} {c : Call} {req : Request}
    (hreq : d.requestOf caller c = some req) : c ≠ .GetAll := by
  rintro rfl
  exact requests_of_some hreq

omit [QDataStream] in
/-- A timer that runs once a call has passed its checks is that of an `Identify`, or ran before. -/
theorem Register.Tracks.prepared {c : Control} (h : r.Tracks c) (hr : r.pending = none)
    (call : Call) (ha : (c.prepare call).armed = true) : call = .Identify ∨ r.alarm = true := by
  by_cases hc : call = .Identify
  · exact .inl hc
  · have hprepare : (c.prepare call).armed = c.armed := by
      cases call <;> first | rfl | exact absurd rfl hc
    have harmed := h.armed (hprepare ▸ ha)
    exact .inr (by simpa [hr] using harmed)

omit [QDataStream] in
theorem Represents.tracks_started (h : Represents s r) {caller : String} {c : Call} {req : Request}
    (hreq : s.fpd.requestOf caller c = some req) :
    (r.begin c).Tracks (s.fpd.control.apply (.start caller c)) where
  armed ha := by
    by_cases hc : c = .Identify
    · exact .inl (congrArg some hc)
    · have halarm := (h.tracks.prepared (h.admits hreq).1 c ha).resolve_left hc
      exact .inr (by simp [Register.begin, halarm, hc])
  state := rfl
  busy := by
    rintro call ⟨⟩
    exact requestOf_busyState hreq
  adding := by
    rintro name ⟨⟩
    rfl

/-- The operation ends, and the list is as it was. -/
theorem simulates_giveUp (h : Represents s r) (ho : Orderly (device.edge s i)) {e : Ending}
    (hs : s.fpd.m_state ≠ .FPSTATE_IDLE)
    (hcontrol : (device.step s i).1.fpd.control = s.fpd.control.apply (.finish e))
    (hmap : (device.step s i).1.fpd.m_fingerMap = s.fpd.m_fingerMap)
    (hop : (device.step s i).1.hal.op = .rest) (hseen : seen (device.edge s i) = [.ended]) :
    Simulates s r i := by
  have hgiveUp := register_giveUp (mt h.idle_iff.mpr hs) (s.fpd.control.apply (.finish e)).armed
  refine ⟨[.giveUp (s.fpd.control.apply (.finish e)).armed], ?_, ?_⟩
  · rw [register.final_cons, register.final_nil, hgiveUp]
    refine h.next ho (h.fingers.trans hmap.symm) ?_ ?_
    · rw [hcontrol]
      exact h.tracks.stop e
    · rw [hop]
      trivial
  · rw [register.edges_cons, register.edges_nil, hseen]
    simp [hgiveUp]

theorem simulates_call (h : Represents s r) {caller : String} {c : Call} {env : Env}
    (ho : Orderly (device.edge s ⟨.call caller c, env⟩)) :
    Simulates s r ⟨.call caller c, env⟩ := by
  have hstep : (device.step s ⟨.call caller c, env⟩).1 =
      Device.handled s.hal (invoke env caller c { self := s.fpd }).1 := rfl
  have hmap : (device.step s ⟨.call caller c, env⟩).1.fpd.m_fingerMap = s.fpd.m_fingerMap :=
    (edits_invoke c : Edits env .keep { self := s.fpd } _).map
  have hcontrol : (device.step s ⟨.call caller c, env⟩).1.fpd.control =
      s.fpd.control.apply (s.fpd.callMove env.hal caller c) :=
    (makes_invoke c : Makes _ { self := s.fpd } _).control
  have hrequests := invoke_requests env caller c { self := s.fpd }
  have hseen := seen_call s caller c env
  rcases callMove_cases s.fpd env.hal caller c with
    ⟨hr, hm⟩ | ⟨rfl, -, hs, hm⟩ | ⟨req, hr, hok, hm⟩ | ⟨req, hr, hok, hm⟩ <;>
    rw [hm] at hrequests hcontrol hseen
  · have hnone : requestsOf (invoke env caller c { self := s.fpd }).1.out = [] := hrequests
    have hsame : (device.step s ⟨.call caller c, env⟩).1 = s := by
      rw [hstep, Device.handled_none _ hnone, invoke_stay hm]
    unfold Simulates
    rw [hsame, hseen]
    by_cases hc : c = .GetAll
    · refine ⟨[.list], h, ?_⟩
      rw [if_pos hc, ← h.fingers]
      rfl
    · refine ⟨[], h, ?_⟩
      rw [if_neg hc, hr]
      rfl
  · have hone : requestsOf (invoke env caller .Abort { self := s.fpd }).1.out =
        [(.cancel, env.hal .cancel)] := hrequests
    have hop : (device.step s ⟨.call caller .Abort, env⟩).1.hal.op = .rest := by
      rw [hstep, Device.handled_one _ hone]
      rfl
    have hnone : s.fpd.requestOf caller .Abort = none := by
      cases hr : s.fpd.requestOf caller .Abort with
      | none => rfl
      | some req => exact (requests_of_some hr).elim
    refine simulates_giveUp h ho hs hcontrol hmap hop ?_
    rw [hseen, hnone]
    rfl
  · obtain ⟨hpending, hadmits⟩ := h.admits hr
    have haccept := register_accept hpending hadmits
    have hone : requestsOf (invoke env caller c { self := s.fpd }).1.out = [(req, SYS_OK)] := by
      simpa [hr, hok] using hrequests
    have hhal : (device.step s ⟨.call caller c, env⟩).1.hal = s.hal.request (req, SYS_OK) := by
      rw [hstep, Device.handled_one _ hone]
    refine ⟨[.accept c], ?_, ?_⟩
    · rw [register.final_cons, register.final_nil, haccept]
      refine h.next ho (h.fingers.trans hmap.symm) ?_ ?_
      · rw [hcontrol]
        exact h.tracks_started hr
      · rw [hhal]
        exact h.serves_started hr
    · rw [hseen, if_neg (requestOf_ne_getAll hr), hr]
      simp [haccept]
  · obtain ⟨hpending, hadmits⟩ := h.admits hr
    have hrefuse := register_refuse hpending hadmits
    have hone : requestsOf (invoke env caller c { self := s.fpd }).1.out =
        [(req, env.hal req)] := by
      simpa [hr] using hrequests
    have hne : req ≠ .cancel := by
      rintro rfl
      exact absurd (requestOf_starts hr) (by simp [Request.startsOperation])
    have hhal : (device.step s ⟨.call caller c, env⟩).1.hal = s.hal := by
      rw [hstep, Device.handled_one _ hone, s.hal.request_refused hne hok]
    refine ⟨[.refuse c], ?_, ?_⟩
    · rw [register.final_cons, register.final_nil, hrefuse]
      refine h.next ho (h.fingers.trans hmap.symm) ?_ ?_
      · rw [hcontrol]
        refine .idle hpending rfl fun ha => ?_
        rcases h.tracks.prepared hpending c ha with rfl | halarm <;> simp [*]
      · rw [hhal]
        exact h.serves_idle hpending hpending rfl
    · rw [hseen, if_neg (requestOf_ne_getAll hr), hr]
      simp [hrefuse]

theorem simulates_timeout (h : Represents s r) {env : Env}
    (ho : Orderly (device.edge s ⟨.timeout, env⟩)) : Simulates s r ⟨.timeout, env⟩ := by
  by_cases ht : s.fpd.m_cancelTimer
  · have hstep : device.step s ⟨.timeout, env⟩ =
        (Device.handled s.hal
          (slot_cancelIdentify env { self := { s.fpd with m_cancelTimer := false } }),
          { out := (slot_cancelIdentify env
            { self := { s.fpd with m_cancelTimer := false } }).out }) := by
      simp [device, Device.step, ht]
    have hone : requestsOf (slot_cancelIdentify env
        { self := { s.fpd with m_cancelTimer := false } }).out = [(.cancel, env.hal .cancel)] := by
      simp [slot_cancelIdentify, Output.request?]
    obtain ⟨j, hj⟩ : ∃ j, register.step r j = (r.stop false, [.ended]) := by
      rcases h.tracks.armed ht with hr | halarm
      · exact ⟨.giveUp false, register_giveUp (by simp [hr]) false⟩
      · exact ⟨.alarm, register_alarm halarm⟩
    refine ⟨[j], ?_, ?_⟩
    · rw [register.final_cons, register.final_nil, hj]
      refine h.next ho ?_ (.idle rfl ?_ fun ha => ?_) ?_
      · rw [hstep]
        simpa [Device.handled, Register.stop] using h.fingers
      · rw [hstep]
        simp [Device.handled]
      · rw [hstep] at ha
        simp [Device.handled] at ha
      · rw [hstep, Device.handled_one _ hone]
        trivial
    · rw [seen, device.edge_out, hstep]
      simp [DeviceEvent.seen, slot_cancelIdentify, Output.seen?, Output.change, hj]
  · have hstep : device.step s ⟨.timeout, env⟩ = (s, {}) := by simp [device, Device.step, ht]
    refine ⟨[], ?_, ?_⟩
    · rw [hstep]
      exact h
    · rw [seen, device.edge_out, hstep]
      rfl

/-! ## Events of the HAL -/

variable {ev : HalEvent} {env : Env} {hal : TemplateHal} {cb : Callback} {a : AndroidFP}

theorem simulates_stay (h : Represents s r) (ho : Orderly (device.edge s i))
    (hcontrol : (device.step s i).1.fpd.control = s.fpd.control)
    (hmap : (device.step s i).1.fpd.m_fingerMap = s.fpd.m_fingerMap)
    (hserves : (device.step s i).1.hal.op.Serves r) (hseen : seen (device.edge s i) = []) :
    Simulates s r i :=
  ⟨[], h.next ho (h.fingers.trans hmap.symm) (hcontrol ▸ h.tracks) hserves, hseen.symm⟩

theorem simulates_effect (h : Represents s r) (ho : Orderly (device.edge s i)) (ending : Ending)
    {e : Edit} {j : RegisterInput} (hr : r.pending ≠ some .Identify)
    (hj : register.step r j = r.effect e)
    (hcontrol : (device.step s i).1.fpd.control = s.fpd.control.apply (.finish ending))
    (hmap : (device.step s i).1.fpd.m_fingerMap = e.apply s.fpd.m_fingerMap)
    (hop : (device.step s i).1.hal.op = .rest)
    (hseen : seen (device.edge s i) = (e.changes s.fpd.m_fingerMap).map .change) :
    Simulates s r i := by
  refine ⟨[j], ?_, ?_⟩
  · rw [register.final_cons, register.final_nil, hj]
    refine h.next ho (by rw [hmap, ← h.fingers]; rfl) ?_ ?_
    · rw [hcontrol]
      exact .idle rfl rfl fun ha =>
        (h.tracks.armed (Bool.and_eq_true_iff.mp ha).1).resolve_left hr
    · rw [hop]
      trivial
  · rw [register.edges_cons, register.edges_nil, hseen, ← h.fingers]
    simp [hj, Register.effect]

theorem device_slot {signal : Signal} (he : s.hal.emit ev = some (hal, cb))
    (hcb : s.fpd.m_androidFP.callback env.hal cb =
      { self := a, requests := [], signals := [signal] }) :
    let d := { s.fpd with m_androidFP := a }
    let t := (device.step s ⟨.hal ev, env⟩).1
    t.fpd.control = s.fpd.control.apply (s.fpd.signalMove signal) ∧
      t.fpd.m_fingerMap = (d.signalEdit env signal).apply s.fpd.m_fingerMap ∧
      t.hal = (if s.fpd.signalMove signal = .finish .verified then { hal with op := .rest }
        else hal) ∧
      seen (device.edge s ⟨.hal ev, env⟩) = d.signalSeen env signal := by
  intro d t
  let y := slot env signal { self := d }
  have hreceive : receive env cb { self := s.fpd } = y := by
    rw [receive_one (by rw [hcb]) (by rw [hcb]), hcb]
  have hstep : device.step s ⟨.hal ev, env⟩ = (Device.handled hal y, { out := y.out }) := by
    simp [device, Device.step, he, hreceive]
  have hfpd : t.fpd = y.self := congrArg (·.1.fpd) hstep
  refine ⟨?_, ?_, ?_, ?_⟩
  · rw [hfpd]
    exact (makes_slot signal : Makes _ { self := d } y).control
  · rw [hfpd]
    exact (edits_slot signal : Edits env _ { self := d } y).map
  · have hrequests : requestsOf y.out =
        if s.fpd.signalMove signal = .finish .verified then [(.cancel, env.hal .cancel)] else [] :=
      slot_requests env signal { self := d }
    have hhal : t.hal = (Device.handled hal y).hal := congrArg (·.1.hal) hstep
    rw [hhal]
    split at hrequests
    · rw [if_pos ‹_›, Device.handled_one _ hrequests, TemplateHal.request_cancel]
    · rw [if_neg ‹_›, Device.handled_none _ hrequests]
  · rw [seen, device.edge_out, hstep]
    exact seenOf_slot (x := { self := d }) signal

theorem simulates_silent (h : Represents s r) (ho : Orderly (device.edge s ⟨.hal ev, env⟩))
    (he : s.hal.emit ev = some (hal, cb))
    (hcb : s.fpd.m_androidFP.callback env.hal cb = { self := a, requests := [], signals := [] })
    (hserves : hal.op.Serves r) :
    Simulates s r ⟨.hal ev, env⟩ := by
  have hstep : device.step s ⟨.hal ev, env⟩ =
      (⟨{ s.fpd with m_androidFP := a }, hal⟩, {}) := by
    have hreceive : receive env cb { self := s.fpd } =
        { self := { s.fpd with m_androidFP := a } } := by
      rw [receive_none (by rw [hcb]) (by rw [hcb]), hcb]
    simp [device, Device.step, he, hreceive, Device.handled]
  refine simulates_stay h ho ?_ ?_ ?_ ?_
  · rw [hstep]
    rfl
  · rw [hstep]
  · rwa [hstep]
  · rw [seen, device.edge_out, hstep]
    rfl

/-- A report that is no effect leaves the operation pending, or ends it. -/
theorem simulates_outcome {signal : Signal} (h : Represents s r)
    (ho : Orderly (device.edge s ⟨.hal ev, env⟩)) (he : s.hal.emit ev = some (hal, cb))
    (hcb : s.fpd.m_androidFP.callback env.hal cb =
      { self := a, requests := [], signals := [signal] })
    (hedit : ∀ d : FPDCommunity, d.signalEdit env signal = .keep ∧
      d.signalSeen env signal = (d.signalMove signal).ended)
    (hmove : s.fpd.signalMove signal = .stay ∧ hal.op.Serves r ∨
      s.fpd.m_state ≠ .FPSTATE_IDLE ∧ (s.fpd.signalMove signal = .finish .verified ∨
        s.fpd.signalMove signal = .finish .failed ∧ hal.op = .rest)) :
    Simulates s r ⟨.hal ev, env⟩ := by
  obtain ⟨hcontrol, hmap, hhal, hseen⟩ := device_slot he hcb
  rw [(hedit _).1] at hmap
  have hended : seen (device.edge s ⟨.hal ev, env⟩) = (s.fpd.signalMove signal).ended :=
    hseen.trans (hedit _).2
  rcases hmove with ⟨hm, hserves⟩ | ⟨hs, hm | ⟨hm, hrest⟩⟩ <;> rw [hm] at hcontrol hhal hended
  · refine simulates_stay h ho hcontrol hmap ?_ hended
    rwa [hhal, if_neg (by simp)]
  · refine simulates_giveUp h ho hs hcontrol hmap ?_ hended
    rw [hhal, if_pos rfl]
  · refine simulates_giveUp h ho hs hcontrol hmap ?_ hended
    rw [hhal, if_neg (by simp), hrest]

/-- The last report of a removal, or of a wipe. -/
theorem simulates_removed {finger : UInt32} {e : Edit} {j : RegisterInput} (h : Represents s r)
    (ho : Orderly (device.edge s ⟨.hal ev, env⟩)) (he : s.hal.emit ev = some (hal, cb))
    (hcb : s.fpd.m_androidFP.callback env.hal cb =
      { self := a, requests := [], signals := [.removed finger] })
    (hj : r.pending ≠ some .Identify ∧ register.step r j = r.effect e)
    (he' : (if finger = 0 then .wipe else .drop finger) = e) (hrest : hal.op = .rest) :
    Simulates s r ⟨.hal ev, env⟩ := by
  subst he'
  obtain ⟨hcontrol, hmap, hhal, hseen⟩ := device_slot he hcb
  refine simulates_effect h ho .removed hj.1 hj.2 hcontrol hmap ?_ (hseen.trans (List.append_nil _))
  have hm : s.fpd.signalMove (.removed finger) ≠ .finish .verified := by simp [signalMove]
  rw [hhal, if_neg hm, hrest]

omit [QDataStream] in
theorem emit_authenticated {h hal : TemplateHal} {finger : UInt32}
    (he : h.emit ev = some (hal, .authenticated finger)) :
    finger = 0 ∨ finger ∈ h.templates := by
  unfold TemplateHal.emit at he
  split at he <;> grind

omit [QDataStream] in
/-- A match is that of the pending `Identify`, or of a sensor that matches on. -/
theorem Represents.identified (h : Represents s r) {finger : UInt32} {name : String}
    (hop : s.hal.op = .authenticating) (hname : r.fingers[finger]? = some name) :
    ∃ j, register.step r j =
      ({ r with pending := none, matching := true, alarm := false }, [.identified name]) := by
  rcases (hop ▸ h.serves : HalOp.Serves r .authenticating) with hr | ⟨hr, hm⟩
  · exact ⟨.identified finger, by simp [register, Register.step, hname, hr]⟩
  · refine ⟨.rematched finger, ?_⟩
    simp only [register, Register.step, hname, hr, hm, true_and, if_true]

/-- A finger that the HAL recognizes is listed, and its name is told. -/
theorem simulates_identified {finger : UInt32} {op : HalOp} (h : Represents s r)
    (ho : Orderly (device.edge s ⟨.hal ev, env⟩)) (hop : s.hal.op = .authenticating)
    (hop' : op = .rest ∨ op = .authenticating)
    (he : s.hal.emit ev = some ({ s.hal with op }, .authenticated finger)) (hf : finger ≠ 0) :
    Simulates s r ⟨.hal ev, env⟩ := by
  obtain ⟨past, hpast, hsynced⟩ := h.synced
  have hkey : finger ∈ s.fpd.m_fingerMap :=
    (hsynced.keys hpast (by rw [hop]; simp) finger).mpr ((emit_authenticated he).resolve_left hf)
  obtain ⟨name, hname⟩ : ∃ name, s.fpd.m_fingerMap[finger]? = some name :=
    ⟨_, Std.ExtTreeMap.getElem?_eq_some_getElem hkey⟩
  obtain ⟨j, hj⟩ := h.identified hop (h.fingers ▸ hname)
  obtain ⟨hcontrol, hmap, hhal, hseen⟩ := device_slot he (AndroidFP.callback_recognized hf)
  have hm : s.fpd.signalMove (.authenticated finger) ≠ .finish .verified := by simp [signalMove]
  refine ⟨[j], ?_, ?_⟩
  · rw [register.final_cons, register.final_nil, hj]
    refine h.next ho (h.fingers.trans hmap.symm) ?_ ?_
    · rw [hcontrol]
      exact .idle rfl rfl (by simp [Control.apply, signalMove, Ending.keepsTimer])
    · rw [hhal, if_neg hm]
      rcases hop' with rfl | rfl
      · trivial
      · exact .inr ⟨rfl, rfl⟩
  · rw [hseen]
    simp [hj, signalSeen, identifiedName, hname]

omit [QDataStream] in
theorem Represents.enrolling (h : Represents s r) (hs : s.fpd.m_state = .FPSTATE_ENROLLING) :
    r.pending = some (.Enroll s.fpd.m_addingFinger) := by
  have hstate : s.fpd.m_state = _ := h.tracks.state
  rw [hs] at hstate
  cases hr : r.pending with
  | none => simp [hr] at hstate
  | some c =>
    cases c with
    | Enroll name => rw [← h.tracks.adding name hr, control_adding]
    | _ => simp [hr, Call.busyState] at hstate

/-- The last report of an enrolment: the finger is listed under the name that was asked for. -/
theorem simulates_enrolled {finger : UInt32} (h : Represents s r)
    (ho : Orderly (device.edge s ⟨.hal ev, env⟩)) (hop : s.hal.op = .enrolling)
    (hnew : finger ∉ s.hal.templates) (hz : finger ≠ 0)
    (he : s.hal.emit ev = some (s.hal.add finger hnew hz, .enrollresult finger 0)) :
    Simulates s r ⟨.hal ev, env⟩ := by
  obtain ⟨past, hpast, hsynced⟩ := h.synced
  obtain rfl := emit_enrolled he
  have hverify : s.fpd.m_state ≠ .FPSTATE_VERIFYING := fun hv => ho.verify hv finger rfl
  have hstate : s.fpd.m_state = .FPSTATE_ENROLLING := by
    have hphase := hsynced.phase
    unfold Phase at hphase
    rw [hop] at hphase
    exact hphase.resolve_right hverify
  have hkey : finger ∉ r.fingers := by
    rw [h.fingers]
    exact mt (hsynced.keys hpast (by rw [hop]; simp) finger).mp hnew
  have hpending : r.pending = some (.Enroll s.fpd.m_addingFinger) := h.enrolling hstate
  have hj : register.step r (.enrolled finger) =
      r.effect (.add finger s.fpd.m_addingFinger) := by
    simp only [register, Register.step, hpending]
    exact if_neg hkey
  have hpost : env.hal .postEnroll = SYS_OK := ho.post
  let y := slot_succeeded env finger (slot_enrollProgress env (some 1)
    { self := s.fpd, out := [.request .postEnroll SYS_OK] })
  have hreceive : receive env (.enrollresult finger 0) { self := s.fpd } = y := by
    simp [y, receive, slots, AndroidFP.callback, AndroidFP.enrollCallback, hpost, slot]
  have hstep : device.step s ⟨.hal (.enrolled finger), env⟩ =
      (Device.handled (s.hal.add finger hnew hz) y, { out := y.out }) := by
    simp [device, Device.step, he, hreceive]
  have hone : requestsOf y.out = [(.postEnroll, SYS_OK)] := by
    simp [y, slot_succeeded, slot_enrollProgress, hverify, Output.request?]
  refine simulates_effect h ho .succeeded (by simp [hpending]) hj ?_ ?_ ?_ ?_
  · rw [hstep]
    simp [y, Device.handled, FPDCommunity.control, Control.apply, Ending.keepsTimer, hverify]
  · rw [hstep]
    simp [y, Device.handled, hverify, Edit.apply]
  · rw [hstep, Device.handled_one _ hone]
    rfl
  · rw [seen, device.edge_out, hstep]
    simp [y, DeviceEvent.seen, slot_succeeded, slot_enrollProgress, hverify, Edit.changes,
      Output.seen?, Output.change]

omit [QDataStream] in
theorem Represents.removing (h : Represents s r) {finger : UInt32}
    (hop : s.hal.op = .removing finger) :
    r.pending ≠ some .Identify ∧ register.step r (.removed finger) = r.effect (.drop finger) := by
  obtain ⟨name, hpending, hname⟩ : HalOp.Serves r (.removing finger) := hop ▸ h.serves
  simp [register, Register.step, hpending, hname]

omit [QDataStream] in
theorem Represents.clearing (h : Represents s r) {begun : Bool}
    (hop : s.hal.op = .clearing begun) :
    r.pending ≠ some .Identify ∧ register.step r .cleared = r.effect .wipe := by
  have hpending : HalOp.Serves r (.clearing begun) := hop ▸ h.serves
  exact ⟨by simp [show r.pending = _ from hpending], if_pos hpending⟩

/-- One case for each thing the HAL may do. -/
theorem simulates_hal (h : Represents s r) (ho : Orderly (device.edge s ⟨.hal ev, env⟩)) :
    Simulates s r ⟨.hal ev, env⟩ := by
  cases he : s.hal.emit ev with
  | none =>
    refine ⟨[], ?_, ?_⟩
    · rw [device_silent he]
      exact h
    · rw [seen, device.edge_out, device_silent he]
      rfl
  | some p =>
    obtain ⟨hal, cb⟩ := p
    obtain ⟨past, -, hsynced⟩ := h.synced
    cases TemplateHal.emits_of_emit he with
    | @progress finger remaining hop hr =>
      obtain ⟨a, pc, hcb, -⟩ := s.fpd.m_androidFP.callback_progress env.hal finger hr
      refine simulates_outcome h ho he hcb (fun _ => ⟨rfl, rfl⟩) ?_
      by_cases hv : s.fpd.m_state = .FPSTATE_VERIFYING
      · exact .inr ⟨by simp [hv], .inl (if_pos hv)⟩
      · exact .inl ⟨if_neg hv, h.serves⟩
    | @enrolled finger hop hnew hz => exact simulates_enrolled h ho hop hnew hz he
    | @removed finger hop =>
      obtain ⟨-, hremoving, hz⟩ := hsynced.removing hop
      refine simulates_removed h ho he (AndroidFP.callback_removed (.inl hremoving.symm))
        (h.removing hop) ?_ rfl
      rw [hremoving, if_neg hz]
    | @cleared finger begun hop hm =>
      obtain ⟨-, hremoving, -⟩ := hsynced.clearing hop
      by_cases ht : (s.hal.delete finger).templates = []
      · have hleft : left (s.hal.delete finger).templates = 0 := congrArg left ht
        rw [hleft] at he
        exact simulates_removed h ho he (AndroidFP.callback_removed (.inr hremoving))
          (h.clearing hop) (if_pos hremoving) (if_pos ht)
      · have hne : left (s.hal.delete finger).templates ≠ 0 := fun h0 =>
          ht ((left_eq_zero (s.hal.delete finger).nodup (s.hal.delete finger).nonzero).mp h0)
        have hserves : HalOp.Serves r (.clearing begun) := hop ▸ h.serves
        refine simulates_silent h ho he (AndroidFP.callback_removing hne) ?_
        show HalOp.Serves r (if _ then _ else _)
        rw [if_neg ht]
        exact hserves
    | @nothingToClear begun hop ht =>
      obtain ⟨-, hremoving, -⟩ := hsynced.clearing hop
      exact simulates_removed h ho he (AndroidFP.callback_removed (.inr hremoving))
        (h.clearing hop) (if_pos hremoving) rfl
    | enumerated hop hm => exact (hop ▸ h.serves : HalOp.Serves r (.enumerating _)).elim
    | nothingToEnumerate hop ht => exact (hop ▸ h.serves : HalOp.Serves r (.enumerating _)).elim
    | @authenticated finger op hop hop' =>
      by_cases hf : finger = 0
      · subst hf
        have hserves : HalOp.Serves r .authenticating := hop ▸ h.serves
        have htolerates : s.fpd.tolerates "FINGER_NOT_RECOGNIZED" := by
          have hstate : s.fpd.m_state = _ := h.tracks.state
          rcases hserves with hr | ⟨hr, -⟩ <;> rw [hr] at hstate
          · exact .inr ⟨hstate, rfl⟩
          · exact .inl hstate
        refine simulates_outcome h ho he AndroidFP.callback_unrecognized (fun _ => ⟨rfl, rfl⟩)
          (.inl ⟨if_pos htolerates, ?_⟩)
        rcases hop' with rfl | rfl
        · trivial
        · exact hserves
      · exact simulates_identified h ho hop hop' he hf
    | @acquired info hop =>
      exact simulates_outcome h ho he rfl (fun _ => ⟨rfl, rfl⟩) (.inl ⟨rfl, h.serves⟩)
    | @error code vendorCode hop =>
      by_cases hc : code = ERROR_NO_ERROR
      · subst hc
        exact simulates_silent h ho he AndroidFP.callback_no_error trivial
      · refine simulates_outcome h ho he (AndroidFP.callback_error hc) (fun _ => ⟨rfl, rfl⟩) ?_
        by_cases ht : s.fpd.tolerates (IntToStringFingerprintError code vendorCode)
        · exact .inl ⟨if_pos ht, trivial⟩
        · exact .inr ⟨mt .inl ht, .inr ⟨if_neg ht, rfl⟩⟩

theorem refines_register :
    Refines device register Represents Orderly seen (·.out) := by
  rintro s r ⟨event, env⟩ h ho
  cases event with
  | call caller c => exact simulates_call h ho
  | timeout => exact simulates_timeout h ho
  | hal ev => exact simulates_hal h ho

omit [QDataStream] in
theorem Represents.of_idle {past : List DeviceEdge} (hs : s.fpd.m_state = .FPSTATE_IDLE)
    (he : Enumerated past) (h : Synced past s) : Represents s s.asRegister where
  fingers := rfl
  tracks := .idle rfl hs id
  serves := by
    rcases h.idle hs with hop | hop <;> rw [hop]
    · trivial
    · exact .inr ⟨rfl, decide_eq_true hop⟩
  synced := ⟨past, he, h⟩

end Steps

/-- From an idle state in which the fingers are loaded, every run of the device has one of the
register. -/
theorem register_run [QDataStream] {env : Env} {getprop : String → String}
    {database : Option (List UInt8)} {hal : TemplateHal} (hop : hal.op = .rest)
    {is js : List DeviceInput}
    (horderly : device.Along (Device.boot env getprop database hal) (is ++ js) fun _ e => Orderly e)
    (hloaded : Enumerated (device.edges (Device.boot env getprop database hal) is))
    (hidle : (device.final (Device.boot env getprop database hal) is).fpd.m_state =
      .FPSTATE_IDLE) :
    let s := device.final (Device.boot env getprop database hal) is
    ∃ ks, Represents (device.final s js) (register.final s.asRegister ks) ∧
      (register.edges s.asRegister ks).flatMap (·.out) =
        (device.edges s js).flatMap seen := by
  intro s
  have hsynced : Synced (device.edges (Device.boot env getprop database hal) is) s :=
    horderly.take.invariant (synced_boot env getprop database hop)
      fun past u i h ho => synced_step h ho.post ho.clear
  have hrest : device.Along s js fun _ e => Orderly e := horderly.drop
  exact refines_register.run hrest (.of_idle hidle hloaded hsynced)

/-- **The device is a register of named fingers.** From an idle state in which the fingers are
loaded, clients see of every run what they could see of a register: it ends with the same fingers,
and the daemon is in the state of the operation that is pending. -/
theorem device_refines_register [QDataStream] (env : Env) (getprop : String → String)
    (database : Option (List UInt8)) (hal : TemplateHal) (hop : hal.op = .rest)
    (is js : List DeviceInput)
    (horderly : device.Along (Device.boot env getprop database hal) (is ++ js) fun _ e => Orderly e)
    (hloaded : Enumerated (device.edges (Device.boot env getprop database hal) is))
    (hidle : (device.final (Device.boot env getprop database hal) is).fpd.m_state =
      .FPSTATE_IDLE) :
    let s := device.final (Device.boot env getprop database hal) is
    let t := device.final s js
    ∃ ks, let r := register.final s.asRegister ks
      r.fingers = t.fpd.m_fingerMap ∧ (r.pending = none ↔ t.fpd.m_state = .FPSTATE_IDLE) ∧
        (∀ c ∈ r.pending, t.fpd.m_state = c.busyState) ∧
        (register.edges s.asRegister ks).flatMap (·.out) =
          (device.edges s js).flatMap seen := by
  intro s t
  obtain ⟨ks, hr, hseen⟩ := register_run hop horderly hloaded hidle
  exact ⟨ks, hr.fingers, hr.idle_iff.symm, fun c hc => hr.busy hc, hseen⟩

section First

/-- An empty sensor is enumerated. -/
def emptyLoad : List DeviceInput := [⟨.hal .none, .answering SYS_OK⟩]

/-- A client enrols a finger, and then does not put it on the sensor in time. -/
def firstInputs : List DeviceInput :=
  [⟨.call ":1.5" (.Enroll "left"), .answering SYS_OK⟩,
    ⟨.hal (.enrolled 7), .answering SYS_OK⟩,
    ⟨.call ":1.5" .Identify, .answering SYS_OK⟩,
    ⟨.timeout, .answering SYS_OK⟩,
    ⟨.call ":1.5" .GetAll, .answering SYS_OK⟩]

theorem first_orderly :
    letI := qt56
    device.Along (Device.boot (.answering SYS_OK) (fun _ => "") none emptyHal)
      (emptyLoad ++ firstInputs) fun _ e => Orderly e := by
  let := qt56
  have hplain : ∀ e : DeviceEdge, e.input.env = .answering SYS_OK → e.src.hal.op ≠ .clearing true →
      e.src.fpd.m_state ≠ .FPSTATE_VERIFYING → Orderly e :=
    fun e he hop hs => ⟨by rw [he]; rfl, fun h => absurd h hop, fun h => absurd h hs⟩
  refine along_cons (hplain _ rfl ?_ ?_) (along_cons (hplain _ rfl ?_ ?_) (along_cons
    (hplain _ rfl ?_ ?_) (along_cons (hplain _ rfl ?_ ?_) (along_cons (hplain _ rfl ?_ ?_)
      (along_cons (hplain _ rfl ?_ ?_) along_nil))))) <;> decide +kernel

theorem empty_loaded :
    letI := qt56
    Enumerated (device.edges (Device.boot (.answering SYS_OK) (fun _ => "") none emptyHal)
      emptyLoad) := ⟨_, .head _, .none, emptyHal, 0, rfl, rfl⟩

theorem device_refines_register_first :
    letI := qt56
    let s := device.final (Device.boot (.answering SYS_OK) (fun _ => "") none emptyHal) emptyLoad
    ∃ ks, (register.final s.asRegister ks).pending = none ∧
      (register.edges s.asRegister ks).flatMap (·.out) =
        [.accepted (.Enroll "left"), .change (.added "left"), .change .listed,
          .accepted .Identify, .ended, .listing ["left"]] := by
  obtain ⟨ks, -, hpending, -, hseen⟩ := @device_refines_register qt56 (.answering SYS_OK)
    (fun _ => "") none emptyHal rfl emptyLoad firstInputs first_orderly empty_loaded
    (by decide +kernel)
  exact ⟨ks, hpending.mpr (by decide +kernel), hseen.trans (by decide +kernel)⟩

end First

end SailfishFpd
