import SailfishFpd.Delivery
import SailfishFpd.QtStream
import SailfishFpd.Hal.Templates
import SailfishFpd.Store.Reconcile

/-!
# The finger map tracks the HAL

The daemon and a well-behaved HAL, where every callback is handled before
anything else happens. `Synced` ties the HAL's operation to the daemon's state
and to the fields of `AndroidFP`; with it, from the first completed enumeration
on, the keys of the map are the templates of the HAL, but for the time in which
a `Clear` deletes them.
-/

namespace SailfishFpd

open FPDCommunity
open Reactive.Machine (Simulated along_of_forall_mem along_cons along_nil)

/-- The daemon and its HAL. -/
structure Device where
  fpd : FPDCommunity
  hal : TemplateHal

inductive DeviceEvent where
  | call (caller : String) (c : Call)
  | timeout
  | hal (ev : HalEvent)

structure DeviceInput where
  event : DeviceEvent
  env : Env

namespace Device

/-- The daemon after a handler, with its requests taken by the HAL. -/
def handled (hal : TemplateHal) (x : Exec) : Device :=
  { fpd := x.self, hal := (requestsOf x.out).foldl TemplateHal.request hal }

variable [QDataStream]

def step (s : Device) (i : DeviceInput) : Device × Response :=
  match i.event with
  | .call caller c =>
    let r := invoke i.env caller c { self := s.fpd }
    (handled s.hal r.1, { out := r.1.out, answer := some r.2 })
  | .timeout =>
    if s.fpd.m_cancelTimer then
      let x := slot_cancelIdentify i.env { self := { s.fpd with m_cancelTimer := false } }
      (handled s.hal x, { out := x.out })
    else (s, {})
  | .hal ev =>
    match s.hal.emit ev with
    | some (hal, cb) =>
      let x := receive i.env cb { self := s.fpd }
      (handled hal x, { out := x.out })
    | none => (s, {})

/-- The daemon on a HAL with the given templates, when the constructor has returned. -/
def boot (env : Env) (getprop : String → String) (database : Option (List UInt8))
    (hal : TemplateHal) : Device :=
  handled hal (FPDCommunity.construct env getprop database)

end Device

def device [QDataStream] : Reactive.Machine Device DeviceInput Response where
  step := Device.step

abbrev DeviceEdge := Reactive.Edge Device DeviceInput Response

theorem device_simulated [QDataStream] :
    Simulated device daemon (fun s t => t = ⟨s.fpd, []⟩) (·.out) (·.out) := by
  rintro s _ ⟨event, env⟩ rfl
  cases event with
  | call caller c =>
    refine ⟨[⟨.call caller c, env⟩], rfl, ?_⟩
    simp [daemon, System.step, device, Device.step]
  | timeout =>
    refine ⟨[⟨.timeout, env⟩], ?_⟩
    by_cases ht : s.fpd.m_cancelTimer <;>
      simp [daemon, System.step, device, Device.step, Device.handled, ht]
  | hal ev =>
    cases he : s.hal.emit ev with
    | none => exact ⟨[], by simp [device, Device.step, he]⟩
    | some p =>
      obtain ⟨hfinal, hout⟩ := receive_run env p.2 s.fpd
      refine ⟨_, hfinal.trans ?_, hout.trans ?_⟩ <;>
        simp [device, Device.step, Device.handled, he]

/-- A run of the daemon on its HAL is a run of the daemon: it delivers the signals of a callback
before anything else happens. -/
theorem device_run [QDataStream] (s : Device) (is : List DeviceInput) :
    ∃ js, daemon.final ⟨s.fpd, []⟩ js = ⟨(device.final s is).fpd, []⟩ ∧
      (daemon.edges ⟨s.fpd, []⟩ js).flatMap (·.out.out) =
        (device.edges s is).flatMap (·.out.out) := device_simulated.run is rfl

/-- The HAL sends the last report of an enumeration. -/
def FinishesEnumeration (e : DeviceEdge) : Prop :=
  ∃ ev hal finger, e.input.event = .hal ev ∧
    e.src.hal.emit ev = some (hal, .enumerate finger 0)

/-- An enumeration has completed. -/
def Enumerated (past : List DeviceEdge) : Prop := ∃ e ∈ past, FinishesEnumeration e

theorem enumerated_snoc {past : List DeviceEdge} {e : DeviceEdge} :
    Enumerated (past ++ [e]) ↔ Enumerated past ∨ FinishesEnumeration e := by
  simp [Enumerated, or_and_right, exists_or]

/-- A `Clear` that has begun to delete goes on, or has deleted everything. -/
def FinishesClear (e : DeviceEdge) : Prop :=
  e.src.hal.op = .clearing true → e.dst.hal.op = .clearing true ∨ e.dst.hal.templates = []

/-- The keys of the map are the templates. -/
def InSync (d : FPDCommunity) (hal : TemplateHal) : Prop :=
  ∀ k, k ∈ d.m_fingerMap ↔ k ∈ hal.templates

/-- What the HAL's operation says of the daemon. -/
def Phase (past : List DeviceEdge) (d : FPDCommunity) (hal : TemplateHal) : Prop :=
  match hal.op with
  | .rest | .authenticating => True
  | .enrolling => d.m_state = .FPSTATE_ENROLLING ∨ d.m_state = .FPSTATE_VERIFYING
  | .removing finger =>
    d.m_state = .FPSTATE_REMOVING ∧ d.m_androidFP.m_removingFinger = finger ∧ finger ≠ 0
  | .clearing begun =>
    d.m_state = .FPSTATE_REMOVING ∧ d.m_androidFP.m_removingFinger = 0 ∧
      (begun = true → hal.templates ≠ [])
  | .enumerating todo =>
    d.m_state = .FPSTATE_ENUMERATING ∧ ¬ Enumerated past ∧ todo.Nodup ∧
      ∀ k, k ∈ hal.templates ↔ k ∈ todo ∨ k ∈ d.m_androidFP.m_fingers

structure Synced (past : List DeviceEdge) (s : Device) : Prop where
  phase : Phase past s.fpd s.hal
  keys : Enumerated past → s.hal.op ≠ .clearing true → InSync s.fpd s.hal

section Readings

variable {past : List DeviceEdge} {s : Device} (h : Synced past s)

include h

theorem Synced.removing {finger : UInt32} (hop : s.hal.op = .removing finger) :
    s.fpd.m_state = .FPSTATE_REMOVING ∧ s.fpd.m_androidFP.m_removingFinger = finger ∧
      finger ≠ 0 := by
  have hphase := h.phase
  unfold Phase at hphase
  rwa [hop] at hphase

theorem Synced.clearing {begun : Bool} (hop : s.hal.op = .clearing begun) :
    s.fpd.m_state = .FPSTATE_REMOVING ∧ s.fpd.m_androidFP.m_removingFinger = 0 ∧
      (begun = true → s.hal.templates ≠ []) := by
  have hphase := h.phase
  unfold Phase at hphase
  rwa [hop] at hphase

theorem Synced.enumerating {todo : List UInt32} (hop : s.hal.op = .enumerating todo) :
    s.fpd.m_state = .FPSTATE_ENUMERATING ∧ ¬ Enumerated past ∧ todo.Nodup ∧
      ∀ k, k ∈ s.hal.templates ↔ k ∈ todo ∨ k ∈ s.fpd.m_androidFP.m_fingers := by
  have hphase := h.phase
  unfold Phase at hphase
  rwa [hop] at hphase

/-- What is left of an enumeration is counted right. -/
theorem Synced.left_erase {todo : List UInt32} (hop : s.hal.op = .enumerating todo)
    (finger : UInt32) : left (todo.erase finger) = 0 ↔ todo.erase finger = [] := by
  obtain ⟨-, -, hnodup, htemplates⟩ := h.enumerating hop
  refine left_eq_zero (hnodup.erase finger) fun (h0 : 0 ∈ todo.erase finger) => s.hal.nonzero ?_
  exact (htemplates 0).mpr (.inl (List.mem_of_mem_erase h0))

/-- A daemon that is idle has a HAL at rest, or one that still looks for a match. -/
theorem Synced.idle (hs : s.fpd.m_state = .FPSTATE_IDLE) :
    s.hal.op = .rest ∨ s.hal.op = .authenticating := by
  have hphase := h.phase
  unfold Phase at hphase
  cases hop : s.hal.op with
  | rest => exact .inl rfl
  | authenticating => exact .inr rfl
  | _ => simp [hop, hs] at hphase

theorem Synced.inSync_of_idle (hs : s.fpd.m_state = .FPSTATE_IDLE) (he : Enumerated past) :
    InSync s.fpd s.hal := by
  refine h.keys he ?_
  rcases h.idle hs with hop | hop <;> rw [hop] <;> simp

end Readings

/-- With the HAL at rest, only the keys matter. -/
theorem Synced.of_rest {past : List DeviceEdge} {d : FPDCommunity} {hal : TemplateHal}
    (hop : hal.op = .rest) (hkeys : Enumerated past → InSync d hal) : Synced past ⟨d, hal⟩ := by
  refine ⟨?_, fun he _ => hkeys he⟩
  show Phase past d hal
  unfold Phase
  rw [hop]
  trivial

theorem Synced.mono {past past' : List DeviceEdge} {s : Device} (h : Synced past s)
    (hpast : Enumerated past' → Enumerated past) : Synced past' s := by
  refine ⟨?_, fun he => h.keys (hpast he)⟩
  have hphase := h.phase
  unfold Phase at hphase ⊢
  cases hop : s.hal.op with
  | enumerating todo =>
    rw [hop] at hphase
    exact ⟨hphase.1, fun he => hphase.2.1 (hpast he), hphase.2.2⟩
  | _ =>
    rw [hop] at hphase
    exact hphase

theorem Synced.congr {past : List DeviceEdge} {s : Device} {d : FPDCommunity} (h : Synced past s)
    (hs : d.m_state = s.fpd.m_state) (hmap : d.m_fingerMap = s.fpd.m_fingerMap)
    (ha : d.m_androidFP = s.fpd.m_androidFP) : Synced past ⟨d, s.hal⟩ := by
  refine ⟨?_, fun he hop k => ?_⟩
  · have hphase := h.phase
    unfold Phase at hphase ⊢
    rwa [hs, ha]
  · show k ∈ d.m_fingerMap ↔ _
    rw [hmap]
    exact h.keys he hop k

theorem Synced.stopped {past past' : List DeviceEdge} {s : Device} {d : FPDCommunity}
    (h : Synced past s) (hpast : Enumerated past' → Enumerated past)
    (hmap : d.m_fingerMap = s.fpd.m_fingerMap) (hbegun : s.hal.op ≠ .clearing true) :
    Synced past' ⟨d, { s.hal with op := .rest }⟩ := by
  refine .of_rest rfl fun he k => ?_
  rw [hmap]
  exact h.keys (hpast he) hbegun k

/-- A step that stops the HAL does not stop a `Clear` that has begun. -/
theorem Synced.not_begun {past : List DeviceEdge} {e : DeviceEdge} (h : Synced past e.src)
    (hclear : FinishesClear e) (hop : e.dst.hal.op = .rest)
    (htemplates : e.dst.hal.templates = e.src.hal.templates) : e.src.hal.op ≠ .clearing true := by
  intro hb
  rcases hclear hb with h' | h'
  · rw [hop] at h'
    cases h'
  · exact (h.clearing hb).2.2 rfl (htemplates ▸ h')

theorem Device.handled_none (hal : TemplateHal) {x : Exec} (h : requestsOf x.out = []) :
    handled hal x = ⟨x.self, hal⟩ := by rw [handled, h]; rfl

theorem Device.handled_one (hal : TemplateHal) {x : Exec} {p : Request × Int}
    (h : requestsOf x.out = [p]) : handled hal x = ⟨x.self, hal.request p⟩ := by
  rw [handled, h]; rfl

section Steps

variable [QDataStream] {past : List DeviceEdge} {s : Device} {env : Env}

/-! ## Calls and the timer -/

theorem enumerated_of_client {i : DeviceInput} (hi : ∀ ev, i.event ≠ .hal ev)
    (h : Enumerated (past ++ [device.edge s i])) : Enumerated past := by
  rcases enumerated_snoc.mp h with h | ⟨ev, hal, finger, hev, -⟩
  · exact h
  · exact absurd hev (hi ev)

omit [QDataStream] in
/-- A request that starts an operation finds the HAL at rest, or looking for a match. -/
theorem synced_start {past' : List DeviceEdge} {caller : String} {c : Call} {r : Request}
    (h : Synced past s) (hpast : Enumerated past' → Enumerated past)
    (hr : s.fpd.requestOf caller c = some r) :
    Synced past' ⟨s.fpd.afterRequest caller c true, s.hal.request (r, SYS_OK)⟩ := by
  obtain ⟨hmap, -⟩ := s.fpd.afterRequest_store caller c true
  have hkeys : Enumerated past' →
      InSync (s.fpd.afterRequest caller c true) (s.hal.request (r, SYS_OK)) := by
    intro he k
    rw [hmap, TemplateHal.request_templates]
    exact h.inSync_of_idle (requestOf_free hr).2 (hpast he) k
  refine ⟨?_, fun he _ => hkeys he⟩
  have hreq := requests_of_some hr
  cases c with
  | Enroll finger =>
    obtain ⟨-, rfl⟩ := hreq
    exact .inl rfl
  | Identify =>
    obtain ⟨-, rfl⟩ := hreq
    trivial
  | Verify =>
    obtain rfl : r = _ := hreq
    exact .inr rfl
  | Remove finger =>
    obtain ⟨hk, rfl⟩ := hreq
    show Phase past' _ _
    simp [Phase, TemplateHal.request, TemplateHal.operationOf, hk, afterRequest, prepared,
      Call.busyState]
  | Clear =>
    obtain rfl : r = _ := hreq
    show Phase past' _ _
    simp [Phase, TemplateHal.request, TemplateHal.operationOf, afterRequest, prepared,
      Call.busyState]
  | GetState | GetAll | Abort => exact hreq.elim

theorem synced_call (h : Synced past s) (caller : String) (c : Call)
    (hclear : FinishesClear (device.edge s ⟨.call caller c, env⟩)) :
    Synced (past ++ [device.edge s ⟨.call caller c, env⟩])
      (device.step s ⟨.call caller c, env⟩).1 := by
  have hstep : (device.step s ⟨.call caller c, env⟩).1 =
      Device.handled s.hal (invoke env caller c { self := s.fpd }).1 := rfl
  have hpast : Enumerated (past ++ [device.edge s ⟨.call caller c, env⟩]) → Enumerated past :=
    enumerated_of_client (by simp)
  have hrequests := invoke_requests env caller c { self := s.fpd }
  have hmap : (invoke env caller c { self := s.fpd }).1.self.m_fingerMap = s.fpd.m_fingerMap :=
    (edits_invoke c : Edits env .keep { self := s.fpd } _).map
  rcases callMove_cases s.fpd env.hal caller c with
    ⟨-, hm⟩ | ⟨rfl, -, -, hm⟩ | ⟨r, hr, hok, hm⟩ | ⟨r, hr, hok, hm⟩ <;> rw [hm] at hrequests
  · have hnone : requestsOf (invoke env caller c { self := s.fpd }).1.out = [] := hrequests
    rw [hstep, Device.handled_none _ hnone, invoke_stay hm]
    exact h.mono hpast
  · have hone : requestsOf (invoke env caller .Abort { self := s.fpd }).1.out =
        [(.cancel, env.hal .cancel)] := hrequests
    rw [Device.handled_one _ hone, TemplateHal.request_cancel] at hstep
    rw [hstep]
    exact h.stopped hpast hmap (h.not_begun hclear (by rw [device.edge_dst, hstep])
      (by rw [device.edge_dst, hstep]; rfl))
  · have hone : requestsOf (invoke env caller c { self := s.fpd }).1.out = [(r, SYS_OK)] := by
      simpa [hr, hok] using hrequests
    rw [hstep, Device.handled_one _ hone, invoke_request hr]
    simpa [hok] using synced_start h hpast hr
  · have hone : requestsOf (invoke env caller c { self := s.fpd }).1.out = [(r, env.hal r)] := by
      simpa [hr] using hrequests
    have hne : r ≠ .cancel := by
      rintro rfl
      exact absurd (requestOf_starts hr) (by simp [Request.startsOperation])
    rw [hstep, Device.handled_one _ hone, s.hal.request_refused hne hok]
    refine ⟨?_, fun he _ k => ?_⟩
    · show Phase _ _ s.hal
      unfold Phase
      rcases h.idle (requestOf_free hr).2 with hop | hop <;> rw [hop] <;> trivial
    · rw [hmap]
      exact h.inSync_of_idle (requestOf_free hr).2 (hpast he) k

theorem synced_timeout (h : Synced past s)
    (hclear : FinishesClear (device.edge s ⟨.timeout, env⟩)) :
    Synced (past ++ [device.edge s ⟨.timeout, env⟩]) (device.step s ⟨.timeout, env⟩).1 := by
  have hpast : Enumerated (past ++ [device.edge s ⟨.timeout, env⟩]) → Enumerated past :=
    enumerated_of_client (by simp)
  by_cases ht : s.fpd.m_cancelTimer
  · have hone : requestsOf (slot_cancelIdentify env
        { self := { s.fpd with m_cancelTimer := false } }).out = [(.cancel, env.hal .cancel)] := by
      simp [slot_cancelIdentify, Output.request?]
    have hstep : (device.step s ⟨.timeout, env⟩).1 = Device.handled s.hal
        (slot_cancelIdentify env { self := { s.fpd with m_cancelTimer := false } }) := by
      simp [device, Device.step, ht]
    rw [Device.handled_one _ hone, TemplateHal.request_cancel] at hstep
    rw [hstep]
    exact h.stopped hpast (by simp) (h.not_begun hclear (by rw [device.edge_dst, hstep])
      (by rw [device.edge_dst, hstep]; rfl))
  · have hstep : (device.step s ⟨.timeout, env⟩).1 = s := by simp [device, Device.step, ht]
    rw [hstep]
    exact h.mono hpast

/-! ## Events of the HAL -/

theorem device_hal {ev : HalEvent} {hal : TemplateHal} {cb : Callback}
    (he : s.hal.emit ev = some (hal, cb)) :
    (device.step s ⟨.hal ev, env⟩).1 = Device.handled hal (receive env cb { self := s.fpd }) := by
  simp [device, Device.step, he]

theorem enumerated_of_callback {ev : HalEvent} {hal : TemplateHal} {cb : Callback}
    (he : s.hal.emit ev = some (hal, cb)) (hcb : ∀ finger, cb ≠ .enumerate finger 0)
    (h : Enumerated (past ++ [device.edge s ⟨.hal ev, env⟩])) : Enumerated past := by
  rcases enumerated_snoc.mp h with h | ⟨ev', hal', finger, hev, hemit⟩
  · exact h
  · obtain rfl : ev = ev' := by simpa using hev
    rw [show s.hal.emit ev = _ from hemit] at he
    cases he
    exact absurd rfl (hcb finger)

theorem synced_progress (h : Synced past s) {past' : List DeviceEdge} {finger remaining : UInt32}
    (hpast : Enumerated past' → Enumerated past) (hop : s.hal.op = .enrolling)
    (hr : remaining ≠ 0) :
    Synced past' (Device.handled s.hal
      (receive env (.enrollresult finger remaining) { self := s.fpd })) := by
  have hpos : 0 < remaining := UInt32.pos_iff_ne_zero.mpr hr
  obtain ⟨hrequests, pc, hsignals⟩ :
      (s.fpd.m_androidFP.callback env.hal (.enrollresult finger remaining)).requests = [] ∧
        ∃ pc, (s.fpd.m_androidFP.callback env.hal (.enrollresult finger remaining)).signals =
          [.enrollProgress pc] := by
    simp [AndroidFP.callback, AndroidFP.enrollCallback, hpos]
  have hbegun : s.hal.op ≠ .clearing true := by rw [hop]; simp
  rw [receive_one hrequests hsignals]
  by_cases hv : s.fpd.m_state = .FPSTATE_VERIFYING
  · rw [Device.handled_one (p := (.cancel, env.hal .cancel)), TemplateHal.request_cancel]
    · exact h.stopped hpast (by simp [slot, hv]) hbegun
    · simp [slot_requests, signalMove, hv]
  · rw [Device.handled_none]
    · refine ⟨?_, fun he _ k => ?_⟩
      · have hphase := h.phase
        unfold Phase at hphase ⊢
        rw [hop] at hphase ⊢
        simpa [slot, hv] using hphase
      · simpa [slot, hv] using h.keys (hpast he) hbegun k
    · simp [slot_requests, signalMove, hv]

theorem synced_enrolled (h : Synced past s) {past' : List DeviceEdge} {finger : UInt32}
    (hpast : Enumerated past' → Enumerated past) (hpost : env.hal .postEnroll = SYS_OK)
    (hop : s.hal.op = .enrolling) (hnew : finger ∉ s.hal.templates) (hz : finger ≠ 0) :
    Synced past' (Device.handled (s.hal.add finger hnew hz)
      (receive env (.enrollresult finger 0) { self := s.fpd })) := by
  have hbegun : s.hal.op ≠ .clearing true := by rw [hop]; simp
  -- the progress ends a `Verify`, the success adds the finger all the same
  have hreceive : receive env (.enrollresult finger 0) { self := s.fpd } =
      slot_succeeded env finger (slot_enrollProgress env (some 1)
        { self := s.fpd, out := [.request .postEnroll SYS_OK] }) := by
    simp [receive, slots, AndroidFP.callback, AndroidFP.enrollCallback, hpost, slot]
  have hkeys : Enumerated past' →
      InSync (slot_succeeded env finger (slot_enrollProgress env (some 1)
        { self := s.fpd, out := [.request .postEnroll SYS_OK] })).self
        (s.hal.add finger hnew hz) := by
    intro he k
    have hk := h.keys (hpast he) hbegun k
    by_cases hv : s.fpd.m_state = .FPSTATE_VERIFYING <;>
      simp [TemplateHal.add, hv, hk, eq_comm (a := k)]
  rw [hreceive]
  by_cases hv : s.fpd.m_state = .FPSTATE_VERIFYING
  · have hrequests : requestsOf (slot_succeeded env finger (slot_enrollProgress env (some 1)
        { self := s.fpd, out := [.request .postEnroll SYS_OK] })).out =
        [(.postEnroll, SYS_OK), (.cancel, env.hal .cancel)] := by
      simp [slot_succeeded, slot_enrollProgress, hv, abort, Output.request?]
    rw [Device.handled, hrequests]
    exact .of_rest rfl hkeys
  · have hrequests : requestsOf (slot_succeeded env finger (slot_enrollProgress env (some 1)
        { self := s.fpd, out := [.request .postEnroll SYS_OK] })).out =
        [(.postEnroll, SYS_OK)] := by
      simp [slot_succeeded, slot_enrollProgress, hv, Output.request?]
    rw [Device.handled, hrequests]
    exact .of_rest rfl hkeys

theorem synced_removed (h : Synced past s) {past' : List DeviceEdge} {finger : UInt32}
    (hpast : Enumerated past' → Enumerated past) (hop : s.hal.op = .removing finger) :
    Synced past' (Device.handled { s.hal.delete finger with op := .rest }
      (receive env (.removed finger 0) { self := s.fpd })) := by
  have hbegun : s.hal.op ≠ .clearing true := by rw [hop]; simp
  obtain ⟨-, hremoving, hz⟩ := h.removing hop
  have hsignals : (s.fpd.m_androidFP.callback env.hal (.removed finger 0)).requests = [] ∧
      (s.fpd.m_androidFP.callback env.hal (.removed finger 0)).signals = [.removed finger] := by
    simp [AndroidFP.callback, AndroidFP.removeCallback, hremoving, hz]
  rw [receive_one hsignals.1 hsignals.2, Device.handled_none]
  · refine .of_rest rfl fun he k => ?_
    have hk := h.keys (hpast he) hbegun k
    simp [slot, hz, TemplateHal.delete, s.hal.nodup.mem_erase_iff, hk, eq_comm (a := k)]
  · simp [slot_requests, signalMove]

/-- The last report of a `Clear`: nothing is left. -/
theorem synced_wiped (h : Synced past s) {past' : List DeviceEdge} {begun : Bool}
    {finger : UInt32} {hal : TemplateHal} (hop : s.hal.op = .clearing begun)
    (hrest : hal.op = .rest) (ht : hal.templates = []) :
    Synced past' (Device.handled hal (receive env (.removed finger 0) { self := s.fpd })) := by
  obtain ⟨-, hremoving, -⟩ := h.clearing hop
  have hsignals : (s.fpd.m_androidFP.callback env.hal (.removed finger 0)).requests = [] ∧
      (s.fpd.m_androidFP.callback env.hal (.removed finger 0)).signals = [.removed 0] := by
    simp [AndroidFP.callback, AndroidFP.removeCallback, hremoving]
  rw [receive_one hsignals.1 hsignals.2, Device.handled_none]
  · refine .of_rest hrest fun _ k => ?_
    simp [slot, ht]
  · simp [slot_requests, signalMove]

/-- A report of a `Clear` that is not the last: the map waits. -/
theorem synced_clearing (h : Synced past s) {past' : List DeviceEdge} {begun : Bool}
    {finger : UInt32} (hop : s.hal.op = .clearing begun)
    (hleft : (s.hal.delete finger).templates ≠ []) :
    Synced past' (Device.handled { s.hal.delete finger with op := .clearing true }
      (receive env (.removed finger (left (s.hal.delete finger).templates))
        { self := s.fpd })) := by
  obtain ⟨hs, hremoving, -⟩ := h.clearing hop
  have hne : left (s.hal.delete finger).templates ≠ 0 := fun h0 =>
    hleft ((left_eq_zero (s.hal.delete finger).nodup (s.hal.delete finger).nonzero).mp h0)
  have hcallback : s.fpd.m_androidFP.callback env.hal
      (.removed finger (left (s.hal.delete finger).templates)) =
        { self := s.fpd.m_androidFP, requests := [], signals := [] } := by
    simp [AndroidFP.callback, AndroidFP.removeCallback, hne]
  rw [receive_none (by rw [hcallback]) (by rw [hcallback]), Device.handled_none _ rfl]
  refine ⟨?_, fun _ hno => absurd rfl hno⟩
  rw [hcallback]
  exact ⟨hs, hremoving, fun _ => hleft⟩

theorem synced_enumerated (h : Synced past s) {past' : List DeviceEdge} {finger : UInt32}
    {todo : List UInt32} (hop : s.hal.op = .enumerating todo) (hm : finger ∈ todo)
    (hdone : todo.erase finger = []) :
    Synced past' (Device.handled { s.hal with op := .rest }
      (receive env (.enumerate finger 0) { self := s.fpd })) := by
  obtain ⟨-, -, -, htemplates⟩ := h.enumerating hop
  have hz : finger ≠ 0 := fun hz => s.hal.nonzero ((htemplates 0).mpr (.inl (hz ▸ hm)))
  rw [receive_one rfl rfl, Device.handled_none]
  · refine .of_rest rfl fun _ k => ?_
    have honly : k ∈ todo ↔ k = finger := by
      refine ⟨fun hk => ?_, fun hk => hk ▸ hm⟩
      by_contra hne
      have hrest := (List.mem_erase_of_ne hne).mpr hk
      rw [hdone] at hrest
      exact absurd hrest List.not_mem_nil
    show k ∈ (slot_enumerated env _).self.m_fingerMap ↔ _
    rw [slot_enumerated_self]
    simp [mem_reconcile, AndroidFP.callback, AndroidFP.enumerateCallback, AndroidFP.fingerprints,
      hz, htemplates, honly, or_comm]
  · simp [slot_requests, signalMove]

/-- A report of an enumeration that is not the last is recorded. -/
theorem synced_enumerating (h : Synced past s) {past' : List DeviceEdge} {finger : UInt32}
    {todo : List UInt32} (hpast : Enumerated past' → Enumerated past)
    (hop : s.hal.op = .enumerating todo) (hm : finger ∈ todo) (hleft : todo.erase finger ≠ []) :
    Synced past' (Device.handled { s.hal with op := .enumerating (todo.erase finger) }
      (receive env (.enumerate finger (left (todo.erase finger))) { self := s.fpd })) := by
  obtain ⟨hs, hnot, hnodup, htemplates⟩ := h.enumerating hop
  have hz : finger ≠ 0 := fun hz => s.hal.nonzero ((htemplates 0).mpr (.inl (hz ▸ hm)))
  have hne : left (todo.erase finger) ≠ 0 := mt (h.left_erase hop finger).mp hleft
  have hsignals : (s.fpd.m_androidFP.callback env.hal
      (.enumerate finger (left (todo.erase finger)))).signals = [] := if_neg hne
  rw [receive_none rfl hsignals, Device.handled_none _ rfl]
  refine ⟨⟨hs, fun he => hnot (hpast he), hnodup.erase finger, fun k => ?_⟩,
    fun he => absurd (hpast he) hnot⟩
  rw [htemplates]
  by_cases hk : k = finger
  · subst hk
    simp [hm, AndroidFP.callback, AndroidFP.enumerateCallback, hz]
  · simp [List.mem_erase_of_ne hk, AndroidFP.callback, AndroidFP.enumerateCallback, hz, hk]

/-- The report of an enumeration that finds nothing. -/
theorem synced_nothing (h : Synced past s) {past' : List DeviceEdge} {todo : List UInt32}
    (hop : s.hal.op = .enumerating todo) (ht : s.hal.templates = []) :
    Synced past' (Device.handled { s.hal with op := .rest }
      (receive env (.enumerate 0 0) { self := s.fpd })) := by
  obtain ⟨-, -, -, htemplates⟩ := h.enumerating hop
  have hnone : ∀ k, k ∉ s.fpd.m_androidFP.m_fingers := by
    intro k hk
    have hin := (htemplates k).mpr (.inr hk)
    rw [ht] at hin
    exact absurd hin List.not_mem_nil
  rw [receive_one rfl rfl, Device.handled_none]
  · refine .of_rest rfl fun _ k => ?_
    show k ∈ (slot_enumerated env _).self.m_fingerMap ↔ _
    rw [slot_enumerated_self]
    simp [mem_reconcile, AndroidFP.callback, AndroidFP.enumerateCallback, AndroidFP.fingerprints,
      hnone, ht]
  · simp [slot_requests, signalMove]

theorem receive_outcome {cb : Callback}
    (hcb : (∃ finger, cb = .authenticated finger) ∨ ∃ code vendorCode, cb = .error code vendorCode)
    (hal : TemplateHal) :
    ∃ d, Device.handled hal (receive env cb { self := s.fpd }) = ⟨d, hal⟩ ∧
      d.m_fingerMap = s.fpd.m_fingerMap := by
  have hone : ∀ signal, (s.fpd.m_androidFP.callback env.hal cb).requests = [] →
      (s.fpd.m_androidFP.callback env.hal cb).signals = [signal] →
      ((∃ finger, signal = .authenticated finger) ∨ ∃ message, signal = .failed message) →
      ∃ d, Device.handled hal (receive env cb { self := s.fpd }) = ⟨d, hal⟩ ∧
        d.m_fingerMap = s.fpd.m_fingerMap := by
    intro signal hr hs hsignal
    rw [receive_one hr hs]
    refine ⟨_, Device.handled_none hal ?_, ?_⟩
    · rcases hsignal with ⟨finger, rfl⟩ | ⟨message, rfl⟩
      · simp [slot_requests, signalMove]
      · rw [slot_requests, signalMove]
        split <;> simp
    · have hmap := (edits_slot signal : Edits env _ _ (slot env signal
        { self := { s.fpd with m_androidFP := (s.fpd.m_androidFP.callback env.hal cb).self } })).map
      rw [hmap]
      rcases hsignal with ⟨finger, rfl⟩ | ⟨message, rfl⟩ <;> rfl
  rcases hcb with ⟨finger, rfl⟩ | ⟨code, vendorCode, rfl⟩
  · by_cases hf : finger = 0
    · exact hone _ rfl (if_neg (not_not.mpr hf)) (.inr ⟨_, rfl⟩)
    · exact hone _ rfl (if_pos hf) (.inl ⟨_, rfl⟩)
  · by_cases hc : code = ERROR_NO_ERROR
    · have hsignals : (s.fpd.m_androidFP.callback env.hal (.error code vendorCode)).signals = [] :=
        if_pos hc
      rw [receive_none rfl hsignals]
      exact ⟨_, Device.handled_none hal rfl, rfl⟩
    · exact hone _ rfl (if_neg hc) (.inr ⟨_, rfl⟩)

theorem synced_acquired (h : Synced past s) {past' : List DeviceEdge} (info : Int)
    (hpast : Enumerated past' → Enumerated past) :
    Synced past' (Device.handled s.hal (receive env (.acquired info) { self := s.fpd })) := by
  rw [receive_one rfl rfl, Device.handled_none]
  · rw [show slot env (.acquired info) _ = slot_acquired info _ from rfl, slot_acquired_self]
    exact (h.mono hpast).congr rfl rfl rfl
  · simp [slot_requests, signalMove]

/-- A match, or a failure to match, leaves the map alone. -/
theorem synced_authenticated (h : Synced past s) {past' : List DeviceEdge} {finger : UInt32}
    {op : HalOp} (hpast : Enumerated past' → Enumerated past) (hop : s.hal.op = .authenticating)
    (hop' : op = .rest ∨ op = .authenticating) :
    Synced past' (Device.handled { s.hal with op }
      (receive env (.authenticated finger) { self := s.fpd })) := by
  obtain ⟨d, hd, hmap⟩ := receive_outcome (s := s) (.inl ⟨finger, rfl⟩) { s.hal with op }
  rw [hd]
  refine ⟨?_, fun he _ k => ?_⟩
  · show Phase _ _ { s.hal with op }
    unfold Phase
    rcases hop' with rfl | rfl <;> trivial
  · show k ∈ d.m_fingerMap ↔ _
    rw [hmap]
    exact h.keys (hpast he) (by rw [hop]; simp) k

theorem synced_silent (h : Synced past s) {ev : HalEvent} (hemit : s.hal.emit ev = none) :
    Synced (past ++ [device.edge s ⟨.hal ev, env⟩]) (device.step s ⟨.hal ev, env⟩).1 := by
  have hstep : (device.step s ⟨.hal ev, env⟩).1 = s := by simp [device, Device.step, hemit]
  rw [hstep]
  refine h.mono fun he => ?_
  rcases enumerated_snoc.mp he with he | ⟨ev', hal, finger, hev, hemit'⟩
  · exact he
  · obtain rfl : ev = ev' := by simpa using hev
    rw [show s.hal.emit ev = _ from hemit'] at hemit
    cases hemit

/-- One case for each thing the HAL may do. -/
theorem synced_hal (h : Synced past s) (hpost : env.hal .postEnroll = SYS_OK) {ev : HalEvent}
    (hclear : FinishesClear (device.edge s ⟨.hal ev, env⟩)) :
    Synced (past ++ [device.edge s ⟨.hal ev, env⟩]) (device.step s ⟨.hal ev, env⟩).1 := by
  cases hemit : s.hal.emit ev with
  | none => exact synced_silent h hemit
  | some p =>
    obtain ⟨hal, cb⟩ := p
    have hdst : (device.step s ⟨.hal ev, env⟩).1 =
        Device.handled hal (receive env cb { self := s.fpd }) := device_hal hemit
    have hpast : (∀ finger, cb ≠ .enumerate finger 0) →
        Enumerated (past ++ [device.edge s ⟨.hal ev, env⟩]) → Enumerated past :=
      enumerated_of_callback hemit
    rw [hdst]
    cases TemplateHal.emits_of_emit hemit with
    | progress hop hr => exact synced_progress h (hpast (by simp)) hop hr
    | enrolled hop hnew hz => exact synced_enrolled h (hpast (by simp)) hpost hop hnew hz
    | removed hop => exact synced_removed h (hpast (by simp)) hop
    | @cleared finger begun hop hm =>
      by_cases ht : (s.hal.delete finger).templates = []
      · rw [if_pos ht, ht]
        exact synced_wiped h hop rfl ht
      · rw [if_neg ht]
        exact synced_clearing h hop ht
    | nothingToClear hop ht => exact synced_wiped h hop rfl ht
    | @enumerated finger todo hop hm =>
      by_cases ht : todo.erase finger = []
      · rw [if_pos ht, ht]
        exact synced_enumerated h hop hm ht
      · have hne : left (todo.erase finger) ≠ 0 := mt (h.left_erase hop finger).mp ht
        rw [if_neg ht]
        exact synced_enumerating h (hpast (by simp [hne])) hop hm ht
    | nothingToEnumerate hop ht => exact synced_nothing h hop ht
    | authenticated hop hop' => exact synced_authenticated h (hpast (by simp)) hop hop'
    | @acquired info hop => exact synced_acquired h info (hpast (by simp))
    | @error code vendorCode hop =>
      obtain ⟨d, hd, hmap⟩ := receive_outcome (s := s) (.inr ⟨code, vendorCode, rfl⟩)
        { s.hal with op := .rest }
      rw [hd] at hdst ⊢
      exact h.stopped (hpast (by simp)) hmap
        (h.not_begun hclear (by rw [device.edge_dst, hdst]) (by rw [device.edge_dst, hdst]; rfl))

theorem synced_step (h : Synced past s) {i : DeviceInput} (hpost : i.env.hal .postEnroll = SYS_OK)
    (hclear : FinishesClear (device.edge s i)) :
    Synced (past ++ [device.edge s i]) (device.step s i).1 := by
  obtain ⟨event, env⟩ := i
  cases event with
  | call caller c => exact synced_call h caller c hclear
  | timeout => exact synced_timeout h hclear
  | hal ev => exact synced_hal h hpost hclear

omit [QDataStream] in
theorem construct_requests (env : Env) (getprop : String → String)
    (database : Option (List UInt8)) :
    ∃ groups, (∀ p ∈ groups, ∃ gid path status, p = (.setActiveGroup gid path, status)) ∧
      requestsOf (construct env getprop database).out =
        groups ++ [(.enumerate, env.hal .enumerate)] := by
  have hgroup : ∀ path, ∃ groups out,
      (∀ p ∈ groups, ∃ gid path status, p = (Request.setActiveGroup gid path, status)) ∧
      androidFP (AndroidFP.setGroup env.hal 0 path) { self := { database } } =
        { self := { database }, out } ∧ requestsOf out = groups := by
    intro path
    rw [androidFP_idle _ rfl]
    by_cases hp : path = ""
    · refine ⟨[], [.signal (.ErrorInfo "Cannot set empty active group path")], by simp, ?_, rfl⟩
      simp [AndroidFP.setGroup, hp]
    · refine ⟨_, _, ?_, by simp [AndroidFP.setGroup, hp]; rfl, rfl⟩
      intro p h
      rw [requestsOf_cons, requestsOf_map_signal, List.append_nil] at h
      exact ⟨_, _, _, List.mem_singleton.mp h⟩
  obtain ⟨groups, out, hgroups, hgroup, hout⟩ :=
    hgroup (AndroidFP.getDefaultGroupPath getprop 100000)
  refine ⟨groups, hgroups, ?_⟩
  simp only [construct, setUser, enumerate, hgroup, if_true]
  rw [androidFP_request (f := AndroidFP.enumerate env.hal) (fun _ => rfl) (by simp)]
  simp [hout]

omit [QDataStream] in
theorem synced_boot (env : Env) (getprop : String → String) (database : Option (List UInt8))
    {hal : TemplateHal} (hop : hal.op = .rest) :
    Synced [] (Device.boot env getprop database hal) := by
  have hnone : ¬ Enumerated [] := by simp [Enumerated]
  obtain ⟨groups, hgroups, hout⟩ := construct_requests env getprop database
  have hkeep : groups.foldl TemplateHal.request hal = hal := by
    refine List.foldlRecOn (motive := fun h => h = hal) groups _ rfl ?_
    rintro _ rfl p hp
    obtain ⟨gid, path, status, rfl⟩ := hgroups p hp
    exact TemplateHal.request_setActiveGroup ..
  have hboot : Device.boot env getprop database hal =
      ⟨(boot env getprop database).fpd, hal.request (.enumerate, env.hal .enumerate)⟩ := by
    rw [Device.boot, Device.handled, hout, List.foldl_append, hkeep]
    rfl
  rw [hboot, boot_fpd]
  by_cases hr : env.hal .enumerate = SYS_OK
  · refine ⟨?_, fun he => absurd he hnone⟩
    show Phase _ _ _
    rw [if_pos hr, hr]
    refine ⟨rfl, hnone, hal.nodup, fun k => ?_⟩
    simp
  · rw [if_neg hr, hal.request_refused (by simp) hr]
    exact .of_rest hop fun he => absurd he hnone

end Steps

/-- **The map tracks the HAL.** Once an enumeration has completed, the keys of the map are the
templates of the HAL in every state of a run in which no `Clear` stops half-way, but for the time in
which a `Clear` deletes; they are whenever the daemon is idle. -/
theorem map_tracks_hal [QDataStream] (env : Env) (getprop : String → String)
    (database : Option (List UInt8)) (hal : TemplateHal) (hop : hal.op = .rest)
    (is : List DeviceInput) (hpost : ∀ i ∈ is, i.env.hal .postEnroll = SYS_OK)
    (hclear : device.Along (Device.boot env getprop database hal) is fun _ e => FinishesClear e) :
    device.Visits (Device.boot env getprop database hal) is fun past s =>
      Enumerated past →
        (s.hal.op ≠ .clearing true → InSync s.fpd s.hal) ∧
        (s.fpd.m_state = .FPSTATE_IDLE → InSync s.fpd s.hal) := by
  have hsynced : device.Visits (Device.boot env getprop database hal) is Synced := by
    refine (hclear.and (along_of_forall_mem hpost)).visits ?_ fun past s i h hi => ?_
    · exact synced_boot env getprop database hop
    · exact synced_step h hi.2 hi.1
  exact hsynced.mono fun past s h he => ⟨h.keys he, fun hs => h.inSync_of_idle hs he⟩

/-- A `Clear` deletes the two enumerated fingers and another one is enrolled: the map follows. -/
theorem map_tracks_hal_clear :
    letI := qt56
    let env := Env.answering SYS_OK
    let hal : TemplateHal := ⟨[7, 8], by decide, by decide, .rest⟩
    let is : List DeviceInput :=
      [⟨.hal (.enumerated 7), env⟩, ⟨.hal (.enumerated 8), env⟩, ⟨.call ":1.5" .Clear, env⟩,
        ⟨.hal (.removed 8), env⟩, ⟨.hal (.removed 7), env⟩, ⟨.call ":1.5" (.Enroll "left"), env⟩,
        ⟨.hal (.enrolled 9), env⟩]
    let s := device.final (Device.boot env (fun _ => "") none hal) is
    s.fpd.m_state = .FPSTATE_IDLE ∧ s.fpd.m_fingerMap.toList = [(9, "left")] ∧
      InSync s.fpd s.hal := by
  let := qt56
  intro env hal is s
  have hs : s = device.final (Device.boot env (fun _ => "") none hal) is := rfl
  have hidle : s.fpd.m_state = .FPSTATE_IDLE := by decide +kernel
  have hlist : s.fpd.m_fingerMap.toList = [(9, "left")] := by decide +kernel
  have hclear : device.Along (Device.boot env (fun _ => "") none hal) is
      fun _ e => FinishesClear e := by
    refine along_cons (fun h => ?_) (along_cons (fun h => ?_) (along_cons (fun h => ?_)
      (along_cons (fun h => ?_) (along_cons (fun _ => ?_) (along_cons (fun h => ?_)
        (along_cons (fun h => ?_) along_nil))))))
    · exact absurd h (by decide)
    · exact absurd h (by decide)
    · exact absurd h (by decide)
    · exact absurd h (by decide)
    · exact .inr (by decide)
    · exact absurd h (by decide +kernel)
    · exact absurd h (by decide +kernel)
  have hpast : Enumerated (device.edges (Device.boot env (fun _ => "") none hal) is) := by
    let t := (device.step (Device.boot env (fun _ => "") none hal)
      ⟨.hal (.enumerated 7), env⟩).1
    have hlast : (t.hal.emit (.enumerated 8)).map (·.2) = some (.enumerate 8 0) := by decide
    obtain ⟨⟨hal', cb⟩, hemit, rfl⟩ := Option.map_eq_some_iff.mp hlast
    refine ⟨device.edge t ⟨.hal (.enumerated 8), env⟩, ?_, .enumerated 8, hal', 8, rfl, hemit⟩
    exact .tail _ (.head _)
  have hpost : ∀ i ∈ is, i.env.hal .postEnroll = SYS_OK := by simp [is, env, Env.answering]
  have hvisits := map_tracks_hal env (fun _ => "") none hal rfl is hpost hclear
  have hfinal := hvisits.final hpast
  rw [← hs] at hfinal
  exact ⟨hidle, hlist, hfinal.2 hidle⟩

end SailfishFpd
