import SailfishFpd.Session.Control
import SailfishFpd.Store.Edits

/-!
# Callbacks handled at once

`receive` runs a callback and, before anything else happens, the slots of the
signals it posted: what the daemon does with the callback and as many
deliveries. The HAL sees the requests of a handler; `invoke_requests` and
`slot_requests` say which.
-/

namespace SailfishFpd

namespace FPDCommunity

/-- The slots of a callback's signals, one after the other. -/
def slots [QDataStream] (env : Env) (signals : List Signal) (x : Exec) : Exec :=
  signals.foldl (fun x signal => slot env signal x) x

/-- A callback and the slots of its signals. -/
def receive [QDataStream] (env : Env) (cb : Callback) (x : Exec) : Exec :=
  let r := x.self.m_androidFP.callback env.hal cb
  { self := { x.self with m_androidFP := r.self }
    out := x.out ++ r.requests.map fun p => .request p.1 p.2 }
    |> slots env r.signals

end FPDCommunity

open FPDCommunity

@[simp] theorem requestsOf_nil : requestsOf [] = [] := rfl

@[simp] theorem requestsOf_cons (o : Output) (out : List Output) :
    requestsOf (o :: out) = o.request?.toList ++ requestsOf out :=
  filterMap_output_cons Output.request? o out

@[simp] theorem requestsOf_append (a b : List Output) :
    requestsOf (a ++ b) = requestsOf a ++ requestsOf b := List.filterMap_append

@[simp] theorem requestsOf_stateChange (old new : State) :
    requestsOf (stateChange old new) = [] :=
  filterMap_stateChange (fun _ => rfl) old new

@[simp] theorem requestsOf_map_request (rs : List (Request × Int)) :
    requestsOf (rs.map fun p => .request p.1 p.2) = rs := by
  simp [requestsOf, List.filterMap_map, Function.comp_def, Output.request?]

@[simp] theorem requestsOf_map_signal {α : Type} (f : α → DBusSignal) (l : List α) :
    requestsOf (l.map fun a => .signal (f a)) = [] :=
  filterMap_map_none (fun _ => rfl) l

@[simp] theorem requestsOf_requestOutput (hal : Hal) (r : Request) :
    requestsOf (requestOutput hal r) = [(r, hal r)] := by
  by_cases h : hal r = SYS_OK <;> simp [requestOutput, Output.request?, h]

/-! ## The requests of a handler -/

theorem FPDCommunity.invoke_stay {env : Env} {caller : String} {c : Call} {x : Exec}
    (h : x.self.callMove env.hal caller c = .stay) : (invoke env caller c x).1 = x := by
  rcases callMove_cases x.self env.hal caller c with
    ⟨hr, -⟩ | ⟨-, -, -, hm⟩ | ⟨r, -, -, hm⟩ | ⟨r, -, -, hm⟩
  · refine invoke_idle hr ?_
    rintro rfl
    by_contra hn
    have hfin : x.self.callMove env.hal caller .Abort = .finish .aborted := by
      simp only [callMove, hr]
      exact if_pos ⟨trivial, by tauto⟩
    rw [h] at hfin
    cases hfin
  · rw [h] at hm; cases hm
  · rw [h] at hm; cases hm
  · rw [h] at hm; cases hm

theorem invoke_requests (env : Env) (caller : String) (c : Call) (x : Exec) :
    requestsOf (invoke env caller c x).1.out = requestsOf x.out ++
      match x.self.callMove env.hal caller c with
      | .start _ _ | .bounce _ _ =>
        (x.self.requestOf caller c).toList.map fun r => (r, env.hal r)
      | .finish _ => [(.cancel, env.hal .cancel)]
      | .stay => [] := by
  rcases callMove_cases x.self env.hal caller c with
    ⟨h, hm⟩ | ⟨rfl, hb, hs, hm⟩ | ⟨r, h, hr, hm⟩ | ⟨r, h, hr, hm⟩ <;> rw [hm]
  · rw [invoke_stay hm, List.append_nil]
  · rw [invoke_abort hb hs]
    simp [abort, Output.request?]
  · rw [invoke_request h]
    by_cases he : c.enrols <;> simp [h, he, Output.request?]
  · rw [invoke_request h]
    by_cases he : c.enrols <;> simp [h, he, Output.request?]

theorem slot_requests [QDataStream] (env : Env) (signal : Signal) (x : Exec) :
    requestsOf (slot env signal x).out = requestsOf x.out ++
      if x.self.signalMove signal = .finish .verified then [(.cancel, env.hal .cancel)]
      else [] := by
  cases signal with
  | failed message =>
    by_cases ht : x.self.tolerates message
    · simp [slot, slot_failed_tolerated ht, signalMove, ht, Output.request?]
    · simp [slot, slot_failed_ends ht, signalMove, ht, Output.request?]
  | succeeded finger => simp [slot, slot_succeeded, signalMove, Output.request?]
  | removed finger =>
    by_cases h : finger = 0 <;>
      simp [slot, slot_removed, foldl_removed, signalMove, h, Output.request?]
  | authenticated finger => simp [slot, slot_authenticated_out, signalMove, Output.request?]
  | enrollProgress pc =>
    by_cases hv : x.self.m_state = .FPSTATE_VERIFYING <;>
      simp [slot, slot_enrollProgress, signalMove, hv, abort, Output.request?]
  | acquired info =>
    by_cases h : acquiredState info = x.self.m_acquired <;>
      simp [slot, slot_acquired_out, signalMove, h, Output.request?]
  | enumerated => simp [slot, slot_enumerated, signalMove, Output.request?]

/-- The requests that start an operation of the HAL. -/
def Request.startsOperation : Request → Bool
  | .enroll .. | .enumerate | .remove .. | .authenticate .. => true
  | .setActiveGroup .. | .postEnroll | .cancel => false

theorem FPDCommunity.requestOf_starts {d : FPDCommunity} {caller : String} {c : Call} {r : Request}
    (h : d.requestOf caller c = some r) : r.startsOperation = true := by
  have hreq := requests_of_some h
  cases c with
  | Enroll finger => rw [hreq.2]; rfl
  | Identify => rw [hreq.2]; rfl
  | Remove finger => rw [hreq.2]; rfl
  | Verify | Clear => rw [show r = _ from hreq]; rfl
  | GetState | GetAll | Abort => exact hreq.elim

theorem AndroidFP.callback_starts_nothing (hal : Hal) (cb : Callback) (self : AndroidFP) :
    ∀ p ∈ (self.callback hal cb).requests, p.1.startsOperation = false := by
  intro p hp
  cases cb with
  | enrollresult finger remaining =>
    by_cases hr : 0 < remaining
    · simp [AndroidFP.callback, AndroidFP.enrollCallback, hr] at hp
    · obtain rfl : p = _ := by simpa [AndroidFP.callback, AndroidFP.enrollCallback, hr] using hp
      rfl
  | removed finger remaining =>
    simp only [AndroidFP.callback, AndroidFP.removeCallback] at hp
    split at hp <;> exact absurd hp List.not_mem_nil
  | _ => exact absurd hp List.not_mem_nil

theorem slot_starts_nothing [QDataStream] {env : Env} {signal : Signal} {x : Exec}
    (hx : ∀ p ∈ requestsOf x.out, p.1.startsOperation = false) :
    ∀ p ∈ requestsOf (slot env signal x).out, p.1.startsOperation = false := by
  intro p hp
  rw [slot_requests] at hp
  rcases List.mem_append.mp hp with hp | hp
  · exact hx p hp
  · split at hp
    · obtain rfl : p = _ := by simpa using hp
      rfl
    · exact absurd hp List.not_mem_nil

theorem receive_starts_nothing [QDataStream] (env : Env) (cb : Callback) (d : FPDCommunity) :
    ∀ p ∈ requestsOf (receive env cb { self := d }).out, p.1.startsOperation = false := by
  have hslots : ∀ (signals : List Signal) (x : Exec),
      (∀ p ∈ requestsOf x.out, p.1.startsOperation = false) →
        ∀ p ∈ requestsOf (slots env signals x).out, p.1.startsOperation = false := by
    intro signals
    induction signals with
    | nil => exact fun x h => h
    | cons signal signals ih => exact fun x h => ih (slot env signal x) (slot_starts_nothing h)
  refine hslots _ _ ?_
  simpa using d.m_androidFP.callback_starts_nothing env.hal cb

theorem step_starts_nothing [QDataStream] {s : System} (hs : s.fpd.m_state ≠ .FPSTATE_IDLE)
    (i : Input) : ∀ p ∈ requestsOf (daemon.step s i).2.out, p.1.startsOperation = false := by
  obtain ⟨event, env⟩ := i
  cases event with
  | call caller c =>
    have hrequests := invoke_requests env caller c { self := s.fpd }
    rw [requestOf_busy (.inr hs)] at hrequests
    rw [step_call, hrequests]
    rcases callMove_cases s.fpd env.hal caller c with
      ⟨-, hm⟩ | ⟨-, -, -, hm⟩ | ⟨r, -, -, hm⟩ | ⟨r, -, -, hm⟩ <;> rw [hm] <;>
      simp [Request.startsOperation]
  | timeout =>
    by_cases ht : s.fpd.m_cancelTimer <;>
      simp [daemon, System.step, ht, slot_cancelIdentify, Output.request?,
        Request.startsOperation]
  | callback cb =>
    simpa [daemon, System.step] using s.fpd.m_androidFP.callback_starts_nothing env.hal cb
  | deliver =>
    obtain ⟨d, queue⟩ := s
    cases queue with
    | nil => exact fun p hp => absurd hp List.not_mem_nil
    | cons signal queue => exact slot_starts_nothing (x := { self := d }) (by simp)

/-! ## What callbacks do to the session -/

theorem FPDCommunity.signalMove_cases (d : FPDCommunity) (signal : Signal) :
    d.signalMove signal = .stay ∨ ∃ e, d.signalMove signal = .finish e := by
  cases signal with
  | failed message => by_cases ht : d.tolerates message <;> simp [signalMove, ht]
  | enrollProgress pc => by_cases hv : d.m_state = .FPSTATE_VERIFYING <;> simp [signalMove, hv]
  | _ => simp [signalMove]

/-- The state and the owner are as before. -/
def SameSession (d d' : FPDCommunity) : Prop :=
  d'.m_state = d.m_state ∧ d'.m_dbusCaller = d.m_dbusCaller

/-- No operation runs, and the daemon has no owner. -/
def FPDCommunity.Ended (d : FPDCommunity) : Prop :=
  d.m_state = .FPSTATE_IDLE ∧ d.m_dbusCaller = ""

theorem sameSession_of_control {d d' : FPDCommunity} (h : d'.control = d.control) :
    SameSession d d' := ⟨congrArg Control.state h, congrArg Control.owner h⟩

theorem ended_of_control {d d' : FPDCommunity} {e : Ending}
    (h : d'.control = d.control.apply (.finish e)) : d'.Ended :=
  ⟨congrArg Control.state h, congrArg Control.owner h⟩

theorem slot_session [QDataStream] (env : Env) (signal : Signal) (x : Exec) :
    SameSession x.self (slot env signal x).self ∨ (slot env signal x).self.Ended := by
  have h := (makes_slot signal : Makes _ x (slot env signal x)).control
  rcases x.self.signalMove_cases signal with hm | ⟨e, hm⟩ <;> rw [hm] at h
  · exact .inl (sameSession_of_control h)
  · exact .inr (ended_of_control h)

theorem slots_session [QDataStream] (env : Env) (signals : List Signal) (x : Exec) :
    SameSession x.self (slots env signals x).self ∨ (slots env signals x).self.Ended := by
  induction signals generalizing x with
  | nil => exact .inl ⟨rfl, rfl⟩
  | cons signal signals ih =>
    have hcons : slots env (signal :: signals) x = slots env signals (slot env signal x) := rfl
    rw [hcons]
    rcases ih (slot env signal x) with hsame | hend
    · rcases slot_session env signal x with hs | he
      · exact .inl ⟨hsame.1.trans hs.1, hsame.2.trans hs.2⟩
      · exact .inr ⟨hsame.1.trans he.1, hsame.2.trans he.2⟩
    · exact .inr hend

/-- A callback leaves the session alone or ends it. -/
theorem receive_session [QDataStream] (env : Env) (cb : Callback) (d : FPDCommunity) :
    SameSession d (receive env cb { self := d }).self ∨
      (receive env cb { self := d }).self.Ended :=
  slots_session env _ _

theorem receive_none [QDataStream] {env : Env} {cb : Callback} {d : FPDCommunity}
    (hr : (d.m_androidFP.callback env.hal cb).requests = [])
    (hs : (d.m_androidFP.callback env.hal cb).signals = []) :
    receive env cb { self := d } =
      { self := { d with m_androidFP := (d.m_androidFP.callback env.hal cb).self } } := by
  simp [receive, slots, hr, hs]

theorem receive_one [QDataStream] {env : Env} {cb : Callback} {d : FPDCommunity} {signal : Signal}
    (hr : (d.m_androidFP.callback env.hal cb).requests = [])
    (hs : (d.m_androidFP.callback env.hal cb).signals = [signal]) :
    receive env cb { self := d } = slot env signal
      { self := { d with m_androidFP := (d.m_androidFP.callback env.hal cb).self } } := by
  simp [receive, slots, hr, hs]

/-! ## `receive` as a run of the daemon -/

/-- A slot adds to what was sent before, and does not look at it. -/
theorem slot_append [QDataStream] (env : Env) (signal : Signal) (d : FPDCommunity)
    (out : List Output) :
    slot env signal { self := d, out } =
      { self := (slot env signal { self := d }).self
        out := out ++ (slot env signal { self := d }).out } := by
  cases signal with
  | failed message =>
    by_cases ht : d.tolerates message
    · simp only [slot]
      rw [slot_failed_tolerated (x := ⟨d, out⟩) ht, slot_failed_tolerated (x := ⟨d, []⟩) ht]
      simp [emit]
    · simp only [slot]
      rw [slot_failed_ends (x := ⟨d, out⟩) ht, slot_failed_ends (x := ⟨d, []⟩) ht]
      simp
  | succeeded finger =>
    apply Exec.ext
    · simp [slot]
    · simp [slot, slot_succeeded]
  | removed finger =>
    apply Exec.ext
    · simp [slot]
    · by_cases h : finger = 0 <;> simp [slot, slot_removed, foldl_removed, h]
  | authenticated finger =>
    apply Exec.ext
    · simp [slot]
    · simp [slot, slot_authenticated_out]
  | enrollProgress pc =>
    apply Exec.ext
    · simp [slot]
    · by_cases hv : d.m_state = .FPSTATE_VERIFYING <;> simp [slot, slot_enrollProgress, hv, abort]
  | acquired info =>
    apply Exec.ext
    · simp [slot]
    · simp [slot, slot_acquired_out]
  | enumerated =>
    apply Exec.ext
    · simp [slot]
    · simp [slot, slot_enumerated]

theorem deliver_all [QDataStream] (env : Env) (signals : List Signal) (d : FPDCommunity)
    (out : List Output) :
    let is := List.replicate signals.length (⟨.deliver, env⟩ : Input)
    slots env signals { self := d, out } =
      { self := (daemon.final ⟨d, signals⟩ is).fpd
        out := out ++ (daemon.edges ⟨d, signals⟩ is).flatMap (·.out.out) } ∧
      (daemon.final ⟨d, signals⟩ is).queue = [] := by
  induction signals generalizing d out with
  | nil => simp [slots]
  | cons signal signals ih =>
    obtain ⟨hslots, hqueue⟩ := ih (slot env signal { self := d }).self
      (out ++ (slot env signal { self := d }).out)
    have hstep : daemon.step ⟨d, signal :: signals⟩ ⟨.deliver, env⟩ =
        (⟨(slot env signal { self := d }).self, signals⟩,
          { out := (slot env signal { self := d }).out }) := rfl
    have hcons : slots env (signal :: signals) { self := d, out } =
        slots env signals (slot env signal { self := d, out }) := rfl
    rw [slot_append] at hcons
    refine ⟨?_, hqueue⟩
    rw [hcons, hslots]
    simp [List.replicate_succ, hstep, List.append_assoc]

/-- `receive` is the daemon's run on the callback and the deliveries of its signals. -/
theorem receive_run [QDataStream] (env : Env) (cb : Callback) (d : FPDCommunity) :
    let signals := (d.m_androidFP.callback env.hal cb).signals
    let is := ⟨.callback cb, env⟩ :: List.replicate signals.length (⟨.deliver, env⟩ : Input)
    daemon.final ⟨d, []⟩ is = ⟨(receive env cb { self := d }).self, []⟩ ∧
      (daemon.edges ⟨d, []⟩ is).flatMap (·.out.out) = (receive env cb { self := d }).out := by
  intro signals is
  obtain ⟨hslots, hqueue⟩ := deliver_all env signals
    { d with m_androidFP := (d.m_androidFP.callback env.hal cb).self }
    ((d.m_androidFP.callback env.hal cb).requests.map fun p => .request p.1 p.2)
  have hstep : daemon.step ⟨d, []⟩ ⟨.callback cb, env⟩ =
      (⟨{ d with m_androidFP := (d.m_androidFP.callback env.hal cb).self }, signals⟩,
        { out := (d.m_androidFP.callback env.hal cb).requests.map fun p => .request p.1 p.2 }) :=
    rfl
  have hreceive : receive env cb { self := d } = slots env signals
      ⟨{ d with m_androidFP := (d.m_androidFP.callback env.hal cb).self },
        (d.m_androidFP.callback env.hal cb).requests.map fun p => .request p.1 p.2⟩ := by
    rw [receive]
    rfl
  rw [hreceive, hslots]
  refine ⟨?_, ?_⟩
  · rw [daemon.final_cons, hstep, ← hqueue]
  · simp [is, hstep]

end SailfishFpd
