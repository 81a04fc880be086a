import SailfishFpd.Lib.Commute
import SailfishFpd.QtStream
import SailfishFpd.Store.Edits

/-!
# Two threads

The HAL's callbacks run on a thread of their own, at any time. They share with
the event loop the queue of signals, to which they append, and the fields of
`AndroidFP`, which the loop writes when it makes a request and reads when it
loads the fingers. `Independent` leaves out the pairs that meet in such a field,
the races. Two runs in which no race is decided differently are the same run.
-/

namespace SailfishFpd

open FPDCommunity
open Reactive.Machine

/-- The call's request overwrites what the callback goes by. -/
def Call.disturbs : Call → Callback → Prop
  | .Enroll _, .enrollresult _ remaining | .Verify, .enrollresult _ remaining => 0 < remaining
  | .Remove _, .removed .. | .Clear, .removed .. => True
  | _, _ => False

/-- The callback adds to the record of an enumeration. -/
def Callback.records : Callback → Prop
  | .enumerate finger _ => finger ≠ 0
  | _ => False

def Input.isCallback (i : Input) : Bool :=
  match i.event with
  | .callback _ => true
  | _ => false

/-- The step `i` of the event loop and the callback `j` do not race in `s`. A delivery is a step of
the loop when there is a signal to deliver. -/
def Independent (s : System) (i j : Input) : Prop :=
  ∃ cb, j.event = .callback cb ∧
    match i.event with
    | .call caller c => (s.fpd.requestOf caller c).isSome → ¬ c.disturbs cb
    | .timeout => True
    | .deliver => ∃ signal queue, s.queue = signal :: queue ∧
        (signal = .enumerated → ¬ cb.records)
    | .callback _ => False

namespace FPDCommunity

def withFP (d : FPDCommunity) (a : AndroidFP) : FPDCommunity := { d with m_androidFP := a }

@[simp] theorem withFP_self (d : FPDCommunity) : d.withFP d.m_androidFP = d := rfl

@[simp] theorem withFP_androidFP (d : FPDCommunity) (a : AndroidFP) :
    (d.withFP a).m_androidFP = a := rfl

/-- What a call that makes its request writes into `AndroidFP`. -/
def requested (d : FPDCommunity) (c : Call) (a : AndroidFP) : AndroidFP :=
  match c with
  | .Enroll _ | .Verify => { a with m_enrollRemaining := 0 }
  | .Remove finger => { a with m_removingFinger := d.keyOf finger }
  | .Clear => { a with m_removingFinger := 0 }
  | .Identify | .GetState | .GetAll | .Abort => a

section Handlers

variable {d : FPDCommunity} {a : AndroidFP} {env : Env} {caller : String}

theorem answer_withFP (c : Call) :
    (invoke env caller c { self := d.withFP a }).2 = (invoke env caller c { self := d }).2 := by
  cases c with
  | GetState | GetAll | Clear => rfl
  | _ =>
    simp only [invoke, Enroll, Identify, Abort, Verify, Remove, apply_ite Prod.snd]
    rfl

theorem invoke_withFP (c : Call) :
    (invoke env caller c { self := d.withFP a }).1 =
      { self := (invoke env caller c { self := d }).1.self.withFP
          (if (d.requestOf caller c).isSome then d.requested c a else a)
        out := (invoke env caller c { self := d }).1.out } := by
  cases hr : d.requestOf caller c with
  | some r =>
    have hra : (d.withFP a).requestOf caller c = some r := hr
    rw [invoke_request (x := { self := d.withFP a }) hra, invoke_request (x := { self := d }) hr]
    by_cases hok : env.hal r = SYS_OK <;> cases c <;>
      simp [afterRequest, prepared, withFP, requested, hok, keyOf]
  | none =>
    by_cases ha : c = .Abort ∧ ¬ d.busyForOther caller ∧ d.m_state ≠ .FPSTATE_IDLE
    · obtain ⟨rfl, hb, hs⟩ := ha
      rw [invoke_abort (x := { self := d.withFP a }) hb hs, invoke_abort (x := { self := d }) hb hs]
      apply Exec.ext
      · simp [withFP]
      · simp [abort, withFP]
    · rw [invoke_idle (x := { self := d.withFP a }) hr (by tauto),
        invoke_idle (x := { self := d }) hr (by tauto)]
      simp

/-- A slot does the same on another `AndroidFP`, unless it loads the fingers that are on record. -/
theorem slot_withFP [QDataStream] (signal : Signal)
    (h : signal = .enumerated → a.m_fingers = d.m_androidFP.m_fingers) :
    slot env signal { self := d.withFP a } =
      { self := (slot env signal { self := d }).self.withFP a
        out := (slot env signal { self := d }).out } := by
  cases signal with
  | failed message =>
    by_cases ht : d.tolerates message
    · simp only [slot]
      rw [slot_failed_tolerated (x := { self := d.withFP a }) ht,
        slot_failed_tolerated (x := { self := d }) ht]
      rfl
    · simp only [slot]
      rw [slot_failed_ends (x := { self := d.withFP a }) ht,
        slot_failed_ends (x := { self := d }) ht]
      rfl
  | succeeded finger =>
    apply Exec.ext
    · simp [slot, withFP, saved]
    · simp [slot, slot_succeeded, withFP]
  | removed finger =>
    apply Exec.ext
    · simp [slot, withFP, saved]
    · by_cases hf : finger = 0 <;> simp [slot, slot_removed, foldl_removed, hf, withFP]
  | authenticated finger =>
    apply Exec.ext
    · simp [slot, withFP]
    · simp [slot, slot_authenticated_out, withFP, identifiedName]
  | enrollProgress pc =>
    apply Exec.ext
    · by_cases hv : d.m_state = .FPSTATE_VERIFYING <;> simp [slot, withFP, hv]
    · by_cases hv : d.m_state = .FPSTATE_VERIFYING <;>
        simp [slot, slot_enrollProgress, withFP, hv, abort]
  | acquired info =>
    apply Exec.ext
    · simp [slot, withFP]
    · simp [slot, slot_acquired_out, withFP]
  | enumerated =>
    have hf : a.fingerprints = d.m_androidFP.fingerprints := h rfl
    have hread : (d.withFP a).readDatabase env = d.readDatabase env := rfl
    apply Exec.ext
    · simp [slot, hf, hread]
      simp [withFP, saved]
    · simp [slot, slot_enumerated, withFP]

/-- A callback and a request that it is not disturbed by do not see each other. -/
theorem callback_requested {c : Call} {cb : Callback} (h : ¬ c.disturbs cb) :
    let r := a.callback env.hal cb
    (d.requested c a).callback env.hal cb =
      { self := d.requested c r.self, requests := r.requests, signals := r.signals } := by
  cases cb with
  | enrollresult fingerId remaining =>
    by_cases hr : 0 < remaining
    · cases c with
      | Enroll finger => exact absurd hr h
      | Verify => exact absurd hr h
      | _ => simp [requested, AndroidFP.callback, AndroidFP.enrollCallback, hr]
    · cases c <;> simp [requested, AndroidFP.callback, AndroidFP.enrollCallback, hr]
  | removed fingerId remaining =>
    cases c with
    | Remove finger => exact absurd trivial h
    | Clear => exact absurd trivial h
    | _ =>
      by_cases hm : (fingerId = a.m_removingFinger ∨ a.m_removingFinger = 0) ∧ remaining = 0
      · have hr : a.callback env.hal (.removed fingerId remaining) = _ := if_pos hm
        rw [hr]
        exact if_pos hm
      · have hr : a.callback env.hal (.removed fingerId remaining) = _ := if_neg hm
        rw [hr]
        exact if_neg hm
  | enumerate fingerId remaining =>
    by_cases hf : fingerId = 0 <;> cases c <;>
      simp [requested, AndroidFP.callback, AndroidFP.enumerateCallback, hf]
  | _ => cases c <;> rfl

end Handlers

end FPDCommunity

/-- What a step of the loop writes into `AndroidFP`. -/
def Input.writes (i : Input) (s : System) (a : AndroidFP) : AndroidFP :=
  match i.event with
  | .call caller c => if (s.fpd.requestOf caller c).isSome then s.fpd.requested c a else a
  | _ => a

/-- The daemon with another `AndroidFP` and more signals queued: all that a callback touches. -/
def System.touched (s : System) (a : AndroidFP) (signals : List Signal) : System :=
  { fpd := s.fpd.withFP a, queue := s.queue ++ signals }

section Races

variable {s : System} {i j : Input}

namespace Independent

theorem loop (h : Independent s i j) : i.isCallback = false := by
  obtain ⟨event, env⟩ := i
  obtain ⟨cb, -, h⟩ := h
  cases event with
  | callback cb' => exact h.elim
  | _ => rfl

theorem queued (h : Independent s i j) (hi : i.event = .deliver) : s.queue ≠ [] := by
  obtain ⟨cb, -, h⟩ := h
  rw [hi] at h
  obtain ⟨signal, queue, hq, -⟩ := h
  simp [hq]

/-- What the callback touches is nothing to the step of the loop. -/
theorem touched (h : Independent s i j) (a : AndroidFP) (signals : List Signal) :
    Independent (s.touched a signals) i j := by
  obtain ⟨cb, hcb, hk⟩ := h
  refine ⟨cb, hcb, ?_⟩
  obtain ⟨event, env⟩ := i
  cases event with
  | deliver =>
    obtain ⟨signal, queue, hq, hr⟩ := hk
    exact ⟨signal, queue ++ signals, by simp [System.touched, hq], hr⟩
  | _ => exact hk

/-- The step of the loop writes nothing, or makes a request that does not disturb the callback. -/
theorem writes_cases {cb : Callback} {env : Env} (h : Independent s i ⟨.callback cb, env⟩) :
    (∀ a, i.writes s a = a) ∨
      ∃ c : Call, ¬ c.disturbs cb ∧ ∀ a, i.writes s a = s.fpd.requested c a := by
  obtain ⟨event, envi⟩ := i
  obtain ⟨cb', hcb, h⟩ := h
  obtain rfl : cb = cb' := by simpa using hcb
  cases event with
  | call caller c =>
    by_cases hr : (s.fpd.requestOf caller c).isSome
    · exact .inr ⟨c, h hr, fun a => by simp [Input.writes, hr]⟩
    · exact .inl fun a => by simp [Input.writes, hr]
  | _ => exact .inl fun _ => rfl

end Independent

theorem callback_writes {env : Env} {cb : Callback} (h : Independent s i ⟨.callback cb, env⟩)
    (a : AndroidFP) :
    let r := a.callback env.hal cb
    (i.writes s a).callback env.hal cb =
      { self := i.writes s r.self, requests := r.requests, signals := r.signals } := by
  obtain hw | ⟨c, hc, hw⟩ := h.writes_cases
  · simp only [hw]
  · simp only [hw]
    exact callback_requested hc

end Races

section Commuting

variable [QDataStream] {s : System} {i j : Input}

theorem step_callback (s : System) (env : Env) (cb : Callback) :
    let r := s.fpd.m_androidFP.callback env.hal cb
    daemon.step s ⟨.callback cb, env⟩ =
      ({ fpd := s.fpd.withFP r.self, queue := s.queue ++ r.signals },
        { out := r.requests.map fun p => .request p.1 p.2 }) := rfl

theorem step_timeout (s : System) (env : Env) :
    daemon.step s ⟨.timeout, env⟩ =
      if s.fpd.m_cancelTimer then
        let x := slot_cancelIdentify env { self := { s.fpd with m_cancelTimer := false } }
        ({ s with fpd := x.self }, { out := x.out })
      else (s, {}) := rfl

theorem step_deliver (d : FPDCommunity) (signal : Signal) (queue : List Signal) (env : Env) :
    daemon.step { fpd := d, queue := signal :: queue } ⟨.deliver, env⟩ =
      ({ fpd := (slot env signal { self := d }).self, queue },
        { out := (slot env signal { self := d }).out }) := rfl

theorem step_touched {a : AndroidFP} (signals : List Signal) (hi : i.isCallback = false)
    (hqueue : i.event = .deliver → s.queue ≠ [])
    (hfingers : i.event = .deliver → s.queue.head? = some .enumerated →
      a.m_fingers = s.fpd.m_androidFP.m_fingers) :
    daemon.step (s.touched a signals) i =
      ((daemon.step s i).1.touched (i.writes s a) signals, (daemon.step s i).2) := by
  obtain ⟨event, env⟩ := i
  cases event with
  | call caller c =>
    simp only [step_call, System.touched, invoke_withFP, answer_withFP]
    rfl
  | timeout =>
    by_cases ht : s.fpd.m_cancelTimer <;>
      simp [step_timeout, System.touched, Input.writes, ht, withFP, slot_cancelIdentify]
  | callback cb => cases hi
  | deliver =>
    obtain ⟨d, _ | ⟨signal, queue⟩⟩ := s
    · exact absurd rfl (hqueue rfl)
    · have hf : signal = .enumerated → a.m_fingers = d.m_androidFP.m_fingers := by
        rintro rfl
        exact hfingers rfl rfl
      have htouched : System.touched ⟨d, signal :: queue⟩ a signals =
          { fpd := d.withFP a, queue := signal :: (queue ++ signals) } := rfl
      rw [htouched, step_deliver, step_deliver, slot_withFP _ hf]
      rfl

theorem step_writes (hi : i.isCallback = false) :
    (daemon.step s i).1.fpd.m_androidFP = i.writes s s.fpd.m_androidFP := by
  obtain ⟨event, env⟩ := i
  cases event with
  | call caller c =>
    exact congrArg (fun x : Exec => x.self.m_androidFP)
      (invoke_withFP (d := s.fpd) (a := s.fpd.m_androidFP) c)
  | timeout =>
    by_cases ht : s.fpd.m_cancelTimer <;>
      simp [step_timeout, Input.writes, ht, slot_cancelIdentify]
  | callback cb => cases hi
  | deliver =>
    obtain ⟨d, _ | ⟨signal, queue⟩⟩ := s
    · rfl
    · exact congrArg (fun x : Exec => x.self.m_androidFP)
        (slot_withFP (d := d) (a := d.m_androidFP) signal fun _ => rfl)

theorem independence : Independence daemon Independent where
  commutes := by
    rintro s i ⟨_, env⟩ h
    obtain ⟨cb, rfl, hind⟩ := id h
    have hfingers : i.event = .deliver → s.queue.head? = some .enumerated →
        (s.fpd.m_androidFP.callback env.hal cb).self.m_fingers =
          s.fpd.m_androidFP.m_fingers := by
      intro hi hq
      rw [hi] at hind
      obtain ⟨signal, queue, hqueue, hrecords⟩ := hind
      obtain rfl : signal = .enumerated := by simpa [hqueue] using hq
      cases cb with
      | enumerate finger remaining =>
        have hz : finger = 0 := not_not.mp (hrecords rfl)
        simp [AndroidFP.callback, AndroidFP.enumerateCallback, hz]
      | _ => exact AndroidFP.callback_m_fingers (by simp)
    have htouched := step_touched (s.fpd.m_androidFP.callback env.hal cb).signals
      h.loop h.queued hfingers
    have hcallback := callback_writes h s.fpd.m_androidFP
    have hfirst : daemon.step s ⟨.callback cb, env⟩ = (s.touched _ _, _) := step_callback s env cb
    have hsecond := step_callback (daemon.step s i).1 env cb
    rw [step_writes h.loop, hcallback] at hsecond
    refine ⟨?_, ?_, ?_⟩
    · rw [hsecond, hfirst, htouched]
      rfl
    · rw [hfirst, htouched]
    · rw [hsecond, hfirst]
  stable := by
    rintro s i ⟨_, env⟩ k ⟨cb, rfl, -⟩ h
    exact h.touched _ _

/-- **The interleaving does not matter.** Two runs with the same callbacks and the same steps of the
loop end in the same state, and every callback makes the same requests, every call gets the same
answer and every handler sends the same, when each step of the loop is independent of the callbacks
that come after it in one run and before it in the other. -/
theorem interleaving_irrelevant {is js : List Input}
    (hcallbacks : is.filter Input.isCallback = js.filter Input.isCallback)
    (hloop : (is.filter fun i => !i.isCallback) = js.filter fun i => !i.isCallback)
    (hforth : daemon.Permits Independent Input.isCallback s is js)
    (hback : daemon.Permits Independent Input.isCallback s js is) :
    daemon.final s is = daemon.final s js ∧
      daemon.sideOutputs Input.isCallback s is = daemon.sideOutputs Input.isCallback s js ∧
      daemon.sideOutputs (fun i => !i.isCallback) s is =
        daemon.sideOutputs (fun i => !i.isCallback) s js := by
  have h : daemon.Reordering Independent Input.isCallback s is js :=
    ⟨hcallbacks, hloop, hforth, hback⟩
  obtain ⟨hfinal, hleft, hright⟩ := h.sameRun independence
  exact ⟨hfinal, hleft, hright⟩

end Commuting

/-- A match that comes before the miss before it has been looked at. -/
theorem interleaving_irrelevant_identify :
    letI := qt56
    let env := Env.answering SYS_OK
    let s : System := { fpd := { m_fingerMap := (∅ : FingerMap).insert 7 "left" } }
    let identify : Input := ⟨.call ":1.5" .Identify, env⟩
    let miss : Input := ⟨.callback (.authenticated 0), env⟩
    let found : Input := ⟨.callback (.authenticated 7), env⟩
    let deliver : Input := ⟨.deliver, env⟩
    daemon.final s [identify, miss, deliver, found, deliver] =
        daemon.final s [identify, miss, found, deliver, deliver] ∧
      daemon.sideOutputs (fun i => !i.isCallback) s [identify, miss, deliver, found, deliver] =
        daemon.sideOutputs (fun i => !i.isCallback) s
          [identify, miss, found, deliver, deliver] := by
  let := qt56
  intro env s identify miss found deliver
  have h : daemon.Reordering Independent Input.isCallback s
      [identify, miss, deliver, found, deliver] [identify, miss, found, deliver, deliver] := by
    refine (reordering_append independence [] rfl (by simp)).mpr ⟨by simp, ?_⟩
    refine (reordering_cons rfl).mpr ?_
    refine (reordering_append independence [found] rfl ?_).mpr ⟨?_, ?_⟩
    · simp [found, Input.isCallback]
    · intro j hj
      obtain rfl := List.mem_singleton.mp hj
      exact ⟨_, rfl, _, _, rfl, by simp⟩
    · refine (reordering_cons rfl).mpr ?_
      exact (reordering_append independence [] rfl (by simp)).mpr
        ⟨by simp, reordering_nil _⟩
  obtain ⟨hfinal, -, hright⟩ := interleaving_irrelevant h.left h.right h.forth h.back
  exact ⟨hfinal, hright⟩

/-- A race: a report that comes just before the `Remove` instead of after it is lost. -/
example :
    letI := qt56
    let env := Env.answering SYS_OK
    let s : System := { fpd := { m_fingerMap := (∅ : FingerMap).insert 7 "left"
                                 m_androidFP := { m_removingFinger := 3 } } }
    let remove : Input := ⟨.call ":1.5" (.Remove "left"), env⟩
    let report : Input := ⟨.callback (.removed 7 0), env⟩
    (daemon.final s [remove, report]).queue = [.removed 7] ∧
      (daemon.final s [report, remove]).queue = [] := by decide

end SailfishFpd
