import SailfishFpd.Lib.Worker
import SailfishFpd.Threads.Interleaving

/-!
# Callbacks are atomic

The daemon's model runs a callback at once. The HAL's thread runs it one access
at a time, to a field of `AndroidFP` or to the queue, and the event loop can
come in between any two. `CallbackCode` is that finer level. Unless the loop
takes a step that races with the callback under way, the two levels have the
same traces.
-/

namespace SailfishFpd

open FPDCommunity
open Reactive
open Reactive.Machine

/-- A callback as the accesses it makes. It shows its requests; what they will be answered is given
with the callback. -/
abbrev CallbackCode := Program System (Request × Int)

namespace CallbackCode

def read {β : Type} (field : AndroidFP → β) (next : β → CallbackCode) : CallbackCode :=
  .access id (fun _ => []) fun s => next (field s.fpd.m_androidFP)

def write (f : AndroidFP → AndroidFP) (next : CallbackCode) : CallbackCode :=
  .access (fun s => { s with fpd := s.fpd.withFP (f s.fpd.m_androidFP) }) (fun _ => [])
    fun _ => next

def emit (signal : Signal) (next : CallbackCode) : CallbackCode :=
  .access (fun s => { s with queue := s.queue ++ [signal] }) (fun _ => []) fun _ => next

def request (hal : Hal) (r : Request) (next : Int → CallbackCode) : CallbackCode :=
  .access id (fun _ => [(r, hal r)]) fun _ => next (hal r)

def enrollCallback (hal : Hal) (finger remaining : UInt32) : CallbackCode :=
  if 0 < remaining then
    let report := read (·.m_enrollRemaining) fun m_enrollRemaining =>
      .done |> emit (.enrollProgress (AndroidFP.progress remaining m_enrollRemaining))
    read (·.m_enrollRemaining) fun m_enrollRemaining =>
      if m_enrollRemaining = 0 then
        report |> write fun a => { a with m_enrollRemaining := ((remaining + 1).toNat : Rat) }
      else report
  else
    emit (.enrollProgress (some 1)) <| request hal .postEnroll fun ret =>
      .done |> emit (if ret = SYS_OK then .succeeded finger
        else .failed (IntToStringRequestStatus ret))

/-- `m_removingFinger` is read once or twice for the condition, and again for the signal. -/
def removeCallback (finger remaining : UInt32) : CallbackCode :=
  let report := read (·.m_removingFinger) fun m_removingFinger =>
    emit (.removed (if m_removingFinger = 0 then 0 else finger)) <|
      .done |> write fun a => { a with m_removingFinger := 0 }
  let last := if remaining = 0 then report else .done
  read (·.m_removingFinger) fun m_removingFinger =>
    if finger = m_removingFinger then last
    else read (·.m_removingFinger) fun m_removingFinger =>
      if m_removingFinger = 0 then last else .done

def enumerateCallback (finger remaining : UInt32) : CallbackCode :=
  let report := if remaining = 0 then .done |> emit .enumerated else .done
  if finger ≠ 0 then report |> write fun a => { a with m_fingers := a.m_fingers ++ [finger] }
  else report

def callback (hal : Hal) (cb : Callback) : CallbackCode :=
  match cb with
  | .enrollresult fingerId remaining => enrollCallback hal fingerId remaining
  | .acquired info => .done |> emit (.acquired info)
  | .authenticated fingerId =>
    .done |> emit (if fingerId ≠ 0 then .authenticated fingerId
      else .failed "FINGER_NOT_RECOGNIZED")
  | .removed fingerId remaining => removeCallback fingerId remaining
  | .enumerate fingerId remaining => enumerateCallback fingerId remaining
  | .error error vendorCode =>
    if error = ERROR_NO_ERROR then .done
    else .done |> emit (.failed (IntToStringFingerprintError error vendorCode))

section Run

variable {s : System}

@[simp] theorem run_read {β : Type} (field : AndroidFP → β) (next : β → CallbackCode) :
    (read field next).run s = (next (field s.fpd.m_androidFP)).run s := by
  simp [read]

@[simp] theorem run_write (f : AndroidFP → AndroidFP) (next : CallbackCode) :
    (write f next).run s =
      next.run { s with fpd := s.fpd.withFP (f s.fpd.m_androidFP) } := by
  simp [write]

@[simp] theorem run_emit (signal : Signal) (next : CallbackCode) :
    (emit signal next).run s = next.run { s with queue := s.queue ++ [signal] } := by
  simp [emit]

@[simp] theorem run_request (hal : Hal) (r : Request) (next : Int → CallbackCode) :
    (request hal r next).run s =
      (((next (hal r)).run s).1, (r, hal r) :: ((next (hal r)).run s).2) := by
  simp [request]

theorem run_removeCallback (finger remaining : UInt32) :
    (removeCallback finger remaining).run s =
      let r := s.fpd.m_androidFP.removeCallback finger remaining
      (s.touched r.self r.signals, r.requests) := by
  by_cases hm : finger = s.fpd.m_androidFP.m_removingFinger ∨ s.fpd.m_androidFP.m_removingFinger = 0
  · by_cases hr : remaining = 0
    · have hdone : s.fpd.m_androidFP.removeCallback finger remaining = _ := if_pos ⟨hm, hr⟩
      rw [hdone]
      by_cases hf : finger = s.fpd.m_androidFP.m_removingFinger
      · simp [removeCallback, hr, ← hf, System.touched]
      · have hz := hm.resolve_left hf
        have hne : finger ≠ 0 := fun h => hf (h.trans hz.symm)
        simp [removeCallback, hr, hz, hne, System.touched]
    · have hskip : s.fpd.m_androidFP.removeCallback finger remaining = _ :=
        if_neg fun h => hr h.2
      rw [hskip]
      by_cases hf : finger = s.fpd.m_androidFP.m_removingFinger
      · simp [removeCallback, hr, ← hf, System.touched]
      · simp [removeCallback, hr, hf, System.touched]
  · have hskip : s.fpd.m_androidFP.removeCallback finger remaining = _ := if_neg fun h => hm h.1
    rw [hskip]
    simp [removeCallback, not_or.mp hm, System.touched]

theorem run_callback (hal : Hal) (cb : Callback) :
    (callback hal cb).run s =
      let r := s.fpd.m_androidFP.callback hal cb
      (s.touched r.self r.signals, r.requests) := by
  cases cb with
  | enrollresult fingerId remaining =>
    by_cases hr : 0 < remaining
    · by_cases hz : s.fpd.m_androidFP.m_enrollRemaining = 0
      · simp [callback, enrollCallback, AndroidFP.callback, AndroidFP.enrollCallback, hr, hz,
          System.touched]
      · simp [callback, enrollCallback, AndroidFP.callback, AndroidFP.enrollCallback, hr, hz,
          System.touched]
        rfl
    · simp [callback, enrollCallback, AndroidFP.callback, AndroidFP.enrollCallback, hr,
        System.touched]
  | acquired info => simp [callback, AndroidFP.callback, AndroidFP.acquiredCallback, System.touched]
  | authenticated fingerId =>
    by_cases hf : fingerId = 0 <;> simp [callback, AndroidFP.callback, hf, System.touched]
  | removed fingerId remaining =>
    simp only [AndroidFP.callback, callback]
    exact run_removeCallback fingerId remaining
  | enumerate fingerId remaining =>
    by_cases hf : fingerId = 0 <;> by_cases hr : remaining = 0 <;>
      simp [callback, enumerateCallback, AndroidFP.callback, AndroidFP.enumerateCallback, hf, hr,
        System.touched]
  | error error vendorCode =>
    by_cases he : error = ERROR_NO_ERROR <;>
      simp [callback, AndroidFP.callback, he, System.touched]

end Run

/-! ## Steps of the loop between two accesses -/

section Yields

variable [QDataStream] {i j : Input}

theorem yields_read {β : Type} {field : AndroidFP → β} {next : β → CallbackCode}
    (hfield : ∀ s a, Independent s i j → field (i.writes s a) = field a)
    (h : ∀ b, (next b).Yields daemon i (Independent · i j)) :
    (read field next).Yields daemon i (Independent · i j) := by
  refine ⟨fun s hs => ⟨hs, rfl, rfl, ?_⟩, fun s => h _⟩
  have hsame : field (daemon.step s i).1.fpd.m_androidFP = field s.fpd.m_androidFP := by
    rw [step_writes hs.loop, hfield s _ hs]
  exact congrArg next hsame

theorem yields_write {f : AndroidFP → AndroidFP} {next : CallbackCode}
    (hf : ∀ s a, Independent s i j → f (i.writes s a) = i.writes s (f a))
    (hfingers : ∀ s a, Independent s i j → i.event = .deliver →
      s.queue.head? = some .enumerated → (f a).m_fingers = a.m_fingers)
    (h : next.Yields daemon i (Independent · i j)) :
    (write f next).Yields daemon i (Independent · i j) := by
  refine ⟨fun s hs => ?_, fun _ => h⟩
  have htouched : ∀ (t : System) a, { t with fpd := t.fpd.withFP a } = t.touched a [] := by
    simp [System.touched]
  simp only [htouched]
  refine ⟨hs.touched _ _, ?_, trivial, trivial⟩
  rw [step_touched _ hs.loop hs.queued (hfingers s _ hs), step_writes hs.loop, hf s _ hs]

theorem yields_emit {signal : Signal} {next : CallbackCode}
    (h : next.Yields daemon i (Independent · i j)) :
    (emit signal next).Yields daemon i (Independent · i j) := by
  refine ⟨fun s hs => ⟨hs.touched _ _, ?_, rfl, rfl⟩, fun _ => h⟩
  have hstep := step_touched [signal] hs.loop hs.queued fun _ _ => rfl
  rw [← step_writes hs.loop] at hstep
  exact hstep

theorem yields_request {hal : Hal} {r : Request} {next : Int → CallbackCode}
    (h : ∀ ret, (next ret).Yields daemon i (Independent · i j)) :
    (request hal r next).Yields daemon i (Independent · i j) :=
  ⟨fun _ hs => ⟨hs, rfl, rfl, rfl⟩, fun _ => h _⟩

theorem yields_enrollCallback {env : Env} {finger remaining : UInt32}
    (hj : j = ⟨.callback (.enrollresult finger remaining), env⟩) :
    (enrollCallback env.hal finger remaining).Yields daemon i (Independent · i j) := by
  subst hj
  by_cases hr : 0 < remaining
  · have hsame : ∀ (s : System) (a : AndroidFP) (m : Rat),
        Independent s i ⟨.callback (.enrollresult finger remaining), env⟩ →
          (i.writes s a).m_enrollRemaining = a.m_enrollRemaining ∧
            { i.writes s a with m_enrollRemaining := m } =
              i.writes s { a with m_enrollRemaining := m } := by
      intro s a m h
      obtain hw | ⟨c, hc, hw⟩ := h.writes_cases
      · rw [hw, hw]
        exact ⟨rfl, rfl⟩
      · rw [hw, hw]
        cases c with
        | Enroll finger => exact absurd hr hc
        | Verify => exact absurd hr hc
        | _ => exact ⟨rfl, rfl⟩
    have hfield := fun s a h => (hsame s a 0 h).1
    have hreport : (read (·.m_enrollRemaining) fun m =>
        .done |> emit (.enrollProgress (AndroidFP.progress remaining m)) : CallbackCode).Yields
          daemon i (Independent · i ⟨.callback (.enrollresult finger remaining), env⟩) :=
      yields_read hfield fun _ => yields_emit trivial
    simp only [enrollCallback, hr, if_true]
    refine yields_read hfield fun m => ?_
    split
    · exact yields_write (fun s a h => (hsame s a _ h).2) (fun _ _ _ _ _ => rfl) hreport
    · exact hreport
  · simp only [enrollCallback, hr, if_false]
    exact yields_emit (yields_request fun _ => yields_emit trivial)

theorem yields_removeCallback {env : Env} {finger remaining : UInt32}
    (hj : j = ⟨.callback (.removed finger remaining), env⟩) :
    (removeCallback finger remaining).Yields daemon i (Independent · i j) := by
  subst hj
  have hsame : ∀ (s : System) (a : AndroidFP),
      Independent s i ⟨.callback (.removed finger remaining), env⟩ →
        (i.writes s a).m_removingFinger = a.m_removingFinger ∧
          { i.writes s a with m_removingFinger := 0 } =
            i.writes s { a with m_removingFinger := 0 } := by
    intro s a h
    obtain hw | ⟨c, hc, hw⟩ := h.writes_cases
    · rw [hw, hw]
      exact ⟨rfl, rfl⟩
    · rw [hw, hw]
      cases c with
      | Remove finger => exact absurd trivial hc
      | Clear => exact absurd trivial hc
      | _ => exact ⟨rfl, rfl⟩
  have hfield := fun s a h => (hsame s a h).1
  have hlast : (if remaining = 0 then
      read (·.m_removingFinger) fun m => emit (.removed (if m = 0 then 0 else finger)) <|
        .done |> write fun a => { a with m_removingFinger := 0 }
      else .done : CallbackCode).Yields daemon i
        (Independent · i ⟨.callback (.removed finger remaining), env⟩) := by
    split
    · refine yields_read hfield fun m => yields_emit ?_
      exact yields_write (fun s a h => (hsame s a h).2) (fun _ _ _ _ _ => rfl) trivial
    · trivial
  simp only [removeCallback]
  refine yields_read hfield fun m => ?_
  split
  · exact hlast
  · refine yields_read hfield fun m => ?_
    split
    · exact hlast
    · trivial

theorem yields_enumerateCallback {env : Env} {finger remaining : UInt32}
    (hj : j = ⟨.callback (.enumerate finger remaining), env⟩) :
    (enumerateCallback finger remaining).Yields daemon i (Independent · i j) := by
  subst hj
  have hreport : (if remaining = 0 then .done |> emit .enumerated
      else .done : CallbackCode).Yields daemon i
        (Independent · i ⟨.callback (.enumerate finger remaining), env⟩) := by
    split
    · exact yields_emit trivial
    · trivial
  by_cases hf : finger = 0
  · simpa [enumerateCallback, hf] using hreport
  · simp only [enumerateCallback, ne_eq, hf, not_false_eq_true, if_true]
    refine yields_write ?_ ?_ hreport
    · intro s a h
      obtain hw | ⟨c, hc, hw⟩ := h.writes_cases
      · rw [hw, hw]
      · rw [hw, hw]
        cases c <;> rfl
    · -- the loop is not about to read the record
      intro s a h hi hq
      obtain ⟨cb, hcb, h⟩ := h
      obtain rfl : Callback.enumerate finger remaining = cb := by simpa using hcb
      rw [hi] at h
      obtain ⟨signal, queue, hqueue, hrecords⟩ := h
      obtain rfl : signal = .enumerated := by simpa [hqueue] using hq
      exact absurd hf (hrecords rfl)

/-- Between any two accesses, a step of the loop that does not race with the callback might as well
come after it. -/
theorem yields_callback (cb : Callback) (env : Env) :
    (callback env.hal cb).Yields daemon i (Independent · i ⟨.callback cb, env⟩) := by
  cases cb with
  | enrollresult finger remaining => exact yields_enrollCallback rfl
  | acquired info => exact yields_emit trivial
  | authenticated finger => exact yields_emit trivial
  | removed finger remaining => exact yields_removeCallback rfl
  | enumerate finger remaining => exact yields_enumerateCallback rfl
  | error error vendorCode =>
    by_cases he : error = ERROR_NO_ERROR
    · simp [callback, he, Program.Yields]
    · simp only [callback, he, if_false]
      exact yields_emit trivial

end Yields

end CallbackCode

/-! ## The two levels -/

/-- The code of a callback. -/
def Input.code (i : Input) : Option CallbackCode :=
  match i.event with
  | .callback cb => some (CallbackCode.callback i.env.hal cb)
  | _ => none

/-- There is nothing to deliver. -/
def Input.idle (s : System) (i : Input) : Bool :=
  decide (i.event = .deliver) && s.queue.isEmpty

variable [QDataStream]

theorem concurrent : Concurrent daemon Input.code Input.idle Independent where
  runs := by
    rintro s ⟨event, env⟩ p hp
    cases event with
    | callback cb =>
      obtain rfl : CallbackCode.callback env.hal cb = p := by simpa [Input.code] using hp
      rw [CallbackCode.run_callback]
      rfl
    | _ => cases hp
  rests := by
    rintro s ⟨event, env⟩ h
    obtain ⟨rfl, hq⟩ : event = .deliver ∧ s.queue = [] := by simpa [Input.idle] using h
    simp [daemon, System.step, hq]
  acts := by
    rintro s i j h
    by_cases hi : i.event = .deliver
    · simp [Input.idle, h.queued hi]
    · simp [Input.idle, hi]
  yields := by
    rintro i ⟨event, env⟩ p hi hp
    cases event with
    | callback cb =>
      obtain rfl : CallbackCode.callback env.hal cb = p := by simpa [Input.code] using hp
      exact CallbackCode.yields_callback cb env
    | _ => cases hp

/-- **Callbacks are atomic.** The runs of the daemon have the traces of the runs in which the HAL's
thread makes one access at a time, its callbacks are finished and the loop takes no step that races
with the callback under way. -/
theorem callbacks_atomic (s : System) :
    {tr | ∃ is, daemon.trace Input.code Input.idle s is = tr} =
      {tr | ∃ turns : List (Turn Input),
        (daemon.threaded Input.code).Along ⟨s, none⟩ turns
          (fun _ e => Undisturbed Input.code Input.idle Independent e) ∧
        ((daemon.threaded Input.code).final ⟨s, none⟩ turns).worker = none ∧
        daemon.threadTrace Input.code Input.idle ⟨s, none⟩ turns = tr} :=
  traces_threaded concurrent s

/-- A race: a `Remove` that comes between the report of another removal and the reset of
`m_removingFinger` is forgotten, and its own report empties the list. -/
example :
    letI := qt56
    let env := Env.answering SYS_OK
    let s : System :=
      { fpd := { m_state := .FPSTATE_REMOVING, m_dbusCaller := ":1.5"
                 m_fingerMap := ((∅ : FingerMap).insert 3 "left").insert 7 "right"
                 m_androidFP := { m_removingFinger := 3 } } }
    let report := fun finger => Turn.take (⟨.callback (.removed finger 0), env⟩ : Input)
    let remove := Turn.take (⟨.call ":1.5" (.Remove "right"), env⟩ : Input)
    let deliver := Turn.take (⟨.deliver, env⟩ : Input)
    let t := (daemon.threaded Input.code).final ⟨s, none⟩
      [report 3, .work, .work, .work, deliver, remove, .work, .work,
        report 7, .work, .work, .work, .work, .work, deliver]
    t.shared.fpd.GetAll = [] := by decide +kernel

end SailfishFpd
