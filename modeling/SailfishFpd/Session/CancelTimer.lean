import SailfishFpd.Session.Control
import SailfishFpd.QtStream

/-!
# The identify timeout

`abort` and `slot_authenticated` stop `m_cancelTimer`; the other ways out of
`FPSTATE_IDENTIFYING` do not. `LeavesTimer` names the steps that take one of
them. A run keeps the timer to the identification it was started for exactly
when it makes none of these steps.
-/

namespace SailfishFpd

open Reactive.Machine (visits_iff_along along_true)

/-- The timer runs exactly while an identification does. -/
def Control.TimerOk (c : Control) : Prop := c.armed = true ↔ c.state = .FPSTATE_IDENTIFYING

/-- The moves that end an identification and leave its timer running. -/
def Move.LeaksTimer (c : Control) : Move → Prop
  | .bounce _ .Identify => True
  | .finish e => c.state = .FPSTATE_IDENTIFYING ∧ e.keepsTimer = true
  | _ => False

theorem Control.timerOk_apply {c : Control} {m : Move} (he : m.Enabled c) (h : c.TimerOk) :
    (c.apply m).TimerOk ↔ ¬ m.LeaksTimer c := by
  unfold TimerOk at *
  cases m with
  | stay => simpa [apply, Move.LeaksTimer] using h
  | start caller call =>
    have ha : c.armed ≠ true := fun ha => by simpa [he.1] using h.mp ha
    cases call <;> simp_all [apply, prepare, Call.busyState, Move.LeaksTimer]
  | bounce caller call =>
    have ha : c.armed ≠ true := fun ha => by simpa [he.1] using h.mp ha
    cases call <;> simp_all [apply, prepare, Move.LeaksTimer]
  | finish e => simp [apply, Move.LeaksTimer, ← h]

/-- The signals whose slots end an identification without stopping its timer. -/
def Signal.EndsSilently : Signal → Prop
  | .failed message => message ≠ "FINGER_NOT_RECOGNIZED"
  | .succeeded _ | .removed _ | .enumerated => True
  | .authenticated _ | .enrollProgress _ | .acquired _ => False

/-- The step ends an identification and leaves its timer running: the HAL refuses the request of
`Identify`, or a slot that does not stop the timer ends the running identification. -/
def LeavesTimer (s : System) (i : Input) : Prop :=
  match i.event with
  | .call caller .Identify =>
    s.fpd.requestOf caller .Identify ≠ none ∧ i.env.hal (.authenticate 0 0) ≠ SYS_OK
  | .deliver =>
    s.fpd.m_state = .FPSTATE_IDENTIFYING ∧ ∃ signal queue, s.queue = signal :: queue ∧
      signal.EndsSilently
  | _ => False

theorem leavesTimer_iff (s : System) (i : Input) :
    LeavesTimer s i ↔ (s.move i).LeaksTimer s.fpd.control := by
  obtain ⟨event, env⟩ := i
  cases event with
  | call caller c =>
    simp only [System.move]
    rcases FPDCommunity.callMove_cases s.fpd env.hal caller c with
      ⟨h, hm⟩ | ⟨rfl, -, -, hm⟩ | ⟨r, h, hr, hm⟩ | ⟨r, h, hr, hm⟩ <;> rw [hm]
    · cases c <;> simp [LeavesTimer, Move.LeaksTimer, h]
    · simp [LeavesTimer, Move.LeaksTimer, Ending.keepsTimer]
    · cases c with
      | Identify =>
        obtain ⟨-, rfl⟩ := FPDCommunity.requests_of_some h
        simp [LeavesTimer, Move.LeaksTimer, hr]
      | _ => simp [LeavesTimer, Move.LeaksTimer]
    · cases c with
      | Identify =>
        obtain ⟨-, rfl⟩ := FPDCommunity.requests_of_some h
        simp [LeavesTimer, Move.LeaksTimer, h, hr]
      | _ => simp [LeavesTimer, Move.LeaksTimer]
  | timeout => by_cases ht : s.fpd.m_cancelTimer <;>
      simp [LeavesTimer, System.move, ht, Move.LeaksTimer, Ending.keepsTimer]
  | callback cb => simp [LeavesTimer, System.move, Move.LeaksTimer]
  | deliver =>
    obtain ⟨d, queue⟩ := s
    cases queue with
    | nil => simp [LeavesTimer, System.move, Move.LeaksTimer]
    | cons signal queue =>
      cases signal with
      | failed message =>
        by_cases ht : d.tolerates message
        · have : ¬ (d.m_state = .FPSTATE_IDENTIFYING ∧ message ≠ "FINGER_NOT_RECOGNIZED") := by
            rcases ht with h | h <;> simp [h]
          simpa [LeavesTimer, System.move, FPDCommunity.signalMove, ht, Move.LeaksTimer,
            Signal.EndsSilently] using this
        · have : d.m_state = .FPSTATE_IDENTIFYING → message ≠ "FINGER_NOT_RECOGNIZED" :=
            fun hs hm => ht (.inr ⟨hs, hm⟩)
          simpa [LeavesTimer, System.move, FPDCommunity.signalMove, ht, Move.LeaksTimer,
            Signal.EndsSilently, Ending.keepsTimer] using this
      | enrollProgress pc =>
        by_cases hv : d.m_state = .FPSTATE_VERIFYING <;>
          simp [LeavesTimer, System.move, FPDCommunity.signalMove, hv, Move.LeaksTimer,
            Signal.EndsSilently]
      | _ =>
        simp [LeavesTimer, System.move, FPDCommunity.signalMove, Move.LeaksTimer,
          Signal.EndsSilently, Ending.keepsTimer]

section Runs

variable (env : Env) (getprop : String → String) (database : Option (List UInt8))

theorem boot_timerOk : (boot env getprop database).fpd.control.TimerOk := by
  rw [boot_control, Control.TimerOk]
  by_cases h : env.hal .enumerate = SYS_OK <;> simp [h]

variable [QDataStream]

theorem timerOk_step {s : System} {i : Input} (h : s.fpd.control.TimerOk) :
    (daemon.step s i).1.fpd.control.TimerOk ↔ ¬ LeavesTimer s i := by
  rw [(step_makes s i).1, Control.timerOk_apply (s.move_enabled i) h, leavesTimer_iff]

theorem armed_of_identifying (is : List Input) :
    daemon.Visits (boot env getprop database) is fun _ s =>
      s.fpd.m_state = .FPSTATE_IDENTIFYING → s.fpd.m_cancelTimer = true := by
  refine daemon.visits_invariant (I := fun s : System =>
    s.fpd.control.state = .FPSTATE_IDENTIFYING → s.fpd.control.armed = true) (fun s i h => ?_)
    (boot_timerOk env getprop database).mpr is
  rw [(step_makes s i).1]
  cases s.move i with
  | stay => exact h
  | start caller c => cases c <;> simp [Control.apply, Control.prepare, Call.busyState]
  | bounce caller c => simp [Control.apply]
  | finish e => simp [Control.apply]

theorem step_timeout_idle {s : System} {i : Input} (hi : i.event = .timeout)
    (h : s.fpd.m_cancelTimer = false) : daemon.step s i = (s, {}) := by
  simp [daemon, System.step, hi, h]

/-- **The timeout belongs to the identification, exactly in the runs that never leave the timer
behind**: it runs only while identifying, and an expiry does nothing at any other time. -/
theorem timer_belongs_to_identify (is : List Input) :
    (daemon.Visits (boot env getprop database) is fun _ s =>
        s.fpd.m_cancelTimer = true → s.fpd.m_state = .FPSTATE_IDENTIFYING) ∧
      (daemon.Along (boot env getprop database) is fun _ e =>
        e.input.event = .timeout → e.src.fpd.m_state ≠ .FPSTATE_IDENTIFYING →
          e.dst = e.src ∧ e.out = {}) ↔
    daemon.Along (boot env getprop database) is fun _ e => ¬ LeavesTimer e.src e.input := by
  have hiff : (daemon.Visits (boot env getprop database) is fun _ s => s.fpd.control.TimerOk) ↔
      daemon.Along (boot env getprop database) is fun _ e => ¬ LeavesTimer e.src e.input :=
    visits_iff_along along_true (boot_timerOk env getprop database) fun _ _ _ h _ => timerOk_step h
  rw [← hiff]
  refine ⟨?_, ?_⟩
  · rintro ⟨h, -⟩ js ks e
    exact ⟨h js ks e, armed_of_identifying env getprop database is js ks e⟩
  · intro h
    refine ⟨h.mono fun _ _ hi => hi.mp, fun js i ks e ht hs => ?_⟩
    have hoff : (daemon.final (boot env getprop database) js).fpd.m_cancelTimer = false := by
      by_contra hon
      exact hs ((h js (i :: ks) e).mp (by simpa using hon))
    have hstep := step_timeout_idle (i := i) ht hoff
    exact ⟨congrArg Prod.fst hstep, congrArg Prod.snd hstep⟩

end Runs

/-- The HAL refuses the request of `Identify`; another client then enrols, and the timeout of the
identification that never ran ends that enrolment. -/
theorem timeout_ends_enrolment :
    letI := qt56
    let s := daemon.final (boot (.answering SYS_OK) (fun _ => "") none)
      [⟨.callback (.enumerate 7 0), .answering SYS_OK⟩, ⟨.deliver, .answering SYS_OK⟩,
        ⟨.call ":1.5" .Identify, .answering SYS_EBUSY⟩,
        ⟨.call ":1.9" (.Enroll "left"), .answering SYS_OK⟩]
    s.fpd.m_cancelTimer = true ∧ s.fpd.m_state = .FPSTATE_ENROLLING ∧
      s.fpd.m_dbusCaller = ":1.9" ∧
      (daemon.step s ⟨.timeout, .answering SYS_OK⟩).2.out =
        [.request .cancel SYS_OK, .signal .Failed, .signal (.StateChanged "FPSTATE_IDLE")] := by
  decide

end SailfishFpd
