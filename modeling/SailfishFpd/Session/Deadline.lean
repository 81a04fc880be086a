import SailfishFpd.Lib.Timer
import SailfishFpd.Session.CancelTimer
import SailfishFpd.Session.History

/-!
# The timeout in real time

`m_cancelTimer` is single-shot, with an interval of 30 s; `Identify` starts it,
anew where it still runs. In a run beside a clock in which the timer is punctual
no identification lasts longer than 30 s, none times out earlier, and a timer
that was left running does its harm within 30 s of the last `Identify`.
-/

namespace SailfishFpd

open FPDCommunity
open Reactive (Clocked Timed Timer Punctual untimed)
open Reactive.Machine (ClockedEdge latest latest_snoc along_true)

/-- `m_cancelTimer.setInterval(30000)`, started by an `Identify` that passes its checks. -/
def cancelTimer : Timer System Input where
  interval := 30000
  active s := s.fpd.m_cancelTimer
  starts s i :=
    match i.event with
    | .call caller .Identify => (s.fpd.requestOf caller .Identify).isSome
    | _ => false
  expires i := i.event = .timeout

@[simp] theorem cancelTimer_interval : cancelTimer.interval = 30000 := rfl

/-- The daemon when the constructor has returned, at time `0`. -/
def clockedBoot (env : Env) (getprop : String → String) (database : Option (List UInt8)) :
    Clocked System :=
  { state := boot env getprop database }

theorem clockedBoot_off (env : Env) (getprop : String → String) (database : Option (List UInt8)) :
    ¬ cancelTimer.active (clockedBoot env getprop database).state := by
  simp [cancelTimer, clockedBoot, boot_fpd]

/-- The last accepted operation with its time and its caller. -/
def acceptedAt (past : List (ClockedEdge System Input Response)) :
    Option (Nat × String × Call) :=
  latest (fun e : ClockedEdge System Input Response =>
    (e.untimed?.bind accepted).map fun p => (e.src.now, p)) past

variable [QDataStream]

theorem accepted_iff {s : System} {i : Input} {caller : String} {c : Call} :
    accepted (daemon.edge s i) = some (caller, c) ↔
      i.event = .call caller c ∧ (s.fpd.requestOf caller c).isSome := by
  obtain ⟨event, env⟩ := i
  cases event with
  | call caller' c' =>
    have haccepted := acceptedBy_eq s env caller' c'
    simp only [accepted, daemon.edge_input, daemon.edge_out, haccepted]
    constructor
    · intro h
      split at h
      · cases h
        exact ⟨rfl, ‹_›⟩
      · cases h
    · rintro ⟨h, hr⟩
      cases h
      rw [if_pos hr]
  | _ => simp [accepted]

theorem starts_iff {s : System} {i : Input} :
    cancelTimer.starts s i ↔ ∃ caller, accepted (daemon.edge s i) = some (caller, .Identify) := by
  simp only [accepted_iff]
  obtain ⟨event, env⟩ := i
  cases event with
  | call caller c => cases c <;> simp [cancelTimer]
  | _ => simp [cancelTimer]

theorem active_step (s : System) (i : Input) (h : cancelTimer.active (daemon.step s i).1) :
    cancelTimer.active s ∨ cancelTimer.starts s i := by
  have harmed : (s.fpd.control.apply (s.move i)).armed = true := by
    rw [← (step_makes s i).1]
    exact h
  by_cases hs : cancelTimer.starts s i
  · exact .inr hs
  · have hno : ∀ caller, (s.move i).started ≠ some (caller, .Identify) := by
      intro caller hm
      exact hs (starts_iff.mpr ⟨caller, (accepted_edge s i).trans hm⟩)
    refine .inl (?_ : s.fpd.control.armed = true)
    cases hm : s.move i with
    | stay => rwa [hm] at harmed
    | start caller c | bounce caller c =>
      rw [hm] at harmed hno
      cases c with
      | Identify => exact absurd rfl (hno caller)
      | _ => exact harmed
    | finish e =>
      rw [hm] at harmed
      exact (Bool.and_eq_true_iff.mp harmed).1

/-- The time of the last accepted operation is that of the timer when it is an `Identify`. -/
def IdentifyStarts (past : List (ClockedEdge System Input Response)) : Prop :=
  ∀ t caller, acceptedAt past = some (t, caller, .Identify) → cancelTimer.startedAt past = some t

theorem identifyStarts_step {past : List (ClockedEdge System Input Response)}
    (h : IdentifyStarts past) (c : Clocked System) (i : Timed Input) :
    IdentifyStarts (past ++ [(daemon.clocked cancelTimer).edge c i]) := by
  intro t caller ht
  rw [acceptedAt, latest_snoc] at ht
  cases i with
  | elapse ms =>
    rw [Timer.startedAt_elapse]
    exact h t caller ht
  | step i =>
    rw [Timer.startedAt_step]
    rw [Reactive.untimed?_step, Option.bind_some] at ht
    cases ha : accepted (daemon.edge c.state i) with
    | none =>
      have hno : ¬ cancelTimer.starts c.state i := by simp [starts_iff, ha]
      rw [ha] at ht
      rw [if_neg hno]
      exact h t caller ht
    | some p =>
      rw [ha] at ht
      obtain ⟨rfl, rfl⟩ : c.now = t ∧ p = (caller, .Identify) := by simpa using ht
      rw [if_pos (starts_iff.mpr ⟨caller, ha⟩)]

omit [QDataStream] in
/-- Beside the clock, the last accepted operation is what it is without. -/
theorem lastAccepted_untimed (past : List (ClockedEdge System Input Response)) :
    lastAccepted (untimed past) = (acceptedAt past).map (·.2) := by
  rw [lastAccepted, Reactive.latest_untimed]
  induction past using List.reverseRecOn with
  | nil => rfl
  | append_singleton past e ih =>
    rw [acceptedAt, latest_snoc, latest_snoc, ih]
    cases e.untimed?.bind accepted <;> simp [acceptedAt]

section Runs

variable (env : Env) (getprop : String → String) (database : Option (List UInt8))

theorem visits_identifying {late : Nat} {is : List (Timed Input)}
    (h : (daemon.clocked cancelTimer).Visits (clockedBoot env getprop database) is
      fun past c => Punctual.Running cancelTimer late past c) :
    (daemon.clocked cancelTimer).Visits (clockedBoot env getprop database) is fun past c =>
      c.state.fpd.m_state = .FPSTATE_IDENTIFYING →
        acceptedAt past = some (c.since, c.state.fpd.m_dbusCaller, .Identify) ∧
          c.since ≤ c.now ∧ c.now ≤ c.since + 30000 + late := by
  have harmed := Reactive.Machine.Visits.clocked (T := cancelTimer)
    (c := clockedBoot env getprop database) (armed_of_identifying env getprop database
      (is.filterMap Timed.input?))
  have htracks := Reactive.Machine.Visits.clocked (T := cancelTimer)
    (c := clockedBoot env getprop database) (visits_tracks env getprop database
      (is.filterMap Timed.input?))
  have hstarts : (daemon.clocked cancelTimer).Visits (clockedBoot env getprop database) is
      fun past _ => IdentifyStarts past :=
    along_true.visits (by simp [IdentifyStarts, acceptedAt]) fun _ _ _ h _ =>
      identifyStarts_step h _ _
  intro js ks e hs
  obtain ⟨hsince, hle, hlate⟩ := h js ks e (harmed js ks e hs)
  rw [cancelTimer_interval] at hlate
  obtain ⟨call, hlast, hbusy, -⟩ := htracks js ks e (by simp [hs]) (by simp [hs])
  obtain rfl : call = .Identify := by
    cases call <;> simp_all [Call.busyState]
  rw [lastAccepted_untimed] at hlast
  obtain ⟨⟨t, p⟩, haccepted, rfl⟩ := Option.map_eq_some_iff.mp hlast
  have ht := hstarts js ks e t _ haccepted
  obtain rfl : t = _ := Option.some.inj (ht.symm.trans hsince)
  exact ⟨haccepted, hle, hlate⟩

/-- **An identification ends in time.** In a run in which the timer is punctual, a running
identification is the last operation that was accepted, no more than 30 s ago, give or take; and the
timer expires no sooner than 30 s after the last `Identify`, that of the identification when one
runs. -/
theorem identify_deadline {early late : Nat} (is : List (Timed Input))
    (h : (daemon.clocked cancelTimer).Along (clockedBoot env getprop database) is fun _ e =>
      Punctual cancelTimer early late e) :
    ((daemon.clocked cancelTimer).Visits (clockedBoot env getprop database) is fun past c =>
      c.state.fpd.m_state = .FPSTATE_IDENTIFYING →
        ∃ t, acceptedAt past = some (t, c.state.fpd.m_dbusCaller, .Identify) ∧
          t ≤ c.now ∧ c.now ≤ t + 30000 + late) ∧
      (daemon.clocked cancelTimer).Along (clockedBoot env getprop database) is fun past e =>
        ∀ env', e.input = .step ⟨.timeout, env'⟩ → e.src.state.fpd.m_cancelTimer →
          ∃ t, cancelTimer.startedAt past = some t ∧
            t + 30000 ≤ e.src.now + early ∧ e.src.now ≤ t + 30000 + late ∧
            (e.src.state.fpd.m_state = .FPSTATE_IDENTIFYING →
              acceptedAt past = some (t, e.src.state.fpd.m_dbusCaller, .Identify)) := by
  have hoff := clockedBoot_off env getprop database
  have hrunning := Punctual.running active_step hoff h
  have hidentifying := visits_identifying env getprop database hrunning
  refine ⟨hidentifying.mono fun past c hc hs => ⟨c.since, hc hs⟩, ?_⟩
  rintro js i ks rfl env' hi hactive
  obtain ⟨t, ht, hearly, hlate⟩ := Punctual.expiry active_step hoff h js i ks rfl ⟨.timeout, env'⟩
    hi (by simp [cancelTimer]) hactive
  rw [cancelTimer_interval] at hearly hlate
  refine ⟨t, ht, hearly, hlate, fun hs => ?_⟩
  obtain rfl : t = _ := Option.some.inj (ht.symm.trans (hrunning js (i :: ks) rfl hactive).1)
  exact (hidentifying js (i :: ks) rfl hs).1

end Runs

section Identified

/-- `:1.5` identifies itself with nothing, a second after the fingers were loaded. -/
def timedInputs : List (Timed Input) :=
  [.step ⟨.callback (.enumerate 7 0), .answering SYS_OK⟩, .step ⟨.deliver, .answering SYS_OK⟩,
    .elapse 1000, .step ⟨.call ":1.5" .Identify, .answering SYS_OK⟩, .elapse 30100]

omit [QDataStream] in
theorem identify_deadline_timeout :
    letI := qt56
    let c₀ := clockedBoot (.answering SYS_OK) (fun _ => "") none
    ∃ t, cancelTimer.startedAt ((daemon.clocked cancelTimer).edges c₀ timedInputs) = some t ∧
      t + 30000 ≤ ((daemon.clocked cancelTimer).final c₀ timedInputs).now + 1500 := by
  let := qt56
  intro c₀
  let i : Timed Input := .step ⟨.timeout, .answering SYS_OK⟩
  have h := (@identify_deadline qt56 (.answering SYS_OK) (fun _ => "") none 1500 1500 _
    (Punctual.of_check (timedInputs ++ [i]) (by decide +kernel))).2
  obtain ⟨t, ht, hearly, -, -⟩ := h timedInputs i [] rfl (.answering SYS_OK) rfl (by decide +kernel)
  exact ⟨t, ht, hearly⟩

end Identified

end SailfishFpd
