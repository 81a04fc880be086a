import SailfishFpd.Session.History
import SailfishFpd.QtStream

/-!
# Ownership

`Enroll`, `Identify` and `Clear` note the caller before they make their HAL
request; `Verify` and `Remove` do so after it. When the HAL refuses, `slot_failed`
runs inside the request and makes the daemon idle, so the two late ones then give
an idle daemon an owner. The daemon keeps its owner to its running operation
exactly in the runs where the HAL never refuses one of these two.
-/

namespace SailfishFpd

open Reactive.Machine (visits_iff_along along_of_forall_mem along_cons along_nil)

/-- The moves that leave the daemon idle and owned. -/
def Move.Orphans : Move → Prop
  | .bounce _ c => c.claimsLate = true
  | _ => False

/-- An idle daemon has no owner. -/
def Control.Free (c : Control) : Prop := c.state = .FPSTATE_IDLE → c.owner = ""

theorem Control.free_apply {c : Control} {m : Move} (he : m.Enabled c) (h : c.Free)
    (hcaller : ∀ caller call, m = .bounce caller call → caller ≠ "") :
    (c.apply m).Free ↔ ¬ m.Orphans := by
  cases m with
  | stay => simpa [apply, Move.Orphans] using h
  | start caller call =>
    have hbusy : call.busyState ≠ .FPSTATE_IDLE := he.2.2
    simp [Free, apply, Move.Orphans, hbusy]
  | bounce caller call =>
    have hne : caller ≠ "" := hcaller caller call rfl
    by_cases hl : call.claimsLate <;> simp [Free, apply, Move.Orphans, hl, hne]
  | finish e => simp [Free, apply, Move.Orphans]

/-- The HAL refuses the request of a `Verify` or a `Remove`. -/
def RefusesLateClaim (s : System) (i : Input) : Prop :=
  match i.event with
  | .call caller c =>
    c.claimsLate = true ∧ ∃ r, s.fpd.requestOf caller c = some r ∧ i.env.hal r ≠ SYS_OK
  | _ => False

theorem refusesLateClaim_iff (s : System) (i : Input) :
    RefusesLateClaim s i ↔ (s.move i).Orphans := by
  obtain ⟨event, env⟩ := i
  cases event with
  | call caller c =>
    simp only [System.move, RefusesLateClaim]
    rcases FPDCommunity.callMove_cases s.fpd env.hal caller c with
      ⟨h, hm⟩ | ⟨rfl, -, -, hm⟩ | ⟨r, h, hr, hm⟩ | ⟨r, h, hr, hm⟩ <;> rw [hm]
    · simp [Move.Orphans, h]
    · simp [Move.Orphans, Call.claimsLate]
    · simp [Move.Orphans, h, hr]
    · simp [Move.Orphans, h, hr]
  | timeout =>
    by_cases ht : s.fpd.m_cancelTimer <;>
      simp [RefusesLateClaim, System.move, ht, Move.Orphans]
  | callback cb => simp [RefusesLateClaim, System.move, Move.Orphans]
  | deliver =>
    obtain ⟨d, queue⟩ := s
    cases queue with
    | nil => simp [RefusesLateClaim, System.move, Move.Orphans]
    | cons signal queue =>
      have hs := FPDCommunity.signalMove_started d signal
      show False ↔ (d.signalMove signal).Orphans
      cases hm : d.signalMove signal with
      | bounce caller c => simp [hm, Move.started] at hs
      | _ => simp [Move.Orphans]

/-- Who owns the daemon between handlers. -/
structure OwnerOk (past : List Edge) (s : System) : Prop where
  idle : s.fpd.m_state = .FPSTATE_IDLE → s.fpd.m_dbusCaller = ""
  busy : s.fpd.m_state ∈ [.FPSTATE_ENROLLING, .FPSTATE_IDENTIFYING, .FPSTATE_VERIFYING,
      .FPSTATE_REMOVING] → ∃ c, lastAccepted past = some (s.fpd.m_dbusCaller, c)
  open_to_all : s.fpd.m_state = .FPSTATE_IDLE → ∀ caller, ¬ s.fpd.busyForOther caller

theorem ownerOk_iff {past : List Edge} {s : System} (h : s.fpd.control.Tracks (lastAccepted past)) :
    OwnerOk past s ↔ s.fpd.control.Free := by
  refine ⟨fun ho => ho.idle, fun hf => ⟨hf, fun hs => ?_, fun hs caller hb => hb.1 (hf hs)⟩⟩
  have hs' : s.fpd.m_state ≠ .FPSTATE_IDLE ∧ s.fpd.m_state ≠ .FPSTATE_ENUMERATING := by
    refine ⟨?_, ?_⟩ <;> intro he <;> simp [he] at hs
  obtain ⟨c, hlast, -⟩ := h hs'.1 hs'.2
  exact ⟨c, hlast⟩

section Runs

variable [QDataStream] (env : Env) (getprop : String → String) (database : Option (List UInt8))

/-- **The owner matches the state, exactly in the runs where the HAL refuses no `Verify` and no
`Remove` that passed its checks.** -/
theorem ownership_matches_state (is : List Input)
    (hcaller : ∀ i ∈ is, ∀ caller c, i.event = .call caller c → caller ≠ "") :
    daemon.Visits (boot env getprop database) is OwnerOk ↔
      daemon.Along (boot env getprop database) is fun _ e => ¬ RefusesLateClaim e.src e.input := by
  have htracks := visits_tracks env getprop database is
  have hfree : (daemon.Visits (boot env getprop database) is fun _ s => s.fpd.control.Free) ↔
      daemon.Along (boot env getprop database) is
        fun _ e => ¬ RefusesLateClaim e.src e.input := by
    refine visits_iff_along (along_of_forall_mem hcaller) ?_ fun past s i h hc => ?_
    · rw [Control.Free, boot_control]
      exact fun _ => rfl
    · rw [(step_makes s i).1, refusesLateClaim_iff]
      refine Control.free_apply (s.move_enabled i) h fun caller c hm => ?_
      have hstarted : (s.move i).started = some (caller, c) := by rw [hm]; rfl
      exact hc caller c (System.move_started hstarted)
  rw [← hfree]
  refine ⟨?_, ?_⟩
  · exact fun h js ks e => (ownerOk_iff (htracks js ks e)).mp (h js ks e)
  · exact fun h js ks e => (ownerOk_iff (htracks js ks e)).mpr (h js ks e)

end Runs

/-- The HAL refuses the enrolment of `:1.5`'s `Verify`: the daemon is idle, and every other client
is told that it is busy. -/
theorem refused_verify_locks_out :
    letI := qt56
    let s := daemon.final (boot (.answering SYS_OK) (fun _ => "") none)
      [⟨.callback (.enumerate 7 0), .answering SYS_OK⟩, ⟨.deliver, .answering SYS_OK⟩,
        ⟨.call ":1.5" .Verify, .answering SYS_EBUSY⟩]
    s.fpd.m_state = .FPSTATE_IDLE ∧ s.fpd.m_dbusCaller = ":1.5" ∧
      (daemon.step s ⟨.call ":1.9" .Identify, .answering SYS_OK⟩).2.answer =
        some (.reply .FPREPLY_ALREADY_BUSY) := by
  decide

theorem ownership_matches_state_verify :
    letI := qt56
    daemon.Visits (boot (.answering SYS_OK) (fun _ => "") none)
      [⟨.callback (.enumerate 7 0), .answering SYS_OK⟩, ⟨.deliver, .answering SYS_OK⟩,
        ⟨.call ":1.5" .Verify, .answering SYS_OK⟩] OwnerOk := by
  let := qt56
  have hcaller : ∀ i ∈ ([⟨.callback (.enumerate 7 0), .answering SYS_OK⟩,
      ⟨.deliver, .answering SYS_OK⟩, ⟨.call ":1.5" .Verify, .answering SYS_OK⟩] : List Input),
      ∀ caller c, i.event = .call caller c → caller ≠ "" := by
    simp
  refine (ownership_matches_state _ _ _ _ hcaller).mpr ?_
  refine along_cons ?_ (along_cons ?_ (along_cons ?_ along_nil))
  · simp [RefusesLateClaim]
  · simp [RefusesLateClaim]
  · simp [RefusesLateClaim, Env.answering]

end SailfishFpd
