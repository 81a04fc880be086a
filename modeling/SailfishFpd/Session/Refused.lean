import SailfishFpd.Session.History
import SailfishFpd.QtStream

/-!
# Refused calls

Every method makes its checks before its first write. A call that is refused, or
that only asks, leaves the daemon as it was and sends nothing, so a run with
some of these calls deleted is the same run for everybody else.
-/

namespace SailfishFpd

open Reactive (Machine)
open FPDCommunity

section Runs

variable [QDataStream]

/-- The call is refused where it is taken, or is a query: it comes from another client than the
owner, its reply is not `FPREPLY_STARTED`, or it is a `Clear` while an operation runs. -/
def RefusedOrQuery (s : System) (i : Input) : Prop :=
  match i.event with
  | .call caller c =>
    s.fpd.busyForOther caller ∨
      (∃ r, (daemon.step s i).2.answer = some (.reply r) ∧ r ≠ .FPREPLY_STARTED) ∨
      (c = .Clear ∧ s.fpd.m_state ≠ .FPSTATE_IDLE) ∨ c = .GetState ∨ c = .GetAll
  | _ => False

theorem RefusedOrQuery.requestOf_eq_none {s : System} {env : Env} {caller : String} {c : Call}
    (h : RefusedOrQuery s ⟨.call caller c, env⟩) :
    s.fpd.requestOf caller c = none ∧
      (c = .Abort → s.fpd.busyForOther caller ∨ s.fpd.m_state = .FPSTATE_IDLE) := by
  rcases h with hb | ⟨r, hr, hne⟩ | ⟨rfl, hs⟩ | rfl | rfl
  · exact ⟨requestOf_busy (.inl hb), fun _ => .inl hb⟩
  · have hanswer : (invoke env caller c { self := s.fpd }).2 = .reply r := by
      simpa [daemon, System.step] using hr
    refine ⟨?_, fun ha => ?_⟩
    · cases hreq : s.fpd.requestOf caller c with
      | none => rfl
      | some req =>
        have hstarted : (invoke env caller c { self := s.fpd }).2 = _ := invoke_request_answer hreq
        rw [hanswer] at hstarted
        by_cases hc : c = .Clear <;> simp [hc, hne] at hstarted
    · subst ha
      by_contra hn
      have hstarted : invoke env caller .Abort { self := s.fpd } = _ :=
        invoke_abort (fun hb => hn (.inl hb)) (fun hs => hn (.inr hs))
      rw [hstarted] at hanswer
      simp [hne.symm] at hanswer
  · exact ⟨requestOf_busy (.inr hs), fun h => by cases h⟩
  · exact ⟨by simp [requestOf], fun h => by cases h⟩
  · exact ⟨by simp [requestOf], fun h => by cases h⟩

theorem RefusedOrQuery.step {s : System} {i : Input} (h : RefusedOrQuery s i) :
    (daemon.step s i).1 = s ∧ (daemon.step s i).2.out = [] := by
  obtain ⟨event, env⟩ := i
  cases event with
  | call caller c =>
    obtain ⟨hreq, ha⟩ := h.requestOf_eq_none
    have hidle : (invoke env caller c { self := s.fpd }).1 = { self := s.fpd } :=
      invoke_idle hreq ha
    simp [daemon, System.step, hidle]
  | timeout => exact h.elim
  | callback cb => exact h.elim
  | deliver => exact h.elim

/-- **Refused calls leave no trace**: deleting the refused calls and queries marked `false` leaves
the same daemon, file and queue, the same signals and requests, and for every other step the same
response. -/
theorem refused_leave_no_trace (s : System) (is : List (Input × Bool))
    (h : daemon.OnlyDrops RefusedOrQuery s is) :
    daemon.final s (Machine.kept is) = daemon.final s (is.map (·.1)) ∧
      (daemon.edges s (Machine.kept is)).flatMap (fun e => signalsOf e.out.out) =
        (daemon.edges s (is.map (·.1))).flatMap (fun e => signalsOf e.out.out) ∧
      (daemon.edges s (Machine.kept is)).flatMap (fun e => requestsOf e.out.out) =
        (daemon.edges s (is.map (·.1))).flatMap (fun e => requestsOf e.out.out) ∧
      (daemon.edges s (Machine.kept is)).map (·.out) = daemon.keptOutputs s is := by
  have hstate : ∀ t i, RefusedOrQuery t i → (daemon.step t i).1 = t := fun _ _ hr => hr.step.1
  refine ⟨Machine.final_kept hstate is h, ?_, ?_, Machine.outputs_kept hstate is h⟩
  · refine Machine.observed_kept (fun r : Response => signalsOf r.out) hstate ?_ is h
    intro t i hr
    rw [hr.step.2]
    rfl
  · refine Machine.observed_kept (fun r : Response => requestsOf r.out) hstate ?_ is h
    intro t i hr
    rw [hr.step.2]
    rfl

end Runs

/-- The refused `Identify` of `:1.9` and the query of `:1.7` leave no trace in `:1.5`'s `Enroll`. -/
theorem refused_leave_no_trace_enroll :
    letI := qt56
    let s := boot (.answering SYS_EBUSY) (fun _ => "") none
    let enroll : Input := ⟨.call ":1.5" (.Enroll "left"), .answering SYS_OK⟩
    let identify : Input := ⟨.call ":1.9" .Identify, .answering SYS_OK⟩
    let query : Input := ⟨.call ":1.7" .GetAll, .answering SYS_OK⟩
    daemon.final s [enroll] = daemon.final s [enroll, identify, query] := by
  let := qt56
  intro s enroll identify query
  have hdrops : daemon.OnlyDrops RefusedOrQuery s
      [(enroll, true), (identify, false), (query, false)] := by
    have hbusy : RefusedOrQuery (daemon.step s enroll).1 identify := .inl (by decide)
    have hquery : ∀ t, RefusedOrQuery t query := fun _ => .inr (.inr (.inr (.inr rfl)))
    simp only [Machine.onlyDrops_cons, Machine.onlyDrops_nil]
    exact ⟨fun h => (Bool.noConfusion h), fun _ => hbusy, fun _ => hquery _, trivial⟩
  exact (refused_leave_no_trace s _ hdrops).1

end SailfishFpd
