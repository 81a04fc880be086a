import SailfishFpd.Session.History
import SailfishFpd.Delivery
import SailfishFpd.QtStream

/-!
# Replies

A refused HAL request comes back as `failed` on the stack of the call that made
it: `slot_failed` ends the operation, and the call goes on to answer that it has
started. The other replies rest on two checks, of the owner and of the state,
which the methods answer with different codes and which disagree in a daemon
that is idle and owned.
-/

namespace SailfishFpd

open FPDCommunity

def Call.replies : Call → Bool
  | .Enroll _ | .Identify | .Abort | .Verify | .Remove _ => true
  | .GetState | .GetAll | .Clear => false

section Steps

variable [QDataStream]

/-- `FPREPLY_STARTED` says that the HAL took the request and the operation runs for the caller; a
refusal is answered with an error, and is the last the client hears of the operation. -/
structure StartedMeansStarted (caller : String) (c : Call) (e : Edge) : Prop where
  started : e.out.answer = some (.reply .FPREPLY_STARTED) ↔
    (∃ r, (r, SYS_OK) ∈ requestsOf e.out.out) ∧ e.dst.fpd.m_state = c.busyState ∧
      e.dst.fpd.m_dbusCaller = caller
  refused : (∃ p ∈ requestsOf e.out.out, p.2 ≠ SYS_OK) →
    (∃ reply, e.out.answer = some (.reply reply) ∧ reply ≠ .FPREPLY_STARTED) ∧
      ∀ sent rest, e.out.out = sent ++ .signal .Failed :: rest →
        ∀ progress, .signal (.EnrollProgressChanged progress) ∉ rest

/-- **`FPREPLY_STARTED` means started, exactly when the HAL does not refuse.** -/
theorem started_iff_accepted (s : System) (env : Env) (caller : String) (c : Call)
    (hc : c.replies = true) (ha : c ≠ .Abort) :
    StartedMeansStarted caller c (daemon.edge s ⟨.call caller c, env⟩) ↔
      ∀ r, s.fpd.requestOf caller c = some r → env.hal r = SYS_OK := by
  cases h : s.fpd.requestOf caller c with
  | none =>
    have hstay : (invoke env caller c { self := s.fpd }).1 = { self := s.fpd } :=
      invoke_idle h fun hab => absurd hab ha
    have hanswer : (invoke env caller c { self := s.fpd }).2 ≠ .reply .FPREPLY_STARTED :=
      invoke_idle_answer h ha
    refine iff_of_true ⟨iff_of_false ?_ ?_, ?_⟩ (fun _ h => by cases h)
    · simpa [step_call] using hanswer
    · simp [step_call, hstay]
    · simp [step_call, hstay]
  | some r =>
    have hclear : c ≠ .Clear := by
      rintro rfl
      cases hc
    have hcall : (invoke env caller c { self := s.fpd }).1 = _ := invoke_request h
    have hanswer : (invoke env caller c { self := s.fpd }).2 = .reply .FPREPLY_STARTED :=
      (invoke_request_answer h).trans (if_neg hclear)
    have hrequests : requestsOf (invoke env caller c { self := s.fpd }).1.out =
        [(r, env.hal r)] := by
      rw [hcall]
      by_cases he : c.enrols <;> simp [he, Output.request?]
    by_cases hr : env.hal r = SYS_OK
    · refine iff_of_true ⟨iff_of_true ?_ ⟨⟨r, ?_⟩, ?_⟩, ?_⟩ (fun _ h => by cases h; exact hr)
      · simp [step_call, hanswer]
      · simp [step_call, hrequests, hr]
      · simp [step_call, hcall, afterRequest, hr]
      · simp [step_call, hrequests, hr]
    · refine iff_of_false (fun hmeans => ?_) (fun hok => hr (hok r rfl))
      obtain ⟨⟨reply, hreply, hne⟩, -⟩ := hmeans.refused ⟨(r, env.hal r), by
        simp [step_call, hrequests], hr⟩
      simp [step_call, hanswer] at hreply
      exact hne hreply.symm

end Steps

theorem started_iff_accepted_enroll :
    letI := qt56
    StartedMeansStarted ":1.5" (.Enroll "left")
      (daemon.edge (boot (.answering SYS_EBUSY) (fun _ => "") none)
        ⟨.call ":1.5" (.Enroll "left"), .answering SYS_OK⟩) := by
  let := qt56
  exact (started_iff_accepted _ _ _ _ rfl (by simp)).mpr fun _ _ => rfl

/-- The HAL is busy when `:1.5` enrols: the client hears of the failure, then of progress, and the
call answers that the enrolment started. -/
theorem refused_enroll_answers_started :
    letI := qt56
    let s := boot (.answering SYS_EBUSY) (fun _ => "") none
    let e := daemon.edge s ⟨.call ":1.5" (.Enroll "left"), .answering SYS_EBUSY⟩
    ¬ StartedMeansStarted ":1.5" (.Enroll "left") e ∧
      e.out.answer = some (.reply .FPREPLY_STARTED) ∧ e.dst.fpd.m_state = .FPSTATE_IDLE ∧
      signalsOf e.out.out = [.StateChanged "FPSTATE_ENROLLING", .ErrorInfo "SYS_EBUSY", .Failed,
        .StateChanged "FPSTATE_IDLE", .EnrollProgressChanged (some 0)] := by
  let := qt56
  refine ⟨fun h => ?_, by decide⟩
  exact absurd (h.started.mp (by decide)).2.1 (by decide)

/-! ## Busy and idle -/

section Steps

variable [QDataStream]

/-- `FPREPLY_ALREADY_IDLE` says that there is nothing to abort, `FPREPLY_ALREADY_BUSY` that an
operation runs; a client that asks during another's operation is told the latter. -/
structure TruthfulReply (caller : String) (c : Call) (e : Edge) : Prop where
  idle : e.out.answer = some (.reply .FPREPLY_ALREADY_IDLE) →
    e.src.fpd.m_state = .FPSTATE_IDLE ∧ c = .Abort
  busy : e.out.answer = some (.reply .FPREPLY_ALREADY_BUSY) → e.src.fpd.m_state ≠ .FPSTATE_IDLE
  other : e.src.fpd.m_state ≠ .FPSTATE_IDLE → e.src.fpd.busyForOther caller →
    e.out.answer = some (.reply .FPREPLY_ALREADY_BUSY)

/-- The calls whose check of the owner answers for a state the daemon is not in. -/
def FPDCommunity.Misanswers (d : FPDCommunity) : Call → Prop
  | .Verify => True
  | .Abort => d.m_state ≠ .FPSTATE_IDLE
  | .Enroll _ | .Identify | .Remove _ => d.m_state = .FPSTATE_IDLE
  | .GetState | .GetAll | .Clear => False

omit [QDataStream] in
theorem FPDCommunity.invoke_busy_answer {env : Env} {caller : String} {c : Call} {x : Exec}
    (hc : c.replies = true) (hb : x.self.busyForOther caller) :
    (invoke env caller c x).2 =
      .reply (if c = .Abort ∨ c = .Verify then .FPREPLY_ALREADY_IDLE
        else .FPREPLY_ALREADY_BUSY) := by
  cases c with
  | GetState | GetAll | Clear => cases hc
  | Enroll finger => simp [invoke, Enroll, hb]
  | Identify => simp [invoke, Identify, hb]
  | Abort => simp [invoke, Abort, hb]
  | Verify => simp [invoke, Verify, hb]
  | Remove finger => simp [invoke, Remove, hb]

omit [QDataStream] in
theorem FPDCommunity.invoke_free_answer (env : Env) {caller : String} (c : Call) (x : Exec)
    (hb : ¬ x.self.busyForOther caller) :
    ((invoke env caller c x).2 = .reply .FPREPLY_ALREADY_IDLE →
        x.self.m_state = .FPSTATE_IDLE ∧ c = .Abort) ∧
      ((invoke env caller c x).2 = .reply .FPREPLY_ALREADY_BUSY →
        x.self.m_state ≠ .FPSTATE_IDLE) := by
  by_cases hs : x.self.m_state = .FPSTATE_IDLE
  · cases c with
    | Enroll finger =>
      by_cases hm : finger ∈ FingerMap.values x.self.m_fingerMap <;>
        simp [invoke, Enroll, hb, hs, hm]
    | Identify => by_cases hm : x.self.m_fingerMap.size = 0 <;> simp [invoke, Identify, hb, hs, hm]
    | Remove finger => by_cases hm : x.self.keyOf finger = 0 <;> simp [invoke, Remove, hb, hs, hm]
    | Abort => simp [invoke, Abort, hb, hs]
    | Verify => simp [invoke, Verify, hb, hs]
    | GetState | GetAll | Clear => simp [invoke]
  · cases c with
    | Enroll finger =>
      by_cases hm : finger ∈ FingerMap.values x.self.m_fingerMap <;>
        simp [invoke, Enroll, hb, hs, hm]
    | Identify => simp [invoke, Identify, hb, hs]
    | Remove finger => simp [invoke, Remove, hb, hs]
    | Abort => simp [invoke, Abort, hb, hs]
    | Verify => simp [invoke, Verify, hb, hs]
    | GetState | GetAll | Clear => simp [invoke]

/-- **Busy and idle replies are truthful, but for some calls by another client than the owner.** -/
theorem reply_truthful_iff (s : System) (env : Env) (caller : String) (c : Call)
    (hc : c.replies = true) :
    TruthfulReply caller c (daemon.edge s ⟨.call caller c, env⟩) ↔
      ¬ (s.fpd.busyForOther caller ∧ s.fpd.Misanswers c) := by
  have hanswer : (daemon.step s ⟨.call caller c, env⟩).2.answer =
      some (invoke env caller c { self := s.fpd }).2 := rfl
  by_cases hb : s.fpd.busyForOther caller
  · have htold : (invoke env caller c { self := s.fpd }).2 = _ := invoke_busy_answer hc hb
    rw [htold] at hanswer
    refine ⟨?_, ?_⟩
    · rintro h ⟨-, hmis⟩
      have hidle := h.idle
      have hbusy := h.busy
      cases c with
      | Verify => simp [hanswer] at hidle
      | Abort => exact hmis (hidle (by simp [hanswer])).1
      | Enroll finger | Identify | Remove finger => exact hbusy (by simp [hanswer]) hmis
      | GetState | GetAll | Clear => exact hmis
    · intro hmis
      have hmis : ¬ s.fpd.Misanswers c := fun h => hmis ⟨hb, h⟩
      cases c with
      | Verify => exact absurd trivial hmis
      | Abort =>
        have hs : s.fpd.m_state = .FPSTATE_IDLE := not_not.mp hmis
        exact ⟨fun _ => ⟨hs, rfl⟩, by simp [hanswer], fun hne => absurd hs hne⟩
      | Enroll finger | Identify | Remove finger =>
        exact ⟨by simp [hanswer], fun _ => hmis, fun _ _ => by simp [hanswer]⟩
      | GetState | GetAll | Clear => cases hc
  · have hfree := invoke_free_answer env c { self := s.fpd } hb
    refine iff_of_true ⟨?_, ?_, fun _ hb' => absurd hb' hb⟩ fun h => hb h.1
    · exact fun h => hfree.1 (Option.some.inj (hanswer.symm.trans h))
    · exact fun h => hfree.2 (Option.some.inj (hanswer.symm.trans h))

end Steps

theorem reply_truthful_identify :
    letI := qt56
    let s := daemon.final (boot (.answering SYS_EBUSY) (fun _ => "") none)
      [⟨.call ":1.5" (.Enroll "left"), .answering SYS_OK⟩]
    TruthfulReply ":1.9" .Identify (daemon.edge s ⟨.call ":1.9" .Identify, .answering SYS_OK⟩) := by
  let := qt56
  refine (reply_truthful_iff _ _ _ _ rfl).mpr fun h => ?_
  exact absurd (show _ = _ from h.2) (by decide)

/-- While `:1.5` enrols, `:1.9` is told that the daemon is idle, twice. -/
theorem busy_daemon_answers_idle :
    letI := qt56
    let s := daemon.final (boot (.answering SYS_EBUSY) (fun _ => "") none)
      [⟨.call ":1.5" (.Enroll "left"), .answering SYS_OK⟩]
    let abort := daemon.edge s ⟨.call ":1.9" .Abort, .answering SYS_OK⟩
    let verify := daemon.edge s ⟨.call ":1.9" .Verify, .answering SYS_OK⟩
    s.fpd.m_state = .FPSTATE_ENROLLING ∧
      abort.out.answer = some (.reply .FPREPLY_ALREADY_IDLE) ∧
      verify.out.answer = some (.reply .FPREPLY_ALREADY_IDLE) ∧
      ¬ TruthfulReply ":1.9" .Abort abort ∧ ¬ TruthfulReply ":1.9" .Verify verify := by
  let := qt56
  refine ⟨by decide, by decide, by decide, fun h => ?_, fun h => ?_⟩
  · exact absurd (h.idle (by decide)).1 (by decide)
  · exact absurd (h.idle (by decide)).1 (by decide)

end SailfishFpd
