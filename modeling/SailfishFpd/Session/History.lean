import SailfishFpd.Session.Control

/-!
# The operation a run is in

A client knows its operation was accepted from the reply `FPREPLY_STARTED`, or,
for `Clear`, which returns nothing, from what the daemon sends. `accepted` reads
this off an edge and `lastAccepted` off a run. While the daemon is in the state
of an operation, that operation is the last accepted one, whatever the HAL did.
-/

namespace SailfishFpd

open Reactive.Machine (latest latest_snoc along_true)

/-- The daemon's response shows the client that its operation was accepted. -/
def Call.acceptedBy (c : Call) (r : Response) : Bool :=
  match c with
  | .Abort => false
  | .Clear => !r.out.isEmpty
  | _ => r.answer == some (.reply .FPREPLY_STARTED)

/-- The operation a step accepted, with its caller. -/
def accepted (e : Edge) : Option (String × Call) :=
  match e.input.event with
  | .call caller c => if c.acceptedBy e.out then some (caller, c) else none
  | _ => none

/-- The last accepted operation, with its caller. -/
def lastAccepted (past : List Edge) : Option (String × Call) := latest accepted past

/-- The operation a move started, be it only to end it at once. -/
def Move.started : Move → Option (String × Call)
  | .start caller c | .bounce caller c => some (caller, c)
  | .stay | .finish _ => none

namespace FPDCommunity

variable {env : Env} {caller : String} {x : Exec}

/-- A call that makes a request answers that it started, whatever the HAL answered it. -/
theorem invoke_request_answer {c : Call} {r : Request} (h : x.self.requestOf caller c = some r) :
    (invoke env caller c x).2 = if c = .Clear then .void else .reply .FPREPLY_STARTED := by
  obtain ⟨hb, hs⟩ := requestOf_free h
  have hreq := requests_of_some h
  cases c with
  | Enroll finger => simp [invoke, Enroll, hb, hs, hreq.1]
  | Identify => simp [invoke, Identify, hb, hs, hreq.1]
  | Verify => simp [invoke, Verify, hb, hs]
  | Remove finger => simp [invoke, Remove, hb, hs, hreq.1]
  | Clear => rfl
  | GetState | GetAll | Abort => exact hreq.elim

theorem invoke_idle_answer {c : Call} (h : x.self.requestOf caller c = none) (ha : c ≠ .Abort) :
    (invoke env caller c x).2 ≠ .reply .FPREPLY_STARTED := by
  by_cases hb : x.self.busyForOther caller
  · cases c <;> simp_all [invoke, Enroll, Identify, Verify, Remove]
  by_cases hs : x.self.m_state = .FPSTATE_IDLE
  · cases c <;> simp_all [invoke, requestOf, Enroll, Identify, Remove]
  · cases c with
    | Abort => exact absurd rfl ha
    | Enroll finger =>
      by_cases hc : finger ∈ FingerMap.values x.self.m_fingerMap <;>
        simp [invoke, Enroll, hb, hs, hc]
    | _ => simp [invoke, Identify, Verify, Remove, hb, hs]

end FPDCommunity

open FPDCommunity

theorem FPDCommunity.signalMove_started (d : FPDCommunity) (signal : Signal) :
    (d.signalMove signal).started = none := by
  cases signal with
  | failed message => by_cases ht : d.tolerates message <;> simp [signalMove, ht, Move.started]
  | enrollProgress pc =>
    by_cases hv : d.m_state = .FPSTATE_VERIFYING <;> simp [signalMove, hv, Move.started]
  | _ => rfl

theorem System.move_started {s : System} {i : Input} {caller : String} {c : Call}
    (h : (s.move i).started = some (caller, c)) : i.event = .call caller c := by
  obtain ⟨event, env⟩ := i
  cases event with
  | call caller' c' =>
    simp only [System.move] at h
    rcases callMove_cases s.fpd env.hal caller' c' with
      ⟨-, hm⟩ | ⟨-, -, -, hm⟩ | ⟨r, -, -, hm⟩ | ⟨r, -, -, hm⟩ <;> rw [hm] at h
    · cases h
    · cases h
    · obtain ⟨rfl, rfl⟩ : caller' = caller ∧ c' = c := by simpa [Move.started] using h
      rfl
    · obtain ⟨rfl, rfl⟩ : caller' = caller ∧ c' = c := by simpa [Move.started] using h
      rfl
  | timeout => by_cases ht : s.fpd.m_cancelTimer <;> simp [System.move, ht, Move.started] at h
  | callback cb => cases h
  | deliver =>
    obtain ⟨d, queue⟩ := s
    cases queue with
    | nil => cases h
    | cons signal queue => simp [System.move, signalMove_started] at h

variable [QDataStream]

theorem acceptedBy_eq (s : System) (env : Env) (caller : String) (c : Call) :
    c.acceptedBy (daemon.step s ⟨.call caller c, env⟩).2 = (s.fpd.requestOf caller c).isSome := by
  have hstep : (daemon.step s ⟨.call caller c, env⟩).2 =
      { out := (invoke env caller c { self := s.fpd }).1.out
        answer := some (invoke env caller c { self := s.fpd }).2 } := rfl
  rw [hstep]
  cases h : s.fpd.requestOf caller c with
  | some r =>
    have ha : (invoke env caller c { self := s.fpd }).2 = _ := invoke_request_answer h
    have hrequest : (invoke env caller c { self := s.fpd }).1 = _ := invoke_request h
    have ho := congrArg Exec.out hrequest
    cases c with
    | Clear => simp [Call.acceptedBy, ho]
    | GetState | GetAll | Abort => exact (requests_of_some h).elim
    | _ => simp [Call.acceptedBy, ha]
  | none =>
    cases c with
    | Clear =>
      have hidle : (invoke env caller .Clear { self := s.fpd }).1 = _ := invoke_idle h (by simp)
      simp [Call.acceptedBy, hidle]
    | Abort => simp [Call.acceptedBy]
    | _ =>
      have ha : (invoke env caller _ { self := s.fpd }).2 ≠ _ := invoke_idle_answer h (by simp)
      simpa [Call.acceptedBy] using ha

theorem accepted_edge (s : System) (i : Input) :
    accepted (daemon.edge s i) = (s.move i).started := by
  obtain ⟨event, env⟩ := i
  cases event with
  | call caller c =>
    have haccepted := acceptedBy_eq s env caller c
    simp only [accepted, Reactive.Machine.edge_input, Reactive.Machine.edge_out, System.move]
    rcases callMove_cases s.fpd env.hal caller c with
      ⟨h, hm⟩ | ⟨rfl, -, -, hm⟩ | ⟨r, h, -, hm⟩ | ⟨r, h, -, hm⟩ <;> rw [hm]
    · simp [haccepted, h, Move.started]
    · simp [Call.acceptedBy, Move.started]
    · simp [haccepted, h, Move.started]
    · simp [haccepted, h, Move.started]
  | timeout => by_cases ht : s.fpd.m_cancelTimer <;> simp [accepted, System.move, ht, Move.started]
  | callback cb => rfl
  | deliver =>
    obtain ⟨d, queue⟩ := s
    cases queue with
    | nil => rfl
    | cons signal queue => exact (signalMove_started d signal).symm

/-- A running operation is the last accepted one: its owner called it, its state is the one the
call enters, and an `Enroll` enrols the name it was called with. -/
def Control.Tracks (c : Control) (last : Option (String × Call)) : Prop :=
  c.state ≠ .FPSTATE_IDLE → c.state ≠ .FPSTATE_ENUMERATING →
    ∃ call, last = some (c.owner, call) ∧ call.busyState = c.state ∧
      ∀ finger, call = .Enroll finger → c.adding = finger

omit [QDataStream] in
theorem Control.tracks_apply {c : Control} {last : Option (String × Call)} (h : c.Tracks last)
    (m : Move) : (c.apply m).Tracks (m.started.or last) := by
  cases m with
  | stay => exact h
  | start caller call =>
    intro _ _
    refine ⟨call, rfl, rfl, fun finger hf => ?_⟩
    subst hf
    rfl
  | bounce caller call => exact fun hs => absurd rfl hs
  | finish e => exact fun hs => absurd rfl hs

theorem visits_tracks (env : Env) (getprop : String → String) (database : Option (List UInt8))
    (is : List Input) :
    daemon.Visits (boot env getprop database) is fun past s =>
      s.fpd.control.Tracks (lastAccepted past) := by
  refine along_true.visits ?_ fun past s i h _ => ?_
  · intro hs he
    rw [boot_control] at hs he
    by_cases hr : env.hal .enumerate = SYS_OK
    · exact absurd (by simp [hr]) he
    · exact absurd (by simp [hr]) hs
  · rw [lastAccepted, latest_snoc, accepted_edge, (step_makes s i).1]
    exact Control.tracks_apply h (s.move i)

/-! ## Signals that are handled in time -/

/-- The slot of a signal of kind `p` runs only while `Q` holds. -/
def InTime (p : Signal → Prop) (Q : List Edge → System → Prop) (past : List Edge) (e : Edge) :
    Prop :=
  e.input.event = .deliver → ∀ signal queue, e.src.queue = signal :: queue → p signal →
    Q past e.src

/-- A callback posts a signal of kind `p` only while `Q` holds, and `Q` does not end with one still
queued. -/
def Prompt (p : Signal → Prop) (Q : List Edge → System → Prop) (past : List Edge) (e : Edge) :
    Prop :=
  (∀ cb, e.input.event = .callback cb →
    (∃ signal ∈ (e.src.fpd.m_androidFP.callback e.input.env.hal cb).signals, p signal) →
      Q past e.src) ∧
  (Q past e.src → (∃ signal ∈ e.dst.queue, p signal) → Q (past ++ [e]) e.dst)

theorem inTime_of_prompt {p : Signal → Prop} {Q : List Edge → System → Prop} {s : System}
    (hs : s.queue = []) {is : List Input} (h : daemon.Along s is (Prompt p Q)) :
    daemon.Along s is (InTime p Q) := by
  have hI : daemon.Visits s is fun past t => (∃ signal ∈ t.queue, p signal) → Q past t := by
    refine h.visits ?_ fun past t i hI hi => ?_
    · rintro ⟨signal, hm, -⟩
      rw [hs] at hm
      exact absurd hm List.not_mem_nil
    · rintro ⟨signal, hm, hp⟩
      refine hi.2 ?_ ⟨signal, hm, hp⟩
      rcases System.mem_queue hm with hq | ⟨cb, hcb, hq⟩
      · exact hI ⟨signal, hq, hp⟩
      · exact hi.1 cb hcb ⟨signal, hq, hp⟩
  refine h.of_visits hI fun past t i hI _ _ signal queue hq hp => hI ⟨signal, ?_, hp⟩
  rw [show t.queue = _ from hq]
  exact List.mem_cons_self

end SailfishFpd
