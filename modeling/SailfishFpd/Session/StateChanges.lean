import SailfishFpd.Delivery
import SailfishFpd.Session.Enrolment
import SailfishFpd.Lib.Announce

/-!
# State changes

`setState` is the only place that assigns `m_state`, and it announces what
changes. A running operation is left only for the idle state: no step hands it
over to another one or to another owner. So the `StateChanged` signals of a run
tell the whole history of `m_state`, the states a call passes through when the
HAL refuses it included.
-/

namespace SailfishFpd

open FPDCommunity
open Announce (news news_append news_cons_ne cons_news getLastD_append)

def Output.stateChanged : Output → Option String
  | .signal (.StateChanged key) => some key
  | _ => none

/-- The states the clients are told. -/
def statesTold (out : List Output) : List String := out.filterMap Output.stateChanged

@[simp] theorem statesTold_nil : statesTold [] = [] := rfl

@[simp] theorem statesTold_append (a b : List Output) :
    statesTold (a ++ b) = statesTold a ++ statesTold b := List.filterMap_append

theorem statesTold_map {α : Type} {f : α → Output} (h : ∀ a, (f a).stateChanged = none)
    (l : List α) : statesTold (l.map f) = [] := filterMap_map_none h l

theorem mem_statesTold {out : List Output} {key : String} :
    key ∈ statesTold out ↔ .signal (.StateChanged key) ∈ out := by
  refine List.mem_filterMap.trans ⟨fun ⟨o, ho, h⟩ => ?_, fun h => ⟨_, h, rfl⟩⟩
  unfold Output.stateChanged at h
  split at h
  · cases h
    exact ho
  · cases h

theorem statesTold_stateChange (old new : State) :
    statesTold (stateChange old new) = (news old [new]).map State.key := by
  by_cases h : new = old <;> simp [statesTold, stateChange, news, h, Output.stateChanged]

/-! ## The assignments of a handler -/

/-- Between `x` and `y`, nothing is assigned to `m_state` and no `StateChanged` is sent. -/
structure Quiet (x y : Exec) : Prop where
  state : y.self.m_state = x.self.m_state
  sent : ∃ out, y.out = x.out ++ out ∧ statesTold out = []

/-- From `x` to `y`, the calls of `setState` have these arguments, in this order. -/
inductive Assigns (x : Exec) : List State → Exec → Prop where
  | nil : Assigns x [] x
  | quiet {h : List State} {y z : Exec} (hxy : Assigns x h y) (hyz : Quiet y z) : Assigns x h z
  | set {h : List State} {y : Exec} (hxy : Assigns x h y) (n : State) :
    Assigns x (h ++ [n]) (setState n y)

theorem Assigns.told {x y : Exec} {h : List State} (hxy : Assigns x h y) :
    y.self.m_state = h.getLastD x.self.m_state ∧
      statesTold y.out = statesTold x.out ++ (news x.self.m_state h).map State.key := by
  induction hxy with
  | nil => exact ⟨rfl, by simp⟩
  | quiet hxy hyz ih =>
    obtain ⟨out, hout, hnone⟩ := hyz.sent
    refine ⟨hyz.state.trans ih.1, ?_⟩
    rw [hout, statesTold_append, hnone, List.append_nil, ih.2]
  | set hxy n ih =>
    refine ⟨by simp, ?_⟩
    rw [setState_out, statesTold_append, statesTold_stateChange, ih.1, ih.2, news_append,
      List.map_append, List.append_assoc]

theorem Assigns.trans {x y z : Exec} {h k : List State} (hxy : Assigns x h y)
    (hyz : Assigns y k z) : Assigns x (h ++ k) z := by
  induction hyz with
  | nil => rwa [List.append_nil]
  | quiet _ hq ih => exact .quiet ih hq
  | set _ n ih =>
    rw [← List.append_assoc]
    exact .set ih n

theorem Assigns.silent {x y : Exec} (hs : y.self.m_state = x.self.m_state) (out : List Output)
    (hout : y.out = x.out ++ out) (hnone : statesTold out = []) : Assigns x [] y :=
  .quiet .nil ⟨hs, out, hout, hnone⟩

theorem Assigns.ends {x y : Exec} (hs : y.self.m_state = x.self.m_state) (out : List Output)
    (hout : y.out = x.out ++ out) (hnone : statesTold out = []) :
    Assigns x [.FPSTATE_IDLE] (setState .FPSTATE_IDLE y) :=
  .set (.silent hs out hout hnone) .FPSTATE_IDLE

/-- The values a move assigns to `m_state`. -/
def Move.states : Move → List State
  | .stay => []
  | .start _ c => [c.busyState]
  | .bounce _ c => [c.busyState, .FPSTATE_IDLE]
  | .finish _ => [.FPSTATE_IDLE]

namespace FPDCommunity

variable {env : Env} {caller : String} {x : Exec}

/-- A request made while an operation runs ends it when it is refused. -/
theorem assigns_androidFP {f : AndroidFP → AndroidFP.Requested} {g : AndroidFP → AndroidFP}
    {hal : Hal} {r : Request} (hf : ∀ a, f a = AndroidFP.request hal r (g a))
    (hx : x.self.m_state ≠ .FPSTATE_IDLE) :
    Assigns x (if hal r = SYS_OK then [] else [.FPSTATE_IDLE]) (androidFP f x) := by
  rw [androidFP_request hf hx]
  by_cases hr : hal r = SYS_OK
  · rw [if_pos hr]
    refine .silent ?_ (requestOutput hal r) rfl ?_
    · simp [hr]
    · simp [requestOutput, hr, statesTold, Output.stateChanged]
  · rw [if_neg hr]
    let y : Exec :=
      { self := { x.self with m_androidFP := g x.self.m_androidFP }
        out := x.out ++ [.request r (hal r),
          .signal (.ErrorInfo (IntToStringRequestStatus (hal r))), .signal .Failed] }
    have hy : setState .FPSTATE_IDLE y =
        { self := if hal r = SYS_OK then y.self else y.self.refused
          out := x.out ++ requestOutput hal r } := by
      apply Exec.ext
      · simp [y, hr, refused]
      · simp [y, hr, requestOutput, stateChange, hx.symm, State.key]
    rw [← hy]
    exact .ends rfl _ rfl rfl

theorem assigns_request (env : Env) {c : Call} {r : Request}
    (h : x.self.requestOf caller c = some r) :
    Assigns x (if env.hal r = SYS_OK then [c.busyState] else [c.busyState, .FPSTATE_IDLE])
      (invoke env caller c x).1 := by
  have hbusy : c.busyState ≠ .FPSTATE_IDLE := requestOf_busyState h
  have hs := (requestOf_free h).2
  let progress : List Output :=
    if c.enrols then [.signal (.EnrollProgressChanged (some 0))] else []
  have hprogress : statesTold progress = [] := by
    by_cases he : c.enrols <;> simp [progress, he, statesTold, Output.stateChanged]
  have hstart : Assigns x [c.busyState] (setState c.busyState x) := .set (h := []) .nil _
  rw [invoke_request h]
  by_cases hr : env.hal r = SYS_OK
  · rw [if_pos hr]
    refine .quiet hstart ⟨?_, .request r (env.hal r) :: progress, ?_, hprogress⟩
    · simp [afterRequest, hr]
    · simp [hs, stateChange, hbusy, requestOutput, hr, progress]
  · rw [if_neg hr]
    -- what the refusal finds, before `slot_failed` makes the daemon idle
    let refusal : Exec :=
      { self := { x.self.prepared c with m_state := c.busyState }
        out := (setState c.busyState x).out ++ [.request r (env.hal r),
          .signal (.ErrorInfo (IntToStringRequestStatus (env.hal r))), .signal .Failed] }
    have hrefusal : Assigns x [c.busyState] refusal :=
      .quiet hstart ⟨by simp [refusal], _, rfl, rfl⟩
    refine .quiet (.set hrefusal .FPSTATE_IDLE) ⟨?_, progress, ?_, hprogress⟩
    · simp [afterRequest, hr]
    · simp [refusal, hs, stateChange, hbusy, hbusy.symm, requestOutput, hr, progress, State.key]

theorem assigns_invoke (c : Call) :
    Assigns x (x.self.callMove env.hal caller c).states (invoke env caller c x).1 := by
  rcases callMove_cases x.self env.hal caller c with
    ⟨-, hm⟩ | ⟨rfl, hb, hs, hm⟩ | ⟨r, h, hr, hm⟩ | ⟨r, h, hr, hm⟩
  · rw [hm, invoke_stay hm]
    exact .nil
  · rw [hm, invoke_abort hb hs]
    refine .ends ?_ [.request .cancel (env.hal .cancel), .signal .Aborted] ?_ rfl
    · rfl
    · simp
  · have hrequest := assigns_request env h
    rw [if_pos hr] at hrequest
    rwa [hm]
  · have hrequest := assigns_request env h
    rw [if_neg hr] at hrequest
    rwa [hm]

theorem assigns_slot [QDataStream] (signal : Signal) :
    Assigns x (x.self.signalMove signal).states (slot env signal x) := by
  cases signal with
  | failed message =>
    by_cases ht : x.self.tolerates message
    · simp only [slot, slot_failed_tolerated ht, signalMove, ht, if_true]
      exact .silent rfl [.signal (.ErrorInfo message)] rfl rfl
    · have hslot : slot_failed message x =
          setState .FPSTATE_IDLE (x |> emit (.ErrorInfo message) |> emit .Failed) := by
        rw [tolerates, not_or] at ht
        simp [slot_failed, ht]
      simp only [slot, hslot, signalMove, ht, if_false]
      refine .ends ?_ [.signal (.ErrorInfo message), .signal .Failed] ?_ rfl
      · rfl
      · simp
  | succeeded finger =>
    refine .ends ?_ [.signal (.Added x.self.m_addingFinger), .signal .ListChanged] ?_ rfl
    · rfl
    · simp
  | removed finger =>
    by_cases hf : finger = 0
    · refine .ends ?_ ((FingerMap.values x.self.m_fingerMap).map
        (fun f => .signal (.Removed f)) ++ [.signal .ListChanged]) ?_ ?_
      · simp [hf, foldl_removed]
      · simp [hf, foldl_removed]
      · rw [statesTold_append, statesTold_map (fun _ => rfl)]
        rfl
    · refine .ends ?_
        [.signal (.Removed ((x.self.m_fingerMap[finger]?).getD "")), .signal .ListChanged] ?_ rfl
      · simp [hf]
      · simp [hf]
  | authenticated finger =>
    refine .ends ?_ [.signal (.Identified (x.self.identifiedName finger))] ?_ rfl
    · cases x.self.m_fingerMap[finger]? <;> rfl
    · cases h : x.self.m_fingerMap[finger]? <;> simp [identifiedName, h]
  | enrollProgress pc =>
    by_cases hv : x.self.m_state = .FPSTATE_VERIFYING
    · simp only [slot, slot_enrollProgress, signalMove, emit_self, hv, if_true]
      refine .ends ?_ [.signal (.EnrollProgressChanged (toPercent pc)), .signal .Verified,
        .request .cancel (env.hal .cancel), .signal .Aborted] ?_ rfl
      · rfl
      · simp
    · simp only [slot, slot_enrollProgress, signalMove, emit_self, hv, if_false]
      exact .silent rfl [.signal (.EnrollProgressChanged (toPercent pc))] rfl rfl
  | acquired info =>
    refine .silent ?_ _ (slot_acquired_out info x) ?_
    · simp [slot]
    · by_cases h : acquiredState info = x.self.m_acquired <;>
        simp [h, statesTold, Output.stateChanged]
  | enumerated =>
    refine .ends ?_ [.signal .ListChanged] ?_ rfl
    · rfl
    · rfl

end FPDCommunity

/-- The values the constructor assigns to `m_state`. -/
def bootStates (env : Env) : List State :=
  if env.hal .enumerate = SYS_OK then [.FPSTATE_ENUMERATING]
  else [.FPSTATE_ENUMERATING, .FPSTATE_IDLE]

theorem assigns_construct (env : Env) (getprop : String → String)
    (database : Option (List UInt8)) :
    Assigns { self := { database } } (bootStates env) (construct env getprop database) := by
  let x : Exec := androidFP (AndroidFP.setGroup env.hal 0
    (AndroidFP.getDefaultGroupPath getprop 100000)) { self := { database } }
  have hx : x.self.m_state = .FPSTATE_IDLE := by simp [x, androidFP_idle]
  have hgroup : Assigns { self := { database } } [] x := by
    refine .silent (by rw [hx]) x.out (List.nil_append _).symm ?_
    simp only [x, androidFP_idle, List.nil_append]
    rw [statesTold_append, statesTold_map (fun _ => rfl), statesTold_map (fun _ => rfl)]
    rfl
  have hstart : Assigns { self := { database } } [.FPSTATE_ENUMERATING]
      (setState .FPSTATE_ENUMERATING x) := .set hgroup _
  have hcall : construct env getprop database =
      androidFP (AndroidFP.enumerate env.hal) (setState .FPSTATE_ENUMERATING x) := by
    show enumerate env x = _
    rw [enumerate, if_pos hx]
  rw [hcall]
  have hrequest : Assigns (setState .FPSTATE_ENUMERATING x)
      (if env.hal .enumerate = SYS_OK then [] else [.FPSTATE_IDLE])
      (androidFP (AndroidFP.enumerate env.hal) (setState .FPSTATE_ENUMERATING x)) :=
    assigns_androidFP (fun _ => rfl) (by simp)
  have henumerate := hstart.trans hrequest
  unfold bootStates
  split
  · simpa [*] using henumerate
  · simpa [*] using henumerate

section Runs

variable [QDataStream]

theorem step_assigns (s : System) (i : Input) :
    Assigns { self := s.fpd } (s.move i).states
      { self := (daemon.step s i).1.fpd, out := (daemon.step s i).2.out } := by
  obtain ⟨event, env⟩ := i
  cases event with
  | call caller c => exact assigns_invoke c
  | timeout =>
    by_cases ht : s.fpd.m_cancelTimer
    · simp only [System.move, daemon, System.step, ht, if_true]
      refine .ends ?_ [.request .cancel (env.hal .cancel), .signal .Failed] ?_ rfl
      · rfl
      · rfl
    · simp only [System.move, daemon, System.step, ht]
      exact .nil
  | callback cb =>
    refine .silent ?_ _ (List.nil_append _).symm ?_
    · rfl
    · exact statesTold_map (fun _ => rfl) _
  | deliver =>
    obtain ⟨d, queue⟩ := s
    cases queue with
    | nil => exact .nil
    | cons signal queue => exact assigns_slot signal

theorem step_told (s : System) (i : Input) :
    (daemon.step s i).1.fpd.m_state = (s.move i).states.getLastD s.fpd.m_state ∧
      statesTold (daemon.step s i).2.out =
        (news s.fpd.m_state (s.move i).states).map State.key := (step_assigns s i).told

/-- All values assigned to `m_state`, from the constructor on. -/
def stateHistory (env : Env) (past : List Edge) : List State :=
  bootStates env ++ past.flatMap fun e => (e.src.move e.input).states

/-- All that was sent, from the constructor on. -/
def sent (env : Env) (getprop : String → String) (database : Option (List UInt8))
    (past : List Edge) : List Output :=
  (construct env getprop database).out ++ past.flatMap (·.out.out)

/-- What the clients are told, after the initial state, is the history without its repetitions. -/
def TellsHistory (env : Env) (getprop : String → String) (database : Option (List UInt8))
    (past : List Edge) : Prop :=
  State.key .FPSTATE_IDLE :: statesTold (sent env getprop database past) =
    ((.FPSTATE_IDLE :: stateHistory env past).destutter (· ≠ ·)).map State.key

theorem told_history (env : Env) (getprop : String → String) (database : Option (List UInt8))
    (is : List Input) :
    let past := daemon.edges (boot env getprop database) is
    (daemon.final (boot env getprop database) is).fpd.m_state =
        (stateHistory env past).getLastD .FPSTATE_IDLE ∧
      statesTold (sent env getprop database past) =
        (news .FPSTATE_IDLE (stateHistory env past)).map State.key := by
  induction is using List.reverseRecOn with
  | nil =>
    have hboot := (assigns_construct env getprop database).told
    simpa [stateHistory, sent, boot] using hboot
  | append_singleton is i ih =>
    obtain ⟨hstate, htold⟩ := ih
    have hstep := step_told (daemon.final (boot env getprop database) is) i
    have hhistory : ∀ past : List Edge, ∀ e, stateHistory env (past ++ [e]) =
        stateHistory env past ++ (e.src.move e.input).states := by simp [stateHistory]
    have hsent : ∀ past : List Edge, ∀ e, sent env getprop database (past ++ [e]) =
        sent env getprop database past ++ e.out.out := by simp [sent]
    simp only [daemon.edges_snoc, daemon.final_snoc, hhistory, hsent, statesTold_append, htold,
      news_append, List.map_append]
    refine ⟨?_, ?_⟩
    · rw [getLastD_append, ← hstate]
      exact hstep.1
    · rw [← hstate]
      exact congrArg _ hstep.2

/-- A running operation that is left is left for the idle state, and the clients are told. -/
theorem idle_told {s : System} {is : List Input} (hs : s.fpd.m_state ≠ .FPSTATE_IDLE)
    (hne : (daemon.final s is).fpd.m_state ≠ s.fpd.m_state) :
    .signal (.StateChanged "FPSTATE_IDLE") ∈ (daemon.edges s is).flatMap (·.out.out) := by
  induction is generalizing s with
  | nil => exact absurd rfl hne
  | cons i is ih =>
    obtain ⟨hstate, htold⟩ := step_told s i
    rw [daemon.edges_cons, List.flatMap_cons, List.mem_append]
    rcases s.move_of_busy hs i with hm | ⟨e, hm⟩
    · have hstay : (daemon.step s i).1.fpd.m_state = s.fpd.m_state := by rw [hstate, hm]; rfl
      refine .inr (ih (by rwa [hstay]) ?_)
      rw [hstay]
      exact hne
    · refine .inl (mem_statesTold.mp ?_)
      rw [daemon.edge_out, htold, hm, Move.states, news_cons_ne (Ne.symm hs)]
      exact List.mem_cons_self

/-- No operation is handed over: a running one goes on for its owner, or ends; an enrolment is that
of the accepted `Enroll`. -/
structure NoHandover (past : List Edge) (s : System) : Prop where
  step : s.fpd.m_state ≠ .FPSTATE_IDLE → ∀ i, SameSession s.fpd (daemon.step s i).1.fpd ∨
    (daemon.step s i).1.fpd.Ended
  slot : s.fpd.m_state ≠ .FPSTATE_IDLE → ∀ env signal,
    SameSession s.fpd (slot env signal { self := s.fpd }).self ∨
      (slot env signal { self := s.fpd }).self.Ended
  adding : s.fpd.m_state = .FPSTATE_ENROLLING →
    lastAccepted past = some (s.fpd.m_dbusCaller, .Enroll s.fpd.m_addingFinger)

theorem step_session {s : System} (hs : s.fpd.m_state ≠ .FPSTATE_IDLE) (i : Input) :
    SameSession s.fpd (daemon.step s i).1.fpd ∨ (daemon.step s i).1.fpd.Ended := by
  have h := (step_makes s i).1
  rcases s.move_of_busy hs i with hm | ⟨e, hm⟩ <;> rw [hm] at h
  · exact .inl (sameSession_of_control h)
  · exact .inr (ended_of_control h)

/-- **No operation is handed over or replaced.** The values assigned to `m_state` are those of
`stateHistory`, and what the clients are told is this history without its repetitions; between two
different busy states they are told the idle one. -/
theorem no_handover (env : Env) (getprop : String → String) (database : Option (List UInt8))
    (is : List Input) :
    daemon.Visits (boot env getprop database) is NoHandover ∧
      Assigns { self := { database } } (bootStates env) (construct env getprop database) ∧
      (daemon.Along (boot env getprop database) is fun _ e =>
        Assigns { self := e.src.fpd } (e.src.move e.input).states
          { self := e.dst.fpd, out := e.out.out }) ∧
      TellsHistory env getprop database (daemon.edges (boot env getprop database) is) ∧
      ∀ js ks ls, is = js ++ ks ++ ls →
        let s := daemon.final (boot env getprop database) js
        s.fpd.m_state ≠ .FPSTATE_IDLE →
          (daemon.final s ks).fpd.m_state ≠ .FPSTATE_IDLE →
          (daemon.final s ks).fpd.m_state ≠ s.fpd.m_state →
            .signal (.StateChanged "FPSTATE_IDLE") ∈ (daemon.edges s ks).flatMap (·.out.out) := by
  refine ⟨?_, assigns_construct env getprop database, ?_, ?_, ?_⟩
  · refine (visits_tracks env getprop database is).mono fun past s h => ⟨?_, ?_, ?_⟩
    · exact fun hs i => step_session hs i
    · exact fun _ env signal => slot_session env signal { self := s.fpd }
    · exact fun hs => Control.tracks_enrolling h hs
  · exact fun js i ks _ => step_assigns _ i
  · rw [TellsHistory, ← cons_news, List.map_cons, (told_history env getprop database is).2]
  · exact fun js ks ls _ hs _ hne => idle_told hs hne

end Runs

end SailfishFpd
