import SailfishFpd.Session.Timely
import SailfishFpd.QtStream

/-!
# Identification

`slot_failed` and `slot_enrollProgress` look at `m_state` before they end an
operation; `slot_authenticated` does not. A match that was queued while a client
was identifying is reported even when that identification is over by the time
its slot runs. The daemon keeps matches to their session as long as the HAL
matches for an identification only, and nothing overtakes a match in the queue.
-/

namespace SailfishFpd

open Reactive (Machine)
open Reactive.Machine (along_cons along_nil)

/-- The session of the last `Identify` that was answered `FPREPLY_STARTED`: open until the daemon
reports `Identified`, `Failed` or `Aborted`, in the answering step itself or later. -/
def sessionOpen (past : List Edge) : Bool :=
  past.foldl (fun wasOpen e =>
    (wasOpen || (accepted e).any (·.2 == .Identify)) && (reports e.out.out).isEmpty) false

@[simp] theorem sessionOpen_nil : sessionOpen [] = false := rfl

theorem sessionOpen_snoc (past : List Edge) (e : Edge) :
    sessionOpen (past ++ [e]) =
      ((sessionOpen past || (accepted e).any (·.2 == .Identify)) &&
        (reports e.out.out).isEmpty) := by
  simp [sessionOpen, List.foldl_append]

/-- How often `Identified` was sent. -/
def identifiedCount (past : List Edge) : Nat :=
  (past.flatMap fun e => reports e.out.out).count .identified

/-- How many `Identify` calls were answered `FPREPLY_STARTED`. -/
def identifyCount (past : List Edge) : Nat :=
  past.countP fun e => (accepted e).any (·.2 == .Identify)

/-- A step reports its match in the state and the session of an identification, and nothing else
with it. -/
structure InSession (past : List Edge) (e : Edge) : Prop where
  state : e.src.fpd.m_state = .FPSTATE_IDENTIFYING
  session : sessionOpen past = true
  once : reports e.out.out = [.identified]

/-- A match in its session uses the session up. -/
theorem identified_le_identify {past : List Edge} {e : Edge}
    (h : .identified ∈ reports e.out.out → InSession past e)
    (hle : identifiedCount past + (sessionOpen past).toNat ≤ identifyCount past) :
    identifiedCount (past ++ [e]) + (sessionOpen (past ++ [e])).toNat ≤
      identifyCount (past ++ [e]) := by
  rw [sessionOpen_snoc]
  simp only [identifiedCount, identifyCount, List.flatMap_append, List.count_append,
    List.flatMap_singleton, List.countP_append, List.countP_singleton] at hle ⊢
  by_cases hi : .identified ∈ reports e.out.out
  · obtain ⟨-, hopen, honce⟩ := h hi
    have hcount : (reports e.out.out).count .identified = 1 := by rw [honce]; rfl
    have hclosed : (reports e.out.out).isEmpty = false := by rw [honce]; rfl
    rw [hopen, Bool.toNat_true] at hle
    rw [hcount, hclosed, Bool.and_false, Bool.toNat_false]
    omega
  · rw [List.count_eq_zero.mpr hi]
    generalize (accepted e).any (·.2 == .Identify) = starts
    generalize sessionOpen past = wasOpen at hle ⊢
    cases starts <;> cases wasOpen <;> cases (reports e.out.out).isEmpty <;>
      simp at hle ⊢ <;> omega

def Signal.IsMatch (signal : Signal) : Prop := ∃ finger, signal = .authenticated finger

instance : DecidablePred Signal.IsMatch
  | .authenticated finger => isTrue ⟨finger, rfl⟩
  | .failed _ | .succeeded _ | .removed _ | .enrollProgress _ | .acquired _ | .enumerated =>
    isFalse (by rintro ⟨_, h⟩; cases h)

/-- If a match is about to be handled, an identification runs. -/
def MatchInTime : List Edge → Edge → Prop :=
  InTime Signal.IsMatch fun _ s => s.fpd.m_state = .FPSTATE_IDENTIFYING

/-- A match is posted while an identification runs and no signal that ends it is queued, and while a
match is queued neither an `Abort` nor the timer ends the identification. -/
abbrev MatchTimely : List Edge → Edge → Prop :=
  Timely Signal.IsMatch .FPSTATE_IDENTIFYING fun _ s => s.fpd.m_state = .FPSTATE_IDENTIFYING

theorem System.move_authenticated {s : System} {i : Input}
    (h : .identified ∈ (s.move i).reports) :
    i.event = .deliver ∧ (∃ finger queue, s.queue = .authenticated finger :: queue) ∧
      (s.move i).reports = [.identified] := by
  obtain ⟨event, env⟩ := i
  cases event with
  | call caller c =>
    simp only [System.move] at h
    rcases FPDCommunity.callMove_cases s.fpd env.hal caller c with
      ⟨-, hm⟩ | ⟨-, -, -, hm⟩ | ⟨r, -, -, hm⟩ | ⟨r, -, -, hm⟩ <;> rw [hm] at h <;>
      simp [Move.reports] at h
  | timeout => by_cases ht : s.fpd.m_cancelTimer <;> simp [System.move, ht, Move.reports] at h
  | callback cb => simp [System.move, Move.reports] at h
  | deliver =>
    obtain ⟨d, queue⟩ := s
    cases queue with
    | nil => simp [System.move, Move.reports] at h
    | cons signal queue =>
      simp only [System.move] at h ⊢
      cases signal with
      | authenticated finger => exact ⟨trivial, ⟨finger, queue, rfl⟩, rfl⟩
      | failed message =>
        by_cases ht : d.tolerates message <;>
          simp [FPDCommunity.signalMove, ht, Move.reports] at h
      | enrollProgress pc =>
        by_cases hv : d.m_state = .FPSTATE_VERIFYING <;>
          simp [FPDCommunity.signalMove, hv, Move.reports] at h
      | _ => simp [FPDCommunity.signalMove, Move.reports] at h

theorem Control.identifying_apply {c : Control} {m : Move}
    (h : (c.apply m).state = .FPSTATE_IDENTIFYING) :
    m.reports = [] ∧ (c.state = .FPSTATE_IDENTIFYING ∨ ∃ caller, m = .start caller .Identify) := by
  cases m with
  | stay => exact ⟨rfl, .inl h⟩
  | start caller call => cases call <;> simp_all [apply, Call.busyState, Move.reports]
  | bounce caller call => simp [apply] at h
  | finish e => simp [apply] at h

section Runs

variable [QDataStream] (env : Env) (getprop : String → String) (database : Option (List UInt8))

theorem sessionOpen_of_identifying (is : List Input) :
    daemon.Visits (boot env getprop database) is fun past s =>
      s.fpd.m_state = .FPSTATE_IDENTIFYING → sessionOpen past = true := by
  refine Machine.along_true.visits ?_ fun past s i h _ hs => ?_
  · rw [boot_fpd]
    by_cases hr : env.hal .enumerate = SYS_OK <;> simp [hr]
  · have hmove := congrArg Control.state (step_makes s i).1
    obtain ⟨hquiet, hor⟩ := Control.identifying_apply (hmove.symm.trans hs)
    rw [sessionOpen_snoc, edge_reports, hquiet, accepted_edge]
    rcases hor with hs' | ⟨caller, hm⟩
    · simp [h hs']
    · simp [hm, Move.started]

/-- What a run keeps to its sessions: every match that is reported, and how many there are. -/
structure KeepsSessions (s : System) (is : List Input) : Prop where
  inSession : daemon.Along s is fun past e => .identified ∈ reports e.out.out → InSession past e
  count : daemon.Visits s is fun past _ => identifiedCount past ≤ identifyCount past

theorem keepsSessions_iff (is : List Input) :
    KeepsSessions (boot env getprop database) is ↔
      daemon.Along (boot env getprop database) is MatchInTime := by
  have hsession : daemon.Along (boot env getprop database) is MatchInTime →
      daemon.Along (boot env getprop database) is fun past e =>
        .identified ∈ reports e.out.out → InSession past e := by
    intro h js i ks e hreport
    rw [edge_reports] at hreport
    obtain ⟨hdeliver, ⟨finger, queue, hq⟩, honce⟩ := System.move_authenticated hreport
    have hstate := h js i ks e hdeliver _ queue hq ⟨finger, rfl⟩
    have hopen := sessionOpen_of_identifying env getprop database is js (i :: ks) e hstate
    exact ⟨hstate, hopen, (edge_reports _ i).trans honce⟩
  refine ⟨?_, ?_⟩
  · rintro ⟨h, -⟩ js i ks e hdeliver _ queue hq ⟨finger, rfl⟩
    have hreport : .identified ∈ reports
        (daemon.edge (daemon.final (boot env getprop database) js) i).out.out := by
      rw [edge_reports]
      simp only [Machine.edge_input] at hdeliver
      simp only [Machine.edge_src] at hq
      simp [System.move, hdeliver, hq, FPDCommunity.signalMove, Move.reports]
    exact (h js i ks e hreport).state
  · intro h
    have hcount : daemon.Visits (boot env getprop database) is fun past _ =>
        identifiedCount past + (sessionOpen past).toNat ≤ identifyCount past :=
      (hsession h).visits (Nat.le_refl 0) fun _ _ _ hle hi => identified_le_identify hi hle
    exact ⟨hsession h, hcount.mono fun _ _ hle => Nat.le_of_add_right_le hle⟩

/-- **Matches are reported in their session as long as nothing overtakes them**: then `Identified`
is sent at most once for each `Identify`. A run in which a match is overtaken has a prefix after
which handling what is queued reports one outside its session. -/
theorem identified_in_session (is : List Input) :
    (daemon.Along (boot env getprop database) is MatchTimely →
        KeepsSessions (boot env getprop database) is) ∧
      (¬ daemon.Along (boot env getprop database) is MatchTimely →
        ∀ env', ∃ js ks n, is = js ++ ks ∧
          ¬ KeepsSessions (boot env getprop database)
            (js ++ List.replicate n ⟨.deliver, env'⟩)) := by
  have hlasts : Lasts .FPSTATE_IDENTIFYING fun _ s => s.fpd.m_state = .FPSTATE_IDENTIFYING :=
    lasts_state (by simp)
  refine ⟨fun h => ?_, fun h env' => ?_⟩
  · exact (keepsSessions_iff env getprop database is).mpr
      (inTime_of_timely hlasts (by simp) rfl h)
  · obtain ⟨js, ks, n, hjs, hlate⟩ := exists_not_inTime_of_not_timely hlasts (by simp) rfl env' h
    exact ⟨js, ks, n, hjs, mt (keepsSessions_iff env getprop database _).mp hlate⟩

end Runs

/-- `:1.5` identifies, and the match is handled while it waits. -/
theorem identified_in_session_match :
    letI := qt56
    let is : List Input := [⟨.callback (.enumerate 7 0), .answering SYS_OK⟩,
      ⟨.deliver, .answering SYS_OK⟩, ⟨.call ":1.5" .Identify, .answering SYS_OK⟩,
      ⟨.callback (.authenticated 7), .answering SYS_OK⟩, ⟨.deliver, .answering SYS_OK⟩]
    let s := boot (.answering SYS_OK) (fun _ => "") none
    KeepsSessions s is ∧ identifiedCount (daemon.edges s is) = 1 := by
  let := qt56
  intro is s
  have htimely : daemon.Along s is MatchTimely :=
    along_cons (by decide) (along_cons (by decide) (along_cons (by decide) (along_cons (by decide)
      (along_cons (by decide) along_nil))))
  exact ⟨(identified_in_session _ _ _ is).1 htimely, by decide⟩

/-- A match is queued while `:1.5` identifies; `:1.5` aborts and is told `Aborted`; then the match
is reported, to an idle daemon. -/
theorem identified_after_aborted :
    letI := qt56
    let s := daemon.final (boot (.answering SYS_OK) (fun _ => "") none)
      [⟨.callback (.enumerate 7 0), .answering SYS_OK⟩, ⟨.deliver, .answering SYS_OK⟩,
        ⟨.call ":1.5" .Identify, .answering SYS_OK⟩,
        ⟨.callback (.authenticated 7), .answering SYS_OK⟩]
    let aborted := daemon.step s ⟨.call ":1.5" .Abort, .answering SYS_OK⟩
    .signal .Aborted ∈ aborted.2.out ∧ aborted.1.fpd.m_state = .FPSTATE_IDLE ∧
      (daemon.step aborted.1 ⟨.deliver, .answering SYS_OK⟩).2.out =
        [.signal (.Identified "Unknown 7")] := by
  decide

end SailfishFpd
