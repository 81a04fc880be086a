import SailfishFpd.Session.Calls

/-!
# Sessions

What the daemon is for, seen by its clients: at most one operation runs, it has
an owner, it is started by a call and ends with an `Ending`. `Control` is the
part of the daemon's state that carries this; a `Move` is what one step does to
it. `System.move` reads the move off the state and the input, and `step_makes`
says that every step of the daemon makes its move and reports it: `Control` with
`Control.apply` is an abstraction of the daemon.
-/

namespace SailfishFpd

/-- Whose operation runs, the identify timer and the name to enrol. -/
structure Control where
  state : State
  owner : String
  armed : Bool
  adding : String
  deriving DecidableEq

/-- How an operation ends. -/
inductive Ending where
  | failed
  | succeeded
  | removed
  | authenticated
  | enumerated
  | aborted
  | verified
  | timeout
  deriving DecidableEq

/-- The endings after which the timer runs on, when it ran. -/
def Ending.keepsTimer : Ending → Bool
  | .aborted | .verified | .authenticated | .timeout => false
  | .failed | .succeeded | .removed | .enumerated => true

/-- What a step does to the running operation. A call `bounce`s when it passed the checks of its
method and the HAL refused its request. -/
inductive Move where
  | stay
  | start (caller : String) (c : Call)
  | bounce (caller : String) (c : Call)
  | finish (e : Ending)
  deriving DecidableEq

/-- What the clients are told about an operation that ends. -/
inductive Report where
  | identified
  | failed
  | aborted
  deriving DecidableEq

def Output.report : Output → Option Report
  | .signal (.Identified _) => some .identified
  | .signal .Failed => some .failed
  | .signal .Aborted => some .aborted
  | _ => none

def reports (out : List Output) : List Report := out.filterMap Output.report

@[simp] theorem reports_nil : reports [] = [] := rfl

@[simp] theorem reports_cons (o : Output) (out : List Output) :
    reports (o :: out) = o.report.toList ++ reports out :=
  filterMap_output_cons Output.report o out

@[simp] theorem reports_append (a b : List Output) : reports (a ++ b) = reports a ++ reports b :=
  List.filterMap_append

@[simp] theorem reports_stateChange (old new : State) :
    reports (FPDCommunity.stateChange old new) = [] :=
  filterMap_stateChange (fun _ => rfl) old new

@[simp] theorem reports_map_request (rs : List (Request × Int)) :
    reports (rs.map fun p => .request p.1 p.2) = [] :=
  filterMap_map_none (fun _ => rfl) rs

@[simp] theorem reports_map_removed (names : List String) :
    reports (names.map fun f => .signal (.Removed f)) = [] :=
  filterMap_map_none (fun _ => rfl) names

@[simp] theorem reports_requestOutput (hal : Hal) (r : Request) :
    reports (FPDCommunity.requestOutput hal r) = if hal r = SYS_OK then [] else [.failed] := by
  by_cases h : hal r = SYS_OK <;> simp [FPDCommunity.requestOutput, Output.report, h]

def Move.reports : Move → List Report
  | .stay | .start .. => []
  | .bounce .. => [.failed]
  | .finish .authenticated => [.identified]
  | .finish .failed | .finish .timeout => [.failed]
  | .finish .aborted | .finish .verified => [.aborted]
  | .finish .succeeded | .finish .removed | .finish .enumerated => []

/-- When a move can be made: an operation starts from the idle state, for nobody's or the
caller's own turn; a match, a removal, an enrolment or an enumeration may end at any time. -/
def Move.Enabled (c : Control) : Move → Prop
  | .stay => True
  | .start caller call | .bounce caller call =>
    c.state = .FPSTATE_IDLE ∧ (c.owner = "" ∨ c.owner = caller) ∧ call.busyState ≠ .FPSTATE_IDLE
  | .finish .failed | .finish .aborted => c.state ≠ .FPSTATE_IDLE
  | .finish .verified => c.state = .FPSTATE_VERIFYING
  | .finish .timeout => c.armed = true
  | .finish .succeeded | .finish .removed | .finish .authenticated | .finish .enumerated => True

namespace Control

/-- The timer and the name to enrol once a call has passed its checks. -/
def prepare (c : Control) : Call → Control
  | .Enroll finger => { c with adding := finger }
  | .Identify => { c with armed := true }
  | _ => c

def apply (c : Control) : Move → Control
  | .stay => c
  | .start caller call => { c.prepare call with state := call.busyState, owner := caller }
  | .bounce caller call =>
    { c.prepare call with
      state := .FPSTATE_IDLE
      owner := if call.claimsLate then caller else "" }
  | .finish e =>
    { state := .FPSTATE_IDLE
      owner := ""
      armed := c.armed && e.keepsTimer
      adding := if e = .succeeded then "" else c.adding }

end Control

namespace FPDCommunity

def control (d : FPDCommunity) : Control :=
  { state := d.m_state
    owner := d.m_dbusCaller
    armed := d.m_cancelTimer
    adding := d.m_addingFinger }

@[simp] theorem control_state (d : FPDCommunity) : d.control.state = d.m_state := rfl
@[simp] theorem control_owner (d : FPDCommunity) : d.control.owner = d.m_dbusCaller := rfl
@[simp] theorem control_armed (d : FPDCommunity) : d.control.armed = d.m_cancelTimer := rfl
@[simp] theorem control_adding (d : FPDCommunity) : d.control.adding = d.m_addingFinger := rfl

def callMove (d : FPDCommunity) (hal : Hal) (caller : String) (c : Call) : Move :=
  match d.requestOf caller c with
  | some r => if hal r = SYS_OK then .start caller c else .bounce caller c
  | none =>
    if c = .Abort ∧ ¬ d.busyForOther caller ∧ d.m_state ≠ .FPSTATE_IDLE then .finish .aborted
    else .stay

/-- The four things a call can do. -/
theorem callMove_cases (d : FPDCommunity) (hal : Hal) (caller : String) (c : Call) :
    (d.requestOf caller c = none ∧ d.callMove hal caller c = .stay) ∨
    (c = .Abort ∧ ¬ d.busyForOther caller ∧ d.m_state ≠ .FPSTATE_IDLE ∧
      d.callMove hal caller c = .finish .aborted) ∨
    (∃ r, d.requestOf caller c = some r ∧ hal r = SYS_OK ∧
      d.callMove hal caller c = .start caller c) ∨
    (∃ r, d.requestOf caller c = some r ∧ hal r ≠ SYS_OK ∧
      d.callMove hal caller c = .bounce caller c) := by
  cases h : d.requestOf caller c with
  | none =>
    by_cases ha : c = .Abort ∧ ¬ d.busyForOther caller ∧ d.m_state ≠ .FPSTATE_IDLE
    · exact .inr (.inl ⟨ha.1, ha.2.1, ha.2.2, by simp only [callMove, h]; rw [if_pos ha]⟩)
    · exact .inl ⟨rfl, by simp only [callMove, h]; rw [if_neg ha]⟩
  | some r =>
    by_cases hr : hal r = SYS_OK
    · exact .inr (.inr (.inl ⟨r, rfl, hr, by simp [callMove, h, hr]⟩))
    · exact .inr (.inr (.inr ⟨r, rfl, hr, by simp [callMove, h, hr]⟩))

def signalMove (d : FPDCommunity) : Signal → Move
  | .failed message => if d.tolerates message then .stay else .finish .failed
  | .succeeded _ => .finish .succeeded
  | .removed _ => .finish .removed
  | .authenticated _ => .finish .authenticated
  | .enrollProgress _ => if d.m_state = .FPSTATE_VERIFYING then .finish .verified else .stay
  | .acquired _ => .stay
  | .enumerated => .finish .enumerated

end FPDCommunity

/-- The move a step makes. -/
def System.move (s : System) (i : Input) : Move :=
  match i.event with
  | .call caller c => s.fpd.callMove i.env.hal caller c
  | .timeout => if s.fpd.m_cancelTimer then .finish .timeout else .stay
  | .callback _ => .stay
  | .deliver =>
    match s.queue with
    | [] => .stay
    | signal :: _ => s.fpd.signalMove signal

/-! ## Every step makes its move -/

namespace FPDCommunity

/-- `y` is what a handler that makes the move `m` leaves of `x`. -/
structure Makes (m : Move) (x y : Exec) : Prop where
  control : y.self.control = x.self.control.apply m
  reports : reports y.out = reports x.out ++ m.reports

theorem Makes.refl (x : Exec) : Makes .stay x x := ⟨rfl, by simp [Move.reports]⟩

section

variable {x : Exec} {env : Env} {caller : String}

attribute [local simp] FPDCommunity.control Control.apply Ending.keepsTimer Move.reports
  Output.report

theorem control_afterRequest (d : FPDCommunity) (caller : String) (c : Call) (accepted : Bool) :
    (d.afterRequest caller c accepted).control =
      d.control.apply (if accepted then .start caller c else .bounce caller c) := by
  cases accepted <;> cases c <;> simp [afterRequest, prepared, Control.prepare]

theorem makes_invoke (c : Call) :
    Makes (x.self.callMove env.hal caller c) x (invoke env caller c x).1 := by
  cases h : x.self.requestOf caller c with
  | some r =>
    rw [invoke_request h]
    refine ⟨?_, ?_⟩
    · simp only [control_afterRequest, callMove, h, decide_eq_true_eq]
    · by_cases hr : env.hal r = SYS_OK <;> by_cases he : c.enrols <;>
        simp [callMove, h, hr, he]
  | none =>
    by_cases ha : c = .Abort ∧ ¬ x.self.busyForOther caller ∧ x.self.m_state ≠ .FPSTATE_IDLE
    · obtain ⟨rfl, hb, hs⟩ := ha
      rw [invoke_abort hb hs]
      refine ⟨?_, ?_⟩ <;> simp [callMove, h, hb, hs, abort]
    · rw [invoke_idle h (by tauto)]
      simpa [callMove, h, ha] using Makes.refl x

theorem makes_slot [QDataStream] (signal : Signal) :
    Makes (x.self.signalMove signal) x (slot env signal x) := by
  cases signal with
  | failed message =>
    by_cases ht : x.self.tolerates message
    · simp only [slot, slot_failed_tolerated ht, signalMove, ht, if_true]
      refine ⟨?_, ?_⟩ <;> simp
    · simp only [slot, slot_failed_ends ht, signalMove, ht, if_false]
      refine ⟨?_, ?_⟩ <;> simp
  | succeeded finger => refine ⟨?_, ?_⟩ <;> simp [slot, signalMove, slot_succeeded]
  | removed finger =>
    by_cases h : finger = 0 <;> refine ⟨?_, ?_⟩ <;>
      simp [slot, signalMove, slot_removed, foldl_removed, h]
  | authenticated finger =>
    refine ⟨?_, ?_⟩
    · simp [slot, signalMove]
    · simp [slot, signalMove, slot_authenticated_out]
  | enrollProgress pc =>
    by_cases hv : x.self.m_state = .FPSTATE_VERIFYING <;> refine ⟨?_, ?_⟩ <;>
      simp [slot, signalMove, slot_enrollProgress, hv, abort]
  | acquired info =>
    refine ⟨?_, ?_⟩
    · simp [slot, signalMove]
    · by_cases h : acquiredState info = x.self.m_acquired <;>
        simp [slot, signalMove, slot_acquired_out, h]
  | enumerated => refine ⟨?_, ?_⟩ <;> simp [slot, signalMove, slot_enumerated]

end

end FPDCommunity

open FPDCommunity

theorem FPDCommunity.requestOf_busyState {d : FPDCommunity} {caller : String} {c : Call}
    {r : Request} (h : d.requestOf caller c = some r) : c.busyState ≠ .FPSTATE_IDLE := by
  cases c with
  | GetState | GetAll | Abort => exact (requests_of_some h).elim
  | _ => simp [Call.busyState]

theorem System.move_enabled (s : System) (i : Input) : (s.move i).Enabled s.fpd.control := by
  obtain ⟨event, env⟩ := i
  cases event with
  | call caller c =>
    have he : ∀ r, s.fpd.requestOf caller c = some r →
        (Move.start caller c).Enabled s.fpd.control := by
      intro r h
      obtain ⟨hb, hs⟩ := requestOf_free h
      refine ⟨hs, ?_, requestOf_busyState h⟩
      simpa [busyForOther, or_iff_not_imp_left] using hb
    simp only [System.move]
    rcases callMove_cases s.fpd env.hal caller c with
      ⟨-, hm⟩ | ⟨-, -, hs, hm⟩ | ⟨r, h, -, hm⟩ | ⟨r, h, -, hm⟩ <;> rw [hm]
    · trivial
    · exact hs
    · exact he r h
    · exact he r h
  | timeout => by_cases ht : s.fpd.m_cancelTimer <;> simp [System.move, ht, Move.Enabled]
  | callback cb => trivial
  | deliver =>
    obtain ⟨d, queue⟩ := s
    cases queue with
    | nil => trivial
    | cons signal queue =>
      cases signal with
      | failed message =>
        by_cases ht : d.tolerates message
        · simp [System.move, signalMove, ht, Move.Enabled]
        · have hs : d.m_state ≠ .FPSTATE_IDLE := fun h => ht (.inl h)
          simpa [System.move, signalMove, ht, Move.Enabled] using hs
      | enrollProgress pc =>
        by_cases hv : d.m_state = .FPSTATE_VERIFYING <;>
          simp [System.move, signalMove, hv, Move.Enabled]
      | _ => trivial

theorem System.move_of_busy {s : System} (hs : s.fpd.m_state ≠ .FPSTATE_IDLE) (i : Input) :
    s.move i = .stay ∨ ∃ e, s.move i = .finish e := by
  have he := s.move_enabled i
  cases hm : s.move i with
  | stay => exact .inl rfl
  | finish e => exact .inr ⟨e, rfl⟩
  | start caller c | bounce caller c =>
    rw [hm] at he
    exact absurd he.1 hs

theorem boot_control (env : Env) (getprop : String → String) (database : Option (List UInt8)) :
    (boot env getprop database).fpd.control =
      { state := if env.hal .enumerate = SYS_OK then .FPSTATE_ENUMERATING else .FPSTATE_IDLE
        owner := ""
        armed := false
        adding := "" } := by
  rw [boot_fpd]; rfl

/-- **The daemon refines its sessions**: a step makes its move, and reports it. -/
theorem step_makes [QDataStream] (s : System) (i : Input) :
    (daemon.step s i).1.fpd.control = s.fpd.control.apply (s.move i) ∧
      reports (daemon.step s i).2.out = (s.move i).reports := by
  obtain ⟨event, env⟩ := i
  cases event with
  | call caller c =>
    have h : Makes (s.fpd.callMove env.hal caller c) _ _ := makes_invoke c (x := { self := s.fpd })
    exact ⟨h.control, h.reports⟩
  | timeout =>
    by_cases ht : s.fpd.m_cancelTimer <;>
      simp [daemon, System.step, System.move, ht, FPDCommunity.control, Control.apply,
        Ending.keepsTimer, Move.reports, slot_cancelIdentify, Output.report]
  | callback cb =>
    simp [daemon, System.step, System.move, FPDCommunity.control, Control.apply, Move.reports]
  | deliver =>
    obtain ⟨d, queue⟩ := s
    cases queue with
    | nil => exact ⟨rfl, rfl⟩
    | cons signal queue =>
      have h : Makes _ _ (slot env signal { self := d }) := makes_slot signal
      exact ⟨h.control, h.reports⟩

theorem System.move_eq_stay [QDataStream] {s : System} {i : Input}
    (hs : s.fpd.m_state ≠ .FPSTATE_IDLE)
    (hs' : (daemon.step s i).1.fpd.m_state ≠ .FPSTATE_IDLE) : s.move i = .stay := by
  rcases s.move_of_busy hs i with hm | ⟨e, hm⟩
  · exact hm
  · have hc := (step_makes s i).1
    rw [hm] at hc
    exact absurd (congrArg Control.state hc) hs'

theorem edge_reports [QDataStream] (s : System) (i : Input) :
    reports (daemon.edge s i).out.out = (s.move i).reports := (step_makes s i).2

end SailfishFpd
