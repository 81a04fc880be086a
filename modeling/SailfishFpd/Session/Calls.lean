import SailfishFpd.System

/-!
# What a D-Bus call does

The five methods that start an operation check the caller, the state and their
argument in different orders, but a call either leaves the daemon as it was or
makes exactly one HAL request. `requestOf` is that request, read off the state
before the call; `invoke_idle` and `invoke_request` are the two cases.
-/

namespace SailfishFpd

/-- The state an operation runs in. -/
def Call.busyState : Call → State
  | .Enroll _ => .FPSTATE_ENROLLING
  | .Identify => .FPSTATE_IDENTIFYING
  | .Verify => .FPSTATE_VERIFYING
  | .Remove _ | .Clear => .FPSTATE_REMOVING
  | .GetState | .GetAll | .Abort => .FPSTATE_IDLE

/-- The calls that take ownership only after their HAL request. -/
def Call.claimsLate : Call → Bool
  | .Verify | .Remove _ => true
  | _ => false

/-- The calls that use the HAL's enrolment and so report progress `0`. -/
def Call.enrols : Call → Bool
  | .Enroll _ | .Verify => true
  | _ => false

namespace FPDCommunity

/-- The HAL request a call makes when it passes the checks of its method. -/
def requestOf (d : FPDCommunity) (caller : String) (c : Call) : Option Request :=
  if d.busyForOther caller ∨ d.m_state ≠ .FPSTATE_IDLE then none
  else match c with
    | .Enroll finger =>
      if finger ∈ FingerMap.values d.m_fingerMap then none else some (.enroll 0 60 100000)
    | .Identify => if d.m_fingerMap.size = 0 then none else some (.authenticate 0 0)
    | .Verify => some (.enroll 0 60 100000)
    | .Remove finger => if d.keyOf finger = 0 then none else some (.remove 0 (d.keyOf finger))
    | .Clear => some (.remove 0 0)
    | .GetState | .GetAll | .Abort => none

/-- The fields a call has set when its request returns, but for the state and the owner. -/
def prepared (d : FPDCommunity) : Call → FPDCommunity
  | .Enroll finger =>
    { d with
      m_addingFinger := finger
      m_androidFP := { d.m_androidFP with m_enrollRemaining := 0 } }
  | .Verify => { d with m_androidFP := { d.m_androidFP with m_enrollRemaining := 0 } }
  | .Identify => { d with m_cancelTimer := true }
  | .Remove finger =>
    { d with m_androidFP := { d.m_androidFP with m_removingFinger := d.keyOf finger } }
  | .Clear => { d with m_androidFP := { d.m_androidFP with m_removingFinger := 0 } }
  | .GetState | .GetAll | .Abort => d

/-- What a call that made its request leaves: the operation runs, or it was refused. -/
def afterRequest (d : FPDCommunity) (caller : String) (c : Call) (accepted : Bool) :
    FPDCommunity :=
  if accepted then { d.prepared c with m_state := c.busyState, m_dbusCaller := caller }
  else
    { d.prepared c with
      m_state := .FPSTATE_IDLE
      m_dbusCaller := if c.claimsLate then caller else "" }

variable {env : Env} {caller : String} {x : Exec}

theorem requestOf_busy {d : FPDCommunity} {c : Call}
    (h : d.busyForOther caller ∨ d.m_state ≠ .FPSTATE_IDLE) : d.requestOf caller c = none := by
  simp [requestOf, h]

/-- What a call that makes the request `r` has checked of its argument and of the list. -/
def Requests (d : FPDCommunity) (c : Call) (r : Request) : Prop :=
  match c with
  | .Enroll finger => finger ∉ FingerMap.values d.m_fingerMap ∧ r = .enroll 0 60 100000
  | .Identify => d.m_fingerMap.size ≠ 0 ∧ r = .authenticate 0 0
  | .Verify => r = .enroll 0 60 100000
  | .Remove finger => d.keyOf finger ≠ 0 ∧ r = .remove 0 (d.keyOf finger)
  | .Clear => r = .remove 0 0
  | .GetState | .GetAll | .Abort => False

theorem requests_of_some {d : FPDCommunity} {c : Call} {r : Request}
    (h : d.requestOf caller c = some r) : d.Requests c r := by
  unfold requestOf at h
  split at h
  · cases h
  · cases c with
    | Enroll finger =>
      by_cases hc : finger ∈ FingerMap.values d.m_fingerMap
      · simp [hc] at h
      · exact ⟨hc, by simpa [hc, eq_comm] using h⟩
    | Identify =>
      by_cases hc : d.m_fingerMap.size = 0
      · simp [hc] at h
      · exact ⟨hc, by simpa [hc, eq_comm] using h⟩
    | Remove finger =>
      by_cases hc : d.keyOf finger = 0
      · simp [hc] at h
      · exact ⟨hc, by simpa [hc, eq_comm] using h⟩
    | Verify | Clear => exact (Option.some.inj h).symm
    | GetState | GetAll | Abort => cases h

theorem requestOf_free {d : FPDCommunity} {c : Call} {r : Request}
    (h : d.requestOf caller c = some r) : ¬ d.busyForOther caller ∧ d.m_state = .FPSTATE_IDLE := by
  by_contra hn
  rw [requestOf_busy (by tauto)] at h
  cases h

/-- A call that makes no request changes nothing and sends nothing, unless it aborts. -/
theorem invoke_idle {c : Call} (h : x.self.requestOf caller c = none)
    (ha : c = .Abort → x.self.busyForOther caller ∨ x.self.m_state = .FPSTATE_IDLE) :
    (invoke env caller c x).1 = x := by
  by_cases hb : x.self.busyForOther caller
  · cases c <;> simp [invoke, Enroll, Identify, Abort, Verify, Remove, Clear, hb]
  by_cases hs : x.self.m_state = .FPSTATE_IDLE
  · cases c <;> simp_all [invoke, requestOf, Enroll, Identify, Abort, Remove]
  · cases c with
    | Abort => simp [hb, hs] at ha
    | Enroll finger =>
      by_cases hc : finger ∈ FingerMap.values x.self.m_fingerMap <;>
        simp [invoke, Enroll, hb, hs, hc]
    | _ => simp [invoke, Identify, Verify, Remove, Clear, hb, hs]

section Request

attribute [local simp] invoke afterRequest prepared refused emit stateChange Call.busyState
  Call.claimsLate Call.enrols

theorem invoke_request {c : Call} {r : Request} (h : x.self.requestOf caller c = some r) :
    (invoke env caller c x).1 =
      { self := x.self.afterRequest caller c (env.hal r = SYS_OK)
        out := x.out ++ .signal (.StateChanged c.busyState.key) :: requestOutput env.hal r ++
          if c.enrols then [.signal (.EnrollProgressChanged (some 0))] else [] } := by
  obtain ⟨hb, hs⟩ := requestOf_free h
  have hreq := requests_of_some h
  cases c with
  | Enroll finger =>
    obtain ⟨hc, rfl⟩ := hreq
    by_cases hr : env.hal (.enroll 0 60 100000) = SYS_OK <;>
      simp [Enroll, hb, hs, hc, hr,
        androidFP_request (f := AndroidFP.enroll env.hal 100000) (fun _ => rfl)]
  | Identify =>
    obtain ⟨hc, rfl⟩ := hreq
    by_cases hr : env.hal (.authenticate 0 0) = SYS_OK <;>
      simp [Identify, hb, hs, hc, hr,
        androidFP_request (f := AndroidFP.authenticate env.hal) (g := id) (fun _ => rfl)]
  | Verify =>
    obtain rfl := hreq
    by_cases hr : env.hal (.enroll 0 60 100000) = SYS_OK <;>
      simp [Verify, hb, hs, hr,
        androidFP_request (f := AndroidFP.enroll env.hal 100000) (fun _ => rfl)]
  | Remove finger =>
    obtain ⟨hc, rfl⟩ := hreq
    by_cases hr : env.hal (.remove 0 (x.self.keyOf finger)) = SYS_OK <;>
      simp [Remove, hb, hs, hc, hr,
        androidFP_request (f := AndroidFP.remove env.hal (x.self.keyOf finger)) (fun _ => rfl)]
  | Clear =>
    obtain rfl := hreq
    by_cases hr : env.hal (.remove 0 0) = SYS_OK <;>
      simp [Clear, hb, hs, hr,
        androidFP_request (f := AndroidFP.clear env.hal) (fun _ => rfl)]
  | GetState | GetAll | Abort => exact hreq.elim

end Request

theorem invoke_abort (hb : ¬ x.self.busyForOther caller) (hs : x.self.m_state ≠ .FPSTATE_IDLE) :
    invoke env caller .Abort x = (x |> abort env, .reply .FPREPLY_STARTED) := by
  simp [invoke, Abort, hb, hs]

end FPDCommunity

end SailfishFpd
