import SailfishFpd.Hal.Biometry

/-!
# The authentication token

`UHardwareBiometry_::enroll` enrols a password with the Gatekeeper, has it
verified and hands the token of the answer to the fingerprint HAL, which copies
`tokenSize` bytes from the pointer it is given. Both answers are read by
callbacks that share one error code; the pointer is set by the second one only.
-/

namespace SailfishFpd

/-! ## The two services -/

/-- `GatekeeperStatusCode::STATUS_OK`; success codes are not below it. -/
abbrev STATUS_OK : Int32 := 0

abbrev STATUS_REENROLL : Int32 := 1

abbrev ERROR_RETRY_TIMEOUT : Int32 := -2

/-- The payload is a `hidl_vec`, whose size is a 32-bit number. -/
structure GatekeeperResponse where
  code : Int32
  timeout : UInt32
  data : List UInt8
  size_lt : data.length < UInt32.size

theorem GatekeeperResponse.size_eq_zero (rsp : GatekeeperResponse) :
    UInt32.ofNat rsp.data.length = 0 ↔ rsp.data = [] := by
  rw [← UInt32.toNat_inj, UInt32.toNat_ofNat_of_lt' rsp.size_lt]
  exact List.length_eq_zero_iff

/-- A call of the Gatekeeper: when the transport is ok the callback got its response, else it may
have been called or not. -/
inductive Return where
  | ok (rsp : GatekeeperResponse)
  | failed (rsp : Option GatekeeperResponse)

def Return.isOk : Return → Bool
  | .ok _ => true
  | .failed _ => false

structure IGatekeeper where
  enroll (uid : UInt32) (enteredPwd : List UInt8) : Return
  verify (uid : UInt32) (challenge : UInt64) (curPwdHandle enteredPwd : List UInt8) : Return

/-- The fingerprint HAL: the challenge it gives, and the status it answers to `enroll`. -/
structure IBiometricsFingerprint where
  preEnroll : UInt64
  enroll (token : List UInt8) (gid timeoutSec : UInt32) : Int

/-- The size of the array that the fingerprint HAL takes as a token. -/
def tokenSize : Nat := 69

/-! ## Enrolment -/

/-- A status the interface does not know is `SYS_UNKNOWN`. -/
def HIDLToURequestStatus (req : Int) : Int :=
  match req with
  | SYS_UNKNOWN => SYS_UNKNOWN
  | SYS_OK => SYS_OK
  | SYS_ENOENT => SYS_ENOENT
  | SYS_EINTR => SYS_EINTR
  | SYS_EIO => SYS_EIO
  | SYS_EAGAIN => SYS_EAGAIN
  | SYS_ENOMEM => SYS_ENOMEM
  | SYS_EACCES => SYS_EACCES
  | SYS_EFAULT => SYS_EFAULT
  | SYS_EBUSY => SYS_EBUSY
  | SYS_EINVAL => SYS_EINVAL
  | SYS_ENOSPC => SYS_ENOSPC
  | SYS_ETIMEDOUT => SYS_ETIMEDOUT
  | _ => SYS_UNKNOWN

namespace UHardwareBiometry

inductive HalCall where
  | preEnroll
  | enroll (token : List UInt8) (gid timeoutSec : UInt32)
  deriving DecidableEq

/-- The variables that the callbacks set. `auth_token` is not initialised; its length is that of
the data it points to. -/
structure Locals where
  ret : Int32 := 0
  curPwdHandle : List UInt8 := []
  request_reenroll : Bool := false
  auth_token : Option (List UInt8) := none

/-- What `enroll` did and returned: `none` if it read the token's pointer before it was set. -/
structure Enrolled where
  calls : List HalCall
  status : Option Int
  deriving DecidableEq

/-- What both callbacks make of the status code; `store` takes the payload of a success. -/
def respond (store : GatekeeperResponse → Locals → Locals) (rsp : GatekeeperResponse)
    (l : Locals) : Locals :=
  let l := { l with ret := rsp.code }
  if STATUS_OK ≤ rsp.code then { store rsp l with ret := 0 }
  else if rsp.code = ERROR_RETRY_TIMEOUT ∧ 0 < rsp.timeout then
    { l with ret := rsp.timeout.toInt32 }
  else l

def enrollCallback : GatekeeperResponse → Locals → Locals :=
  respond fun rsp l => { l with curPwdHandle := rsp.data }

def verifyCallback : GatekeeperResponse → Locals → Locals :=
  respond fun rsp l =>
    { l with auth_token := some rsp.data, request_reenroll := rsp.code == STATUS_REENROLL }

def Password : List UInt8 := "default_password".toUTF8.toList

def call (hwRet : Return) (callback : GatekeeperResponse → Locals → Locals) (l : Locals) : Locals :=
  match hwRet with
  | .ok rsp | .failed (some rsp) => callback rsp l
  | .failed none => l

/-- `enroll`, once both services were found. -/
def enrollWith (fpHal : IBiometricsFingerprint) (gk_device : IGatekeeper)
    (gid timeoutSec user_id : UInt32) : Enrolled :=
  let refused : Enrolled := { calls := [.preEnroll], status := some SYS_UNKNOWN }
  let hwRet := gk_device.enroll user_id Password
  let l := call hwRet enrollCallback {}
  if ¬ hwRet.isOk ∨ l.ret ≠ 0 then refused
  else
    let hwRet := gk_device.verify user_id fpHal.preEnroll l.curPwdHandle Password
    let l := call hwRet verifyCallback l
    if ¬ hwRet.isOk ∨ l.ret ≠ 0 then refused
    else
      match l.auth_token with
      | none => { calls := [.preEnroll], status := none }
      | some auth_token =>
        if UInt32.ofNat auth_token.length = 0 then refused
        else
          { calls := [.preEnroll, .enroll auth_token gid timeoutSec]
            status := some (HIDLToURequestStatus (fpHal.enroll auth_token gid timeoutSec)) }

def enroll (fpHal : Option IBiometricsFingerprint) (gk_device : Option IGatekeeper)
    (gid timeoutSec user_id : UInt32) : Enrolled :=
  match fpHal with
  | none => { calls := [], status := some SYS_UNKNOWN }
  | some fpHal =>
    match gk_device with
    | none => { calls := [.preEnroll], status := some SYS_UNKNOWN }
    | some gk_device => enrollWith fpHal gk_device gid timeoutSec user_id

/-! ## What reaches the fingerprint HAL -/

/-- The callbacks leave no error for a success code, and only then: a timeout that is stored is not
`0`. -/
theorem respond_ret {store : GatekeeperResponse → Locals → Locals} (rsp : GatekeeperResponse)
    (l : Locals) : (respond store rsp l).ret = 0 ↔ STATUS_OK ≤ rsp.code := by
  by_cases hok : STATUS_OK ≤ rsp.code
  · simp [respond, hok]
  · refine iff_of_false ?_ hok
    by_cases ht : rsp.code = ERROR_RETRY_TIMEOUT ∧ 0 < rsp.timeout
    · simp only [respond, if_neg hok, if_pos ht]
      intro h
      have hz : rsp.timeout = 0 := congrArg Int32.toUInt32 h
      rw [hz] at ht
      exact absurd ht.2 (by decide)
    · simp only [respond, if_neg hok, if_neg ht]
      intro h
      exact hok (by rw [h]; decide)

theorem enrollCallback_ret (rsp : GatekeeperResponse) (l : Locals) :
    (enrollCallback rsp l).ret = 0 ↔ STATUS_OK ≤ rsp.code := respond_ret rsp l

theorem verifyCallback_ret (rsp : GatekeeperResponse) (l : Locals) :
    (verifyCallback rsp l).ret = 0 ↔ STATUS_OK ≤ rsp.code := respond_ret rsp l

theorem enrollCallback_success {rsp : GatekeeperResponse} (h : STATUS_OK ≤ rsp.code) (l : Locals) :
    (enrollCallback rsp l).curPwdHandle = rsp.data := by
  simp [enrollCallback, respond, h]

theorem verifyCallback_success {rsp : GatekeeperResponse} (h : STATUS_OK ≤ rsp.code) (l : Locals) :
    (verifyCallback rsp l).auth_token = some rsp.data := by
  simp [verifyCallback, respond, h]

/-- The Gatekeeper answers both calls, with success codes and at last with the payload `token`. -/
def Grants (gk_device : IGatekeeper) (user_id : UInt32) (challenge : UInt64)
    (token : List UInt8) : Prop :=
  ∃ enrolled verified : GatekeeperResponse,
    gk_device.enroll user_id Password = .ok enrolled ∧ STATUS_OK ≤ enrolled.code ∧
      gk_device.verify user_id challenge enrolled.data Password = .ok verified ∧
        STATUS_OK ≤ verified.code ∧ verified.data = token

section Enrolment

variable {fpHal : IBiometricsFingerprint} {gk_device : IGatekeeper}
  {gid timeoutSec user_id : UInt32}

theorem Grants.unique {challenge : UInt64} {token token' : List UInt8}
    (h : Grants gk_device user_id challenge token)
    (h' : Grants gk_device user_id challenge token') : token = token' := by
  obtain ⟨enrolled, verified, henroll, -, hverify, -, rfl⟩ := h
  obtain ⟨enrolled', verified', henroll', -, hverify', -, rfl⟩ := h'
  obtain rfl : enrolled = enrolled' := by simpa [henroll] using henroll'
  obtain rfl : verified = verified' := by simpa [hverify] using hverify'
  rfl

theorem enrollWith_of_grants {token : List UInt8}
    (h : Grants gk_device user_id fpHal.preEnroll token) :
    enrollWith fpHal gk_device gid timeoutSec user_id =
      if token = [] then { calls := [.preEnroll], status := some SYS_UNKNOWN }
      else
        { calls := [.preEnroll, .enroll token gid timeoutSec]
          status := some (HIDLToURequestStatus (fpHal.enroll token gid timeoutSec)) } := by
  obtain ⟨enrolled, verified, henroll, hcode, hverify, hcode', rfl⟩ := h
  have hret : (enrollCallback enrolled {}).ret = 0 := (enrollCallback_ret enrolled {}).mpr hcode
  have hhandle := enrollCallback_success hcode {}
  have hret' := (verifyCallback_ret verified (enrollCallback enrolled {})).mpr hcode'
  have htoken := verifyCallback_success hcode' (enrollCallback enrolled {})
  simp [enrollWith, henroll, Return.isOk, call, hret, hhandle, hverify, hret', htoken,
    verified.size_eq_zero]

theorem enrollWith_of_not_grants
    (h : ∀ token, ¬ Grants gk_device user_id fpHal.preEnroll token) :
    enrollWith fpHal gk_device gid timeoutSec user_id =
      { calls := [.preEnroll], status := some SYS_UNKNOWN } := by
  cases henroll : gk_device.enroll user_id Password with
  | failed rsp => simp [enrollWith, henroll, Return.isOk]
  | ok enrolled =>
    by_cases hcode : STATUS_OK ≤ enrolled.code
    · have hret : (enrollCallback enrolled {}).ret = 0 := (enrollCallback_ret enrolled {}).mpr hcode
      have hhandle := enrollCallback_success hcode {}
      cases hverify : gk_device.verify user_id fpHal.preEnroll enrolled.data Password with
      | failed rsp => simp [enrollWith, henroll, Return.isOk, call, hret, hhandle, hverify]
      | ok verified =>
        have hcode' : ¬ STATUS_OK ≤ verified.code := fun hcode' =>
          h verified.data ⟨enrolled, verified, henroll, hcode, hverify, hcode', rfl⟩
        have hret' : (verifyCallback verified (enrollCallback enrolled {})).ret ≠ 0 :=
          fun h0 => hcode' ((verifyCallback_ret _ _).mp h0)
        simp [enrollWith, henroll, Return.isOk, call, hret, hhandle, hverify, hret']
    · have hret : (enrollCallback enrolled {}).ret ≠ 0 :=
        fun h0 => hcode ((enrollCallback_ret _ _).mp h0)
      simp [enrollWith, henroll, Return.isOk, call, hret]

/-- **What `enroll` does**: it hands on the token it was granted, if there is a byte in it, and
refuses otherwise; it never reads the pointer before it is set. -/
theorem enrollWith_cases (fpHal : IBiometricsFingerprint) (gk_device : IGatekeeper)
    (gid timeoutSec user_id : UInt32) :
    (∃ token, Grants gk_device user_id fpHal.preEnroll token ∧ token ≠ [] ∧
      enrollWith fpHal gk_device gid timeoutSec user_id =
        { calls := [.preEnroll, .enroll token gid timeoutSec]
          status := some (HIDLToURequestStatus (fpHal.enroll token gid timeoutSec)) }) ∨
    (∀ token, Grants gk_device user_id fpHal.preEnroll token → token = []) ∧
      enrollWith fpHal gk_device gid timeoutSec user_id =
        { calls := [.preEnroll], status := some SYS_UNKNOWN } := by
  by_cases hgrants : ∃ token, Grants gk_device user_id fpHal.preEnroll token
  · obtain ⟨token, h⟩ := hgrants
    by_cases hempty : token = []
    · refine .inr ⟨fun token' h' => (h'.unique h).trans hempty, ?_⟩
      rw [enrollWith_of_grants h, if_pos hempty]
    · refine .inl ⟨token, h, hempty, ?_⟩
      rw [enrollWith_of_grants h, if_neg hempty]
  · have hno := not_exists.mp hgrants
    exact .inr ⟨fun token h => absurd h (hno token), enrollWith_of_not_grants hno⟩

/-- The fingerprint HAL is asked to enrol exactly with the token that was granted, when that is one
it can copy, and everything else is refused. -/
structure TokenGuarded (fpHal : IBiometricsFingerprint) (gk_device : IGatekeeper)
    (gid timeoutSec user_id : UInt32) : Prop where
  calls : ∀ token gid' timeoutSec', .enroll token gid' timeoutSec' ∈
      (enroll (some fpHal) (some gk_device) gid timeoutSec user_id).calls ↔
    (Grants gk_device user_id fpHal.preEnroll token ∧ tokenSize ≤ token.length) ∧
      gid' = gid ∧ timeoutSec' = timeoutSec
  refused : (¬ ∃ token, Grants gk_device user_id fpHal.preEnroll token ∧
      tokenSize ≤ token.length) →
    (enroll (some fpHal) (some gk_device) gid timeoutSec user_id).status = some SYS_UNKNOWN

/-- **Only a token the HAL can copy is handed on, exactly when the Gatekeeper grants no short
one.** -/
theorem token_guarded_iff (fpHal : IBiometricsFingerprint) (gk_device : IGatekeeper)
    (gid timeoutSec user_id : UInt32) :
    TokenGuarded fpHal gk_device gid timeoutSec user_id ↔
      ∀ token, Grants gk_device user_id fpHal.preEnroll token →
        token = [] ∨ tokenSize ≤ token.length := by
  have henroll : enroll (some fpHal) (some gk_device) gid timeoutSec user_id =
      enrollWith fpHal gk_device gid timeoutSec user_id := rfl
  rcases enrollWith_cases fpHal gk_device gid timeoutSec user_id with
    ⟨token, hgrants, hne, hdone⟩ | ⟨hempty, hdone⟩
  · have hcall : .enroll token gid timeoutSec ∈
        (enroll (some fpHal) (some gk_device) gid timeoutSec user_id).calls := by
      simp [henroll, hdone]
    refine ⟨fun h token' hgrants' => ?_, fun h => ⟨fun token' gid' timeoutSec' => ?_, ?_⟩⟩
    · obtain rfl := hgrants.unique hgrants'
      exact .inr ((h.calls token gid timeoutSec).mp hcall).1.2
    · have hsize : tokenSize ≤ token.length := (h token hgrants).resolve_left hne
      have hmem : .enroll token' gid' timeoutSec' ∈
          (enroll (some fpHal) (some gk_device) gid timeoutSec user_id).calls ↔
            token' = token ∧ gid' = gid ∧ timeoutSec' = timeoutSec := by
        simp [henroll, hdone]
      refine hmem.trans (and_congr_left fun _ => ⟨?_, fun h' => h'.1.unique hgrants⟩)
      rintro rfl
      exact ⟨hgrants, hsize⟩
    · exact fun hno => absurd ⟨token, hgrants, (h token hgrants).resolve_left hne⟩ hno
  · have hno : ∀ token, ¬ (Grants gk_device user_id fpHal.preEnroll token ∧
        tokenSize ≤ token.length) := by
      rintro token ⟨hgrants, hsize⟩
      rw [hempty token hgrants] at hsize
      exact absurd hsize (by decide)
    refine iff_of_true ⟨fun token gid' timeoutSec' => iff_of_false ?_ fun h => hno token h.1,
      fun _ => ?_⟩ fun token h => .inl (hempty token h)
    · simp [henroll, hdone]
    · rw [henroll, hdone]

end Enrolment

/-- The Gatekeeper verifies the password with a payload of one byte, and that is the token. -/
theorem short_token_reaches_hal :
    let fpHal : IBiometricsFingerprint := { preEnroll := 1, enroll := fun _ _ _ => SYS_OK }
    let gk_device : IGatekeeper :=
      { enroll := fun _ _ => .ok ⟨STATUS_OK, 0, [1], by decide⟩
        verify := fun _ _ _ _ => .ok ⟨STATUS_OK, 0, [7], by decide⟩ }
    enroll (some fpHal) (some gk_device) 0 60 100000 =
        { calls := [.preEnroll, .enroll [7] 0 60], status := some SYS_OK } ∧
      ¬ TokenGuarded fpHal gk_device 0 60 100000 := by
  intro fpHal gk_device
  have hdone : enroll (some fpHal) (some gk_device) 0 60 100000 =
      { calls := [.preEnroll, .enroll [7] 0 60], status := some SYS_OK } := by rfl
  refine ⟨hdone, fun h => ?_⟩
  have hcalls := h.calls [7] 0 60
  rw [hdone] at hcalls
  have hsize := (hcalls.mp (by decide)).1.2
  exact absurd hsize (by decide)

end UHardwareBiometry

end SailfishFpd
