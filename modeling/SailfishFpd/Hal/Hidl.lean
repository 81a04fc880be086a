import Mathlib.Data.List.Nodup
import SailfishFpd.Hal.Gatekeeper

/-!
# The layer over the HIDL services

`UHardwareBiometry_` passes the daemon's requests to the fingerprint service and
the callbacks of the service to the daemon. Every code that crosses is looked up
in a list of the known ones. Of a status that is not in the list it makes a
failure, `SYS_UNKNOWN`; of an error that is not, no error.
-/

namespace SailfishFpd

/-! ## Requests -/

/-- What the fingerprint service answers to each request. -/
structure FingerprintService extends IBiometricsFingerprint where
  postEnroll : Int
  cancel : Int
  enumerate : Int
  remove (gid fid : UInt32) : Int
  setActiveGroup (gid : UInt32) (storePath : String) : Int
  authenticate (operationId : UInt64) (gid : UInt32) : Int

namespace UHardwareBiometry

/-- A method that makes one call of the service. -/
def method (call : FingerprintService → Int) (fpHal : Option FingerprintService) : Int :=
  match fpHal with
  | none => SYS_UNKNOWN
  | some fpHal => HIDLToURequestStatus (call fpHal)

def postEnroll : Option FingerprintService → Int := method (·.postEnroll)

def cancel : Option FingerprintService → Int := method (·.cancel)

def enumerate : Option FingerprintService → Int := method (·.enumerate)

def remove (gid fid : UInt32) : Option FingerprintService → Int := method (·.remove gid fid)

def setActiveGroup (gid : UInt32) (storePath : String) : Option FingerprintService → Int :=
  method (·.setActiveGroup gid storePath)

def authenticate (operationId : UInt64) (gid : UInt32) : Option FingerprintService → Int :=
  method (·.authenticate operationId gid)

/-- The status of each request. `enroll` never returns without one: `enroll_status`. -/
def answer (fpHal : Option FingerprintService) (gk_device : Option IGatekeeper) (r : Request) :
    Int :=
  match r with
  | .setActiveGroup gid storePath => setActiveGroup gid storePath fpHal
  | .enroll gid timeoutSec uid =>
    (enroll (fpHal.map (·.toIBiometricsFingerprint)) gk_device gid timeoutSec uid).status.getD
      SYS_UNKNOWN
  | .postEnroll => postEnroll fpHal
  | .cancel => cancel fpHal
  | .enumerate => enumerate fpHal
  | .remove gid fid => remove gid fid fpHal
  | .authenticate operationId gid => authenticate operationId gid fpHal

end UHardwareBiometry

/-! ## Callbacks -/

def HIDLToUFingerprintAcquiredInfo (info : Int) : Int :=
  match info with
  | ACQUIRED_GOOD => ACQUIRED_GOOD
  | ACQUIRED_PARTIAL => ACQUIRED_PARTIAL
  | ACQUIRED_INSUFFICIENT => ACQUIRED_INSUFFICIENT
  | ACQUIRED_IMAGER_DIRTY => ACQUIRED_IMAGER_DIRTY
  | ACQUIRED_TOO_SLOW => ACQUIRED_TOO_SLOW
  | ACQUIRED_TOO_FAST => ACQUIRED_TOO_FAST
  | ACQUIRED_VENDOR => ACQUIRED_VENDOR
  | _ => ACQUIRED_GOOD

def HIDLToUFingerprintError (error : Int) : Int :=
  match error with
  | ERROR_NO_ERROR => ERROR_NO_ERROR
  | ERROR_HW_UNAVAILABLE => ERROR_HW_UNAVAILABLE
  | ERROR_UNABLE_TO_PROCESS => ERROR_UNABLE_TO_PROCESS
  | ERROR_TIMEOUT => ERROR_TIMEOUT
  | ERROR_NO_SPACE => ERROR_NO_SPACE
  | ERROR_CANCELED => ERROR_CANCELED
  | ERROR_UNABLE_TO_REMOVE => ERROR_UNABLE_TO_REMOVE
  | ERROR_LOCKOUT => ERROR_LOCKOUT
  | ERROR_VENDOR => ERROR_VENDOR
  | _ => ERROR_NO_ERROR

/-- The function pointers that `setNotify` takes: what runs when they are called. -/
structure UHardwareBiometryParams (α : Type) where
  enrollresult_cb : Option (UInt64 → UInt32 → UInt32 → UInt32 → α)
  acquired_cb : Option (UInt64 → Int → Int32 → α)
  authenticated_cb : Option (UInt64 → UInt32 → UInt32 → α)
  error_cb : Option (UInt64 → Int → Int32 → α)
  removed_cb : Option (UInt64 → UInt32 → UInt32 → UInt32 → α)
  enumerate_cb : Option (UInt64 → UInt32 → UInt32 → UInt32 → α)

/-- The calls of `BiometricsFingerprintClientCallback`. -/
inductive ClientCallback where
  | onEnrollResult (deviceId : UInt64) (fingerId groupId remaining : UInt32)
  | onAcquired (deviceId : UInt64) (acquiredInfo : Int) (vendorCode : Int32)
  | onAuthenticated (deviceId : UInt64) (fingerId groupId : UInt32) (token : List UInt8)
  | onError (deviceId : UInt64) (error : Int) (vendorCode : Int32)
  | onRemoved (deviceId : UInt64) (fingerId groupId remaining : UInt32)
  | onEnumerate (deviceId : UInt64) (fingerId groupId remaining : UInt32)
  deriving DecidableEq

/-- The call of the pointer behind a callback, when there is one. -/
def ClientCallback.run {α : Type} (hybris_fp_instance_cb : Option (UHardwareBiometryParams α))
    (cb : ClientCallback) : Option α :=
  hybris_fp_instance_cb.bind fun params =>
    match cb with
    | .onEnrollResult deviceId fingerId groupId remaining =>
      params.enrollresult_cb.map fun f => f deviceId fingerId groupId remaining
    | .onAcquired deviceId acquiredInfo vendorCode =>
      params.acquired_cb.map fun f =>
        f deviceId (HIDLToUFingerprintAcquiredInfo acquiredInfo) vendorCode
    | .onAuthenticated deviceId fingerId groupId _ =>
      params.authenticated_cb.map fun f => f deviceId fingerId groupId
    | .onError deviceId error vendorCode =>
      params.error_cb.map fun f => f deviceId (HIDLToUFingerprintError error) vendorCode
    | .onRemoved deviceId fingerId groupId remaining =>
      params.removed_cb.map fun f => f deviceId fingerId groupId remaining
    | .onEnumerate deviceId fingerId groupId remaining =>
      params.enumerate_cb.map fun f => f deviceId fingerId groupId remaining

/-- The pointers that the constructor of `AndroidFP` registers. -/
def AndroidFP.fp_params : UHardwareBiometryParams Callback where
  enrollresult_cb := some fun _ fingerId _ remaining => .enrollresult fingerId remaining
  acquired_cb := some fun _ info _ => .acquired info
  authenticated_cb := some fun _ fingerId _ => .authenticated fingerId
  error_cb := some fun _ error vendorCode => .error error vendorCode.toInt
  removed_cb := some fun _ fingerId _ remaining => .removed fingerId remaining
  enumerate_cb := some fun _ fingerId _ remaining => .enumerate fingerId remaining

/-! ## Failures -/

/-- The digits of a number have no sign. -/
theorem neg_append_repr_ne (m n : Nat) : "-" ++ m.repr ≠ n.repr := by
  intro h
  have hsign : '-' ∈ n.repr.toList := by simp [← h]
  rw [Nat.toList_repr] at hsign
  exact absurd (Nat.isDigit_of_mem_toDigits (by decide) (by decide) hsign) (by decide)

theorem natRepr_injective : Function.Injective Nat.repr := by
  intro m n h
  have hdigits : Nat.toDigits 10 m = Nat.toDigits 10 n := by
    rw [← Nat.toList_repr, ← Nat.toList_repr, h]
  simpa using congrArg (fun digits => Nat.ofDigitChars 10 digits 0) hdigits

theorem intRepr_injective : Function.Injective Int.repr := by
  rintro (m | m) (n | n) h
  · exact congrArg Int.ofNat (natRepr_injective h)
  · exact absurd h.symm (neg_append_repr_ne _ _)
  · exact absurd h (neg_append_repr_ne _ _)
  · have hmn := natRepr_injective ((String.append_right_inj _).mp h)
    exact congrArg Int.negSucc (Nat.succ.inj hmn)

/-- A failure with a text of its own. -/
inductive Failure where
  | status (req : Int)
  | error (code : Int)
  | vendor (vendorCode : Int)
  | notRecognized
  deriving DecidableEq

namespace Failure

def text : Failure → String
  | .status req => IntToStringRequestStatus req
  | .error code => IntToStringFingerprintError code 0
  | .vendor vendorCode => IntToStringFingerprintError ERROR_VENDOR vendorCode
  | .notRecognized => "FINGER_NOT_RECOGNIZED"

/-- The failures that are not a vendor's. -/
def common : List Failure :=
  [SYS_UNKNOWN, SYS_ENOENT, SYS_EINTR, SYS_EIO, SYS_EAGAIN, SYS_ENOMEM, SYS_EACCES, SYS_EFAULT,
      SYS_EBUSY, SYS_EINVAL, SYS_ENOSPC, SYS_ETIMEDOUT].map Failure.status ++
    [ERROR_HW_UNAVAILABLE, ERROR_UNABLE_TO_PROCESS, ERROR_TIMEOUT, ERROR_NO_SPACE, ERROR_CANCELED,
      ERROR_UNABLE_TO_REMOVE, ERROR_LOCKOUT].map Failure.error ++ [.notRecognized]

def Known (f : Failure) : Prop := f ∈ common ∨ ∃ vendorCode, f = .vendor vendorCode

theorem text_vendor_ne {f : Failure} (h : f ∈ common) (vendorCode : Int) :
    f.text ≠ (Failure.vendor vendorCode).text := by
  intro he
  have hprefix : ∀ f ∈ common, f.text.toList.take 14 ≠ "ERROR_VENDOR: ".toList := by decide
  refine hprefix f h ?_
  rw [he]
  show ("ERROR_VENDOR: " ++ toString vendorCode).toList.take 14 = _
  simp

/-- **A text says which failure it is.** -/
theorem text_injective {f g : Failure} (hf : f.Known) (hg : g.Known) (h : f.text = g.text) :
    f = g := by
  have hcommon : (common.map text).Nodup := by decide
  rcases hf with hf | ⟨m, rfl⟩ <;> rcases hg with hg | ⟨n, rfl⟩
  · exact List.inj_on_of_nodup_map hcommon hf hg h
  · exact absurd h (text_vendor_ne hf n)
  · exact absurd h.symm (text_vendor_ne hg m)
  · have hmn : m.repr = n.repr := (String.append_right_inj "ERROR_VENDOR: ").mp h
    rw [intRepr_injective hmn]

end Failure

theorem HIDLToURequestStatus_known {req : Int} (h : HIDLToURequestStatus req ≠ SYS_OK) :
    (Failure.status (HIDLToURequestStatus req)).Known := by
  refine .inl ?_
  unfold HIDLToURequestStatus at h ⊢
  split <;> first | decide | exact absurd rfl h

theorem HIDLToUFingerprintError_known (error : Int) :
    let code := HIDLToUFingerprintError error
    code = ERROR_NO_ERROR ∨ code = ERROR_VENDOR ∨ .error code ∈ Failure.common := by
  unfold HIDLToUFingerprintError
  split <;> decide

/-- The vendor's code shows in the text of a vendor's error only. -/
theorem IntToStringFingerprintError_vendor {error : Int} (h : error ≠ ERROR_VENDOR)
    (vendorCode : Int) :
    IntToStringFingerprintError error vendorCode = IntToStringFingerprintError error 0 := by
  unfold IntToStringFingerprintError
  split <;> first | rfl | exact absurd rfl h

namespace UHardwareBiometry

theorem enroll_status (fpHal : Option IBiometricsFingerprint) (gk_device : Option IGatekeeper)
    (gid timeoutSec user_id : UInt32) :
    ∃ req, (enroll fpHal gk_device gid timeoutSec user_id).status =
      some (HIDLToURequestStatus req) := by
  cases fpHal with
  | none => exact ⟨SYS_UNKNOWN, rfl⟩
  | some fpHal =>
    cases gk_device with
    | none => exact ⟨SYS_UNKNOWN, rfl⟩
    | some gk_device =>
      rcases enrollWith_cases fpHal gk_device gid timeoutSec user_id with
        ⟨token, -, -, h⟩ | ⟨-, h⟩
      · exact ⟨_, congrArg Enrolled.status h⟩
      · exact ⟨SYS_UNKNOWN, congrArg Enrolled.status h⟩

theorem exists_answer (fpHal : Option FingerprintService) (gk_device : Option IGatekeeper)
    (r : Request) : ∃ req, answer fpHal gk_device r = HIDLToURequestStatus req := by
  have hmethod : ∀ call : FingerprintService → Int,
      ∃ req, method call fpHal = HIDLToURequestStatus req := by
    intro call
    cases fpHal with
    | none => exact ⟨SYS_UNKNOWN, rfl⟩
    | some fpHal => exact ⟨call fpHal, rfl⟩
  cases r with
  | enroll gid timeoutSec uid =>
    obtain ⟨req, h⟩ := enroll_status (fpHal.map (·.toIBiometricsFingerprint)) gk_device gid
      timeoutSec uid
    exact ⟨req, by simp [answer, h]⟩
  | _ => exact hmethod _

end UHardwareBiometry

end SailfishFpd
