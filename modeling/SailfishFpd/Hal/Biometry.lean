import Mathlib.Data.List.Basic

/-!
# The biometry C interface

The part of `biometry.h` the daemon uses: status, error and acquired codes
(plain C `int`s), the requests that go to the HAL and the callbacks that come
back, and the texts of the two code families.
-/

namespace SailfishFpd

/-! ## Codes -/

@[match_pattern] abbrev SYS_UNKNOWN : Int := 1
@[match_pattern] abbrev SYS_OK : Int := 0
@[match_pattern] abbrev SYS_ENOENT : Int := -2
@[match_pattern] abbrev SYS_EINTR : Int := -4
@[match_pattern] abbrev SYS_EIO : Int := -5
@[match_pattern] abbrev SYS_EAGAIN : Int := -11
@[match_pattern] abbrev SYS_ENOMEM : Int := -12
@[match_pattern] abbrev SYS_EACCES : Int := -13
@[match_pattern] abbrev SYS_EFAULT : Int := -14
@[match_pattern] abbrev SYS_EBUSY : Int := -16
@[match_pattern] abbrev SYS_EINVAL : Int := -22
@[match_pattern] abbrev SYS_ENOSPC : Int := -28
@[match_pattern] abbrev SYS_ETIMEDOUT : Int := -110

@[match_pattern] abbrev ERROR_NO_ERROR : Int := 0
@[match_pattern] abbrev ERROR_HW_UNAVAILABLE : Int := 1
@[match_pattern] abbrev ERROR_UNABLE_TO_PROCESS : Int := 2
@[match_pattern] abbrev ERROR_TIMEOUT : Int := 3
@[match_pattern] abbrev ERROR_NO_SPACE : Int := 4
@[match_pattern] abbrev ERROR_CANCELED : Int := 5
@[match_pattern] abbrev ERROR_UNABLE_TO_REMOVE : Int := 6
@[match_pattern] abbrev ERROR_LOCKOUT : Int := 7
@[match_pattern] abbrev ERROR_VENDOR : Int := 8

@[match_pattern] abbrev ACQUIRED_GOOD : Int := 0
@[match_pattern] abbrev ACQUIRED_PARTIAL : Int := 1
@[match_pattern] abbrev ACQUIRED_INSUFFICIENT : Int := 2
@[match_pattern] abbrev ACQUIRED_IMAGER_DIRTY : Int := 3
@[match_pattern] abbrev ACQUIRED_TOO_SLOW : Int := 4
@[match_pattern] abbrev ACQUIRED_TOO_FAST : Int := 5
@[match_pattern] abbrev ACQUIRED_VENDOR : Int := 6

def IntToStringFingerprintError (error vendorCode : Int) : String :=
  match error with
  | ERROR_NO_ERROR => "ERROR_NO_ERROR"
  | ERROR_HW_UNAVAILABLE => "ERROR_HW_UNAVAILABLE"
  | ERROR_UNABLE_TO_PROCESS => "ERROR_UNABLE_TO_PROCESS"
  | ERROR_TIMEOUT => "ERROR_TIMEOUT"
  | ERROR_NO_SPACE => "ERROR_NO_SPACE"
  | ERROR_CANCELED => "ERROR_CANCELED"
  | ERROR_UNABLE_TO_REMOVE => "ERROR_UNABLE_TO_REMOVE"
  | ERROR_LOCKOUT => "ERROR_LOCKOUT"
  | ERROR_VENDOR => "ERROR_VENDOR: " ++ toString vendorCode
  | _ => "ERROR_NO_ERROR"

def IntToStringRequestStatus (error : Int) : String :=
  match error with
  | SYS_UNKNOWN => "SYS_UNKNOWN"
  | SYS_OK => "SYS_OK"
  | SYS_ENOENT => "SYS_ENOENT"
  | SYS_EINTR => "SYS_EINTR"
  | SYS_EIO => "SYS_EIO"
  | SYS_EAGAIN => "SYS_EAGAIN"
  | SYS_ENOMEM => "SYS_ENOMEM"
  | SYS_EACCES => "SYS_EACCES"
  | SYS_EFAULT => "SYS_EFAULT"
  | SYS_EBUSY => "SYS_EBUSY"
  | SYS_EINVAL => "SYS_EINVAL"
  | SYS_ENOSPC => "SYS_ENOSPC"
  | SYS_ETIMEDOUT => "SYS_ETIMEDOUT"
  | _ => "SYS_OK"

/-! ## Requests and callbacks -/

/-- The calls `AndroidFP` makes through `biometry.h`. -/
inductive Request where
  | setActiveGroup (gid : UInt32) (storePath : String)
  | enroll (gid timeoutSec uid : UInt32)
  | postEnroll
  | cancel
  | enumerate
  | remove (gid fid : UInt32)
  | authenticate (operationId : UInt64) (gid : UInt32)
  deriving DecidableEq, Repr

/-- The HAL's callbacks, without the device and group ids, which no handler reads. -/
inductive Callback where
  | enrollresult (fingerId remaining : UInt32)
  | acquired (info : Int)
  | authenticated (fingerId : UInt32)
  | error (error vendorCode : Int)
  | removed (fingerId remaining : UInt32)
  | enumerate (fingerId remaining : UInt32)
  deriving DecidableEq, Repr

/-- The text of an error is never the one `AndroidFP` sends for an unknown finger. -/
theorem IntToStringFingerprintError_ne (error vendorCode : Int) :
    IntToStringFingerprintError error vendorCode ≠ "FINGER_NOT_RECOGNIZED" := by
  have hv : "ERROR_VENDOR: " ++ toString vendorCode ≠ "FINGER_NOT_RECOGNIZED" := by
    intro h
    have := congrArg (fun s : String => s.toList.head?) h
    simp at this
  unfold IntToStringFingerprintError
  split <;> first | exact hv | decide

theorem IntToStringRequestStatus_ne (status : Int) :
    IntToStringRequestStatus status ≠ "FINGER_NOT_RECOGNIZED" := by
  unfold IntToStringRequestStatus
  split <;> decide

end SailfishFpd
