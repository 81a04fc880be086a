import SailfishFpd.Qt

/-!
# AndroidFP

The object between the daemon and the HAL. Its requests run on the daemon's
thread and can emit only `failed`, on the caller's stack. Its callbacks run on
the HAL's thread; the signals they emit are queued to the daemon. `float`s are
modelled by exact rationals.
-/

namespace SailfishFpd

/-- The signals of `AndroidFP`. -/
inductive Signal where
  | failed (message : String)
  | succeeded (fingerId : UInt32)
  | removed (finger : UInt32)
  | authenticated (fingerId : UInt32)
  /-- `none`: the quotient is infinite. -/
  | enrollProgress (progress : Option Rat)
  | acquired (info : Int)
  | enumerated
  deriving DecidableEq

structure AndroidFP where
  m_enrollRemaining : Rat := 0
  m_removingFinger : UInt32 := 0
  m_fingers : List UInt32 := []
  deriving DecidableEq

/-- The status the HAL answers to each request. -/
abbrev Hal := Request → Int

namespace AndroidFP

/-- What a request leaves: the object, the requests made with their status, and the message of
`failed`, when it was emitted. -/
structure Requested where
  self : AndroidFP
  requests : List (Request × Int)
  failed : Option String

/-- What a callback leaves: the object, the requests made and the signals emitted. -/
structure Called where
  self : AndroidFP
  requests : List (Request × Int)
  signals : List Signal

/-- Makes request `r` and emits `failed` with the status' text when it is refused. -/
def request (hal : Hal) (r : Request) (self : AndroidFP) : Requested :=
  { self := self
    requests := [(r, hal r)]
    failed := if hal r ≠ SYS_OK then some (IntToStringRequestStatus (hal r)) else none }

def getDefaultGroupPath (getprop : String → String) (uid : UInt32) : String :=
  let first := getprop "ro.product.first_api_level"
  let api_level := if first = "" then getprop "ro.build.version.sdk" else first
  if atoi api_level ≤ 27 then
    "/data/system/users/" ++ toString uid.toNat ++ "/fpdata"
  else
    "/data/vendor_de/" ++ toString uid.toNat ++ "/fpdata"

/-- The path is copied into a buffer of `PATH_MAX` bytes. Counted are its characters, which in
the paths of `getDefaultGroupPath` are bytes. -/
def setGroup (hal : Hal) (gid : UInt32) (storePath : String) (self : AndroidFP) : Requested :=
  if storePath = "" then
    { self := self, requests := [], failed := some "Cannot set empty active group path" }
  else
    let path := String.ofList (storePath.toList.take 4095)
    let ret := hal (.setActiveGroup gid path)
    { self := self
      requests := [(.setActiveGroup gid path, ret)]
      failed :=
        if ret ≠ SYS_OK then some ("setActiveGroup failed: " ++ IntToStringRequestStatus ret)
        else none }

def enroll (hal : Hal) (user_id : UInt32) (self : AndroidFP) : Requested :=
  request hal (.enroll 0 60 user_id) { self with m_enrollRemaining := 0 }

def remove (hal : Hal) (finger : UInt32) (self : AndroidFP) : Requested :=
  request hal (.remove 0 finger) { self with m_removingFinger := finger }

/-- The status of a cancel is not looked at. -/
def cancel (hal : Hal) (self : AndroidFP) : Requested :=
  { self := self, requests := [(.cancel, hal .cancel)], failed := none }

def authenticate (hal : Hal) (self : AndroidFP) : Requested :=
  request hal (.authenticate 0 0) self

def enumerate (hal : Hal) (self : AndroidFP) : Requested :=
  request hal .enumerate { self with m_fingers := [] }

def clear (hal : Hal) (self : AndroidFP) : Requested :=
  request hal (.remove 0 0) { self with m_removingFinger := 0 }

def fingerprints (self : AndroidFP) : List UInt32 := self.m_fingers

def enumerateCallback (finger remaining : UInt32) (self : AndroidFP) : Called :=
  { self := if finger ≠ 0 then { self with m_fingers := self.m_fingers ++ [finger] } else self
    requests := []
    signals := if remaining = 0 then [.enumerated] else [] }

/-- `1.0 - (remaining / m_enrollRemaining)`. -/
def progress (remaining : UInt32) (m_enrollRemaining : Rat) : Option Rat :=
  if m_enrollRemaining = 0 then none else some (1 - remaining.toNat / m_enrollRemaining)

/-- The sum `remaining + 1` is a `uint32_t` one and wraps. -/
def enrollCallback (hal : Hal) (finger remaining : UInt32) (self : AndroidFP) : Called :=
  if 0 < remaining then
    let m_enrollRemaining :=
      if self.m_enrollRemaining = 0 then ((remaining + 1).toNat : Rat) else self.m_enrollRemaining
    { self := { self with m_enrollRemaining }
      requests := []
      signals := [.enrollProgress (progress remaining m_enrollRemaining)] }
  else
    let ret := hal .postEnroll
    { self := self
      requests := [(.postEnroll, ret)]
      signals := [.enrollProgress (some 1),
        if ret = SYS_OK then .succeeded finger else .failed (IntToStringRequestStatus ret)] }

def removeCallback (finger remaining : UInt32) (self : AndroidFP) : Called :=
  if (finger = self.m_removingFinger ∨ self.m_removingFinger = 0) ∧ remaining = 0 then
    { self := { self with m_removingFinger := 0 }
      requests := []
      signals := [.removed (if self.m_removingFinger = 0 then 0 else finger)] }
  else
    { self := self, requests := [], signals := [] }

def acquiredCallback (info : Int) (self : AndroidFP) : Called :=
  { self := self, requests := [], signals := [.acquired info] }

/-- The static callbacks registered with `setNotify`. -/
def callback (hal : Hal) (cb : Callback) (self : AndroidFP) : Called :=
  match cb with
  | .enrollresult fingerId remaining => self.enrollCallback hal fingerId remaining
  | .acquired info => self.acquiredCallback info
  | .authenticated fingerId =>
    { self := self
      requests := []
      signals :=
        if fingerId ≠ 0 then [.authenticated fingerId] else [.failed "FINGER_NOT_RECOGNIZED"] }
  | .removed fingerId remaining => self.removeCallback fingerId remaining
  | .enumerate fingerId remaining => self.enumerateCallback fingerId remaining
  | .error error vendorCode =>
    { self := self
      requests := []
      signals :=
        if error = ERROR_NO_ERROR then []
        else [.failed (IntToStringFingerprintError error vendorCode)] }

/-- Only the reports of an enumeration are recorded. -/
theorem callback_m_fingers {hal : Hal} {cb : Callback} {self : AndroidFP}
    (h : ∀ fingerId remaining, cb ≠ .enumerate fingerId remaining) :
    (self.callback hal cb).self.m_fingers = self.m_fingers := by
  cases cb with
  | enrollresult fingerId remaining =>
    by_cases hr : 0 < remaining <;> simp [callback, enrollCallback, hr]
  | removed fingerId remaining =>
    simp only [callback, removeCallback]
    split <;> rfl
  | enumerate fingerId remaining => exact absurd rfl (h fingerId remaining)
  | _ => rfl

/-- The callback that posts a signal, and the state it posts it in. -/
def Posts (self : AndroidFP) (cb : Callback) : Signal → Prop
  | .failed _ => True
  | .succeeded fingerId => cb = .enrollresult fingerId 0
  -- passed on under the id that was asked for; the `0` of a `clear` stands for any
  | .removed finger =>
    self.m_removingFinger = finger ∧ ∃ fingerId, cb = .removed fingerId 0 ∧
      (finger ≠ 0 → fingerId = finger)
  | .authenticated fingerId => cb = .authenticated fingerId ∧ fingerId ≠ 0
  | .enrollProgress _ => ∃ fingerId remaining, cb = .enrollresult fingerId remaining
  | .acquired info => cb = .acquired info
  | .enumerated => ∃ fingerId, cb = .enumerate fingerId 0

theorem posts_of_mem {hal : Hal} {cb : Callback} {self : AndroidFP} {signal : Signal}
    (h : signal ∈ (self.callback hal cb).signals) : self.Posts cb signal := by
  cases cb with
  | enrollresult fingerId remaining =>
    by_cases hr : 0 < remaining
    · obtain rfl : signal = _ := by simpa [callback, enrollCallback, hr] using h
      exact ⟨fingerId, remaining, rfl⟩
    · have hz : remaining = 0 := by simpa using hr
      subst hz
      by_cases hp : hal .postEnroll = SYS_OK
      · rcases (by simpa [callback, enrollCallback, hp] using h :
          signal = .enrollProgress (some 1) ∨ signal = .succeeded fingerId) with rfl | rfl
        · exact ⟨fingerId, 0, rfl⟩
        · rfl
      · rcases (by simpa [callback, enrollCallback, hp] using h :
          signal = .enrollProgress (some 1) ∨
            signal = .failed (IntToStringRequestStatus (hal .postEnroll))) with rfl | rfl
        · exact ⟨fingerId, 0, rfl⟩
        · trivial
  | acquired info =>
    obtain rfl : signal = .acquired info := by simpa [callback, acquiredCallback] using h
    rfl
  | authenticated fingerId =>
    by_cases hf : fingerId = 0
    · obtain rfl : signal = .failed "FINGER_NOT_RECOGNIZED" := by simpa [callback, hf] using h
      trivial
    · obtain rfl : signal = .authenticated fingerId := by simpa [callback, hf] using h
      exact ⟨rfl, hf⟩
  | error error vendorCode =>
    by_cases he : error = ERROR_NO_ERROR
    · simp [callback, he] at h
    · obtain rfl : signal = _ := by simpa [callback, he] using h
      trivial
  | removed fingerId remaining =>
    simp only [callback, removeCallback] at h
    split at h
    · next hc =>
      obtain ⟨hf, rfl⟩ := hc
      obtain rfl : signal = .removed (if self.m_removingFinger = 0 then 0 else fingerId) := by
        simpa using h
      by_cases hz : self.m_removingFinger = 0
      · exact ⟨by simp [hz], fingerId, rfl, by simp [hz]⟩
      · have hf' : fingerId = self.m_removingFinger := hf.resolve_right hz
        exact ⟨by simp [hz, hf'], fingerId, rfl, by simp [hz]⟩
    · simp at h
  | enumerate fingerId remaining =>
    by_cases hr : remaining = 0
    · obtain rfl : signal = .enumerated := by simpa [callback, enumerateCallback, hr] using h
      exact ⟨fingerId, by rw [hr]⟩
    · simp [callback, enumerateCallback, hr] at h

end AndroidFP

end SailfishFpd
