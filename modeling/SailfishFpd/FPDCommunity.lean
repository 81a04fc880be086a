import SailfishFpd.AndroidFP

/-!
# FPDCommunity

The daemon object: its fields, the signals it emits, its slots and its D-Bus
methods. A handler runs on an `Exec`, the object together with what it has sent
so far (D-Bus signals and HAL requests, in order). `Env` is what one handler
gets from outside: the status of its HAL requests and the fate of its file
operations.
-/

namespace SailfishFpd

inductive State where
  | FPSTATE_UNKNOWN
  | FPSTATE_UNSET
  | FPSTATE_IDLE
  | FPSTATE_ENROLLING
  | FPSTATE_IDENTIFYING
  | FPSTATE_ENUMERATING
  | FPSTATE_REMOVING
  | FPSTATE_VERIFYING
  | FPSTATE_ABORTING
  | FPSTATE_TERMINATING
  deriving DecidableEq, Repr

inductive AcquiredState where
  | FPACQUIRED_UNKNOWN
  | FPACQUIRED_GOOD
  | FPACQUIRED_PARTIAL
  | FPACQUIRED_INSUFFICIENT
  | FPACQUIRED_IMAGER_DIRTY
  | FPACQUIRED_TOO_SLOW
  | FPACQUIRED_TOO_FAST
  | FPACQUIRED_UNSET
  | FPACQUIRED_UNSPECIFIED
  | FPACQUIRED_UNRECOGNIZED
  deriving DecidableEq, Repr

/-- `QtEnumToString(State)`. -/
def State.key : State → String
  | .FPSTATE_UNKNOWN => "FPSTATE_UNKNOWN"
  | .FPSTATE_UNSET => "FPSTATE_UNSET"
  | .FPSTATE_IDLE => "FPSTATE_IDLE"
  | .FPSTATE_ENROLLING => "FPSTATE_ENROLLING"
  | .FPSTATE_IDENTIFYING => "FPSTATE_IDENTIFYING"
  | .FPSTATE_ENUMERATING => "FPSTATE_ENUMERATING"
  | .FPSTATE_REMOVING => "FPSTATE_REMOVING"
  | .FPSTATE_VERIFYING => "FPSTATE_VERIFYING"
  | .FPSTATE_ABORTING => "FPSTATE_ABORTING"
  | .FPSTATE_TERMINATING => "FPSTATE_TERMINATING"

/-- `QtEnumToString(AcquiredState)`. -/
def AcquiredState.key : AcquiredState → String
  | .FPACQUIRED_UNKNOWN => "FPACQUIRED_UNKNOWN"
  | .FPACQUIRED_GOOD => "FPACQUIRED_GOOD"
  | .FPACQUIRED_PARTIAL => "FPACQUIRED_PARTIAL"
  | .FPACQUIRED_INSUFFICIENT => "FPACQUIRED_INSUFFICIENT"
  | .FPACQUIRED_IMAGER_DIRTY => "FPACQUIRED_IMAGER_DIRTY"
  | .FPACQUIRED_TOO_SLOW => "FPACQUIRED_TOO_SLOW"
  | .FPACQUIRED_TOO_FAST => "FPACQUIRED_TOO_FAST"
  | .FPACQUIRED_UNSET => "FPACQUIRED_UNSET"
  | .FPACQUIRED_UNSPECIFIED => "FPACQUIRED_UNSPECIFIED"
  | .FPACQUIRED_UNRECOGNIZED => "FPACQUIRED_UNRECOGNIZED"

inductive Reply where
  | FPREPLY_STARTED
  | FPREPLY_FAILED
  | FPREPLY_ALREADY_IDLE
  | FPREPLY_ALREADY_BUSY
  | FPREPLY_DENIED
  | FPREPLY_KEY_ALREADY_EXISTS
  | FPREPLY_KEY_DOES_NOT_EXIST
  | FPREPLY_NO_KEYS_AVAILABLE
  | FPREPLY_KEY_IS_INVALID
  deriving DecidableEq, Repr

/-- The D-Bus signals. -/
inductive DBusSignal where
  | Added (finger : String)
  | Removed (finger : String)
  | Identified (finger : String)
  | Aborted
  | Failed
  | Verified
  | StateChanged (state : String)
  /-- `none`: the conversion of an infinite `float` to `int` has no defined value. -/
  | EnrollProgressChanged (progress : Option Int)
  | AcquisitionInfo (info : String)
  | ErrorInfo (error : String)
  | ListChanged
  deriving DecidableEq

/-- What a handler sends: D-Bus signals, and HAL requests with the status they got. -/
inductive Output where
  | signal (s : DBusSignal)
  | request (r : Request) (status : Int)
  deriving DecidableEq

/-- What one handler gets from outside. `room` is the number of bytes that reach the file before
a write fails, when it fails. -/
structure Env where
  hal : Hal
  openRead : Bool := true
  openWrite : Bool := true
  room : Option Nat := none

/-- The fields of the object, and the content of the file at `m_fingerDatabasePath`.
`m_cancelTimer` says whether the timer is running. -/
structure FPDCommunity where
  m_androidFP : AndroidFP := {}
  m_cancelTimer : Bool := false
  m_dbusCaller : String := ""
  m_fingerMap : FingerMap := ∅
  m_state : State := .FPSTATE_IDLE
  m_acquired : AcquiredState := .FPACQUIRED_UNSPECIFIED
  m_addingFinger : String := ""
  database : Option (List UInt8) := none
  deriving DecidableEq

/-- The object while a handler runs. -/
@[ext]
structure Exec where
  self : FPDCommunity
  out : List Output := []
  deriving DecidableEq

namespace FPDCommunity

/-- The caller check every method starts with. -/
def busyForOther (self : FPDCommunity) (caller : String) : Prop :=
  self.m_dbusCaller ≠ "" ∧ self.m_dbusCaller ≠ caller

instance (self : FPDCommunity) (caller : String) : Decidable (self.busyForOther caller) :=
  inferInstanceAs (Decidable (_ ∧ _))

/-- The search loop of `Remove`: the first key with the name, `0` when there is none. -/
def keyOf (self : FPDCommunity) (finger : String) : UInt32 :=
  match self.m_fingerMap.toList.find? (fun e => e.2 == finger) with
  | some e => e.1
  | none => 0

/-! ## Private methods -/

def emit (s : DBusSignal) (x : Exec) : Exec := { x with out := x.out ++ [.signal s] }

@[simp] theorem emit_self (s : DBusSignal) (x : Exec) : (emit s x).self = x.self := rfl

@[simp] theorem emit_out (s : DBusSignal) (x : Exec) : (emit s x).out = x.out ++ [.signal s] := rfl

def setState (newState : State) (x : Exec) : Exec :=
  let x :=
    if newState = .FPSTATE_IDLE then { x with self := { x.self with m_dbusCaller := "" } } else x
  if newState ≠ x.self.m_state then
    { x with self := { x.self with m_state := newState } } |> emit (.StateChanged newState.key)
  else x

@[simp] theorem setState_self (n : State) (x : Exec) :
    (setState n x).self =
      { x.self with
        m_state := n
        m_dbusCaller := if n = .FPSTATE_IDLE then "" else x.self.m_dbusCaller } := by
  obtain ⟨d, out⟩ := x
  simp only [setState]
  split <;> split <;> simp_all

/-- What `setState` sends on the way from one state to another. -/
def stateChange (old new : State) : List Output :=
  if new = old then [] else [.signal (.StateChanged new.key)]

@[simp] theorem stateChange_self (s : State) : stateChange s s = [] := by simp [stateChange]

@[simp] theorem setState_out (n : State) (x : Exec) :
    (setState n x).out = x.out ++ stateChange x.self.m_state n := by
  obtain ⟨d, out⟩ := x
  simp only [setState, stateChange]
  split <;> split <;> simp_all

/-- The file after `saveFingers`. -/
def saved [QDataStream] (env : Env) (self : FPDCommunity) : Option (List UInt8) :=
  if env.openWrite then
    let bytes := QDataStream.write self.m_fingerMap
    match env.room with
    | none => some bytes
    | some n => some (bytes.take n)
  else self.database

def saveFingers [QDataStream] (env : Env) (x : Exec) : Exec :=
  { x with self := { x.self with database := x.self.saved env } }

@[simp] theorem saveFingers_self [QDataStream] (env : Env) (x : Exec) :
    (saveFingers env x).self = { x.self with database := x.self.saved env } := rfl

@[simp] theorem saveFingers_out [QDataStream] (env : Env) (x : Exec) :
    (saveFingers env x).out = x.out := rfl

/-- What `loadFingers` reads from the file. -/
def readDatabase [QDataStream] (env : Env) (self : FPDCommunity) : FingerMap :=
  match self.database, env.openRead with
  | some bytes, true => QDataStream.read bytes
  | _, _ => ∅

/-- The first loop of `loadFingers`. -/
def dropMissing (enumeratedFingers : List UInt32) (m : FingerMap) : FingerMap :=
  m.keys.foldl (fun m k => if !enumeratedFingers.contains k then m.erase k else m) m

/-- The second loop of `loadFingers`. -/
def addUnknown (enumeratedFingers : List UInt32) (m : FingerMap) : FingerMap :=
  let mapped := m.keys
  enumeratedFingers.foldl
    (fun m k => if !mapped.contains k then m.insert k (unknownName k) else m) m

def reconcile (enumeratedFingers : List UInt32) (m : FingerMap) : FingerMap :=
  m |> dropMissing enumeratedFingers |> addUnknown enumeratedFingers

def loadFingers [QDataStream] (env : Env) (x : Exec) : Exec :=
  let m_fingerMap := reconcile x.self.m_androidFP.fingerprints (x.self.readDatabase env)
  { x with self := { x.self with m_fingerMap } } |> saveFingers env

@[simp] theorem loadFingers_self [QDataStream] (env : Env) (x : Exec) :
    (loadFingers env x).self =
      let m_fingerMap := reconcile x.self.m_androidFP.fingerprints (x.self.readDatabase env)
      { x.self with m_fingerMap, database := saved env { x.self with m_fingerMap } } := rfl

@[simp] theorem loadFingers_out [QDataStream] (env : Env) (x : Exec) :
    (loadFingers env x).out = x.out := rfl

/-! ## The slot of `failed`, and requests to AndroidFP -/

def slot_failed (message : String) (x : Exec) : Exec :=
  let x := x |> emit (.ErrorInfo message)
  if x.self.m_state = .FPSTATE_IDENTIFYING ∧ message = "FINGER_NOT_RECOGNIZED" then x
  else if x.self.m_state ≠ .FPSTATE_IDLE then
    x |> emit .Failed |> setState .FPSTATE_IDLE
  else x

/-- `failed` ends no operation: none runs, or an identification goes on. -/
def tolerates (self : FPDCommunity) (message : String) : Prop :=
  self.m_state = .FPSTATE_IDLE ∨
    (self.m_state = .FPSTATE_IDENTIFYING ∧ message = "FINGER_NOT_RECOGNIZED")

instance (self : FPDCommunity) (message : String) : Decidable (self.tolerates message) :=
  inferInstanceAs (Decidable (_ ∨ _))

theorem slot_failed_tolerated {message : String} {x : Exec} (h : x.self.tolerates message) :
    slot_failed message x = (x |> emit (.ErrorInfo message)) := by
  rcases h with h | h <;> simp [slot_failed, h]

theorem slot_failed_ends {message : String} {x : Exec} (h : ¬ x.self.tolerates message) :
    slot_failed message x =
      { self := { x.self with m_state := .FPSTATE_IDLE, m_dbusCaller := "" }
        out := x.out ++ [.signal (.ErrorInfo message), .signal .Failed,
          .signal (.StateChanged "FPSTATE_IDLE")] } := by
  obtain ⟨d, out⟩ := x
  simp only [tolerates, not_or] at h
  simp [slot_failed, h, setState, emit, State.key, Ne.symm h.1]

/-- A call of an `AndroidFP` method. `failed` is connected to `slot_failed`, which runs on the
caller's stack. -/
def androidFP (f : AndroidFP → AndroidFP.Requested) (x : Exec) : Exec :=
  let r := f x.self.m_androidFP
  let x := { x with
    self := { x.self with m_androidFP := r.self }
    out := x.out ++ r.requests.map fun p => .request p.1 p.2 }
  match r.failed with
  | some message => slot_failed message x
  | none => x

/-- The object after an operation that was being started is refused. -/
def refused (self : FPDCommunity) : FPDCommunity :=
  { self with m_state := .FPSTATE_IDLE, m_dbusCaller := "" }

/-- What is sent for a request that is accepted, or refused while an operation is being started:
a refusal ends that operation before the call of `AndroidFP` returns. -/
def requestOutput (hal : Hal) (r : Request) : List Output :=
  .request r (hal r) ::
    if hal r = SYS_OK then []
    else [.signal (.ErrorInfo (IntToStringRequestStatus (hal r))), .signal .Failed,
      .signal (.StateChanged "FPSTATE_IDLE")]

theorem androidFP_idle (f : AndroidFP → AndroidFP.Requested) {x : Exec}
    (hx : x.self.m_state = .FPSTATE_IDLE) :
    androidFP f x =
      let r := f x.self.m_androidFP
      { self := { x.self with m_androidFP := r.self }
        out := x.out ++ (r.requests.map fun p => .request p.1 p.2) ++
          r.failed.toList.map fun message => .signal (.ErrorInfo message) } := by
  simp only [androidFP]
  cases (f x.self.m_androidFP).failed with
  | none => simp
  | some message =>
    refine (slot_failed_tolerated (.inl ?_)).trans ?_
    · exact hx
    · simp [emit]

theorem androidFP_request {f : AndroidFP → AndroidFP.Requested} {g : AndroidFP → AndroidFP}
    {hal : Hal} {r : Request} (hf : ∀ a, f a = AndroidFP.request hal r (g a)) {x : Exec}
    (hx : x.self.m_state ≠ .FPSTATE_IDLE) :
    androidFP f x =
      let self := { x.self with m_androidFP := g x.self.m_androidFP }
      { self := if hal r = SYS_OK then self else self.refused
        out := x.out ++ requestOutput hal r } := by
  by_cases hr : hal r = SYS_OK
  · simp [androidFP, hf, AndroidFP.request, hr, requestOutput]
  · simp only [androidFP, hf, AndroidFP.request, ne_eq, hr, not_false_eq_true, if_true, if_false]
    rw [slot_failed_ends (by simp [tolerates, hx, IntToStringRequestStatus_ne])]
    simp [requestOutput, hr, refused]

@[simp] theorem androidFP_cancel (hal : Hal) (x : Exec) :
    androidFP (AndroidFP.cancel hal) x =
      { x with out := x.out ++ [.request .cancel (hal .cancel)] } := rfl

def abort (env : Env) (x : Exec) : Exec :=
  let x := x |> androidFP (AndroidFP.cancel env.hal)
  { x with self := { x.self with m_cancelTimer := false } }
    |> emit .Aborted
    |> setState .FPSTATE_IDLE

@[simp] theorem abort_self (env : Env) (x : Exec) :
    (abort env x).self =
      { x.self with m_cancelTimer := false, m_state := .FPSTATE_IDLE, m_dbusCaller := "" } := by
  simp [abort]

def enumerate (env : Env) (x : Exec) : Exec :=
  if x.self.m_state = .FPSTATE_IDLE then
    x |> setState .FPSTATE_ENUMERATING |> androidFP (AndroidFP.enumerate env.hal)
  else x

/-! ## Slots -/

/-- `(int)(pc * 100)`. -/
def toPercent (pc : Option Rat) : Option Int :=
  pc.map fun pc => (pc * 100).num.tdiv (pc * 100).den

def slot_enrollProgress (env : Env) (pc : Option Rat) (x : Exec) : Exec :=
  let x := x |> emit (.EnrollProgressChanged (toPercent pc))
  if x.self.m_state = .FPSTATE_VERIFYING then
    x |> emit .Verified |> abort env
  else x

@[simp] theorem slot_enrollProgress_self (env : Env) (pc : Option Rat) (x : Exec) :
    (slot_enrollProgress env pc x).self =
      if x.self.m_state = .FPSTATE_VERIFYING then
        { x.self with m_cancelTimer := false, m_state := .FPSTATE_IDLE, m_dbusCaller := "" }
      else x.self := by
  by_cases h : x.self.m_state = .FPSTATE_VERIFYING <;> simp [slot_enrollProgress, h]

def slot_succeeded [QDataStream] (env : Env) (finger : UInt32) (x : Exec) : Exec :=
  let m_fingerMap := x.self.m_fingerMap.insert finger x.self.m_addingFinger
  let x := { x with self := { x.self with m_fingerMap } } |> emit (.Added x.self.m_addingFinger)
  { x with self := { x.self with m_addingFinger := "" } }
    |> saveFingers env
    |> emit .ListChanged
    |> setState .FPSTATE_IDLE

@[simp] theorem slot_succeeded_self [QDataStream] (env : Env) (finger : UInt32) (x : Exec) :
    (slot_succeeded env finger x).self =
      let m_fingerMap := x.self.m_fingerMap.insert finger x.self.m_addingFinger
      { x.self with
        m_fingerMap
        m_addingFinger := ""
        database := saved env { x.self with m_fingerMap }
        m_state := .FPSTATE_IDLE
        m_dbusCaller := "" } := by
  simp [slot_succeeded, saved]

def acquiredState (info : Int) : AcquiredState :=
  match info with
  | ACQUIRED_GOOD => .FPACQUIRED_GOOD
  | ACQUIRED_PARTIAL => .FPACQUIRED_PARTIAL
  | ACQUIRED_INSUFFICIENT => .FPACQUIRED_INSUFFICIENT
  | ACQUIRED_IMAGER_DIRTY => .FPACQUIRED_IMAGER_DIRTY
  | ACQUIRED_TOO_SLOW => .FPACQUIRED_TOO_SLOW
  | ACQUIRED_TOO_FAST => .FPACQUIRED_TOO_FAST
  | ACQUIRED_VENDOR => .FPACQUIRED_UNRECOGNIZED
  | _ => .FPACQUIRED_GOOD

def slot_acquired (info : Int) (x : Exec) : Exec :=
  let newState := acquiredState info
  if newState ≠ x.self.m_acquired then
    { x with self := { x.self with m_acquired := newState } }
      |> emit (.AcquisitionInfo newState.key)
  else x

@[simp] theorem slot_acquired_self (info : Int) (x : Exec) :
    (slot_acquired info x).self = { x.self with m_acquired := acquiredState info } := by
  by_cases h : acquiredState info = x.self.m_acquired <;> simp [slot_acquired, h]

theorem slot_acquired_out (info : Int) (x : Exec) :
    (slot_acquired info x).out =
      x.out ++ if acquiredState info = x.self.m_acquired then []
        else [.signal (.AcquisitionInfo (acquiredState info).key)] := by
  by_cases h : acquiredState info = x.self.m_acquired <;> simp [slot_acquired, h]

/-- `m_fingerMap[finger]` inserts an empty name when the key is missing; the next line removes
the key again. -/
def slot_removed [QDataStream] (env : Env) (finger : UInt32) (x : Exec) : Exec :=
  let x :=
    if finger ≠ 0 then
      let f := (x.self.m_fingerMap[finger]?).getD ""
      let m_fingerMap := (x.self.m_fingerMap.insert finger f).erase finger
      let x := x |> emit (.Removed f)
      { x with self := { x.self with m_fingerMap } }
    else
      let x := (FingerMap.values x.self.m_fingerMap).foldl (fun x f => emit (.Removed f) x) x
      { x with self := { x.self with m_fingerMap := ∅ } }
  x |> saveFingers env |> emit .ListChanged |> setState .FPSTATE_IDLE

/-- The loop of `slot_removed` that reports every name. -/
theorem foldl_removed (names : List String) (x : Exec) :
    names.foldl (fun x f => emit (.Removed f) x) x =
      { x with out := x.out ++ names.map fun f => .signal (.Removed f) } := by
  induction names generalizing x with
  | nil => simp
  | cons f names ih => simp [ih]

@[simp] theorem slot_removed_self [QDataStream] (env : Env) (finger : UInt32) (x : Exec) :
    (slot_removed env finger x).self =
      let m_fingerMap := if finger = 0 then ∅ else x.self.m_fingerMap.erase finger
      { x.self with
        m_fingerMap
        database := saved env { x.self with m_fingerMap }
        m_state := .FPSTATE_IDLE
        m_dbusCaller := "" } := by
  by_cases h : finger = 0 <;> simp [slot_removed, foldl_removed, saved, h]

def slot_authenticated (finger : UInt32) (x : Exec) : Exec :=
  let x := { x with self := { x.self with m_cancelTimer := false } }
  let x := match x.self.m_fingerMap[finger]? with
    | some name => x |> emit (.Identified name)
    | none => x |> emit (.Identified (unknownName finger))
  x |> setState .FPSTATE_IDLE

/-- The name `slot_authenticated` reports. -/
def identifiedName (self : FPDCommunity) (finger : UInt32) : String :=
  (self.m_fingerMap[finger]?).getD (unknownName finger)

@[simp] theorem slot_authenticated_self (finger : UInt32) (x : Exec) :
    (slot_authenticated finger x).self =
      { x.self with m_cancelTimer := false, m_state := .FPSTATE_IDLE, m_dbusCaller := "" } := by
  cases h : x.self.m_fingerMap[finger]? <;> simp [slot_authenticated, h]

theorem slot_authenticated_out (finger : UInt32) (x : Exec) :
    (slot_authenticated finger x).out =
      x.out ++ .signal (.Identified (x.self.identifiedName finger)) ::
        stateChange x.self.m_state .FPSTATE_IDLE := by
  cases h : x.self.m_fingerMap[finger]? <;> simp [slot_authenticated, identifiedName, h]

def slot_cancelIdentify (env : Env) (x : Exec) : Exec :=
  x |> androidFP (AndroidFP.cancel env.hal) |> emit .Failed |> setState .FPSTATE_IDLE

@[simp] theorem slot_cancelIdentify_self (env : Env) (x : Exec) :
    (slot_cancelIdentify env x).self =
      { x.self with m_state := .FPSTATE_IDLE, m_dbusCaller := "" } := by
  simp [slot_cancelIdentify]

def slot_enumerated [QDataStream] (env : Env) (x : Exec) : Exec :=
  x |> loadFingers env |> emit .ListChanged |> setState .FPSTATE_IDLE

@[simp] theorem slot_enumerated_self [QDataStream] (env : Env) (x : Exec) :
    (slot_enumerated env x).self =
      let m_fingerMap := reconcile x.self.m_androidFP.fingerprints (x.self.readDatabase env)
      { x.self with
        m_fingerMap
        database := saved env { x.self with m_fingerMap }
        m_state := .FPSTATE_IDLE
        m_dbusCaller := "" } := by
  simp [slot_enumerated]

/-- The slot each signal of `AndroidFP` is connected to. -/
def slot [QDataStream] (env : Env) (s : Signal) (x : Exec) : Exec :=
  match s with
  | .failed message => slot_failed message x
  | .succeeded fingerId => slot_succeeded env fingerId x
  | .removed finger => slot_removed env finger x
  | .authenticated fingerId => slot_authenticated fingerId x
  | .enrollProgress progress => slot_enrollProgress env progress x
  | .acquired info => slot_acquired info x
  | .enumerated => slot_enumerated env x

/-! ## D-Bus methods -/

def Enroll (env : Env) (finger caller : String) (x : Exec) : Exec × Reply :=
  if x.self.busyForOther caller then (x, .FPREPLY_ALREADY_BUSY)
  else if (FingerMap.values x.self.m_fingerMap).contains finger then
    (x, .FPREPLY_KEY_ALREADY_EXISTS)
  else if x.self.m_state = .FPSTATE_IDLE then
    let x := x |> setState .FPSTATE_ENROLLING
    let x := { x with self := { x.self with m_addingFinger := finger, m_dbusCaller := caller } }
    (x |> androidFP (AndroidFP.enroll env.hal 100000) |> emit (.EnrollProgressChanged (some 0)),
      .FPREPLY_STARTED)
  else (x, .FPREPLY_ALREADY_BUSY)

def Identify (env : Env) (caller : String) (x : Exec) : Exec × Reply :=
  if x.self.busyForOther caller then (x, .FPREPLY_ALREADY_BUSY)
  else if x.self.m_state ≠ .FPSTATE_IDLE then (x, .FPREPLY_ALREADY_BUSY)
  else if x.self.m_fingerMap.size = 0 then (x, .FPREPLY_NO_KEYS_AVAILABLE)
  else
    let x := x |> setState .FPSTATE_IDENTIFYING
    let x := { x with self := { x.self with m_dbusCaller := caller, m_cancelTimer := true } }
    (x |> androidFP (AndroidFP.authenticate env.hal), .FPREPLY_STARTED)

def Clear (env : Env) (caller : String) (x : Exec) : Exec :=
  if x.self.busyForOther caller then x
  else if x.self.m_state = .FPSTATE_IDLE then
    let x := x |> setState .FPSTATE_REMOVING
    { x with self := { x.self with m_dbusCaller := caller } }
      |> androidFP (AndroidFP.clear env.hal)
  else x

def GetState (self : FPDCommunity) : String := self.m_state.key

def GetAll (self : FPDCommunity) : List String := FingerMap.values self.m_fingerMap

def Abort (env : Env) (caller : String) (x : Exec) : Exec × Reply :=
  if x.self.busyForOther caller then (x, .FPREPLY_ALREADY_IDLE)
  else if x.self.m_state = .FPSTATE_IDLE then (x, .FPREPLY_ALREADY_IDLE)
  else (x |> abort env, .FPREPLY_STARTED)

def Verify (env : Env) (caller : String) (x : Exec) : Exec × Reply :=
  if x.self.busyForOther caller then (x, .FPREPLY_ALREADY_IDLE)
  else if x.self.m_state ≠ .FPSTATE_IDLE then (x, .FPREPLY_ALREADY_BUSY)
  else if x.self.m_state = .FPSTATE_IDLE then
    let x := x |> setState .FPSTATE_VERIFYING |> androidFP (AndroidFP.enroll env.hal 100000)
    let x := { x with self := { x.self with m_dbusCaller := caller } }
    (x |> emit (.EnrollProgressChanged (some 0)), .FPREPLY_STARTED)
  else (x, .FPREPLY_ALREADY_BUSY)

def Remove (env : Env) (finger caller : String) (x : Exec) : Exec × Reply :=
  if x.self.busyForOther caller then (x, .FPREPLY_ALREADY_BUSY)
  else if x.self.m_state ≠ .FPSTATE_IDLE then (x, .FPREPLY_ALREADY_BUSY)
  else
    let key := x.self.keyOf finger
    if key = 0 then (x, .FPREPLY_KEY_DOES_NOT_EXIST)
    else
      let x := x |> setState .FPSTATE_REMOVING |> androidFP (AndroidFP.remove env.hal key)
      ({ x with self := { x.self with m_dbusCaller := caller } }, .FPREPLY_STARTED)

/-! ## Start-up -/

/-- `setUser`, less the creation of the two directories, whose failure is only logged. -/
def setUser (env : Env) (getprop : String → String) (uid : UInt32) (x : Exec) : Exec :=
  let andrPath := AndroidFP.getDefaultGroupPath getprop uid
  x |> androidFP (AndroidFP.setGroup env.hal 0 andrPath) |> enumerate env

/-- The constructor, over a database file left by earlier runs. -/
def construct (env : Env) (getprop : String → String) (database : Option (List UInt8)) : Exec :=
  { self := { database } } |> setUser env getprop 100000

end FPDCommunity

end SailfishFpd
