import SailfishFpd.FPDCommunity
import SailfishFpd.Lib.Machine

/-!
# The daemon as a reactive machine

The daemon's event loop runs one handler at a time: a D-Bus call, the expiry of
the cancel timer, or the slot of the oldest queued signal. The HAL's callbacks
come at any time, on the HAL's thread; they run in `AndroidFP` and queue their
signals (`AutoConnection` between threads). Each handler gets its own `Env`.
-/

namespace SailfishFpd

/-- The D-Bus methods with their arguments, less the message that carries the caller. -/
inductive Call where
  | Enroll (finger : String)
  | Identify
  | GetState
  | GetAll
  | Abort
  | Verify
  | Remove (finger : String)
  | Clear
  deriving DecidableEq, Repr

/-- What a D-Bus method returns. -/
inductive Answer where
  | reply (r : Reply)
  | state (s : String)
  | list (names : List String)
  | void
  deriving DecidableEq, Repr

inductive Event where
  | call (caller : String) (c : Call)
  | timeout
  | callback (cb : Callback)
  | deliver
  deriving DecidableEq, Repr

structure Input where
  event : Event
  env : Env

/-- The HAL answers `status` to every request, and the file operations succeed. -/
def Env.answering (status : Int) : Env := { hal := fun _ => status }

/-- What a step shows: what it sent and, for a D-Bus call, the answer. -/
structure Response where
  out : List Output := []
  answer : Option Answer := none
  deriving DecidableEq

/-- The daemon and the signals queued to it, oldest first. -/
structure System where
  fpd : FPDCommunity
  queue : List Signal := []
  deriving DecidableEq

namespace FPDCommunity

def invoke (env : Env) (caller : String) (c : Call) (x : Exec) : Exec × Answer :=
  match c with
  | .Enroll finger => let r := Enroll env finger caller x; (r.1, .reply r.2)
  | .Identify => let r := Identify env caller x; (r.1, .reply r.2)
  | .GetState => (x, .state x.self.GetState)
  | .GetAll => (x, .list x.self.GetAll)
  | .Abort => let r := Abort env caller x; (r.1, .reply r.2)
  | .Verify => let r := Verify env caller x; (r.1, .reply r.2)
  | .Remove finger => let r := Remove env finger caller x; (r.1, .reply r.2)
  | .Clear => (Clear env caller x, .void)

end FPDCommunity

namespace System

open FPDCommunity

variable [QDataStream]

/-- One event. An expiry needs the timer running (it is single-shot, so it stops), a delivery
needs a queued signal; otherwise the event cannot happen and nothing changes. -/
def step (s : System) (i : Input) : System × Response :=
  match i.event with
  | .call caller c =>
    let r := invoke i.env caller c { self := s.fpd }
    ({ s with fpd := r.1.self }, { out := r.1.out, answer := some r.2 })
  | .timeout =>
    if s.fpd.m_cancelTimer then
      let x := slot_cancelIdentify i.env { self := { s.fpd with m_cancelTimer := false } }
      ({ s with fpd := x.self }, { out := x.out })
    else (s, {})
  | .callback cb =>
    let r := s.fpd.m_androidFP.callback i.env.hal cb
    ({ fpd := { s.fpd with m_androidFP := r.self }, queue := s.queue ++ r.signals },
      { out := r.requests.map fun p => .request p.1 p.2 })
  | .deliver =>
    match s.queue with
    | [] => (s, {})
    | signal :: queue =>
      let x := slot i.env signal { self := s.fpd }
      ({ fpd := x.self, queue }, { out := x.out })

end System

/-- The daemon's event loop. -/
def daemon [QDataStream] : Reactive.Machine System Input Response where
  step := System.step

abbrev Edge := Reactive.Edge System Input Response

theorem step_call [QDataStream] (s : System) (env : Env) (caller : String) (c : Call) :
    daemon.step s ⟨.call caller c, env⟩ =
      ({ s with fpd := (FPDCommunity.invoke env caller c { self := s.fpd }).1.self },
        { out := (FPDCommunity.invoke env caller c { self := s.fpd }).1.out
          answer := some (FPDCommunity.invoke env caller c { self := s.fpd }).2 }) := rfl

theorem System.mem_queue [QDataStream] {s : System} {i : Input} {signal : Signal}
    (h : signal ∈ (daemon.step s i).1.queue) :
    signal ∈ s.queue ∨ ∃ cb, i.event = .callback cb ∧
      signal ∈ (s.fpd.m_androidFP.callback i.env.hal cb).signals := by
  obtain ⟨event, env⟩ := i
  cases event with
  | call caller c => exact .inl h
  | timeout =>
    by_cases ht : s.fpd.m_cancelTimer
    · exact .inl (by simpa [daemon, System.step, ht] using h)
    · exact .inl (by simpa [daemon, System.step, ht] using h)
  | callback cb =>
    rcases List.mem_append.mp h with h | h
    · exact .inl h
    · exact .inr ⟨cb, rfl, h⟩
  | deliver =>
    obtain ⟨d, queue⟩ := s
    cases queue with
    | nil => exact .inl h
    | cons signal' queue => exact .inl (List.mem_cons_of_mem _ h)

/-- The daemon when the constructor has returned. -/
def boot (env : Env) (getprop : String → String) (database : Option (List UInt8)) :
    System :=
  { fpd := (FPDCommunity.construct env getprop database).self }

/-- The daemon starts empty-handed: it enumerates, or is idle when the HAL refused to. -/
theorem boot_fpd (env : Env) (getprop : String → String) (database : Option (List UInt8)) :
    (boot env getprop database).fpd =
      { database
        m_state :=
          if env.hal .enumerate = SYS_OK then .FPSTATE_ENUMERATING else .FPSTATE_IDLE } := by
  have hg : ∀ path, (FPDCommunity.androidFP (AndroidFP.setGroup env.hal 0 path)
      { self := { database } }).self = { database } := by
    intro path
    rw [FPDCommunity.androidFP_idle _ rfl]
    simp only [AndroidFP.setGroup]
    split <;> rfl
  simp only [boot, FPDCommunity.construct, FPDCommunity.setUser, FPDCommunity.enumerate, hg,
    if_true]
  rw [FPDCommunity.androidFP_request (f := AndroidFP.enumerate env.hal) (fun _ => rfl) (by simp)]
  by_cases hr : env.hal .enumerate = SYS_OK <;> simp [hr, FPDCommunity.refused, hg]

/-! ## What can be read off the outputs -/

section Outputs

variable {α : Type} {obs : Output → Option α}

theorem filterMap_output_cons (obs : Output → Option α) (o : Output) (out : List Output) :
    (o :: out).filterMap obs = (obs o).toList ++ out.filterMap obs := by
  cases h : obs o <;> simp [h]

theorem filterMap_stateChange (h : ∀ key, obs (.signal (.StateChanged key)) = none)
    (old new : State) : (FPDCommunity.stateChange old new).filterMap obs = [] := by
  by_cases hs : new = old <;> simp [FPDCommunity.stateChange, hs, h]

theorem filterMap_map_none {β : Type} {f : β → Output} (h : ∀ b, obs (f b) = none) (l : List β) :
    (l.map f).filterMap obs = [] := by
  simp [List.filterMap_map, h]

end Outputs

def Output.signal? : Output → Option DBusSignal
  | .signal s => some s
  | .request .. => none

def signalsOf (out : List Output) : List DBusSignal := out.filterMap Output.signal?

def Output.request? : Output → Option (Request × Int)
  | .signal _ => none
  | .request r status => some (r, status)

/-- The HAL requests among what was sent, with the status they got. -/
def requestsOf (out : List Output) : List (Request × Int) := out.filterMap Output.request?

end SailfishFpd
