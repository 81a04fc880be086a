import SailfishFpd.Hal.Stack
import SailfishFpd.Lib.Announce

/-!
# What clients learn of a finger on the sensor

The service reports every touch, `AcquisitionInfo` is sent when the state changes.
The touches pass a queue; in the order in which they leave it, `m_acquired` takes
their states, and clients are told the news among them.
-/

namespace SailfishFpd

open FPDCommunity
open Announce (news news_append getLastD_append)
open Reactive.Machine

/-! ## Touches on their way -/

def Signal.touch? : Signal → Option AcquiredState
  | .acquired info => some (acquiredState info)
  | _ => none

def touchesQueued (signals : List Signal) : List AcquiredState := signals.filterMap Signal.touch?

/-- The touch that an event reports. -/
def StackEvent.touch? : StackEvent → Option AcquiredState
  | .client (.onAcquired _ info _) => some (acquiredState (HIDLToUFingerprintAcquiredInfo info))
  | _ => none

def touches (past : List StackEdge) : List AcquiredState :=
  past.filterMap fun e => e.input.event.touch?

def Output.acquisition? : Output → Option String
  | .signal (.AcquisitionInfo info) => some info
  | _ => none

def acquisitionsOf (out : List Output) : List String := out.filterMap Output.acquisition?

@[simp] theorem acquisitionsOf_nil : acquisitionsOf [] = [] := rfl

@[simp] theorem acquisitionsOf_cons (o : Output) (out : List Output) :
    acquisitionsOf (o :: out) = o.acquisition?.toList ++ acquisitionsOf out :=
  filterMap_output_cons Output.acquisition? o out

@[simp] theorem acquisitionsOf_append (a b : List Output) :
    acquisitionsOf (a ++ b) = acquisitionsOf a ++ acquisitionsOf b := List.filterMap_append

@[simp] theorem acquisitionsOf_stateChange (old new : State) :
    acquisitionsOf (stateChange old new) = [] := filterMap_stateChange (fun _ => rfl) old new

@[simp] theorem acquisitionsOf_map_request (rs : List (Request × Int)) :
    acquisitionsOf (rs.map fun p => .request p.1 p.2) = [] :=
  filterMap_map_none (fun _ => rfl) rs

@[simp] theorem acquisitionsOf_map_removed (fs : List String) :
    acquisitionsOf (fs.map fun f => .signal (.Removed f)) = [] :=
  filterMap_map_none (fun _ => rfl) fs

@[simp] theorem acquisitionsOf_requestOutput (hal : Hal) (r : Request) :
    acquisitionsOf (requestOutput hal r) = [] := by
  by_cases h : hal r = SYS_OK <;> simp [requestOutput, Output.acquisition?, h]

/-- The touches that clients are told of in a run. -/
def acquisitionsTold (past : List StackEdge) : List String :=
  past.flatMap fun e => acquisitionsOf e.out.out

section Steps

variable [QDataStream] {s : System} {i : StackInput}

/-- A step takes the touches `out` off the queue: `m_acquired` follows them, and clients are told
the news. -/
structure Takes (out : List AcquiredState) (s : System) (i : StackInput) : Prop where
  queue : touchesQueued s.queue ++ i.event.touch?.toList =
    out ++ touchesQueued (stack.step s i).1.queue
  acquired : (stack.step s i).1.fpd.m_acquired = out.getLastD s.fpd.m_acquired
  told : acquisitionsOf (stack.step s i).2.out =
    (news s.fpd.m_acquired out).map AcquiredState.key

omit [QDataStream] in
theorem invoke_touches (env : Env) (caller : String) (c : Call) (d : FPDCommunity) :
    (invoke env caller c { self := d }).1.self.m_acquired = d.m_acquired ∧
      acquisitionsOf (invoke env caller c { self := d }).1.out = [] := by
  cases h : d.requestOf caller c with
  | some r =>
    rw [invoke_request (x := { self := d }) h]
    refine ⟨?_, ?_⟩
    · by_cases hr : env.hal r = SYS_OK <;> cases c <;> simp [afterRequest, prepared, hr]
    · by_cases he : c.enrols <;> simp [he, Output.acquisition?]
  | none =>
    by_cases ha : c = .Abort ∧ ¬ d.busyForOther caller ∧ d.m_state ≠ .FPSTATE_IDLE
    · obtain ⟨rfl, hb, hs⟩ := ha
      simp [invoke_abort (x := { self := d }) hb hs, abort, Output.acquisition?]
    · rw [invoke_idle (x := { self := d }) h (by tauto)]
      exact ⟨rfl, rfl⟩

theorem slot_touches (env : Env) (signal : Signal) (d : FPDCommunity) :
    (slot env signal { self := d }).self.m_acquired = signal.touch?.toList.getLastD d.m_acquired ∧
      acquisitionsOf (slot env signal { self := d }).out =
        (news d.m_acquired signal.touch?.toList).map AcquiredState.key := by
  cases signal with
  | failed message =>
    by_cases ht : d.tolerates message
    · simp [slot, slot_failed_tolerated (x := { self := d }) ht, Signal.touch?,
        Output.acquisition?]
    · simp [slot, slot_failed_ends (x := { self := d }) ht, Signal.touch?, Output.acquisition?]
  | succeeded finger => simp [slot, slot_succeeded, Signal.touch?, Output.acquisition?]
  | removed finger =>
    by_cases h : finger = 0 <;>
      simp [slot, slot_removed, foldl_removed, h, Signal.touch?, Output.acquisition?]
  | authenticated finger =>
    simp [slot, slot_authenticated_out, Signal.touch?, Output.acquisition?]
  | enrollProgress pc =>
    by_cases hv : d.m_state = .FPSTATE_VERIFYING <;>
      simp [slot, slot_enrollProgress, hv, abort, Signal.touch?, Output.acquisition?]
  | acquired info =>
    by_cases h : acquiredState info = d.m_acquired <;>
      simp [slot, slot_acquired_out, h, Signal.touch?, Output.acquisition?, news]
  | enumerated => simp [slot, slot_enumerated, Signal.touch?, Output.acquisition?]

omit [QDataStream] in
theorem callback_touches (hal : Hal) (cb : ClientCallback) (self : AndroidFP) :
    touchesQueued (self.callback hal cb.received).signals =
      (StackEvent.client cb).touch?.toList := by
  cases cb with
  | onAcquired deviceId info vendorCode => rfl
  | onEnrollResult deviceId fingerId groupId remaining =>
    by_cases hr : 0 < remaining
    · simp [ClientCallback.received, AndroidFP.callback, AndroidFP.enrollCallback, hr,
        touchesQueued, Signal.touch?, StackEvent.touch?]
    · by_cases hp : hal .postEnroll = SYS_OK <;>
        simp [ClientCallback.received, AndroidFP.callback, AndroidFP.enrollCallback, hr, hp,
          touchesQueued, Signal.touch?, StackEvent.touch?]
  | onAuthenticated deviceId fingerId groupId token =>
    by_cases hf : fingerId = 0 <;>
      simp [ClientCallback.received, AndroidFP.callback, hf, touchesQueued, Signal.touch?,
        StackEvent.touch?]
  | onError deviceId error vendorCode =>
    by_cases he : HIDLToUFingerprintError error = ERROR_NO_ERROR <;>
      simp [ClientCallback.received, AndroidFP.callback, he, touchesQueued, Signal.touch?,
        StackEvent.touch?]
  | onRemoved deviceId fingerId groupId remaining =>
    simp only [ClientCallback.received, AndroidFP.callback, AndroidFP.removeCallback]
    split <;> rfl
  | onEnumerate deviceId fingerId groupId remaining =>
    by_cases hr : remaining = 0 <;>
      simp [ClientCallback.received, AndroidFP.callback, AndroidFP.enumerateCallback, hr,
        touchesQueued, Signal.touch?, StackEvent.touch?]

theorem takes_step (s : System) (i : StackInput) : ∃ out, Takes out s i := by
  obtain ⟨event, fpHal, gk_device, openRead, openWrite, room⟩ := i
  cases event with
  | call caller c =>
    obtain ⟨hacquired, htold⟩ := invoke_touches (StackInput.env
      ⟨.call caller c, fpHal, gk_device, openRead, openWrite, room⟩) caller c s.fpd
    exact ⟨[], by simp [stack_step, StackInput.input, step_call, StackEvent.touch?], hacquired,
      htold⟩
  | timeout =>
    refine ⟨[], ?_, ?_, ?_⟩ <;> rw [stack_step] <;> by_cases ht : s.fpd.m_cancelTimer <;>
      simp [StackInput.input, daemon, System.step, ht, slot_cancelIdentify, Output.acquisition?,
        StackEvent.touch?]
  | client cb =>
    refine ⟨[], ?_, ?_, ?_⟩
    · simp only [stack_step, StackInput.input, daemon, System.step, touchesQueued,
        List.filterMap_append]
      exact congrArg _ (callback_touches _ cb s.fpd.m_androidFP).symm
    · simp [stack_step, StackInput.input, daemon, System.step]
    · simp [stack_step, StackInput.input, daemon, System.step]
  | deliver =>
    obtain ⟨d, queue⟩ := s
    cases queue with
    | nil => exact ⟨[], rfl, rfl, rfl⟩
    | cons signal queue =>
      obtain ⟨hacquired, htold⟩ := slot_touches (StackInput.env
        ⟨.deliver, fpHal, gk_device, openRead, openWrite, room⟩) signal d
      refine ⟨signal.touch?.toList, ?_, hacquired, htold⟩
      cases ht : signal.touch? <;> simp [touchesQueued, ht, StackEvent.touch?, stack_step,
        StackInput.input, daemon, System.step]

/-- What a run has taken off the queue. -/
structure Taken (out : List AcquiredState) (past : List StackEdge) (s : System) : Prop where
  queue : touches past = out ++ touchesQueued s.queue
  acquired : s.fpd.m_acquired = out.getLastD .FPACQUIRED_UNSPECIFIED
  told : acquisitionsTold past = (news .FPACQUIRED_UNSPECIFIED out).map AcquiredState.key

theorem taken_step {past : List StackEdge} {taken : List AcquiredState} (h : Taken taken past s)
    (i : StackInput) :
    ∃ taken', Taken taken' (past ++ [stack.edge s i]) (stack.step s i).1 := by
  obtain ⟨out, hout⟩ := takes_step s i
  refine ⟨taken ++ out, ?_, ?_, ?_⟩
  · have htouches : touches (past ++ [stack.edge s i]) =
        touches past ++ i.event.touch?.toList := by
      cases ht : i.event.touch? <;> simp [touches, ht]
    rw [htouches, h.queue, List.append_assoc, hout.queue, List.append_assoc]
  · rw [hout.acquired, h.acquired, getLastD_append]
  · have htold : acquisitionsTold (past ++ [stack.edge s i]) =
        acquisitionsTold past ++ acquisitionsOf (stack.step s i).2.out := by
      simp [acquisitionsTold]
    rw [htold, h.told, hout.told, h.acquired, news_append, List.map_append]

end Steps

/-- **Clients are told the news of the touches that the service reports**, each once and in their
order, but for those that are still queued. -/
theorem acquisitions_told [QDataStream] (env : Env) (getprop : String → String)
    (database : Option (List UInt8)) (is : List StackInput) :
    let past := stack.edges (boot env getprop database) is
    let s := stack.final (boot env getprop database) is
    acquisitionsTold past ++ (news s.fpd.m_acquired (touchesQueued s.queue)).map AcquiredState.key =
      (news .FPACQUIRED_UNSPECIFIED (touches past)).map AcquiredState.key := by
  intro past s
  obtain ⟨taken, htaken⟩ : ∃ taken, Taken taken past s := by
    refine along_true.invariant (I := fun past s => ∃ taken, Taken taken past s) ⟨[], ?_⟩
      fun _ _ i ⟨_, h⟩ _ => taken_step h i
    refine ⟨rfl, ?_, rfl⟩
    rw [boot_fpd]
    rfl
  rw [htaken.told, htaken.acquired, htaken.queue, news_append, List.map_append]

end SailfishFpd
