import SailfishFpd.Delivery
import SailfishFpd.Hal.Hidl
import SailfishFpd.QtStream

/-!
# The daemon over the HIDL services

The daemon's requests are answered by `UHardwareBiometry_` and its callbacks are
those of the HIDL client. `failures_told` follows the failures from the service
to D-Bus: each is told once, by a text of its own. `silent_leave_no_trace` is
about the callbacks that get lost on the way.
-/

namespace SailfishFpd

open FPDCommunity
open Reactive (Machine)
open Reactive.Machine

/-! ## The stack -/

inductive StackEvent where
  | call (caller : String) (c : Call)
  | timeout
  | client (cb : ClientCallback)
  | deliver

/-- An event with the services, and the fate of the file operations, while it is handled. -/
structure StackInput where
  event : StackEvent
  fpHal : Option FingerprintService
  gk_device : Option IGatekeeper
  openRead : Bool := true
  openWrite : Bool := true
  room : Option Nat := none

def StackInput.env (i : StackInput) : Env :=
  { hal := UHardwareBiometry.answer i.fpHal i.gk_device
    openRead := i.openRead, openWrite := i.openWrite, room := i.room }

/-- The daemon and the layer under it. -/
def stack [QDataStream] : Machine System StackInput Response where
  step s i :=
    match i.event with
    | .call caller c => daemon.step s ⟨.call caller c, i.env⟩
    | .timeout => daemon.step s ⟨.timeout, i.env⟩
    | .deliver => daemon.step s ⟨.deliver, i.env⟩
    | .client cb =>
      match cb.run (some AndroidFP.fp_params) with
      | some cb => daemon.step s ⟨.callback cb, i.env⟩
      | none => (s, {})

abbrev StackEdge := Reactive.Edge System StackInput Response

/-- The callback that reaches `AndroidFP`. -/
def ClientCallback.received : ClientCallback → Callback
  | .onEnrollResult _ fingerId _ remaining => .enrollresult fingerId remaining
  | .onAcquired _ acquiredInfo _ => .acquired (HIDLToUFingerprintAcquiredInfo acquiredInfo)
  | .onAuthenticated _ fingerId _ _ => .authenticated fingerId
  | .onError _ error vendorCode => .error (HIDLToUFingerprintError error) vendorCode.toInt
  | .onRemoved _ fingerId _ remaining => .removed fingerId remaining
  | .onEnumerate _ fingerId _ remaining => .enumerate fingerId remaining

theorem ClientCallback.run_fp_params (cb : ClientCallback) :
    cb.run (some AndroidFP.fp_params) = some cb.received := by
  cases cb <;> rfl

/-- What the daemon sees of an event. -/
def StackInput.input (i : StackInput) : Input where
  event := match i.event with
    | .call caller c => .call caller c
    | .timeout => .timeout
    | .client cb => .callback cb.received
    | .deliver => .deliver
  env := i.env

theorem stack_step [QDataStream] (s : System) (i : StackInput) :
    stack.step s i = daemon.step s i.input := by
  obtain ⟨event, -⟩ := i
  cases event with
  | client cb => simp [stack, cb.run_fp_params, StackInput.input, StackInput.env]
  | _ => rfl

/-! ## Texts of failures -/

def Output.error? : Output → Option String
  | .signal (.ErrorInfo error) => some error
  | _ => none

def errorsOf (out : List Output) : List String := out.filterMap Output.error?

def Signal.error? : Signal → Option String
  | .failed message => some message
  | _ => none

def errorsQueued (signals : List Signal) : List String := signals.filterMap Signal.error?

/-- A refused request; the status of a cancel is not looked at. -/
def refusal (p : Request × Int) : Option Failure :=
  if p.1 = .cancel ∨ p.2 = SYS_OK then none else some (.status p.2)

/-- The failure a callback brings. -/
def ClientCallback.failure? : ClientCallback → Option Failure
  | .onError _ error vendorCode =>
    let code := HIDLToUFingerprintError error
    if code = ERROR_NO_ERROR then none
    else if code = ERROR_VENDOR then some (.vendor vendorCode.toInt)
    else some (.error code)
  | .onAuthenticated _ fingerId _ _ => if fingerId = 0 then some .notRecognized else none
  | _ => none

def StackEvent.failure? : StackEvent → Option Failure
  | .client cb => cb.failure?
  | _ => none

def failures (e : StackEdge) : List Failure :=
  e.input.event.failure?.toList ++ (requestsOf e.out.out).filterMap refusal

@[simp] theorem errorsOf_nil : errorsOf [] = [] := rfl

@[simp] theorem errorsOf_cons (o : Output) (out : List Output) :
    errorsOf (o :: out) = o.error?.toList ++ errorsOf out :=
  filterMap_output_cons Output.error? o out

@[simp] theorem errorsOf_append (a b : List Output) :
    errorsOf (a ++ b) = errorsOf a ++ errorsOf b := List.filterMap_append

@[simp] theorem errorsOf_stateChange (old new : State) : errorsOf (stateChange old new) = [] :=
  filterMap_stateChange (fun _ => rfl) old new

@[simp] theorem errorsOf_map_request (rs : List (Request × Int)) :
    errorsOf (rs.map fun p => .request p.1 p.2) = [] :=
  filterMap_map_none (fun _ => rfl) rs

@[simp] theorem errorsOf_map_removed (names : List String) :
    errorsOf (names.map fun f => .signal (.Removed f)) = [] :=
  filterMap_map_none (fun _ => rfl) names

@[simp] theorem errorsQueued_append (a b : List Signal) :
    errorsQueued (a ++ b) = errorsQueued a ++ errorsQueued b := List.filterMap_append

@[simp] theorem errorsQueued_nil : errorsQueued [] = [] := rfl

theorem errorsQueued_cons (signal : Signal) (signals : List Signal) :
    errorsQueued (signal :: signals) = signal.error?.toList ++ errorsQueued signals := by
  cases h : signal.error? <;> simp [errorsQueued, h]

theorem FPDCommunity.invoke_errors (env : Env) (caller : String) (c : Call) (d : FPDCommunity) :
    let out := (invoke env caller c { self := d }).1.out
    errorsOf out = ((requestsOf out).filterMap refusal).map Failure.text := by
  intro out
  rcases callMove_cases d env.hal caller c with
    ⟨-, hm⟩ | ⟨rfl, hb, hs, hm⟩ | ⟨r, h, hr, hm⟩ | ⟨r, h, hr, hm⟩
  · simp [out, invoke_stay (x := { self := d }) hm]
  · simp only [out, invoke_abort (x := { self := d }) hb hs]
    simp [abort, Output.error?, Output.request?, refusal]
  · simp only [out, invoke_request (x := { self := d }) h]
    by_cases he : c.enrols <;>
      simp [he, requestOutput, hr, Output.error?, Output.request?, refusal]
  · have hcancel : r ≠ .cancel := by
      rintro rfl
      exact absurd (requestOf_starts h) (by simp [Request.startsOperation])
    simp only [out, invoke_request (x := { self := d }) h]
    by_cases he : c.enrols <;>
      simp [he, requestOutput, hr, hcancel, Output.error?, Output.request?, refusal, Failure.text]

theorem AndroidFP.callback_errors (hal : Hal) (cb : ClientCallback) (self : AndroidFP) :
    let r := self.callback hal cb.received
    errorsQueued r.signals =
      (cb.failure?.toList ++ r.requests.filterMap refusal).map Failure.text := by
  cases cb with
  | onEnrollResult deviceId fingerId groupId remaining =>
    by_cases hr : 0 < remaining
    · simp [ClientCallback.received, AndroidFP.callback, AndroidFP.enrollCallback, hr,
        errorsQueued, Signal.error?, ClientCallback.failure?]
    · by_cases hp : hal .postEnroll = SYS_OK <;>
        simp [ClientCallback.received, AndroidFP.callback, AndroidFP.enrollCallback, hr, hp,
          errorsQueued_cons, Signal.error?, ClientCallback.failure?, refusal, Failure.text]
  | onAuthenticated deviceId fingerId groupId token =>
    by_cases hf : fingerId = 0 <;>
      simp [ClientCallback.received, AndroidFP.callback, hf, errorsQueued, Signal.error?,
        ClientCallback.failure?, Failure.text]
  | onError deviceId error vendorCode =>
    by_cases hn : HIDLToUFingerprintError error = ERROR_NO_ERROR
    · simp [ClientCallback.received, AndroidFP.callback, ClientCallback.failure?, hn]
    · by_cases hv : HIDLToUFingerprintError error = ERROR_VENDOR
      · have hne : ERROR_VENDOR ≠ ERROR_NO_ERROR := by decide
        simp [ClientCallback.received, AndroidFP.callback, ClientCallback.failure?, hv, hne,
          errorsQueued_cons, Signal.error?, Failure.text]
      · simp [ClientCallback.received, AndroidFP.callback, ClientCallback.failure?, hn, hv,
          errorsQueued_cons, Signal.error?, Failure.text,
          IntToStringFingerprintError_vendor hv vendorCode.toInt]
  | onRemoved deviceId fingerId groupId remaining =>
    simp only [ClientCallback.received, AndroidFP.callback, AndroidFP.removeCallback]
    split <;> rfl
  | onEnumerate deviceId fingerId groupId remaining =>
    by_cases hr : remaining = 0 <;>
      simp [ClientCallback.received, AndroidFP.callback, AndroidFP.enumerateCallback, hr,
        errorsQueued, Signal.error?, ClientCallback.failure?]
  | onAcquired deviceId acquiredInfo vendorCode => rfl

theorem ClientCallback.failure_known {cb : ClientCallback} {f : Failure}
    (h : cb.failure? = some f) : f.Known := by
  cases cb with
  | onError deviceId error vendorCode =>
    rcases HIDLToUFingerprintError_known error with hn | hv | hc
    · simp [ClientCallback.failure?, hn] at h
    · have hne : ERROR_VENDOR ≠ ERROR_NO_ERROR := by decide
      obtain rfl : Failure.vendor vendorCode.toInt = f := by
        simpa [ClientCallback.failure?, hv, hne] using h
      exact .inr ⟨_, rfl⟩
    · have hcommon : ∀ e, e = ERROR_NO_ERROR ∨ e = ERROR_VENDOR → .error e ∉ Failure.common := by
        rintro e (rfl | rfl) <;> decide
      have hn : HIDLToUFingerprintError error ≠ ERROR_NO_ERROR :=
        fun hn => hcommon _ (.inl hn) hc
      have hv : HIDLToUFingerprintError error ≠ ERROR_VENDOR := fun hv => hcommon _ (.inr hv) hc
      obtain rfl : Failure.error (HIDLToUFingerprintError error) = f := by
        simpa [ClientCallback.failure?, hn, hv] using h
      exact .inl hc
  | onAuthenticated deviceId fingerId groupId token =>
    by_cases hf : fingerId = 0
    · obtain rfl : Failure.notRecognized = f := by simpa [ClientCallback.failure?, hf] using h
      exact .inl (by decide)
    · simp [ClientCallback.failure?, hf] at h
  | _ => cases h

section Runs

variable [QDataStream]

theorem FPDCommunity.slot_errors (env : Env) (signal : Signal) (d : FPDCommunity) :
    errorsOf (slot env signal { self := d }).out = signal.error?.toList := by
  cases signal with
  | failed message =>
    by_cases ht : d.tolerates message
    · simp [slot, slot_failed_tolerated (x := { self := d }) ht, Output.error?, Signal.error?]
    · simp [slot, slot_failed_ends (x := { self := d }) ht, Output.error?, Signal.error?]
  | succeeded finger => simp [slot, slot_succeeded, Output.error?, Signal.error?]
  | removed finger =>
    by_cases h : finger = 0 <;>
      simp [slot, slot_removed, foldl_removed, h, Output.error?, Signal.error?]
  | authenticated finger => simp [slot, slot_authenticated_out, Output.error?, Signal.error?]
  | enrollProgress pc =>
    by_cases hv : d.m_state = .FPSTATE_VERIFYING <;>
      simp [slot, slot_enrollProgress, hv, abort, Output.error?, Signal.error?]
  | acquired info =>
    by_cases h : acquiredState info = d.m_acquired <;>
      simp [slot, slot_acquired_out, h, Output.error?, Signal.error?]
  | enumerated => simp [slot, slot_enumerated, Output.error?, Signal.error?]

theorem FPDCommunity.slot_refusals (env : Env) (signal : Signal) (d : FPDCommunity) :
    (requestsOf (slot env signal { self := d }).out).filterMap refusal = [] := by
  rw [slot_requests]
  split <;> simp [refusal]

theorem failures_of_none {s : System} {i : StackInput} (h : i.event.failure? = none) :
    failures (stack.edge s i) = (requestsOf (stack.step s i).2.out).filterMap refusal := by
  simp [failures, h]

/-- What a step tells and leaves queued is what was queued and the failures it meets. -/
theorem step_failures (s : System) (i : StackInput) :
    (errorsOf (stack.step s i).2.out ++ errorsQueued (stack.step s i).1.queue).Perm
      (errorsQueued s.queue ++ (failures (stack.edge s i)).map Failure.text) := by
  obtain ⟨event, fpHal, gk_device, openRead, openWrite, room⟩ := i
  cases event with
  | call caller c =>
    rw [failures_of_none rfl, stack_step]
    exact (invoke_errors _ caller c s.fpd) ▸ List.perm_append_comm
  | timeout =>
    rw [failures_of_none rfl, stack_step]
    by_cases ht : s.fpd.m_cancelTimer <;>
      simp [StackInput.input, daemon, System.step, ht, slot_cancelIdentify, Output.error?,
        Output.request?, refusal]
  | deliver =>
    rw [failures_of_none rfl, stack_step]
    obtain ⟨d, queue⟩ := s
    cases queue with
    | nil => exact .refl _
    | cons signal queue =>
      simp only [StackInput.input, daemon, System.step]
      rw [slot_errors, slot_refusals, errorsQueued_cons]
      simp
  | client cb =>
    have hcallback := s.fpd.m_androidFP.callback_errors (StackInput.env
      ⟨.client cb, fpHal, gk_device, openRead, openWrite, room⟩).hal cb
    simp only [failures, edge_input, edge_out, stack_step, StackInput.input, daemon, System.step,
      errorsOf_map_request, requestsOf_map_request, errorsQueued_append, hcallback]
    exact .refl _

def failuresMet (past : List StackEdge) : List Failure := past.flatMap failures

def errorsTold (past : List StackEdge) : List String := past.flatMap fun e => errorsOf e.out.out

/-- In a run, the failures met so far are told or queued. -/
theorem run_failures {s : System} (hs : s.queue = []) (is : List StackInput) :
    (errorsTold (stack.edges s is) ++ errorsQueued (stack.final s is).queue).Perm
      ((failuresMet (stack.edges s is)).map Failure.text) := by
  induction is using List.reverseRecOn with
  | nil => simp [errorsTold, failuresMet, hs]
  | append_singleton is i ih =>
    have hstep := step_failures (stack.final s is) i
    have htold : errorsTold (stack.edges s (is ++ [i])) =
        errorsTold (stack.edges s is) ++ errorsOf (stack.step (stack.final s is) i).2.out := by
      simp [errorsTold, stack.edges_snoc]
    have hmet : failuresMet (stack.edges s (is ++ [i])) =
        failuresMet (stack.edges s is) ++ failures (stack.edge (stack.final s is) i) := by
      simp [failuresMet, stack.edges_snoc]
    rw [htold, hmet, stack.final_snoc, List.map_append, List.append_assoc]
    refine (hstep.append_left _).trans ?_
    rw [← List.append_assoc]
    exact ih.append_right _

theorem step_answered (s : System) (i : Input) :
    ∀ p ∈ requestsOf (daemon.step s i).2.out, p.2 = i.env.hal p.1 := by
  intro p hp
  obtain ⟨event, env⟩ := i
  cases event with
  | call caller c =>
    rw [step_call, invoke_requests] at hp
    rcases callMove_cases s.fpd env.hal caller c with
      ⟨-, hm⟩ | ⟨-, -, -, hm⟩ | ⟨r, h, -, hm⟩ | ⟨r, h, -, hm⟩ <;>
      rw [hm] at hp <;> simp_all
  | timeout =>
    by_cases ht : s.fpd.m_cancelTimer
    · obtain rfl : p = _ := by
        simpa [daemon, System.step, ht, slot_cancelIdentify, Output.request?] using hp
      rfl
    · simp [daemon, System.step, ht] at hp
  | callback cb =>
    have hr : p ∈ (s.fpd.m_androidFP.callback env.hal cb).requests := by
      simpa [daemon, System.step] using hp
    cases cb with
    | enrollresult fingerId remaining =>
      by_cases hz : 0 < remaining
      · simp [AndroidFP.callback, AndroidFP.enrollCallback, hz] at hr
      · obtain rfl : p = _ := by simpa [AndroidFP.callback, AndroidFP.enrollCallback, hz] using hr
        rfl
    | removed fingerId remaining =>
      simp only [AndroidFP.callback, AndroidFP.removeCallback] at hr
      split at hr <;> exact absurd hr List.not_mem_nil
    | _ => exact absurd hr List.not_mem_nil
  | deliver =>
    obtain ⟨d, queue⟩ := s
    cases queue with
    | nil => exact absurd hp List.not_mem_nil
    | cons signal queue =>
      simp only [daemon, System.step, slot_requests] at hp
      split at hp
      · obtain rfl : p = _ := by simpa using hp
        rfl
      · exact absurd hp List.not_mem_nil

theorem failures_known {s : System} {i : StackInput} :
    ∀ f ∈ failures (stack.edge s i), f.Known := by
  intro f hf
  rcases List.mem_append.mp hf with hf | hf
  · obtain ⟨event, _, _, _, _, _⟩ := i
    cases event with
    | client cb => exact ClientCallback.failure_known (by simpa [StackEvent.failure?] using hf)
    | _ => simp [StackEvent.failure?] at hf
  · obtain ⟨⟨r, status⟩, hp, hr⟩ := List.mem_filterMap.mp hf
    have hstatus : status = UHardwareBiometry.answer i.fpHal i.gk_device r := by
      rw [edge_out, stack_step] at hp
      exact step_answered s i.input (r, status) hp
    obtain ⟨req, hreq⟩ := UHardwareBiometry.exists_answer i.fpHal i.gk_device r
    by_cases hno : r = .cancel ∨ status = SYS_OK
    · simp [refusal, hno] at hr
    · obtain rfl : Failure.status status = f := by simpa [refusal, hno] using hr
      rw [hstatus, hreq] at hno ⊢
      exact HIDLToURequestStatus_known fun h => hno (.inr h)

/-- **Every failure is told once, by a text of its own.** The texts that a run sends, once the
constructor has returned, are those of failures it met; each known failure was told as often as it
was met, but for what is still queued. -/
theorem failures_told (env : Env) (getprop : String → String) (database : Option (List UInt8))
    (is : List StackInput) :
    let s := boot env getprop database
    let met := failuresMet (stack.edges s is)
    let told := errorsTold (stack.edges s is)
    (∀ text ∈ told, ∃ f ∈ met, f.Known ∧ f.text = text) ∧
      (∀ f : Failure, f.Known →
        told.count f.text + (errorsQueued (stack.final s is).queue).count f.text = met.count f) ∧
      ∀ f g : Failure, f.Known → g.Known → f.text = g.text → f = g := by
  intro s met told
  have hknown : ∀ f ∈ met, f.Known := by
    have hedges : ∀ (is : List StackInput) (t : System), ∀ f ∈ failuresMet (stack.edges t is),
        f.Known := by
      intro is
      induction is with
      | nil => exact fun t f hf => absurd hf List.not_mem_nil
      | cons i is ih =>
        intro t f hf
        rcases List.mem_append.mp hf with hf | hf
        · exact failures_known f hf
        · exact ih _ f hf
    exact hedges is s
  have hperm : (told ++ errorsQueued (stack.final s is).queue).Perm (met.map Failure.text) :=
    run_failures rfl is
  refine ⟨fun text ht => ?_, fun f hf => ?_, fun f g hf hg h => Failure.text_injective hf hg h⟩
  · obtain ⟨f, hf, rfl⟩ := List.mem_map.mp (hperm.subset (List.mem_append_left _ ht))
    exact ⟨f, hf, hknown f hf, rfl⟩
  · rw [← List.count_append, hperm.count_eq, List.count, List.countP_map, List.count]
    refine List.countP_congr fun g hg => ?_
    simp only [Function.comp_apply, beq_iff_eq]
    exact ⟨fun h => Failure.text_injective (hknown g hg) hf h, fun h => congrArg _ h⟩

end Runs

/-! ## Callbacks that get lost -/

/-- The callback brings nothing on: an error that is none or unknown, the removal of another
template than the one asked for or not the last, or the end of nothing in an enumeration. -/
def ClientCallback.Silent (self : AndroidFP) : ClientCallback → Prop
  | .onError _ error _ => HIDLToUFingerprintError error = ERROR_NO_ERROR
  | .onRemoved _ fingerId _ remaining =>
    remaining ≠ 0 ∨ self.m_removingFinger ≠ 0 ∧ fingerId ≠ self.m_removingFinger
  | .onEnumerate _ fingerId _ remaining => fingerId = 0 ∧ remaining ≠ 0
  | _ => False

/-- A callback is silent exactly when it leaves `AndroidFP` as it was, makes no request and posts
no signal. -/
theorem ClientCallback.silent_iff (hal : Hal) (self : AndroidFP) (cb : ClientCallback) :
    cb.Silent self ↔
      self.callback hal cb.received = { self := self, requests := [], signals := [] } := by
  cases cb with
  | onError deviceId error vendorCode =>
    by_cases hn : HIDLToUFingerprintError error = ERROR_NO_ERROR <;>
      simp [ClientCallback.Silent, ClientCallback.received, AndroidFP.callback, hn]
  | onRemoved deviceId fingerId groupId remaining =>
    by_cases hm : (fingerId = self.m_removingFinger ∨ self.m_removingFinger = 0) ∧ remaining = 0
    · have hreport : self.callback hal (.removed fingerId remaining) = _ := if_pos hm
      simp only [ClientCallback.Silent, ClientCallback.received, hreport]
      simp only [AndroidFP.Called.mk.injEq, reduceCtorEq, and_false, iff_false]
      tauto
    · have hreport : self.callback hal (.removed fingerId remaining) = _ := if_neg hm
      simp only [ClientCallback.Silent, ClientCallback.received, hreport, iff_true]
      tauto
  | onEnumerate deviceId fingerId groupId remaining =>
    have hne : ∀ self' : AndroidFP, self'.m_fingers = self.m_fingers ++ [fingerId] →
        self' ≠ self := by
      rintro self' h rfl
      simp at h
    by_cases hf : fingerId = 0 <;> by_cases hr : remaining = 0 <;>
      simp [ClientCallback.Silent, ClientCallback.received, AndroidFP.callback,
        AndroidFP.enumerateCallback, hf, hr, hne]
  | onEnrollResult deviceId fingerId groupId remaining =>
    by_cases hr : 0 < remaining <;>
      simp [ClientCallback.Silent, ClientCallback.received, AndroidFP.callback,
        AndroidFP.enrollCallback, hr]
  | onAcquired deviceId acquiredInfo vendorCode =>
    simp [ClientCallback.Silent, ClientCallback.received, AndroidFP.callback,
      AndroidFP.acquiredCallback]
  | onAuthenticated deviceId fingerId groupId token =>
    by_cases hf : fingerId = 0 <;>
      simp [ClientCallback.Silent, ClientCallback.received, AndroidFP.callback, hf]

/-- The event is a silent callback where it is taken. -/
def SilentCallback (s : System) (i : StackInput) : Prop :=
  ∃ cb, i.event = .client cb ∧ cb.Silent s.fpd.m_androidFP

section Runs

variable [QDataStream]

theorem SilentCallback.step {s : System} {i : StackInput} (h : SilentCallback s i) :
    stack.step s i = (s, {}) := by
  obtain ⟨cb, hcb, h⟩ := h
  have hsilent := (cb.silent_iff i.env.hal _).mp h
  simp [stack_step, StackInput.input, hcb, daemon, System.step, hsilent]

/-- **Silent callbacks leave no trace**: a run without those marked `false` ends in the same daemon,
file and queue, and every other step gives the same response. -/
theorem silent_leave_no_trace (s : System) (is : List (StackInput × Bool))
    (h : stack.OnlyDrops SilentCallback s is) :
    stack.final s (Machine.kept is) = stack.final s (is.map (·.1)) ∧
      (stack.edges s (Machine.kept is)).map (·.out) = stack.keptOutputs s is ∧
      (stack.edges s (Machine.kept is)).flatMap (fun e => signalsOf e.out.out) =
        (stack.edges s (is.map (·.1))).flatMap (fun e => signalsOf e.out.out) := by
  have hstate : ∀ t i, SilentCallback t i → (stack.step t i).1 = t := by
    intro t i ht
    rw [ht.step]
  refine ⟨Machine.final_kept hstate is h, Machine.outputs_kept hstate is h, ?_⟩
  refine Machine.observed_kept (fun r : Response => signalsOf r.out) hstate ?_ is h
  intro t i ht
  rw [ht.step]
  rfl

end Runs

/-- An error with an unknown code and the removal of another template, while `:1.5` removes one. -/
theorem silent_leave_no_trace_remove :
    letI := qt56
    let s : System := { fpd := { m_fingerMap := (∅ : FingerMap).insert 7 "left" } }
    let fpHal : FingerprintService :=
      { preEnroll := 1, enroll := fun _ _ _ => SYS_OK, postEnroll := SYS_OK, cancel := SYS_OK
        enumerate := SYS_OK, remove := fun _ _ => SYS_OK, setActiveGroup := fun _ _ => SYS_OK
        authenticate := fun _ _ => SYS_OK }
    let remove : StackInput := { event := .call ":1.5" (.Remove "left"), fpHal, gk_device := none }
    let error : StackInput := { event := .client (.onError 0 42 0), fpHal, gk_device := none }
    let other : StackInput := { event := .client (.onRemoved 0 9 0 0), fpHal, gk_device := none }
    stack.final s [remove] = stack.final s [remove, error, other] := by
  let := qt56
  intro s fpHal remove error other
  have hdrops : stack.OnlyDrops SilentCallback s
      [(remove, true), (error, false), (other, false)] := by
    have herror : ∀ t, SilentCallback t error := fun _ => ⟨_, rfl, rfl⟩
    have hother : SilentCallback (stack.step s remove).1 other :=
      ⟨_, rfl, .inr (by decide)⟩
    simp only [onlyDrops_cons, onlyDrops_nil]
    refine ⟨fun h => Bool.noConfusion h, fun _ => herror _, fun _ => ?_, trivial⟩
    rw [(herror _).step]
    exact hother
  exact (silent_leave_no_trace s _ hdrops).1

end SailfishFpd
