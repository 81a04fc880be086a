import SailfishFpd.Hal.Device

/-!
# What the daemon believes of the HAL

The daemon's state stands for the operation the HAL works on. `Working` says
which state goes with which operation; it is kept by everything but the reports
from which the daemon and the HAL conclude different things. Those are exactly
what can bring the two apart: `agree_iff_decisive`. While they agree, an
operation is over after as many results as it has work: `operation_ends`.
-/

namespace SailfishFpd

open FPDCommunity
open Reactive.Machine

/-- The daemon's state for an operation of the HAL. -/
def HalOp.Agrees (op : HalOp) (state : State) : Prop :=
  match op with
  | .rest => state = .FPSTATE_IDLE
  | .enrolling => state = .FPSTATE_ENROLLING ∨ state = .FPSTATE_VERIFYING
  | .authenticating => state = .FPSTATE_IDENTIFYING
  | .removing _ | .clearing _ => state = .FPSTATE_REMOVING
  | .enumerating _ => state = .FPSTATE_ENUMERATING

def Device.Agree (s : Device) : Prop := s.hal.op.Agrees s.fpd.m_state

/-- The report ends the operation for the HAL exactly when it does for the daemon: a match is the
last report of an authentication and a mismatch is not, and an error has a code. -/
def HalEvent.Decisive : HalEvent → Prop
  | .authenticated finger last => last = true ↔ finger ≠ 0
  | .error code _ => code ≠ ERROR_NO_ERROR
  | _ => True

/-- A report that the step passes on is decisive. -/
def Decisive (e : DeviceEdge) : Prop :=
  ∀ ev, e.input.event = .hal ev → (e.src.hal.emit ev).isSome → ev.Decisive

/-- The report is the result of an operation, or a part of it. -/
def HalEvent.isResult : HalEvent → Bool
  | .progress .. | .acquired _ => false
  | .authenticated finger _ => finger ≠ 0
  | .enrolled _ | .removed _ | .enumerated _ | .none | .error .. => true

def HalEvent.isError : HalEvent → Bool
  | .error .. => true
  | _ => false

/-- The number of results the HAL's operation takes. -/
def Device.work (s : Device) : Nat :=
  match s.hal.op with
  | .rest => 0
  | .enrolling | .authenticating | .removing _ => 1
  | .clearing _ => max 1 s.hal.templates.length
  | .enumerating todo => max 1 todo.length

/-- The daemon and the HAL agree, and the fields of `AndroidFP` are those of the operation. -/
structure Working (s : Device) : Prop where
  agree : s.Agree
  removing : ∀ finger, s.hal.op = .removing finger →
    s.fpd.m_androidFP.m_removingFinger = finger ∧ finger ≠ 0
  clearing : ∀ begun, s.hal.op = .clearing begun → s.fpd.m_androidFP.m_removingFinger = 0
  enumerating : ∀ todo, s.hal.op = .enumerating todo →
    todo.Nodup ∧ (∀ k ∈ todo, k ∈ s.hal.templates) ∧ (todo = [] → s.hal.templates = [])

section Readings

variable {s : Device}

theorem Device.agree_rest (hop : s.hal.op = .rest) : s.Agree ↔ s.fpd.m_state = .FPSTATE_IDLE := by
  rw [Device.Agree, hop]
  rfl

theorem Device.Agree.idle_iff (h : s.Agree) :
    s.fpd.m_state = .FPSTATE_IDLE ↔ s.hal.op = .rest := by
  unfold Device.Agree at h
  cases hop : s.hal.op with
  | rest => simpa [hop, HalOp.Agrees] using h
  | enrolling => rcases hop ▸ h with h | h <;> simp [h]
  | _ => simp [show s.fpd.m_state = _ from hop ▸ h]

theorem Working.of_rest (hop : s.hal.op = .rest) (hs : s.fpd.m_state = .FPSTATE_IDLE) :
    Working s := by
  refine ⟨(s.agree_rest hop).mpr hs, ?_, ?_, ?_⟩ <;> simp [hop]

theorem Working.congr {d : FPDCommunity} (h : Working s) (hs : d.m_state = s.fpd.m_state)
    (hr : d.m_androidFP.m_removingFinger = s.fpd.m_androidFP.m_removingFinger) :
    Working ⟨d, s.hal⟩ := by
  refine ⟨?_, ?_, ?_, h.enumerating⟩
  · have hagree := h.agree
    unfold Device.Agree at hagree ⊢
    rwa [hs]
  · intro finger hop
    show d.m_androidFP.m_removingFinger = _ ∧ _
    rw [hr]
    exact h.removing finger hop
  · intro begun hop
    show d.m_androidFP.m_removingFinger = _
    rw [hr]
    exact h.clearing begun hop

theorem Device.work_eq_zero : s.work = 0 ↔ s.hal.op = .rest := by
  unfold Device.work
  cases s.hal.op with
  | clearing begun => simp
  | enumerating todo => simp
  | _ => simp

end Readings

theorem TemplateHal.emit_rest {h : TemplateHal} (hop : h.op = .rest) (ev : HalEvent) :
    h.emit ev = none := by
  unfold emit
  rw [hop]

theorem TemplateHal.foldl_request_rest {rs : List (Request × Int)} {h : TemplateHal}
    (hop : h.op = .rest) (hrs : ∀ p ∈ rs, p.1.startsOperation = false) :
    (rs.foldl request h).op = .rest := by
  refine List.foldlRecOn (motive := fun h : TemplateHal => h.op = .rest) rs _ hop
    fun h hop p hp => ?_
  obtain ⟨r, status⟩ := p
  have hr : r.startsOperation = false := hrs _ hp
  cases r with
  | cancel => rfl
  | postEnroll | setActiveGroup => exact hop
  | _ => simp [Request.startsOperation] at hr

theorem FPDCommunity.slot_failed_idle {message : String} {x : Exec}
    (h : x.self.m_state = .FPSTATE_IDENTIFYING → message ≠ "FINGER_NOT_RECOGNIZED") :
    (slot_failed message x).self.m_state = .FPSTATE_IDLE := by
  by_cases ht : x.self.tolerates message
  · rw [slot_failed_tolerated ht]
    rcases ht with hs | ⟨hs, hm⟩
    · exact hs
    · exact absurd hm (h hs)
  · rw [slot_failed_ends ht]

section Steps

variable [QDataStream] {s : Device} {env : Env} {cb : Callback} {hal : TemplateHal}

theorem handled_rest (hop : hal.op = .rest) :
    (Device.handled hal (receive env cb { self := s.fpd })).hal.op = .rest :=
  TemplateHal.foldl_request_rest hop (receive_starts_nothing env cb s.fpd)

theorem handled_of_no_signal {self : AndroidFP}
    (h : s.fpd.m_androidFP.callback env.hal cb = { self, requests := [], signals := [] }) :
    Device.handled hal (receive env cb { self := s.fpd }) =
      ⟨{ s.fpd with m_androidFP := self }, hal⟩ := by
  rw [receive_none (by rw [h]) (by rw [h]), Device.handled_none _ rfl, h]

theorem handled_fpd_of_one_signal {self : AndroidFP} {signal : Signal}
    (h : s.fpd.m_androidFP.callback env.hal cb = { self, requests := [], signals := [signal] }) :
    (Device.handled hal (receive env cb { self := s.fpd })).fpd =
      (slot env signal { self := { s.fpd with m_androidFP := self } }).self := by
  rw [receive_one (by rw [h]) (by rw [h]), h]
  rfl

/-- What a report of the HAL does. -/
inductive HalStep (s : Device) (ev : HalEvent) (s' : Device) : Prop where
  | ends (hdec : ev.Decisive) (hs : s'.fpd.m_state = .FPSTATE_IDLE) (hop : s'.hal.op = .rest)
  | goesOn (hdec : ev.Decisive) (hresult : ev.isResult = false)
    (hs : s'.fpd.m_state = s.fpd.m_state)
    (hr : s'.fpd.m_androidFP.m_removingFinger = s.fpd.m_androidFP.m_removingFinger)
    (hhal : s'.hal = s.hal)
  | counts (hdec : ev.Decisive) (hworking : Working s') (hwork : s'.work < s.work)
  | disagrees (hdec : ¬ ev.Decisive) (hagree : ¬ s'.Agree)

theorem halStep_progress {finger remaining : UInt32} (hr : remaining ≠ 0) :
    HalStep s (.progress finger remaining)
      (Device.handled s.hal (receive env (.enrollresult finger remaining) { self := s.fpd })) := by
  obtain ⟨self, pc, hcallback, hself⟩ := s.fpd.m_androidFP.callback_progress env.hal finger hr
  rw [receive_one (by rw [hcallback]) (by rw [hcallback])]
  by_cases hv : s.fpd.m_state = .FPSTATE_VERIFYING
  · refine .ends trivial ?_ ?_
    · simp [Device.handled, slot, hv]
    · rw [Device.handled_one (p := (.cancel, env.hal .cancel)), TemplateHal.request_cancel]
      simp [slot_requests, signalMove, hv]
  · rw [Device.handled_none]
    · refine .goesOn trivial rfl ?_ ?_ rfl
      · simp [slot, hv]
      · simp [slot, hv, hcallback, hself]
    · simp [slot_requests, signalMove, hv]

theorem halStep_enrolled {finger : UInt32} (hrest : hal.op = .rest) :
    HalStep s (.enrolled finger)
      (Device.handled hal (receive env (.enrollresult finger 0) { self := s.fpd })) := by
  refine .ends trivial ?_ (handled_rest hrest)
  by_cases hp : env.hal .postEnroll = SYS_OK
  · simp [Device.handled, receive, slots, AndroidFP.callback, AndroidFP.enrollCallback, hp, slot]
  · simp only [Device.handled, receive, slots, AndroidFP.callback, AndroidFP.enrollCallback, hp]
    exact slot_failed_idle fun _ => IntToStringRequestStatus_ne _

/-- The last report of a removal, of one template or of all. -/
theorem halStep_removed {ev : HalEvent} (hev : ev.Decisive) {finger : UInt32}
    (hrest : hal.op = .rest) (hm : finger = s.fpd.m_androidFP.m_removingFinger ∨
      s.fpd.m_androidFP.m_removingFinger = 0) :
    HalStep s ev (Device.handled hal (receive env (.removed finger 0) { self := s.fpd })) := by
  refine .ends hev ?_ (handled_rest hrest)
  rw [handled_fpd_of_one_signal (AndroidFP.callback_removed hm)]
  simp [slot]

/-- The last report of an enumeration. -/
theorem halStep_enumerated {ev : HalEvent} (hev : ev.Decisive) {finger : UInt32}
    (hrest : hal.op = .rest) :
    HalStep s ev (Device.handled hal (receive env (.enumerate finger 0) { self := s.fpd })) := by
  refine .ends hev ?_ (handled_rest hrest)
  have hcallback : s.fpd.m_androidFP.callback env.hal (.enumerate finger 0) =
      { self := _, requests := [], signals := [.enumerated] } := rfl
  rw [handled_fpd_of_one_signal hcallback]
  simp [slot]

/-- A report of a `Clear` that leaves templates. -/
theorem halStep_clearing (h : Working s) {begun : Bool} {finger : UInt32}
    (hop : s.hal.op = .clearing begun) (hm : finger ∈ s.hal.templates)
    (hleft : (s.hal.delete finger).templates ≠ []) :
    HalStep s (.removed finger)
      (Device.handled { s.hal.delete finger with op := .clearing true }
        (receive env (.removed finger (left (s.hal.delete finger).templates))
          { self := s.fpd })) := by
  have hne : left (s.hal.delete finger).templates ≠ 0 := fun h0 =>
    hleft ((left_eq_zero (s.hal.delete finger).nodup (s.hal.delete finger).nonzero).mp h0)
  have hz := h.clearing begun hop
  rw [handled_of_no_signal (AndroidFP.callback_removing hne)]
  refine .counts trivial ⟨?_, by simp, fun _ _ => hz, by simp⟩ ?_
  · have hagree := h.agree
    unfold Device.Agree at hagree ⊢
    rw [hop] at hagree
    exact hagree
  · have hlen : (s.hal.delete finger).templates.length + 1 = s.hal.templates.length :=
      List.length_erase_add_one hm
    have hpos : 0 < (s.hal.delete finger).templates.length := List.length_pos_iff.mpr hleft
    simp only [Device.work, hop]
    omega

/-- A report of an enumeration that leaves others to come. -/
theorem halStep_enumerating (h : Working s) {todo : List UInt32} {finger : UInt32}
    (hop : s.hal.op = .enumerating todo) (hm : finger ∈ todo) (hleft : todo.erase finger ≠ []) :
    HalStep s (.enumerated finger)
      (Device.handled { s.hal with op := .enumerating (todo.erase finger) }
        (receive env (.enumerate finger (left (todo.erase finger))) { self := s.fpd })) := by
  obtain ⟨hnodup, hsub, -⟩ := h.enumerating todo hop
  have hsub' : ∀ k ∈ todo.erase finger, k ∈ s.hal.templates :=
    fun k hk => hsub k (List.mem_of_mem_erase hk)
  have hne : left (todo.erase finger) ≠ 0 := fun h0 =>
    hleft ((left_eq_zero (hnodup.erase finger) fun hz => s.hal.nonzero (hsub' 0 hz)).mp h0)
  have hsignals : (s.fpd.m_androidFP.callback env.hal
      (.enumerate finger (left (todo.erase finger)))).signals = [] := if_neg hne
  rw [receive_none rfl hsignals, Device.handled_none _ rfl]
  refine .counts trivial ⟨?_, by simp, by simp, fun l hl => ?_⟩ ?_
  · have hagree := h.agree
    unfold Device.Agree at hagree ⊢
    rw [hop] at hagree
    exact hagree
  · obtain rfl : todo.erase finger = l := by simpa using hl
    exact ⟨hnodup.erase finger, hsub', fun hnil => absurd hnil hleft⟩
  · have hlen : (todo.erase finger).length + 1 = todo.length := List.length_erase_add_one hm
    have hpos : 0 < (todo.erase finger).length := List.length_pos_iff.mpr hleft
    simp only [Device.work, hop]
    omega

theorem halStep_authenticated (h : Working s) {finger : UInt32} {last : Bool}
    (hop : s.hal.op = .authenticating) :
    HalStep s (.authenticated finger last)
      (Device.handled { s.hal with op := if last then .rest else s.hal.op }
        (receive env (.authenticated finger) { self := s.fpd })) := by
  have hs : s.fpd.m_state = .FPSTATE_IDENTIFYING :=
    (congrArg (HalOp.Agrees · s.fpd.m_state) hop).mp h.agree
  by_cases hf : finger = 0
  · subst hf
    have ht : s.fpd.tolerates "FINGER_NOT_RECOGNIZED" := .inr ⟨hs, rfl⟩
    have hslot : slot env (.failed "FINGER_NOT_RECOGNIZED") { self := s.fpd } =
        { self := s.fpd, out := [.signal (.ErrorInfo "FINGER_NOT_RECOGNIZED")] } :=
      slot_failed_tolerated (x := { self := s.fpd }) ht
    rw [receive_one rfl rfl, AndroidFP.callback_unrecognized, hslot]
    cases last with
    | true =>
      refine .disagrees (by simp [HalEvent.Decisive]) fun hagree => ?_
      have hidle : s.fpd.m_state = .FPSTATE_IDLE := hagree
      rw [hs] at hidle
      cases hidle
    | false =>
      exact .goesOn (by simp [HalEvent.Decisive]) (by simp [HalEvent.isResult]) rfl rfl rfl
  · have hcallback : s.fpd.m_androidFP.callback env.hal (.authenticated finger) = _ :=
      AndroidFP.callback_recognized hf
    cases last with
    | true =>
      refine .ends (by simp [HalEvent.Decisive, hf]) ?_ (handled_rest rfl)
      rw [handled_fpd_of_one_signal hcallback]
      simp [slot]
    | false =>
      refine .disagrees (by simp [HalEvent.Decisive, hf]) ?_
      rw [receive_one (by rw [hcallback]) (by rw [hcallback]),
        Device.handled_none _ (by simp [slot_requests, signalMove])]
      simp [Device.Agree, hop, HalOp.Agrees, slot]

theorem halStep_error (h : Working s) (hop : s.hal.op ≠ .rest) {code vendorCode : Int} :
    HalStep s (.error code vendorCode)
      (Device.handled { s.hal with op := .rest }
        (receive env (.error code vendorCode) { self := s.fpd })) := by
  by_cases hc : code = ERROR_NO_ERROR
  · subst hc
    rw [handled_of_no_signal AndroidFP.callback_no_error]
    refine .disagrees (fun hdec => hdec rfl) fun hagree => hop ?_
    exact h.agree.idle_iff.mp hagree
  · refine .ends hc ?_ (handled_rest rfl)
    rw [handled_fpd_of_one_signal (AndroidFP.callback_error hc)]
    exact slot_failed_idle fun _ => IntToStringFingerprintError_ne _ _

theorem halStep_acquired {info : Int} :
    HalStep s (.acquired info)
      (Device.handled s.hal (receive env (.acquired info) { self := s.fpd })) := by
  rw [receive_one rfl rfl, Device.handled_none _ (by simp [slot_requests, signalMove])]
  refine .goesOn trivial rfl ?_ ?_ rfl <;>
    simp [slot, AndroidFP.callback, AndroidFP.acquiredCallback]

/-- One case for each report that the HAL's operation allows. -/
theorem halStep (h : Working s) {ev : HalEvent} (he : s.hal.emit ev = some (hal, cb)) :
    HalStep s ev (device.step s ⟨.hal ev, env⟩).1 := by
  rw [device_hal he]
  unfold TemplateHal.emit at he
  split at he
  · split at he
    · cases he
      exact halStep_progress ‹_›
    · cases he
  · split at he
    · cases he
      exact halStep_enrolled rfl
    · cases he
  · next k finger hop =>
    split at he
    · next hk =>
      cases he
      subst hk
      exact halStep_removed (by exact trivial) rfl (.inl (h.removing _ hop).1.symm)
    · cases he
  · next begun finger hop =>
    split at he
    · next hm =>
      by_cases ht : (s.hal.delete finger).templates = []
      · simp only [ht, if_true] at he
        cases he
        exact halStep_removed (by exact trivial) rfl (.inr (h.clearing _ hop))
      · simp only [ht, if_false] at he
        cases he
        exact halStep_clearing h hop hm ht
    · cases he
  · next begun hop =>
    split at he
    · cases he
      exact halStep_removed (by exact trivial) rfl (.inr (h.clearing _ hop))
    · cases he
  · next todo finger hop =>
    split at he
    · next hm =>
      by_cases ht : todo.erase finger = []
      · simp only [ht, if_true] at he
        cases he
        exact halStep_enumerated (by exact trivial) rfl
      · simp only [ht, if_false] at he
        cases he
        exact halStep_enumerating h hop hm ht
    · cases he
  · split at he
    · cases he
      exact halStep_enumerated (by exact trivial) rfl
    · cases he
  · next finger last hop =>
    split at he
    · cases he
      exact halStep_authenticated h hop
    · cases he
  · cases he
  · cases he
    exact halStep_acquired
  · next hop =>
    cases he
    exact halStep_error h hop
  · cases he

omit [QDataStream] in
theorem working_start {caller : String} {c : Call} {r : Request}
    (hr : s.fpd.requestOf caller c = some r) :
    Working ⟨s.fpd.afterRequest caller c true, s.hal.request (r, SYS_OK)⟩ := by
  have hreq := requests_of_some hr
  cases c with
  | Enroll finger =>
    obtain ⟨-, rfl⟩ := hreq
    refine ⟨.inl rfl, ?_, ?_, ?_⟩ <;> simp [TemplateHal.request, TemplateHal.operationOf]
  | Identify =>
    obtain ⟨-, rfl⟩ := hreq
    refine ⟨rfl, ?_, ?_, ?_⟩ <;> simp [TemplateHal.request, TemplateHal.operationOf]
  | Verify =>
    obtain rfl : r = _ := hreq
    refine ⟨.inr rfl, ?_, ?_, ?_⟩ <;> simp [TemplateHal.request, TemplateHal.operationOf]
  | Remove finger =>
    obtain ⟨hk, rfl⟩ := hreq
    refine ⟨?_, ?_, ?_, ?_⟩ <;>
      simp [Device.Agree, HalOp.Agrees, TemplateHal.request, TemplateHal.operationOf, hk,
        afterRequest, prepared, Call.busyState]
  | Clear =>
    obtain rfl : r = _ := hreq
    refine ⟨?_, ?_, ?_, ?_⟩ <;>
      simp [Device.Agree, HalOp.Agrees, TemplateHal.request, TemplateHal.operationOf,
        afterRequest, prepared, Call.busyState]
  | GetState | GetAll | Abort => exact hreq.elim

/-- What the daemon does on its own, for a client or because time is up. -/
theorem clientStep (h : Working s) {i : DeviceInput} (hi : ∀ ev, i.event ≠ .hal ev) :
    (device.step s i).1 = s ∨
    ((device.step s i).1.fpd.m_state = .FPSTATE_IDLE ∧ (device.step s i).1.hal.op = .rest) ∨
    (s.hal.op = .rest ∧ Working (device.step s i).1 ∧
      ∃ p ∈ requestsOf (device.step s i).2.out, p.1.startsOperation = true ∧ p.2 = SYS_OK) := by
  obtain ⟨event, env⟩ := i
  cases event with
  | hal ev => exact absurd rfl (hi ev)
  | timeout =>
    by_cases ht : s.fpd.m_cancelTimer
    · have hone : requestsOf (slot_cancelIdentify env
          { self := { s.fpd with m_cancelTimer := false } }).out =
          [(.cancel, env.hal .cancel)] := by
        simp [slot_cancelIdentify, Output.request?]
      refine .inr (.inl ?_)
      simp only [device, Device.step, ht, if_true]
      rw [Device.handled_one _ hone, TemplateHal.request_cancel]
      exact ⟨by simp, rfl⟩
    · exact .inl (by simp [device, Device.step, ht])
  | call caller c =>
    have hstep : device.step s ⟨.call caller c, env⟩ =
        (Device.handled s.hal (invoke env caller c { self := s.fpd }).1,
          { out := (invoke env caller c { self := s.fpd }).1.out
            answer := some (invoke env caller c { self := s.fpd }).2 }) := rfl
    have hrequests := invoke_requests env caller c { self := s.fpd }
    rcases callMove_cases s.fpd env.hal caller c with
      ⟨-, hm⟩ | ⟨rfl, hb, hs, hm⟩ | ⟨r, hr, hok, hm⟩ | ⟨r, hr, hok, hm⟩ <;> rw [hm] at hrequests
    · have hnone : requestsOf (invoke env caller c { self := s.fpd }).1.out = [] := hrequests
      left
      rw [hstep, Device.handled_none _ hnone, invoke_stay hm]
    · have hone : requestsOf (invoke env caller .Abort { self := s.fpd }).1.out =
          [(.cancel, env.hal .cancel)] := hrequests
      refine .inr (.inl ?_)
      rw [hstep, Device.handled_one _ hone, TemplateHal.request_cancel,
        invoke_abort (x := { self := s.fpd }) hb hs]
      exact ⟨by simp, rfl⟩
    · have hone : requestsOf (invoke env caller c { self := s.fpd }).1.out = [(r, SYS_OK)] := by
        simpa [hr, hok] using hrequests
      refine .inr (.inr ⟨h.agree.idle_iff.mp (requestOf_free hr).2, ?_, ?_⟩)
      · rw [hstep, Device.handled_one _ hone, invoke_request (x := { self := s.fpd }) hr]
        simpa [hok] using working_start hr
      · rw [hstep, hone]
        exact ⟨_, List.mem_singleton_self _, requestOf_starts hr, rfl⟩
    · have hone : requestsOf (invoke env caller c { self := s.fpd }).1.out = [(r, env.hal r)] := by
        simpa [hr] using hrequests
      have hne : r ≠ .cancel := by
        rintro rfl
        exact absurd (requestOf_starts hr) (by simp [Request.startsOperation])
      refine .inr (.inl ?_)
      rw [hstep, Device.handled_one _ hone, s.hal.request_refused hne hok,
        invoke_request (x := { self := s.fpd }) hr]
      exact ⟨by simp [hok, afterRequest], h.agree.idle_iff.mp (requestOf_free hr).2⟩

/-! ## Runs -/

/-- The step starts an operation of the HAL. -/
def Starts (e : DeviceEdge) : Prop :=
  ∃ p ∈ requestsOf e.out.out, p.1.startsOperation = true ∧ p.2 = SYS_OK

/-- The step passes a result on. -/
def Result (e : DeviceEdge) : Bool :=
  match e.input.event with
  | .hal ev => ev.isResult && (e.src.hal.emit ev).isSome
  | _ => false

/-- Every decisive step keeps the agreement, and a result takes it nearer to the end. -/
theorem working_step (h : Working s) {i : DeviceInput} (hdec : Decisive (device.edge s i)) :
    Working (device.step s i).1 ∧
      (¬ Starts (device.edge s i) →
        (device.step s i).1.work + (if Result (device.edge s i) then 1 else 0) ≤ s.work) := by
  by_cases hhal : ∃ ev, i.event = .hal ev
  · obtain ⟨event, env⟩ := i
    obtain ⟨ev, rfl⟩ : ∃ ev, event = .hal ev := hhal
    cases hemit : s.hal.emit ev with
    | none =>
      have hresult : Result (device.edge s ⟨.hal ev, env⟩) = false := by simp [Result, hemit]
      rw [device_silent hemit, hresult]
      exact ⟨h, fun _ => Nat.le_refl _⟩
    | some p =>
      have hdec' : ev.Decisive := hdec ev rfl (by simp [hemit])
      have hpos : 0 < s.work := by
        refine Nat.pos_of_ne_zero fun hz => ?_
        rw [TemplateHal.emit_rest (Device.work_eq_zero.mp hz)] at hemit
        cases hemit
      cases @halStep _ _ env _ _ h _ hemit with
      | ends _ hs hop =>
        refine ⟨.of_rest hop hs, fun _ => ?_⟩
        rw [Device.work_eq_zero.mpr hop]
        split <;> omega
      | goesOn _ hresult hs hr hhal =>
        have hworking : Working ⟨(device.step s ⟨.hal ev, env⟩).1.fpd, s.hal⟩ := h.congr hs hr
        rw [← hhal] at hworking
        refine ⟨hworking, fun _ => ?_⟩
        have hwork : (device.step s ⟨.hal ev, env⟩).1.work = s.work := by
          simp only [Device.work, hhal]
        simp [hwork, Result, hresult]
      | counts _ hworking hwork =>
        refine ⟨hworking, fun _ => ?_⟩
        split <;> omega
      | disagrees hno => exact absurd hdec' hno
  · have hclient : ∀ ev, i.event ≠ .hal ev := fun ev he => hhal ⟨ev, he⟩
    have hresult : Result (device.edge s i) = false := by
      obtain ⟨event, env⟩ := i
      cases event with
      | hal ev => exact absurd rfl (hclient ev)
      | _ => rfl
    rw [hresult]
    rcases clientStep h hclient with hsame | ⟨hs, hop⟩ | ⟨-, hworking, hstarts⟩
    · rw [hsame]
      exact ⟨h, fun _ => Nat.le_refl _⟩
    · refine ⟨.of_rest hop hs, fun _ => ?_⟩
      rw [Device.work_eq_zero.mpr hop]
      exact Nat.zero_le _
    · exact ⟨hworking, fun hno => absurd hstarts hno⟩

theorem hal_starts_nothing {ev : HalEvent} : ¬ Starts (device.edge s ⟨.hal ev, env⟩) := by
  rintro ⟨p, hp, hstarts, -⟩
  cases hemit : s.hal.emit ev with
  | none => simp [device_silent hemit] at hp
  | some q =>
    have hmem : p ∈ requestsOf (receive env q.2 { self := s.fpd }).out := by
      simpa [device, Device.step, hemit] using hp
    rw [receive_starts_nothing env q.2 s.fpd p hmem] at hstarts
    cases hstarts

theorem starts_at_rest (h : Working s) {i : DeviceInput} (hstarts : Starts (device.edge s i)) :
    s.hal.op = .rest := by
  obtain ⟨p, hp, hp', hok⟩ := hstarts
  obtain ⟨event, env⟩ := i
  cases event with
  | call caller c =>
    have hrequests := invoke_requests env caller c { self := s.fpd }
    have hmem : p ∈ requestsOf (invoke env caller c { self := s.fpd }).1.out := hp
    rw [hrequests] at hmem
    rcases callMove_cases s.fpd env.hal caller c with
      ⟨-, hm⟩ | ⟨-, -, -, hm⟩ | ⟨r, hr, -, -⟩ | ⟨r, hr, -, -⟩
    · simp [hm] at hmem
    · obtain rfl : p = _ := by simpa [hm] using hmem
      cases hp'
    · exact h.agree.idle_iff.mp (requestOf_free hr).2
    · exact h.agree.idle_iff.mp (requestOf_free hr).2
  | timeout =>
    by_cases ht : s.fpd.m_cancelTimer
    · obtain rfl : p = _ := by
        simpa [device, Device.step, ht, slot_cancelIdentify, Output.request?] using hp
      cases hp'
    · simp [device, Device.step, ht] at hp
  | hal ev => exact absurd ⟨p, hp, hp', hok⟩ hal_starts_nothing

theorem decisive_of_agree (h : Working s) {i : DeviceInput}
    (hagree : (device.step s i).1.Agree) : Decisive (device.edge s i) := by
  obtain ⟨event, env⟩ := i
  rintro ev he hemit
  obtain rfl : event = .hal ev := he
  obtain ⟨⟨hal, cb⟩, hemit⟩ := Option.isSome_iff_exists.mp hemit
  cases @halStep _ _ env _ _ h _ hemit with
  | ends hdec => exact hdec
  | goesOn hdec => exact hdec
  | counts hdec => exact hdec
  | disagrees _ hno => exact absurd hagree hno

omit [QDataStream] in
/-- A HAL that removes or enumerates has a result to report. -/
theorem exists_result (h : Working s)
    (hs : s.fpd.m_state = .FPSTATE_REMOVING ∨ s.fpd.m_state = .FPSTATE_ENUMERATING) :
    ∃ ev : HalEvent, ev.isResult = true ∧ ev.isError = false ∧ ev.Decisive ∧
      (s.hal.emit ev).isSome := by
  have hagree := h.agree
  unfold Device.Agree at hagree
  cases hop : s.hal.op with
  | rest => rcases hs with hs | hs <;> simp [hop, hs, HalOp.Agrees] at hagree
  | enrolling => rcases hs with hs | hs <;> simp [hop, hs, HalOp.Agrees] at hagree
  | authenticating => rcases hs with hs | hs <;> simp [hop, hs, HalOp.Agrees] at hagree
  | removing finger => exact ⟨.removed finger, rfl, rfl, trivial, by simp [TemplateHal.emit, hop]⟩
  | clearing begun =>
    cases ht : s.hal.templates with
    | nil => exact ⟨.none, rfl, rfl, trivial, by simp [TemplateHal.emit, hop, ht]⟩
    | cons finger rest =>
      exact ⟨.removed finger, rfl, rfl, trivial, by simp [TemplateHal.emit, hop, ht]⟩
  | enumerating todo =>
    cases todo with
    | nil =>
      have ht := (h.enumerating [] hop).2.2 rfl
      exact ⟨.none, rfl, rfl, trivial, by simp [TemplateHal.emit, hop, ht]⟩
    | cons finger rest =>
      exact ⟨.enumerated finger, rfl, rfl, trivial, by simp [TemplateHal.emit, hop]⟩

/-- It needs no more of them than it has work. -/
theorem exists_results (h : Working s) (env : Env) (hs : s.fpd.m_state = .FPSTATE_REMOVING ∨
      s.fpd.m_state = .FPSTATE_ENUMERATING ∨ s.fpd.m_state = .FPSTATE_IDLE) :
    ∃ evs : List HalEvent, evs.length ≤ s.work ∧ (∀ ev ∈ evs, ev.isError = false) ∧
      (device.final s (evs.map fun ev => ⟨.hal ev, env⟩)).fpd.m_state = .FPSTATE_IDLE := by
  induction hn : s.work using Nat.strongRecOn generalizing s with
  | ind n ih =>
    by_cases hidle : s.fpd.m_state = .FPSTATE_IDLE
    · exact ⟨[], Nat.zero_le _, by simp, hidle⟩
    obtain ⟨ev, hresult, herror, hdec, hemit⟩ := exists_result h (by tauto)
    have hedge : Decisive (device.edge s ⟨.hal ev, env⟩) := by
      rintro ev' he -
      obtain rfl : ev = ev' := by simpa using he
      exact hdec
    obtain ⟨hworking, hwork⟩ := working_step h hedge
    have hless := hwork hal_starts_nothing
    have hone : Result (device.edge s ⟨.hal ev, env⟩) = true := by simp [Result, hresult, hemit]
    rw [hone, if_pos rfl] at hless
    have hstate : (device.step s ⟨.hal ev, env⟩).1.fpd.m_state = .FPSTATE_REMOVING ∨
        (device.step s ⟨.hal ev, env⟩).1.fpd.m_state = .FPSTATE_ENUMERATING ∨
        (device.step s ⟨.hal ev, env⟩).1.fpd.m_state = .FPSTATE_IDLE := by
      obtain ⟨⟨hal, cb⟩, hemit⟩ := Option.isSome_iff_exists.mp hemit
      rw [device_hal hemit]
      rcases receive_session env cb s.fpd with hsame | hend
      · have hsame' : (Device.handled hal (receive env cb { self := s.fpd })).fpd.m_state =
            s.fpd.m_state := hsame.1
        rwa [hsame']
      · exact .inr (.inr hend.1)
    obtain ⟨evs, hlen, herrors, hfinal⟩ := ih _ (by omega) hworking hstate rfl
    refine ⟨ev :: evs, ?_, List.forall_mem_cons.mpr ⟨herror, herrors⟩, hfinal⟩
    rw [List.length_cons]
    omega

omit [QDataStream] in
theorem working_boot (env : Env) (getprop : String → String) (database : Option (List UInt8))
    {hal : TemplateHal} (hop : hal.op = .rest) :
    Working (Device.boot env getprop database hal) := by
  rw [device_boot, boot_fpd]
  by_cases hr : env.hal .enumerate = SYS_OK
  · rw [if_pos hr, hr]
    refine ⟨rfl, ?_, ?_, fun todo htodo => ?_⟩
    · simp [TemplateHal.request, TemplateHal.operationOf]
    · simp [TemplateHal.request, TemplateHal.operationOf]
    · obtain rfl : hal.templates = todo := by
        simpa [TemplateHal.request, TemplateHal.operationOf] using htodo
      exact ⟨hal.nodup, fun k hk => hk, fun hnil => hnil⟩
  · rw [if_neg hr, hal.request_refused (by simp) hr]
    exact .of_rest hop rfl

end Steps

section Main

variable [QDataStream] (env : Env) (getprop : String → String) (database : Option (List UInt8))
  (hal : TemplateHal)

theorem visits_working (hop : hal.op = .rest) {is : List DeviceInput}
    (hdec : device.Along (Device.boot env getprop database hal) is fun _ e => Decisive e) :
    device.Visits (Device.boot env getprop database hal) is fun _ s => Working s :=
  hdec.visits (working_boot env getprop database hop) fun _ _ _ h hi => (working_step h hi).1

/-- **The daemon and the HAL agree in every state of a run exactly when every report is decisive**;
then the HAL rests whenever it is asked to start an operation. -/
theorem agree_iff_decisive (hop : hal.op = .rest) (is : List DeviceInput) :
    let s := Device.boot env getprop database hal
    (device.Visits s is (fun _ t => t.Agree) ↔ device.Along s is fun _ e => Decisive e) ∧
      (device.Along s is (fun _ e => Decisive e) →
        device.Along s is fun _ e => Starts e → e.src.hal.op = .rest) := by
  intro s
  refine ⟨?_, fun hdec => ?_⟩
  · exact visits_iff_along_of_invariant (I := fun _ t => Working t) along_true
      (working_boot env getprop database hop) (fun _ _ h => h.agree)
      (fun _ _ _ h _ hi => (working_step h hi).1) fun _ _ _ h _ ha => decisive_of_agree h ha
  · refine hdec.of_visits (visits_working env getprop database hal hop hdec) ?_
    exact fun _ t i h _ hstarts => starts_at_rest h hstarts

/-- **An operation ends.** From any state of a run whose reports are decisive, and until the next
operation is started, no more results are passed on than the operation has work, and with that many
the daemon is idle. -/
theorem operation_ends (hop : hal.op = .rest) (is js : List DeviceInput) :
    let s := device.final (Device.boot env getprop database hal) is
    device.Along (Device.boot env getprop database hal) (is ++ js) (fun _ e => Decisive e) →
    device.Along s js (fun _ e => ¬ Starts e) →
      (device.edges s js).countP Result ≤ s.work ∧
        (s.work ≤ (device.edges s js).countP Result →
          (device.final s js).fpd.m_state = .FPSTATE_IDLE) := by
  intro s hdec hquiet
  have hvisits := visits_working env getprop database hal hop hdec
  have hs : Working s := hvisits is js rfl
  have hfinal : Working (device.final s js) := by
    have hend := hvisits (is ++ js) [] (by simp)
    rwa [device.final_append] at hend
  have hdec' : device.Along s js fun _ e => Decisive e := by
    rintro ks i ls rfl
    have hedge := hdec (is ++ ks) i ls (by simp)
    rwa [device.final_append] at hedge
  have hbound := (hdec'.and hquiet).potential (p := Result) (w := Device.work) (I := Working) hs
    fun t i ht hi => ⟨(working_step ht hi.1).1, (working_step ht hi.1).2 hi.2⟩
  refine ⟨by omega, fun hall => ?_⟩
  have hzero : (device.final s js).work = 0 := by omega
  exact hfinal.agree.idle_iff.mpr (Device.work_eq_zero.mp hzero)

/-- **A removal or an enumeration can always end**: in every state of a run whose reports are
decisive, reports of the HAL alone, none of them an error and no more than the operation has work,
make the daemon idle. -/
theorem removal_can_end (hop : hal.op = .rest) (env' : Env) (is : List DeviceInput)
    (hdec : device.Along (Device.boot env getprop database hal) is fun _ e => Decisive e) :
    device.Visits (Device.boot env getprop database hal) is fun _ s =>
      s.fpd.m_state = .FPSTATE_REMOVING ∨ s.fpd.m_state = .FPSTATE_ENUMERATING →
        ∃ evs : List HalEvent, evs.length ≤ s.work ∧ (∀ ev ∈ evs, ev.isError = false) ∧
          (device.final s (evs.map fun ev => ⟨.hal ev, env'⟩)).fpd.m_state = .FPSTATE_IDLE := by
  refine (visits_working env getprop database hal hop hdec).mono fun _ s h hs => ?_
  exact exists_results h env' (by tauto)

end Main

/-! ## A `Clear` of two templates -/

section Clear

/-- Two templates are enumerated, and `:1.5` clears them. -/
def clearInputs : List DeviceInput :=
  [⟨.hal (.enumerated 7), .answering SYS_OK⟩, ⟨.hal (.enumerated 8), .answering SYS_OK⟩,
    ⟨.call ":1.5" .Clear, .answering SYS_OK⟩]

def clearReports : List DeviceInput :=
  [⟨.hal (.removed 8), .answering SYS_OK⟩, ⟨.hal (.removed 7), .answering SYS_OK⟩]

def clearHal : TemplateHal := ⟨[7, 8], by decide, by decide, .rest⟩

theorem clear_decisive [QDataStream] (s : Device) :
    device.Along s (clearInputs ++ clearReports) fun _ e => Decisive e := by
  have hinputs : ∀ i ∈ clearInputs ++ clearReports, ∀ ev, i.event = .hal ev → ev.Decisive := by
    simp [clearInputs, clearReports, HalEvent.Decisive]
  exact (along_of_forall_mem hinputs).mono fun _ e h ev he _ => h ev he

theorem agree_iff_decisive_clear :
    letI := qt56
    device.Visits (Device.boot (.answering SYS_OK) (fun _ => "") none clearHal)
      (clearInputs ++ clearReports) fun _ s => s.Agree := by
  let := qt56
  exact (agree_iff_decisive (.answering SYS_OK) (fun _ => "") none clearHal rfl _).1.mpr
    (clear_decisive _)

theorem operation_ends_clear :
    letI := qt56
    (device.final (device.final (Device.boot (.answering SYS_OK) (fun _ => "") none clearHal)
      clearInputs) clearReports).fpd.m_state = .FPSTATE_IDLE := by
  have hquiet : ∀ s, (@device qt56).Along s clearReports fun _ e => ¬ Starts e := by
    have hhal : ∀ i ∈ clearReports, ∃ ev env, i = ⟨.hal ev, env⟩ := by simp [clearReports]
    rintro s ks i ls e
    obtain ⟨ev, env, rfl⟩ := hhal i (by simp [e])
    exact @hal_starts_nothing qt56 _ _ _
  exact (@operation_ends qt56 (.answering SYS_OK) (fun _ => "") none clearHal rfl clearInputs
    clearReports (@clear_decisive qt56 _) (hquiet _)).2 (by decide +kernel)

theorem removal_can_end_clear :
    letI := qt56
    let s := device.final (Device.boot (.answering SYS_OK) (fun _ => "") none clearHal) clearInputs
    ∃ evs : List HalEvent, evs.length ≤ s.work ∧ (∀ ev ∈ evs, ev.isError = false) ∧
      (device.final s (evs.map fun ev => ⟨.hal ev, .answering SYS_OK⟩)).fpd.m_state =
        .FPSTATE_IDLE :=
  @removal_can_end qt56 (.answering SYS_OK) (fun _ => "") none clearHal rfl (.answering SYS_OK) _
    (@clear_decisive qt56 _) clearInputs clearReports rfl (.inl (by decide +kernel))

end Clear

end SailfishFpd
