import SailfishFpd.Store.HalSync

/-!
# The device, step by step

A callback that is handled at once makes the edit of its last signal;
`Device.edit` reads it off the state and the input, and `device_edits` says that
every step of the device makes its edit. The requests of a handler only end what
the HAL is doing, or start something.
-/

namespace SailfishFpd

open FPDCommunity

/-! ## What a callback posts -/

namespace AndroidFP

variable {a : AndroidFP} {hal : Hal} {finger remaining : UInt32}

theorem callback_progress (a : AndroidFP) (hal : Hal) (finger : UInt32) (hr : remaining ≠ 0) :
    ∃ self pc, a.callback hal (.enrollresult finger remaining) =
        { self, requests := [], signals := [.enrollProgress pc] } ∧
      self.m_removingFinger = a.m_removingFinger := by
  have hpos : 0 < remaining := UInt32.pos_iff_ne_zero.mpr hr
  simp [callback, enrollCallback, hpos]

theorem callback_removing (hr : remaining ≠ 0) :
    a.callback hal (.removed finger remaining) = { self := a, requests := [], signals := [] } :=
  if_neg fun h => hr h.2

/-- A removal is over, and is told under the id that was asked for. -/
theorem callback_removed (hm : finger = a.m_removingFinger ∨ a.m_removingFinger = 0) :
    a.callback hal (.removed finger 0) =
      { self := { a with m_removingFinger := 0 }
        requests := []
        signals := [.removed a.m_removingFinger] } := by
  have hsignal : (if a.m_removingFinger = 0 then 0 else finger) = a.m_removingFinger := by
    split
    · exact Eq.symm ‹_›
    · exact hm.resolve_right ‹_›
  have hcallback : a.callback hal (.removed finger 0) = _ := if_pos ⟨hm, rfl⟩
  rw [hcallback, hsignal]

theorem callback_unrecognized :
    a.callback hal (.authenticated 0) =
      { self := a, requests := [], signals := [.failed "FINGER_NOT_RECOGNIZED"] } := rfl

theorem callback_recognized (hf : finger ≠ 0) :
    a.callback hal (.authenticated finger) =
      { self := a, requests := [], signals := [.authenticated finger] } := by
  simp [callback, hf]

theorem callback_no_error {vendorCode : Int} :
    a.callback hal (.error ERROR_NO_ERROR vendorCode) =
      { self := a, requests := [], signals := [] } := rfl

theorem callback_error {code vendorCode : Int} (hc : code ≠ ERROR_NO_ERROR) :
    a.callback hal (.error code vendorCode) =
      { self := a
        requests := []
        signals := [.failed (IntToStringFingerprintError code vendorCode)] } := by
  simp [callback, hc]

end AndroidFP

/-! ## The steps of the device -/

def emptyHal : TemplateHal := ⟨[], by decide, by decide, .rest⟩

section Steps

variable [QDataStream] {s : Device} {env : Env}

/-- A report that the HAL's operation does not allow does not happen. -/
theorem device_silent {ev : HalEvent} (he : s.hal.emit ev = none) :
    device.step s ⟨.hal ev, env⟩ = (s, {}) := by simp [device, Device.step, he]

omit [QDataStream] in
theorem device_boot (env : Env) (getprop : String → String) (database : Option (List UInt8))
    (hal : TemplateHal) :
    Device.boot env getprop database hal =
      ⟨(boot env getprop database).fpd, hal.request (.enumerate, env.hal .enumerate)⟩ := by
  obtain ⟨groups, hgroups, hout⟩ := construct_requests env getprop database
  have hkeep : groups.foldl TemplateHal.request hal = hal := by
    refine List.foldlRecOn (motive := fun h => h = hal) groups _ rfl ?_
    rintro _ rfl p hp
    obtain ⟨gid, path, status, rfl⟩ := hgroups p hp
    exact TemplateHal.request_setActiveGroup ..
  rw [Device.boot, Device.handled, hout, List.foldl_append, hkeep]
  rfl

end Steps

/-! ## What a step does to the finger list -/

section Edits

variable [QDataStream] {env : Env} {cb : Callback} {d : FPDCommunity}

/-- The edit of a callback that is handled at once: that of its last signal. -/
def FPDCommunity.callbackEdit (env : Env) (cb : Callback) (d : FPDCommunity) : Edit :=
  let r := d.m_androidFP.callback env.hal cb
  match r.signals.getLast? with
  | some signal => { d with m_androidFP := r.self }.signalEdit env signal
  | none => .keep

theorem edits_receive_one {signal : Signal}
    (hr : (d.m_androidFP.callback env.hal cb).requests = [])
    (hs : (d.m_androidFP.callback env.hal cb).signals = [signal]) :
    Edits env (d.callbackEdit env cb) { self := d } (receive env cb { self := d }) := by
  have hedit : d.callbackEdit env cb =
      { d with m_androidFP := (d.m_androidFP.callback env.hal cb).self }.signalEdit env signal := by
    simp [callbackEdit, hs]
  let x : Exec := { self := { d with m_androidFP := (d.m_androidFP.callback env.hal cb).self } }
  have h : Edits env _ x (slot env signal x) := edits_slot signal
  rw [receive_one hr hs, hedit]
  exact ⟨h.map, h.database, h.changes⟩

theorem edits_receive_none
    (hr : (d.m_androidFP.callback env.hal cb).requests = [])
    (hs : (d.m_androidFP.callback env.hal cb).signals = []) :
    Edits env (d.callbackEdit env cb) { self := d } (receive env cb { self := d }) := by
  have hedit : d.callbackEdit env cb = .keep := by simp [callbackEdit, hs]
  rw [receive_none hr hs, hedit]
  exact .keep rfl rfl rfl

/-- An edit after a handler that makes none. -/
theorem FPDCommunity.Edits.after_keep {e : Edit} {x y z : Exec} (h : Edits env .keep x y)
    (h' : Edits env e y z) : Edits env e x z := by
  have hmap : y.self.m_fingerMap = x.self.m_fingerMap := h.map
  have hdb : y.self.database = x.self.database := h.database
  have hchanges : SailfishFpd.changes y.out = SailfishFpd.changes x.out := by
    simpa [Edit.changes] using h.changes
  refine ⟨?_, ?_, ?_⟩
  · rw [h'.map, hmap]
  · rw [h'.database]
    cases e <;> simp [databaseAfter, saved, hmap, hdb]
  · rw [h'.changes, hmap, hchanges]

/-- The last report of an enrolment: the progress leaves the list alone. -/
theorem edits_receive_enrolled (finger : UInt32) :
    Edits env (d.callbackEdit env (.enrollresult finger 0)) { self := d }
      (receive env (.enrollresult finger 0) { self := d }) := by
  let x : Exec := { self := d, out := [.request .postEnroll (env.hal .postEnroll)] }
  let outcome : Signal := if env.hal .postEnroll = SYS_OK then .succeeded finger
    else .failed (IntToStringRequestStatus (env.hal .postEnroll))
  have hprogress : Edits env .keep x (slot env (.enrollProgress (some 1)) x) :=
    edits_slot (.enrollProgress (some 1))
  have houtcome : Edits env _ (slot env (.enrollProgress (some 1)) x) (slot env outcome _) :=
    edits_slot outcome
  have hedit : (slot env (.enrollProgress (some 1)) x).self.signalEdit env outcome =
      d.callbackEdit env (.enrollresult finger 0) := by
    by_cases hv : d.m_state = .FPSTATE_VERIFYING <;> by_cases hp : env.hal .postEnroll = SYS_OK <;>
      simp [callbackEdit, AndroidFP.callback, AndroidFP.enrollCallback, signalEdit, slot, x,
        outcome, hv, hp]
  have h := hprogress.after_keep houtcome
  rw [hedit] at h
  exact ⟨h.map, h.database, h.changes⟩

theorem edits_receive (cb : Callback) :
    Edits env (d.callbackEdit env cb) { self := d } (receive env cb { self := d }) := by
  cases cb with
  | enrollresult finger remaining =>
    by_cases hr : remaining = 0
    · subst hr
      exact edits_receive_enrolled finger
    · obtain ⟨self, pc, hcallback, -⟩ := d.m_androidFP.callback_progress env.hal finger hr
      exact edits_receive_one (by rw [hcallback]) (by rw [hcallback])
  | acquired info => exact edits_receive_one rfl rfl
  | authenticated finger =>
    by_cases hf : finger = 0
    · exact edits_receive_one rfl (if_neg (not_not.mpr hf))
    · exact edits_receive_one rfl (if_pos hf)
  | removed finger remaining =>
    by_cases hm : (finger = d.m_androidFP.m_removingFinger ∨
        d.m_androidFP.m_removingFinger = 0) ∧ remaining = 0
    · have hcallback : d.m_androidFP.callback env.hal (.removed finger remaining) = _ := if_pos hm
      exact edits_receive_one (by rw [hcallback]) (by rw [hcallback])
    · have hcallback : d.m_androidFP.callback env.hal (.removed finger remaining) = _ := if_neg hm
      exact edits_receive_none (by rw [hcallback]) (by rw [hcallback])
  | enumerate finger remaining =>
    by_cases hr : remaining = 0
    · exact edits_receive_one rfl (if_pos hr)
    · exact edits_receive_none rfl (if_neg hr)
  | error error vendorCode =>
    by_cases he : error = ERROR_NO_ERROR
    · exact edits_receive_none rfl (if_pos he)
    · exact edits_receive_one rfl (if_neg he)

/-- The last report of an operation. -/
def Callback.IsLast : Callback → Prop
  | .enrollresult _ remaining | .removed _ remaining | .enumerate _ remaining => remaining = 0
  | .acquired _ | .authenticated _ | .error .. => False

/-- Nothing but a last report changes the list. -/
theorem callbackEdit_keep (h : ¬ cb.IsLast) : d.callbackEdit env cb = .keep := by
  cases cb with
  | enrollresult finger remaining =>
    obtain ⟨self, pc, hcallback, -⟩ := d.m_androidFP.callback_progress env.hal finger h
    simp [callbackEdit, hcallback, signalEdit]
  | acquired info => rfl
  | authenticated finger =>
    by_cases hf : finger = 0 <;> simp [callbackEdit, AndroidFP.callback, hf, signalEdit]
  | removed finger remaining =>
    simp [callbackEdit, AndroidFP.callback_removing h]
  | enumerate finger remaining =>
    have hr : remaining ≠ 0 := h
    simp [callbackEdit, AndroidFP.callback, AndroidFP.enumerateCallback, hr]
  | error error vendorCode =>
    by_cases he : error = ERROR_NO_ERROR <;>
      simp [callbackEdit, AndroidFP.callback, he, signalEdit]

def Device.edit (s : Device) (i : DeviceInput) : Edit :=
  match i.event with
  | .hal ev =>
    match s.hal.emit ev with
    | some p => s.fpd.callbackEdit i.env p.2
    | none => .keep
  | _ => .keep

theorem device_edits (s : Device) (i : DeviceInput) :
    Edits i.env (s.edit i) { self := s.fpd }
      { self := (device.step s i).1.fpd, out := (device.step s i).2.out } := by
  obtain ⟨event, env⟩ := i
  cases event with
  | call caller c =>
    have h : Edits env .keep { self := s.fpd } (invoke env caller c { self := s.fpd }).1 :=
      edits_invoke c
    exact ⟨h.map, h.database, h.changes⟩
  | timeout =>
    by_cases ht : s.fpd.m_cancelTimer
    · refine .keep ?_ ?_ ?_ <;>
        simp [device, Device.step, Device.handled, ht, slot_cancelIdentify, Output.change]
    · refine .keep ?_ ?_ ?_ <;> simp [device, Device.step, ht]
  | hal ev =>
    cases he : s.hal.emit ev with
    | none =>
      have hedit : s.edit ⟨.hal ev, env⟩ = .keep := by simp [Device.edit, he]
      rw [hedit, device_silent he]
      exact .keep rfl rfl rfl
    | some p =>
      have h : Edits env _ { self := s.fpd } (receive env p.2 { self := s.fpd }) :=
        edits_receive p.2
      have hedit : s.edit ⟨.hal ev, env⟩ = s.fpd.callbackEdit env p.2 := by simp [Device.edit, he]
      have hstep : device.step s ⟨.hal ev, env⟩ =
          (Device.handled p.1 (receive env p.2 { self := s.fpd }),
            { out := (receive env p.2 { self := s.fpd }).out }) := by
        simp [device, Device.step, he]
      rw [hedit, hstep]
      exact ⟨h.map, h.database, h.changes⟩

end Edits

/-! ## The HAL after a step -/

section Hal

variable [QDataStream] {s : Device} {ev : HalEvent} {env : Env} {hal : TemplateHal} {cb : Callback}

omit [QDataStream] in
/-- Requests that start nothing leave the HAL's operation, or end it. -/
theorem handled_op (hal : TemplateHal) {x : Exec}
    (hx : ∀ p ∈ requestsOf x.out, p.1.startsOperation = false) :
    (Device.handled hal x).hal.op = hal.op ∨ (Device.handled hal x).hal.op = .rest := by
  refine List.foldlRecOn (motive := fun h : TemplateHal => h.op = hal.op ∨ h.op = .rest)
    (requestsOf x.out) _ (.inl rfl) fun h hop p hp => ?_
  obtain ⟨r, status⟩ := p
  have hr : r.startsOperation = false := hx _ hp
  cases r with
  | cancel => exact .inr rfl
  | postEnroll | setActiveGroup => exact hop
  | _ => simp [Request.startsOperation] at hr

omit [QDataStream] in
theorem handled_templates (hal : TemplateHal) (x : Exec) :
    (Device.handled hal x).hal.templates = hal.templates :=
  List.foldlRecOn (motive := fun h : TemplateHal => h.templates = hal.templates)
    (requestsOf x.out) _ rfl fun h ht p _ => (h.request_templates p).trans ht

theorem edit_hal (he : s.hal.emit ev = some (hal, cb)) :
    s.edit ⟨.hal ev, env⟩ = s.fpd.callbackEdit env cb := by simp [Device.edit, he]

theorem templates_hal (he : s.hal.emit ev = some (hal, cb)) :
    (device.step s ⟨.hal ev, env⟩).1.hal.templates = hal.templates := by
  rw [device_hal he, handled_templates]

omit [QDataStream] in
theorem emit_enrolled {hal h : TemplateHal} {ev : HalEvent} {finger : UInt32}
    (he : h.emit ev = some (hal, .enrollresult finger 0)) : ev = .enrolled finger := by
  unfold TemplateHal.emit at he
  split at he <;> grind

end Hal

end SailfishFpd
