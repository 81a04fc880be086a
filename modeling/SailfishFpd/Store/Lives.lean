import SailfishFpd.Hal.Device
import SailfishFpd.Store.Listing
import SailfishFpd.Store.Persistence
import SailfishFpd.Store.Provenance

/-!
# Names survive restarts

The daemon can be killed between any two steps of the device (a step may be a
report with the slots of its signals) and started again, on the database file it
left and the templates the HAL has by then. `lives` is the device with such
restarts. The name of a template is the one under which its enrolment was
announced, in whichever life, or the one it had in the file that the first life
found. In every life, once the fingers are loaded, every template is listed under
its name.
-/

namespace SailfishFpd

open FPDCommunity
open Reactive (Life)
open Reactive.Machine (latest along_cons along_nil along_of_forall_mem)

section Files

variable [QDataStream] {env : Env} {d : FPDCommunity}

theorem readDatabase_eq (hf : env.FilesOk) : d.readDatabase env = recorded d.database := by
  simp only [readDatabase, recorded, hf.openRead]
  cases d.database <;> rfl

theorem recorded_databaseAfter [LawfulQDataStream] (hf : env.FilesOk) {e : Edit} (he : e ≠ .keep) :
    recorded (d.databaseAfter env e) = e.apply d.m_fingerMap := by
  cases e with
  | keep => exact absurd rfl he
  | _ => simp [databaseAfter, saved, hf.openWrite, hf.room, recorded]

end Files

/-! ## What the HAL is doing, in any run -/

section Phases

variable [QDataStream] {s : Device}

/-- A `Clear` that has begun goes on deleting, or is over. -/
theorem device_clearing (h : Synced [] s) (hop : s.hal.op = .clearing true) (i : DeviceInput) :
    (device.step s i).1.hal.op = .clearing true ∨ (device.step s i).1.hal.op = .rest := by
  have hs : s.fpd.m_state ≠ .FPSTATE_IDLE := by
    rw [(h.clearing hop).1]
    simp
  obtain ⟨event, env⟩ := i
  cases event with
  | call caller c =>
    rw [← hop]
    refine handled_op s.hal ?_
    rw [invoke_requests, requestOf_busy (.inr hs)]
    rcases callMove_cases s.fpd env.hal caller c with
      ⟨-, hm⟩ | ⟨-, -, -, hm⟩ | ⟨r, -, -, hm⟩ | ⟨r, -, -, hm⟩ <;>
      simp [hm, Request.startsOperation]
  | timeout =>
    by_cases ht : s.fpd.m_cancelTimer
    · have hstep : (device.step s ⟨.timeout, env⟩).1 = Device.handled s.hal
          (slot_cancelIdentify env { self := { s.fpd with m_cancelTimer := false } }) := by
        simp [device, Device.step, ht]
      rw [hstep, ← hop]
      refine handled_op s.hal ?_
      simp [slot_cancelIdentify, Output.request?, Request.startsOperation]
    · exact .inl (by simp [device, Device.step, ht, hop])
  | hal ev =>
    cases he : s.hal.emit ev with
    | none => exact .inl (by rw [device_silent he, hop])
    | some p =>
      obtain ⟨hal, cb⟩ := p
      have hhal : hal.op = .clearing true ∨ hal.op = .rest := by
        cases TemplateHal.emits_of_emit he with
        | cleared hop' hm =>
          split
          · exact .inr rfl
          · exact .inl rfl
        | acquired => exact .inl hop
        | nothingToClear | error => exact .inr rfl
        | progress hop' => exact absurd (hop.symm.trans hop') (by simp)
        | enrolled hop' => exact absurd (hop.symm.trans hop') (by simp)
        | removed hop' => exact absurd (hop.symm.trans hop') (by simp)
        | enumerated hop' => exact absurd (hop.symm.trans hop') (by simp)
        | nothingToEnumerate hop' => exact absurd (hop.symm.trans hop') (by simp)
        | authenticated hop' => exact absurd (hop.symm.trans hop') (by simp)
      rw [device_hal he]
      rcases handled_op hal (receive_starts_nothing env cb s.fpd) with h' | h'
      · rwa [h']
      · exact .inr h'

/-- What `Synced` says of the HAL's operation holds also when a `Clear` is stopped half-way. -/
theorem synced_any (h : Synced [] s) {i : DeviceInput} (hpost : i.env.hal .postEnroll = SYS_OK) :
    Synced [] (device.step s i).1 := by
  have hnone : ¬ Enumerated [] := by simp [Enumerated]
  by_cases hclear : FinishesClear (device.edge s i)
  · exact (synced_step h hpost hclear).mono fun he => absurd he hnone
  · simp only [FinishesClear, Classical.not_imp, not_or] at hclear
    obtain ⟨hop, hgoes, -⟩ := hclear
    rcases device_clearing h hop i with h' | h'
    · exact absurd h' hgoes
    · exact .of_rest h' fun he => absurd he hnone

end Phases

/-! ## Lives -/

abbrev LifeInput := Life DeviceInput Startup

/-- The handler's environment, or that of the start. -/
def LifeInput.env : LifeInput → Env
  | .step i => i.env
  | .restart r => r.env

/-- The device, with restarts of the daemon: the HAL drops what it was doing. -/
def lives [QDataStream] : Reactive.Machine Device LifeInput Response :=
  device.restarting fun s r =>
    (Device.boot r.env r.getprop s.fpd.database { s.hal with op := .rest },
      { out := (construct r.env r.getprop s.fpd.database).out })

abbrev LifeEdge := Reactive.Edge Device LifeInput Response

/-- The step ends an enumeration, or ends the life it belonged to. -/
def loads (e : LifeEdge) : Option Bool :=
  match e.input with
  | .restart .. => some false
  | .step ⟨.hal ev, _⟩ =>
    match e.src.hal.emit ev with
    | some (_, .enumerate _ remaining) => if remaining = 0 then some true else none
    | _ => none
  | _ => none

def LoadedNow (past : List LifeEdge) : Prop := latest loads past = some true

instance (past : List LifeEdge) : Decidable (LoadedNow past) := inferInstanceAs (Decidable (_ = _))

/-- The name under which the step announces the enrolment of `finger`. -/
def announced (finger : UInt32) (e : LifeEdge) : Option String :=
  match e.input with
  | .step ⟨.hal (.enrolled k), _⟩ =>
    if k = finger then (addedNames e.out.out).head? else none
  | _ => none

/-- The name of a template: the one it was last announced under, or has in the first life's file,
or a generated one. -/
def nameOf [QDataStream] (database : Option (List UInt8)) (past : List LifeEdge) (k : UInt32) :
    String :=
  ((latest (announced k) past).or (recorded database)[k]?).getD (unknownName k)

def StartsOperation (e : LifeEdge) : Prop :=
  ∃ caller c env, e.input = .step ⟨.call caller c, env⟩ ∧ (e.src.fpd.requestOf caller c).isSome

/-! ## Names of templates -/

/-- The file has every template under its name, and so has the map once it is loaded. -/
structure Named [QDataStream] (loaded : Prop) (name : UInt32 → String) (s : Device) : Prop where
  filed : ∀ k ∈ s.hal.templates,
    ((recorded s.fpd.database)[k]?).getD (unknownName k) = name k
  saved : loaded → s.fpd.m_fingerMap = recorded s.fpd.database
  listed : loaded → ∀ k ∈ s.hal.templates, k ∈ s.fpd.m_fingerMap

namespace Named

variable [QDataStream] {loaded loaded' : Prop} {name name' : UInt32 → String} {s s' : Device}

theorem getElem? (h : Named loaded name s) (hl : loaded) {k : UInt32} (hk : k ∈ s.hal.templates) :
    s.fpd.m_fingerMap[k]? = some (name k) := by
  obtain ⟨n, hn⟩ := Option.isSome_iff_exists.mp
    (Std.ExtTreeMap.mem_iff_isSome_getElem?.mp (h.listed hl k hk))
  rw [hn, ← h.filed k hk, ← h.saved hl, hn]
  rfl

/-- The list and the file stay, and no template is added. -/
theorem keep (h : Named loaded name s) (hmap : s'.fpd.m_fingerMap = s.fpd.m_fingerMap)
    (hdb : s'.fpd.database = s.fpd.database)
    (ht : ∀ k ∈ s'.hal.templates, k ∈ s.hal.templates) (hl : loaded' → loaded)
    (hname : ∀ k, name' k = name k) : Named loaded' name' s' := by
  refine ⟨fun k hk => ?_, fun hl' => ?_, fun hl' k hk => ?_⟩
  · rw [hdb, hname]
    exact h.filed k (ht k hk)
  · rw [hmap, hdb]
    exact h.saved (hl hl')
  · rw [hmap]
    exact h.listed (hl hl') k (ht k hk)

/-- The list is loaded and changed, and saved: what counts is the list. -/
theorem of_saved (hsaved : recorded s'.fpd.database = s'.fpd.m_fingerMap)
    (h : ∀ k ∈ s'.hal.templates, s'.fpd.m_fingerMap[k]? = some (name' k)) :
    Named loaded' name' s' := by
  refine ⟨fun k hk => ?_, fun _ => hsaved.symm, fun _ k hk => ?_⟩
  · rw [hsaved, h k hk]
    rfl
  · rw [Std.ExtTreeMap.mem_iff_isSome_getElem?, h k hk]
    rfl

end Named

section Steps

variable [QDataStream] {past : List LifeEdge} {s : Device} {database : Option (List UInt8)}

omit [QDataStream] in
theorem loadedNow_snoc {e : LifeEdge} :
    LoadedNow (past ++ [e]) ↔ loads e = some true ∨ (loads e = none ∧ LoadedNow past) := by
  simp only [LoadedNow, Reactive.Machine.latest_snoc]
  cases loads e <;> simp

theorem nameOf_snoc {e : LifeEdge} {k : UInt32} :
    nameOf database (past ++ [e]) k =
      match announced k e with
      | some name => name
      | none => nameOf database past k := by
  simp only [nameOf, Reactive.Machine.latest_snoc]
  cases announced k e <;> simp

theorem announced_eq_none {i : DeviceInput}
    (hadd : ∀ finger name, s.edit i ≠ .add finger name) (k : UInt32) :
    announced k (lives.edge s (.step i)) = none := by
  obtain ⟨event, env⟩ := i
  have hchanges : changes (device.step s ⟨event, env⟩).2.out =
      (s.edit ⟨event, env⟩).changes s.fpd.m_fingerMap := by
    simpa using (device_edits s ⟨event, env⟩).changes
  have hnone : ∀ name, .added name ∉ changes (device.step s ⟨event, env⟩).2.out := by
    intro name hm
    rw [hchanges] at hm
    obtain ⟨finger, he⟩ := Edit.mem_changes_added.mp hm
    exact hadd finger name he
  have hnames : addedNames (device.step s ⟨event, env⟩).2.out = [] := by
    refine List.filterMap_eq_nil_iff.mpr fun c hc => ?_
    cases c with
    | added name => exact absurd hc (hnone name)
    | removed name => rfl
    | listed => rfl
  have hnames' : addedNames (lives.step s (.step ⟨event, env⟩)).2.out = [] := hnames
  cases event with
  | hal ev =>
    cases ev with
    | enrolled finger => simp [announced, hnames']
    | _ => rfl
  | _ => rfl

theorem loads_hal {ev : HalEvent} {env : Env} {hal : TemplateHal} {cb : Callback}
    (he : s.hal.emit ev = some (hal, cb)) (hcb : ∀ finger, cb ≠ .enumerate finger 0) :
    loads (lives.edge s (.step ⟨.hal ev, env⟩)) = none := by
  simp only [loads, lives.edge_input, lives.edge_src, he]
  cases cb with
  | enumerate finger remaining =>
    by_cases hr : remaining = 0
    · exact absurd (by rw [hr]) (hcb finger)
    · simp [hr]
  | _ => rfl

/-- Before the fingers are loaded, the HAL enumerates or rests. -/
def Early (hal : TemplateHal) : Prop := hal.op = .rest ∨ ∃ todo, hal.op = .enumerating todo

theorem early_step (h : Early s.hal) {i : DeviceInput}
    (hno : ¬ StartsOperation (lives.edge s (.step i))) : Early (device.step s i).1.hal := by
  have hsame : ∀ {hal : TemplateHal} {x : Exec}, Early hal →
      (∀ p ∈ requestsOf x.out, p.1.startsOperation = false) →
        Early (Device.handled hal x).hal := by
    intro hal x hearly hx
    rcases handled_op hal hx with hop | hop
    · rwa [Early, hop]
    · exact .inl hop
  obtain ⟨event, env⟩ := i
  cases event with
  | call caller c =>
    refine hsame (x := (invoke env caller c { self := s.fpd }).1) h ?_
    have hnone : s.fpd.requestOf caller c = none := by
      refine Option.not_isSome_iff_eq_none.mp fun hr => hno ⟨caller, c, env, rfl, hr⟩
    rw [invoke_requests, hnone]
    rcases callMove_cases s.fpd env.hal caller c with
      ⟨-, hm⟩ | ⟨-, -, -, hm⟩ | ⟨r, -, -, hm⟩ | ⟨r, -, -, hm⟩ <;>
      simp [hm, Request.startsOperation]
  | timeout =>
    by_cases ht : s.fpd.m_cancelTimer
    · have hstep : (device.step s ⟨.timeout, env⟩).1 = Device.handled s.hal
          (slot_cancelIdentify env { self := { s.fpd with m_cancelTimer := false } }) := by
        simp [device, Device.step, ht]
      rw [hstep]
      exact hsame h (by simp [slot_cancelIdentify, Output.request?, Request.startsOperation])
    · simpa [device, Device.step, ht] using h
  | hal ev =>
    cases he : s.hal.emit ev with
    | none => simpa [device_silent he] using h
    | some p =>
      obtain ⟨hal, cb⟩ := p
      rw [device_hal he]
      refine hsame ?_ (receive_starts_nothing env cb s.fpd)
      cases TemplateHal.emits_of_emit he with
      | enumerated hop hm =>
        split
        · exact .inl rfl
        · exact .inr ⟨_, rfl⟩
      | acquired => exact h
      | nothingToClear | nothingToEnumerate | removed | error => exact .inl rfl
      | progress hop => simp [Early, hop] at h
      | enrolled hop => simp [Early, hop] at h
      | cleared hop => simp [Early, hop] at h
      | authenticated hop => simp [Early, hop] at h

theorem named_keep (h : Named (LoadedNow past) (nameOf database past) s) {i : DeviceInput}
    (hedit : s.edit i = .keep) (hloads : loads (lives.edge s (.step i)) = none)
    (ht : ∀ k ∈ (device.step s i).1.hal.templates, k ∈ s.hal.templates) :
    let e := lives.edge s (.step i)
    Named (LoadedNow (past ++ [e])) (nameOf database (past ++ [e])) (device.step s i).1 := by
  have hedits := device_edits s i
  have hnone := announced_eq_none (s := s) (i := i) (by simp [hedit])
  rw [hedit] at hedits
  refine h.keep hedits.map hedits.database ht ?_ fun k => ?_
  · rw [loadedNow_snoc, hloads]
    simp
  · rw [nameOf_snoc, hnone k]

theorem named_edit [LawfulQDataStream] {i : DeviceInput} (hfiles : i.env.FilesOk)
    (hedit : s.edit i ≠ .keep) {loaded : Prop} {name : UInt32 → String}
    (hname : ∀ k ∈ (device.step s i).1.hal.templates,
      ((s.edit i).apply s.fpd.m_fingerMap)[k]? = some (name k)) :
    Named loaded name (device.step s i).1 := by
  have hedits := device_edits s i
  have hmap : (device.step s i).1.fpd.m_fingerMap = (s.edit i).apply s.fpd.m_fingerMap :=
    hedits.map
  have hdb : (device.step s i).1.fpd.database = s.fpd.databaseAfter i.env (s.edit i) :=
    hedits.database
  refine .of_saved ?_ ?_
  · rw [hdb, hmap, recorded_databaseAfter hfiles hedit]
  · rw [hmap]
    exact hname

/-- What holds of the device in every life. -/
structure Living (database : Option (List UInt8)) (past : List LifeEdge) (s : Device) : Prop where
  synced : Synced [] s
  early : ¬ LoadedNow past → Early s.hal
  named : Named (LoadedNow past) (nameOf database past) s

theorem Living.loaded (h : Living database past s) (hop : ¬ Early s.hal) : LoadedNow past :=
  not_not.mp fun hno => hop (h.early hno)

section Hal

variable {ev : HalEvent} {env : Env} {hal : TemplateHal} {cb : Callback}

/-- A new template is announced under the name it gets. -/
theorem named_enrolled [LawfulQDataStream] (h : Living database past s) (hfiles : env.FilesOk)
    (hpost : env.hal .postEnroll = SYS_OK) {finger : UInt32}
    {hnew : finger ∉ s.hal.templates} {hz : finger ≠ 0}
    (he : s.hal.emit ev = some (s.hal.add finger hnew hz, .enrollresult finger 0))
    (hop : s.hal.op = .enrolling) :
    let e := lives.edge s (.step ⟨.hal ev, env⟩)
    Named (LoadedNow (past ++ [e])) (nameOf database (past ++ [e]))
      (device.step s ⟨.hal ev, env⟩).1 := by
  intro e
  have hl : LoadedNow past := h.loaded (by simp [Early, hop])
  obtain rfl := emit_enrolled he
  have hedit : s.edit ⟨.hal (.enrolled finger), env⟩ = .add finger s.fpd.m_addingFinger := by
    rw [edit_hal he]
    simp [callbackEdit, AndroidFP.callback, AndroidFP.enrollCallback, hpost, signalEdit]
  have hadded : addedNames e.out.out = [s.fpd.m_addingFinger] := by
    have hchanges := (device_edits s ⟨.hal (.enrolled finger), env⟩).changes
    rw [hedit] at hchanges
    have hout : changes e.out.out = [.added s.fpd.m_addingFinger, .listed] := hchanges
    simp [addedNames, hout, Change.added?]
  have hannounced : ∀ k,
      announced k e = if finger = k then some s.fpd.m_addingFinger else none := by
    intro k
    have hk : announced k e =
        if finger = k then (addedNames e.out.out).head? else none := rfl
    rw [hk, hadded]
    rfl
  refine named_edit hfiles (by simp [hedit]) fun k hk => ?_
  rw [nameOf_snoc, hannounced, hedit]
  by_cases hf : finger = k
  · simp [Edit.apply, hf]
  · rw [templates_hal he] at hk
    have hold : k ∈ s.hal.templates := by
      rcases List.mem_cons.mp hk with rfl | hk
      · exact absurd rfl hf
      · exact hk
    simp [Edit.apply, hf, Std.ExtTreeMap.getElem?_insert, h.named.getElem? hl hold]

theorem named_removed [LawfulQDataStream] (h : Living database past s) (hfiles : env.FilesOk)
    {finger : UInt32} (hop : s.hal.op = .removing finger)
    (he : s.hal.emit ev = some ({ s.hal.delete finger with op := .rest }, .removed finger 0)) :
    let e := lives.edge s (.step ⟨.hal ev, env⟩)
    Named (LoadedNow (past ++ [e])) (nameOf database (past ++ [e]))
      (device.step s ⟨.hal ev, env⟩).1 := by
  intro e
  have hl : LoadedNow past := h.loaded (by simp [Early, hop])
  obtain ⟨-, hremoving, hz⟩ := h.synced.removing hop
  have hedit : s.edit ⟨.hal ev, env⟩ = .drop finger := by
    rw [edit_hal he]
    simp [callbackEdit, AndroidFP.callback_removed (.inl hremoving.symm), hremoving, hz, signalEdit]
  refine named_edit hfiles (by simp [hedit]) fun k hk => ?_
  rw [templates_hal he] at hk
  have hk' : k ≠ finger ∧ k ∈ s.hal.templates := s.hal.nodup.mem_erase_iff.mp hk
  rw [nameOf_snoc, announced_eq_none (by simp [hedit]), hedit]
  simp [Edit.apply, Std.ExtTreeMap.getElem?_erase, hk'.1.symm, h.named.getElem? hl hk'.2]

/-- Where no template is left, there is nothing to name. -/
theorem named_nothing [LawfulQDataStream] (hfiles : env.FilesOk)
    (he : s.hal.emit ev = some (hal, cb)) (ht : hal.templates = [])
    (hedit : s.fpd.callbackEdit env cb ≠ .keep) {loaded : Prop} {name : UInt32 → String} :
    Named loaded name (device.step s ⟨.hal ev, env⟩).1 := by
  refine named_edit hfiles (by rwa [edit_hal he]) fun k hk => ?_
  rw [templates_hal he, ht] at hk
  exact absurd hk List.not_mem_nil

/-- The end of an enumeration: every template has been reported, and gets its name. -/
theorem named_loaded [LawfulQDataStream] (h : Living database past s) (hfiles : env.FilesOk)
    {finger : UInt32} {todo : List UInt32} (hop : s.hal.op = .enumerating todo)
    (hdone : todo.erase finger = []) (hm : finger ∈ todo)
    (he : s.hal.emit ev = some (hal, .enumerate finger 0))
    (hrest : hal.templates = s.hal.templates) :
    let e := lives.edge s (.step ⟨.hal ev, env⟩)
    Named (LoadedNow (past ++ [e])) (nameOf database (past ++ [e]))
      (device.step s ⟨.hal ev, env⟩).1 := by
  intro e
  obtain ⟨-, -, -, htemplates⟩ := h.synced.enumerating hop
  have hz : finger ≠ 0 := fun hz => s.hal.nonzero ((htemplates 0).mpr (.inl (hz ▸ hm)))
  have hedit : s.edit ⟨.hal ev, env⟩ =
      .load (reconcile (s.fpd.m_androidFP.m_fingers ++ [finger]) (recorded s.fpd.database)) := by
    rw [edit_hal he, ← readDatabase_eq hfiles]
    simp [callbackEdit, AndroidFP.callback, AndroidFP.enumerateCallback, AndroidFP.fingerprints, hz,
      signalEdit]
    rfl
  refine named_edit hfiles (by simp [hedit]) fun k hk => ?_
  rw [templates_hal he, hrest] at hk
  have hreported : k ∈ s.fpd.m_androidFP.m_fingers ++ [finger] := by
    rcases (htemplates k).mp hk with ht | ht
    · by_cases hkf : k = finger
      · simp [hkf]
      · have hmem := (List.mem_erase_of_ne hkf).mpr ht
        rw [hdone] at hmem
        exact absurd hmem List.not_mem_nil
    · simp [ht]
  rw [nameOf_snoc, announced_eq_none (by simp [hedit]), hedit, Edit.apply, getElem?_reconcile,
    if_pos hreported, h.named.filed k hk]

/-- One case for each thing the HAL may do. -/
theorem named_hal [LawfulQDataStream] (h : Living database past s) (hfiles : env.FilesOk)
    (hpost : env.hal .postEnroll = SYS_OK) :
    let e := lives.edge s (.step ⟨.hal ev, env⟩)
    Named (LoadedNow (past ++ [e])) (nameOf database (past ++ [e]))
      (device.step s ⟨.hal ev, env⟩).1 := by
  intro e
  cases he : s.hal.emit ev with
  | none =>
    refine named_keep h.named ?_ ?_ ?_
    · simp [Device.edit, he]
    · simp [loads, he]
    · simp [device_silent he]
  | some p =>
    obtain ⟨hal, cb⟩ := p
    have hkeep : ¬ cb.IsLast → (∀ k ∈ hal.templates, k ∈ s.hal.templates) →
        Named (LoadedNow (past ++ [e])) (nameOf database (past ++ [e]))
          (device.step s ⟨.hal ev, env⟩).1 := by
      intro hlast ht
      refine named_keep h.named ?_ (loads_hal he ?_) ?_
      · rw [edit_hal he, callbackEdit_keep hlast]
      · rintro finger rfl
        exact hlast rfl
      · rwa [templates_hal he]
    cases TemplateHal.emits_of_emit he with
    | progress hop hr => exact hkeep hr fun _ hk => hk
    | enrolled hop hnew hz => exact named_enrolled h hfiles hpost he hop
    | removed hop => exact named_removed h hfiles hop he
    | @cleared finger begun hop hm =>
      obtain ⟨-, hremoving, -⟩ := h.synced.clearing hop
      by_cases ht : (s.hal.delete finger).templates = []
      · refine named_nothing hfiles he ht ?_
        simp [ht, left, callbackEdit, AndroidFP.callback_removed (.inr hremoving), hremoving,
          signalEdit]
      · refine hkeep (fun hleft => ht ?_) fun k hk => List.mem_of_mem_erase hk
        exact (left_eq_zero (s.hal.delete finger).nodup (s.hal.delete finger).nonzero).mp hleft
    | nothingToClear hop ht =>
      obtain ⟨-, hremoving, -⟩ := h.synced.clearing hop
      refine named_nothing hfiles he ht ?_
      simp [callbackEdit, AndroidFP.callback_removed (.inr hremoving), hremoving, signalEdit]
    | @enumerated finger todo hop hm =>
      by_cases ht : todo.erase finger = []
      · have he' : s.hal.emit ev = some ({ s.hal with op := .rest }, .enumerate finger 0) := by
          rw [he, ht]
          rfl
        exact named_loaded h hfiles hop ht hm he' rfl
      · exact hkeep (fun hleft => ht ((h.synced.left_erase hop finger).mp hleft)) fun _ hk => hk
    | nothingToEnumerate hop ht =>
      refine named_nothing hfiles he ht ?_
      simp [callbackEdit, AndroidFP.callback, AndroidFP.enumerateCallback, signalEdit]
    | authenticated hop => exact hkeep (fun hno => hno) fun _ hk => hk
    | acquired hop => exact hkeep (fun hno => hno) fun _ hk => hk
    | error hop => exact hkeep (fun hno => hno) fun _ hk => hk

end Hal

/-- A life starts with what the last one left. -/
theorem living_started (env : Env) (getprop : String → String) {file : Option (List UInt8)}
    {hal : TemplateHal} (hop : hal.op = .rest) (hnot : ¬ LoadedNow past)
    (hfiled : ∀ k ∈ hal.templates,
      ((recorded file)[k]?).getD (unknownName k) = nameOf database past k) :
    Living database past (Device.boot env getprop file hal) := by
  refine ⟨synced_boot env getprop file hop, fun _ => ?_, ⟨fun k hk => ?_, ?_, ?_⟩⟩
  · by_cases hr : env.hal .enumerate = SYS_OK
    · rw [device_boot, hr]
      exact .inr ⟨hal.templates, rfl⟩
    · rw [device_boot, hal.request_refused (by simp) hr]
      exact .inl hop
  · rw [device_boot, hal.request_templates] at hk
    rw [device_boot, boot_fpd]
    exact hfiled k hk
  · exact fun hl => absurd hl hnot
  · exact fun hl => absurd hl hnot

theorem loadedNow_device {i : DeviceInput} (hl : LoadedNow past) :
    LoadedNow (past ++ [lives.edge s (.step i)]) := by
  rw [loadedNow_snoc]
  obtain ⟨event, env⟩ := i
  cases event with
  | hal ev =>
    cases he : s.hal.emit ev with
    | none => simp [loads, he, hl]
    | some p =>
      obtain ⟨hal, cb⟩ := p
      cases cb with
      | enumerate finger remaining => by_cases hr : remaining = 0 <;> simp [loads, he, hr, hl]
      | _ => simp [loads, he, hl]
  | _ => exact .inr ⟨rfl, hl⟩

theorem named_step [LawfulQDataStream] (h : Living database past s) {i : DeviceInput}
    (hfiles : i.env.FilesOk) (hpost : i.env.hal .postEnroll = SYS_OK) :
    let e := lives.edge s (.step i)
    Named (LoadedNow (past ++ [e])) (nameOf database (past ++ [e])) (device.step s i).1 := by
  obtain ⟨event, env⟩ := i
  cases event with
  | call caller c =>
    refine named_keep h.named rfl rfl fun k hk => ?_
    have ht : (Device.handled s.hal (invoke env caller c { self := s.fpd }).1).hal.templates =
        s.hal.templates := handled_templates _ _
    rwa [← ht]
  | timeout =>
    refine named_keep h.named rfl rfl fun k hk => ?_
    by_cases ht : s.fpd.m_cancelTimer
    · have hstep : (device.step s ⟨.timeout, env⟩).1 = Device.handled s.hal
          (slot_cancelIdentify env { self := { s.fpd with m_cancelTimer := false } }) := by
        simp [device, Device.step, ht]
      rwa [hstep, handled_templates] at hk
    · simpa [device, Device.step, ht] using hk
  | hal ev => exact named_hal h hfiles hpost

theorem living_step [LawfulQDataStream] (h : Living database past s) {i : LifeInput}
    (hfiles : i.env.FilesOk) (hpost : i.env.hal .postEnroll = SYS_OK)
    (hstarts : StartsOperation (lives.edge s i) → LoadedNow past) :
    Living database (past ++ [lives.edge s i]) (lives.step s i).1 := by
  cases i with
  | restart r =>
    refine living_started r.env r.getprop rfl ?_ fun k hk => ?_
    · rw [loadedNow_snoc]
      simp [loads]
    · rw [nameOf_snoc]
      exact h.named.filed k hk
  | step i =>
    refine ⟨synced_any h.synced hpost, fun hnot => ?_, named_step h hfiles hpost⟩
    have hpast : ¬ LoadedNow past := fun hl => hnot (loadedNow_device hl)
    exact early_step (h.early hpast) fun hs => hpast (hstarts hs)

end Steps

/-- **Names survive restarts.** Where files can be written and no operation is started before the
fingers are loaded, every template is listed, in every state of every life once they are, under the
name it was enrolled with, in whichever life. -/
theorem names_survive [QDataStream] [LawfulQDataStream] (env : Env) (getprop : String → String)
    (database : Option (List UInt8)) (hal : TemplateHal) (hop : hal.op = .rest)
    (is : List LifeInput) (hfiles : ∀ i ∈ is, i.env.FilesOk)
    (hpost : ∀ i ∈ is, i.env.hal .postEnroll = SYS_OK)
    (hstarts : lives.Along (Device.boot env getprop database hal) is fun past e =>
      StartsOperation e → LoadedNow past) :
    lives.Visits (Device.boot env getprop database hal) is fun past s =>
      LoadedNow past →
        ∀ k ∈ s.hal.templates, s.fpd.m_fingerMap[k]? = some (nameOf database past k) := by
  have hliving : lives.Visits (Device.boot env getprop database hal) is (Living database) := by
    refine Reactive.Machine.Along.visits (I := Living database) ?_
      (fun past s i h hi => living_step h hi.1.2 hi.2 hi.1.1)
      ((hstarts.and (along_of_forall_mem hfiles)).and (along_of_forall_mem hpost))
    exact living_started env getprop hop (by simp [LoadedNow]) fun _ _ => rfl
  exact hliving.mono fun past s h hl k hk => h.named.getElem? hl hk

section Left

/-- `:1.5` enrols a finger as "left" on an empty sensor, and the daemon is restarted. -/
def leftInputs : List LifeInput :=
  [.step ⟨.hal .none, .answering SYS_OK⟩,
    .step ⟨.call ":1.5" (.Enroll "left"), .answering SYS_OK⟩,
    .step ⟨.hal (.enrolled 7), .answering SYS_OK⟩,
    .restart ⟨.answering SYS_OK, fun _ => ""⟩,
    .step ⟨.hal (.enumerated 7), .answering SYS_OK⟩]

theorem left_starts [QDataStream] {s : Device}
    (h : LoadedNow [lives.edge s (.step ⟨.hal .none, .answering SYS_OK⟩)]) :
    lives.Along s leftInputs fun past e => StartsOperation e → LoadedNow past := by
  refine along_cons ?_ (along_cons (fun _ => h) (along_cons ?_ (along_cons ?_ (along_cons ?_
    along_nil)))) <;> rintro ⟨caller, c, env, hcall, -⟩ <;> cases hcall

theorem names_survive_left :
    letI := qt56
    (lives.final (Device.boot (.answering SYS_OK) (fun _ => "") none emptyHal)
      leftInputs).fpd.m_fingerMap[(7 : UInt32)]? = some "left" := by
  have hanswers : ∀ i ∈ leftInputs, i.env = .answering SYS_OK := by
    simp [leftInputs, LifeInput.env]
  refine (@names_survive qt56 qt56_lawful (.answering SYS_OK) (fun _ => "") none emptyHal rfl
    leftInputs (fun i hi => ?_) (fun i hi => ?_) (@left_starts qt56 _ (by decide +kernel))).final
    (by decide +kernel) 7 (by decide +kernel)
  · rw [hanswers i hi]
    exact answering_filesOk SYS_OK
  · rw [hanswers i hi]
    rfl

/-- An enrolment after an enumeration that failed overwrites the names in the file. -/
example :
    letI := qt56
    (lives.final (Device.boot (.answering SYS_OK) (fun _ => "") none emptyHal)
      (leftInputs ++
        [.restart ⟨.answering SYS_OK, fun _ => ""⟩,
          .step ⟨.hal (.error ERROR_HW_UNAVAILABLE 0), .answering SYS_OK⟩,
          .step ⟨.call ":1.5" (.Enroll "right"), .answering SYS_OK⟩,
          .step ⟨.hal (.enrolled 8), .answering SYS_OK⟩,
          .restart ⟨.answering SYS_OK, fun _ => ""⟩,
          .step ⟨.hal (.enumerated 8), .answering SYS_OK⟩,
          .step ⟨.hal (.enumerated 7), .answering SYS_OK⟩])).fpd.m_fingerMap.toList =
      [(7, "Unknown 7"), (8, "right")] := by
  decide +kernel

end Left

end SailfishFpd
