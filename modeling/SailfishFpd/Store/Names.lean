import SailfishFpd.Session.History
import SailfishFpd.Store.Persistence

/-!
# Stored names

`saveFingers` writes the whole map, and the map is empty until an enumeration
has completed. A slot that saves before that writes a map that was never loaded
over the file. The names of the fingers the HAL keeps stay in the file exactly
in the runs where the first slot to save is that of `enumerated`, and the whole
list is not removed.
-/

namespace SailfishFpd

open Reactive.Machine (visits_iff_along_of_invariant along_of_forall_mem along_cons along_nil
  visits_cons visits_nil)

/-- The templates of the HAL after a step: it reports enrolments and removals as they happen. -/
def templatesAfter (H : List UInt32) (e : Edge) : List UInt32 :=
  match e.input.event with
  | .callback (.enrollresult finger remaining) => if remaining = 0 then finger :: H else H
  | .callback (.removed finger _) => H.filter (· ≠ finger)
  | _ => H

/-- The templates of the HAL, which held `H` when the daemon started. -/
def templates (H : List UInt32) (past : List Edge) : List UInt32 := past.foldl templatesAfter H

/-- The callbacks agree with the templates: where an enumeration completes, every template was
reported (that nothing else was is not needed), and an enrolled id is fresh. -/
structure HalAgrees (H : List UInt32) (past : List Edge) (e : Edge) : Prop where
  enumerated : ∀ finger, e.input.event = .callback (.enumerate finger 0) →
    ∀ k ∈ templates H past, k ≠ 0 → k ∈ enumeratedIds ((past ++ [e]).map (·.input))
  fresh : ∀ finger, e.input.event = .callback (.enrollresult finger 0) →
    finger ∉ templates H past

/-- The step loses no name of `finger`: the slots that add and remove fingers run after an
enumeration, the whole list is not removed, and the id is one that enumerations record. -/
structure KeepsName (finger : UInt32) (past : List Edge) (e : Edge) : Prop where
  add : InTime (fun signal => ∃ f, signal = .succeeded f) (fun past _ => Loaded past) past e
  remove : InTime (fun signal => ∃ f, signal = .removed f) (fun past _ => Loaded past) past e
  wipe : InTime (· = .removed 0) (fun _ _ => False) past e
  load : InTime (· = .enumerated) (fun _ _ => finger ≠ 0) past e

section Kept

variable [QDataStream]

/-- What the callbacks say, and what of it is queued, about a finger that the HAL keeps. -/
structure HalInv (finger : UInt32) (past : List Edge) (s : System) : Prop where
  recorded : ∀ k, k ∈ s.fpd.m_androidFP.fingerprints ↔
    k ≠ 0 ∧ k ∈ enumeratedIds (past.map (·.input))
  enumerated : .enumerated ∈ s.queue → finger ≠ 0 → finger ∈ s.fpd.m_androidFP.fingerprints
  succeeded : ∀ f, .succeeded f ∈ s.queue → f ≠ finger
  removed : ∀ f, .removed f ∈ s.queue → f ≠ 0 → f ≠ finger

omit [QDataStream] in
theorem halInv_boot (env : Env) (getprop : String → String) (database : Option (List UInt8))
    (finger : UInt32) : HalInv finger [] (boot env getprop database) := by
  have hnone : (boot env getprop database).fpd.m_androidFP.fingerprints = [] := by
    rw [boot_fpd]; rfl
  refine ⟨fun k => ?_, fun hm => absurd hm List.not_mem_nil, fun _ hm => absurd hm List.not_mem_nil,
    fun _ hm => absurd hm List.not_mem_nil⟩
  simp [hnone, enumeratedIds]

theorem halInv_step {H : List UInt32} {finger : UInt32} {past : List Edge} {s : System}
    {i : Input} (h : HalInv finger past s) (ha : HalAgrees H past (daemon.edge s i))
    (hk : finger ∈ templates H past) (hk' : finger ∈ templates H (past ++ [daemon.edge s i])) :
    HalInv finger (past ++ [daemon.edge s i]) (daemon.step s i).1 := by
  have hinputs : (past ++ [daemon.edge s i]).map (·.input) = past.map (·.input) ++ [i] := by simp
  have hids : enumeratedIds (past.map (·.input) ++ [i]) =
      enumeratedIds (past.map (·.input)) ++ enumeratedIds [i] := List.filterMap_append
  have hrecorded : ∀ k, k ∈ (daemon.step s i).1.fpd.m_androidFP.fingerprints ↔
      k ≠ 0 ∧ k ∈ enumeratedIds (past.map (·.input) ++ [i]) := by
    intro k
    rw [step_fingerprints, hids, List.mem_append, List.mem_append, List.mem_filter, h.recorded]
    by_cases hz : k = 0 <;> simp [hz]
  refine ⟨by rw [hinputs]; exact hrecorded, fun hm hz => ?_, fun f hm => ?_, fun f hm hf => ?_⟩
  · rcases System.mem_queue hm with hq | ⟨cb, hcb, hq⟩
    · rw [step_fingerprints]
      exact List.mem_append_left _ (h.enumerated hq hz)
    · obtain ⟨f, rfl⟩ := AndroidFP.posts_of_mem hq
      have hin := ha.enumerated f hcb finger hk hz
      rw [hinputs] at hin
      exact (hrecorded finger).mpr ⟨hz, hin⟩
  · rcases System.mem_queue hm with hq | ⟨cb, hcb, hq⟩
    · exact h.succeeded f hq
    · obtain rfl := AndroidFP.posts_of_mem hq
      exact fun heq => ha.fresh f hcb (heq ▸ hk)
  · rcases System.mem_queue hm with hq | ⟨cb, hcb, hq⟩
    · exact h.removed f hq hf
    · obtain ⟨-, f', rfl, heq⟩ := AndroidFP.posts_of_mem hq
      obtain rfl := heq hf
      intro hkeep
      have hout : f' ∉ templates H (past ++ [daemon.edge s i]) := by
        rw [templates, List.foldl_append]
        simp [templatesAfter, hcb]
      exact hout (hkeep ▸ hk')

/-- What the file and the map hold of a finger whose name is kept. -/
structure NameInv (finger : UInt32) (name : String) (past : List Edge) (s : System) : Prop where
  stores : s.fpd.Stores finger name
  unloaded : ¬ Loaded past → s.fpd.m_fingerMap = ∅
  loaded : Loaded past → s.fpd.m_fingerMap[finger]? = some name ∧ s.fpd.Persisted

section Steps

variable {finger : UInt32} {name : String} {past : List Edge} {s : System} {i : Input}

theorem nameInv_of_keep (h : NameInv finger name past s) (he : s.edit i = .keep) :
    NameInv finger name (past ++ [daemon.edge s i]) (daemon.step s i).1 := by
  obtain ⟨hmap, hdb, -⟩ := step_edits s i
  rw [he] at hmap hdb
  have hl : Loaded (past ++ [daemon.edge s i]) ↔ Loaded past := by
    rw [loaded_snoc, or_iff_left]
    intro hc
    rw [edit_of_completes hc] at he
    cases he
  refine ⟨?_, fun hn => ?_, fun hy => ?_⟩
  · obtain ⟨bytes, hbytes, hname⟩ := h.stores
    exact ⟨bytes, hdb.trans hbytes, hname⟩
  · exact hmap.trans (h.unloaded (hl.not.mp hn))
  · obtain ⟨hm, bytes, hbytes, hread⟩ := h.loaded (hl.mp hy)
    rw [hmap]
    exact ⟨hm, bytes, hdb.trans hbytes, hread.trans hmap.symm⟩

variable [LawfulQDataStream]

/-- After a step that saves a loaded map, the map tells what the file stores. -/
theorem nameInv_of_saved (hf : i.env.FilesOk) (he : s.edit i ≠ .keep)
    (hl : Loaded (past ++ [daemon.edge s i]))
    (hm : (daemon.step s i).1.fpd.m_fingerMap[finger]? = some name) :
    NameInv finger name (past ++ [daemon.edge s i]) (daemon.step s i).1 := by
  have hp := persisted_of_edit hf.openWrite hf.room he
  exact ⟨hp.stores_iff.mpr hm, fun hn => absurd hl hn, fun _ => ⟨hm, hp⟩⟩

theorem nameInv_step (hhal : HalInv finger past s) (h : NameInv finger name past s)
    (hf : i.env.FilesOk) (hg : KeepsName finger past (daemon.edge s i)) :
    NameInv finger name (past ++ [daemon.edge s i]) (daemon.step s i).1 := by
  have hmap := (step_edits s i).1
  rcases s.edit_cases i with he | ⟨hd, f, queue, hq⟩ | ⟨hd, f, queue, hq⟩ | ⟨hd, queue, hq⟩
  · exact nameInv_of_keep h he
  · have he := System.edit_deliver hd hq
    have hl : Loaded past := hg.add hd _ queue hq ⟨f, rfl⟩
    have hne : f ≠ finger := hhal.succeeded f (by simp [hq])
    refine nameInv_of_saved hf (by simp [he, FPDCommunity.signalEdit])
      (loaded_snoc.mpr (.inl hl)) ?_
    rw [hmap, he, FPDCommunity.signalEdit, Edit.apply, Std.ExtTreeMap.getElem?_insert]
    simpa [hne] using (h.loaded hl).1
  · have he := System.edit_deliver hd hq
    have hl : Loaded past := hg.remove hd _ queue hq ⟨f, rfl⟩
    have hz : f ≠ 0 := fun hz => hg.wipe hd _ queue hq (by rw [hz])
    have hne : f ≠ finger := hhal.removed f (by simp [hq]) hz
    refine nameInv_of_saved hf (by simp [he, FPDCommunity.signalEdit, hz])
      (loaded_snoc.mpr (.inl hl)) ?_
    rw [hmap, he, FPDCommunity.signalEdit, if_neg hz, Edit.apply, Std.ExtTreeMap.getElem?_erase]
    simpa [hne] using (h.loaded hl).1
  · have hc : CompletesEnumeration (daemon.edge s i) := ⟨hd, queue, hq⟩
    have he := edit_of_completes hc
    have hz : finger ≠ 0 := hg.load hd _ queue hq rfl
    refine nameInv_of_saved hf (by simp [he]) (loaded_snoc.mpr (.inr hc)) ?_
    obtain ⟨bytes, hbytes, hname⟩ := h.stores
    have hbase : s.fpd.readDatabase i.env = QDataStream.read bytes := by
      rw [FPDCommunity.readDatabase, hbytes, hf.openRead]
    rw [hmap, he, Edit.apply, hbase]
    exact FPDCommunity.getElem?_reconcile_of_mem (hhal.enumerated (by simp [hq]) hz) hname

theorem keepsName_of_stores (hhal : HalInv finger past s) (h : NameInv finger name past s)
    (hf : i.env.FilesOk) (hs : (daemon.step s i).1.fpd.Stores finger name) :
    KeepsName finger past (daemon.edge s i) := by
  have hmap := (step_edits s i).1
  have hname : s.edit i ≠ .keep → ((s.edit i).apply s.fpd.m_fingerMap)[finger]? = some name := by
    intro he
    rw [← hmap]
    exact (persisted_of_edit hf.openWrite hf.room he).stores_iff.mp hs
  refine ⟨?_, ?_, ?_, ?_⟩
  · rintro hd _ queue hq ⟨f, rfl⟩
    by_contra hl
    have hne : f ≠ finger := hhal.succeeded f (by simp [show s.queue = _ from hq])
    have he : s.edit i = .add f s.fpd.m_addingFinger := System.edit_deliver hd hq
    have hm := hname (by simp [he])
    rw [he, h.unloaded hl] at hm
    simp [Edit.apply, hne] at hm
  · rintro hd _ queue hq ⟨f, rfl⟩
    by_contra hl
    have he : s.edit i = if f = 0 then .wipe else .drop f := System.edit_deliver hd hq
    have hm := hname (by by_cases hf : f = 0 <;> simp [he, hf])
    rw [he, h.unloaded hl] at hm
    by_cases hf : f = 0 <;> simp [Edit.apply, hf] at hm
  · rintro hd _ queue hq rfl
    have he : s.edit i = .wipe := System.edit_deliver hd hq
    have hm := hname (by simp [he])
    simp [he, Edit.apply] at hm
  · rintro hd _ queue hq rfl rfl
    have he := edit_of_completes (s := s) (i := i) ⟨hd, queue, hq⟩
    have hm := hname (by simp [he])
    have hzero : (0 : UInt32) ∉ s.fpd.m_androidFP.fingerprints :=
      fun hin => ((hhal.recorded 0).mp hin).1 rfl
    rw [he, Edit.apply, FPDCommunity.getElem?_reconcile, if_neg hzero] at hm
    cases hm

end Steps

/-- **Names are not lost, exactly in the runs whose steps all keep them.** The HAL held `H` when the
daemon started on the file `bytes`, and holds `finger` throughout. -/
theorem names_kept [LawfulQDataStream] (env : Env) (getprop : String → String)
    (bytes : List UInt8) (H : List UInt32) (finger : UInt32) (name : String) (is : List Input)
    (hf : ∀ i ∈ is, i.env.FilesOk)
    (hhal : daemon.Along (boot env getprop (some bytes)) is (HalAgrees H))
    (hkept : daemon.Visits (boot env getprop (some bytes)) is fun past _ =>
      finger ∈ templates H past)
    (hname : (QDataStream.read bytes)[finger]? = some name) :
    (daemon.Visits (boot env getprop (some bytes)) is fun _ s => s.fpd.Stores finger name) ↔
      daemon.Along (boot env getprop (some bytes)) is (KeepsName finger) := by
  have hinv : daemon.Visits (boot env getprop (some bytes)) is (HalInv finger) := by
    refine (hhal.and hkept.along).visits ?_ fun past s i h ha =>
      halInv_step h ha.1 ha.2.1 ha.2.2
    exact halInv_boot env getprop (some bytes) finger
  refine visits_iff_along_of_invariant ((along_of_forall_mem hf).and hinv.along)
    (I := NameInv finger name) ?_ (fun _ _ h => h.stores) (fun past s i h ha hg => ?_)
    fun past s i h ha hs => ?_
  · refine ⟨⟨bytes, ?_, hname⟩, fun _ => ?_, fun hl => absurd hl not_loaded_nil⟩
    · rw [boot_fpd]
    · rw [boot_fpd]
  · exact nameInv_step ha.2.1 h ha.1 hg
  · exact keepsName_of_stores ha.2.1 h ha.1 hs

end Kept

/-- Once the fingers are loaded, only the removal of the whole list loses a name. -/
theorem keepsName_of_loaded {finger : UInt32} {past : List Edge} {e : Edge} (hl : Loaded past)
    (hf : finger ≠ 0) (hw : e.src.queue.head? ≠ some (.removed 0)) : KeepsName finger past e := by
  refine ⟨fun _ _ _ _ _ => hl, fun _ _ _ _ _ => hl, ?_, fun _ _ _ _ _ => hf⟩
  rintro _ _ queue hq rfl
  exact hw (by rw [hq]; rfl)

/-- The enumeration of the start finds `7`, which the file has as `right`, and `8` is enrolled. -/
theorem names_kept_enrolled :
    letI := qt56
    let s := daemon.final (boot (.answering SYS_OK) (fun _ => "")
      (some (QDataStream.write ((∅ : FingerMap).insert 7 "right")))) enrolInputs
    s.fpd.m_fingerMap.toList = [(7, "right"), (8, "left")] ∧ s.fpd.Stores 7 "right" := by
  let := qt56
  have := qt56_lawful
  intro s
  have hf : ∀ i ∈ enrolInputs, i.env.FilesOk := by simp [enrolInputs, answering_filesOk]
  refine ⟨by decide +kernel, ((names_kept _ _ _ [7] 7 "right" _ hf ?_ ?_ ?_).mpr ?_).final⟩
  · have hsilent : ∀ {past : List Edge} {e : Edge}, (∀ cb, e.input.event ≠ .callback cb) →
        HalAgrees [7] past e := fun h => ⟨fun _ he => absurd he (h _), fun _ he => absurd he (h _)⟩
    refine along_cons ⟨fun finger h k hk _ => ?_, fun _ h => ?_⟩ (along_cons (hsilent ?_)
      (along_cons (hsilent ?_) (along_cons ⟨fun _ h => ?_, fun _ h => ?_⟩
        (along_cons (hsilent ?_) (along_cons (hsilent ?_) along_nil)))))
    · cases h
      simpa [enumeratedIds, templates] using hk
    · cases h
    · simp
    · simp
    · cases h
    · cases h
      decide
    · simp
    · simp
  · exact visits_cons (by decide) (visits_cons (by decide) (visits_cons (by decide)
      (visits_cons (by decide) (visits_cons (by decide) (visits_cons (by decide)
        (visits_nil (by decide)))))))
  · decide
  · refine along_cons ⟨?_, ?_, ?_, ?_⟩ (along_cons ⟨?_, ?_, ?_, ?_⟩
      (along_cons (keepsName_of_loaded ?_ (by decide) ?_)
        (along_cons (keepsName_of_loaded ?_ (by decide) ?_)
          (along_cons (keepsName_of_loaded ?_ (by decide) ?_)
            (along_cons (keepsName_of_loaded ?_ (by decide) ?_) along_nil)))))
    · exact fun hd => by cases hd
    · exact fun hd => by cases hd
    · exact fun hd => by cases hd
    · exact fun hd => by cases hd
    · rintro _ signal queue hq ⟨f, rfl⟩
      cases (List.cons.inj hq).1
    · rintro _ signal queue hq ⟨f, rfl⟩
      cases (List.cons.inj hq).1
    · rintro _ signal queue hq rfl
      cases (List.cons.inj hq).1
    · exact fun _ _ _ _ _ => by decide
    all_goals decide +kernel

/-- The HAL keeps finger `7`, which the file has as `left`. `:1.5` aborts the enumeration of the
start and enrols another finger: the file then has that one only. -/
theorem name_lost_after_abort :
    letI := qt56
    let file : FingerMap := (∅ : FingerMap).insert 7 "left"
    let s := boot (.answering SYS_OK) (fun _ => "") (some (QDataStream.write file))
    let is : List Input :=
      [⟨.call ":1.5" .Abort, .answering SYS_OK⟩,
        ⟨.call ":1.5" (.Enroll "right"), .answering SYS_OK⟩,
        ⟨.callback (.enrollresult 8 0), .answering SYS_OK⟩,
        ⟨.deliver, .answering SYS_OK⟩, ⟨.deliver, .answering SYS_OK⟩]
    (QDataStream.read (QDataStream.write file))[(7 : UInt32)]? = some "left" ∧
      templates [7] (daemon.edges s is) = [8, 7] ∧
      ((daemon.final s is).fpd.database.map QDataStream.read).map (·.toList) =
        some [(8, "right")] := by
  decide

end SailfishFpd
