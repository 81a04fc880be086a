import SailfishFpd.Lib.MapBag
import SailfishFpd.Store.Persistence

/-!
# Following the list

Clients see names, the map is keyed by the HAL's ids. A client that starts from
`GetAll` and follows `Added` and `Removed` has the list, as long as an enrolment
brings a new id and a removal takes off one that is in the map: `slot_succeeded`
overwrites the name of a known id without a word, and `slot_removed` reports an
empty name for an unknown one.
-/

namespace SailfishFpd

open FPDCommunity

def Change.added? : Change → Option String
  | .added name => some name
  | .removed _ | .listed => none

def Change.removed? : Change → Option String
  | .removed name => some name
  | .added _ | .listed => none

def addedNames (out : List Output) : List String := (changes out).filterMap Change.added?

def removedNames (out : List Output) : List String := (changes out).filterMap Change.removed?

theorem listed_mem_changes {out : List Output} :
    .listed ∈ changes out ↔ .signal .ListChanged ∈ out := by
  refine List.mem_filterMap.trans ⟨fun ⟨o, ho, h⟩ => ?_, fun h => ⟨_, h, rfl⟩⟩
  unfold Output.change at h
  split at h <;> simp_all

theorem FingerMap.length_values (m : FingerMap) : (FingerMap.values m).length = m.size := by
  rw [FingerMap.values, List.length_map, Std.ExtTreeMap.length_toList]

theorem FingerMap.values_empty : FingerMap.values ∅ = [] := by
  rw [FingerMap.values, Std.ExtTreeMap.toList_eq_nil_iff.mpr rfl, List.map_nil]

theorem FingerMap.values_insert {m : FingerMap} {k : UInt32} (h : k ∉ m) (name : String) :
    (FingerMap.values (m.insert k name)).Perm (name :: FingerMap.values m) :=
  (MapBag.toList_insert h name).map Prod.snd

theorem FingerMap.values_erase {m : FingerMap} {k : UInt32} {name : String}
    (h : m[k]? = some name) :
    (FingerMap.values m).Perm (name :: FingerMap.values (m.erase k)) :=
  (MapBag.toList_erase h).map Prod.snd

/-- A client that has the names before the step has those after it, from the signals. -/
structure FollowsList (e : Edge) : Prop where
  balance : (e.dst.fpd.GetAll ++ removedNames e.out.out).Perm
    (e.src.fpd.GetAll ++ addedNames e.out.out)
  removed : (removedNames e.out.out).Subperm e.src.fpd.GetAll
  told : e.dst.fpd.GetAll ≠ e.src.fpd.GetAll → .signal .ListChanged ∈ e.out.out

/-- The id that is added is not in the map, and the one that is removed is. -/
structure MovesKeys (e : Edge) : Prop where
  added : e.input.event = .deliver → ∀ finger queue, e.src.queue = .succeeded finger :: queue →
    finger ∉ e.src.fpd.m_fingerMap
  removed : e.input.event = .deliver → ∀ finger queue, e.src.queue = .removed finger :: queue →
    finger ≠ 0 → finger ∈ e.src.fpd.m_fingerMap

section Runs

variable [QDataStream]

/-- What an edit does to the names. -/
structure Edit.Follows (m : FingerMap) (e : Edit) : Prop where
  balance : (FingerMap.values (e.apply m) ++ (e.changes m).filterMap Change.removed?).Perm
    (FingerMap.values m ++ (e.changes m).filterMap Change.added?)
  removed : ((e.changes m).filterMap Change.removed?).Subperm (FingerMap.values m)
  told : FingerMap.values (e.apply m) ≠ FingerMap.values m → .listed ∈ e.changes m

omit [QDataStream] in
theorem Edit.follows_keep (m : FingerMap) : Edit.keep.Follows m :=
  ⟨by simp [Edit.apply, Edit.changes], List.nil_subperm, fun h => absurd rfl h⟩

omit [QDataStream] in
theorem Edit.follows_add {m : FingerMap} {finger : UInt32} {name : String} :
    (Edit.add finger name).Follows m ↔ finger ∉ m := by
  refine ⟨fun h hm => ?_, fun h => ⟨?_, List.nil_subperm, fun _ => by simp [Edit.changes]⟩⟩
  · have hperm : (FingerMap.values (m.insert finger name) ++ []).Perm
        (FingerMap.values m ++ [name]) := h.balance
    have hlen := hperm.length_eq
    simp [FingerMap.length_values, Std.ExtTreeMap.size_insert, hm] at hlen
  · show (FingerMap.values (m.insert finger name) ++ []).Perm (FingerMap.values m ++ [name])
    rw [List.append_nil]
    exact (FingerMap.values_insert h name).trans (List.perm_append_singleton name _).symm

omit [QDataStream] in
theorem Edit.follows_drop {m : FingerMap} {finger : UInt32} :
    (Edit.drop finger).Follows m ↔ finger ∈ m := by
  refine ⟨fun h => ?_, fun h => ?_⟩
  · by_contra hm
    have hperm : (FingerMap.values (m.erase finger) ++ [(m[finger]?).getD ""]).Perm
        (FingerMap.values m ++ []) := h.balance
    have hlen := hperm.length_eq
    simp [FingerMap.length_values, Std.ExtTreeMap.size_erase, hm] at hlen
  · obtain ⟨name, hname⟩ :=
      Option.isSome_iff_exists.mp (Std.ExtTreeMap.mem_iff_isSome_getElem?.mp h)
    have hperm := FingerMap.values_erase hname
    refine ⟨?_, ?_, fun _ => by simp [Edit.changes]⟩
    · show (FingerMap.values (m.erase finger) ++ [(m[finger]?).getD ""]).Perm
        (FingerMap.values m ++ [])
      rw [List.append_nil, hname, Option.getD_some]
      exact (List.perm_append_singleton name _).trans hperm.symm
    · show [(m[finger]?).getD ""].Subperm (FingerMap.values m)
      rw [hname, Option.getD_some]
      exact List.singleton_subperm_iff.mpr (FingerMap.mem_values.mpr ⟨finger, hname⟩)

omit [QDataStream] in
theorem Edit.follows_wipe (m : FingerMap) : Edit.wipe.Follows m := by
  have hremoved : (Edit.wipe.changes m).filterMap Change.removed? = FingerMap.values m := by
    simp [Edit.changes, List.filterMap_append, List.filterMap_map, Function.comp_def,
      Change.removed?, List.filterMap_cons]
  have hadded : (Edit.wipe.changes m).filterMap Change.added? = [] := by
    simp [Edit.changes, List.filterMap_append, List.filterMap_map, Function.comp_def,
      Change.added?, List.filterMap_cons]
  refine ⟨?_, ?_, fun _ => by simp [Edit.changes]⟩
  · rw [hremoved, hadded, List.append_nil, Edit.apply, FingerMap.values_empty, List.nil_append]
  · rw [hremoved]

theorem followsList_iff (s : System) (i : Input) :
    FollowsList (daemon.edge s i) ↔ (s.edit i).Follows s.fpd.m_fingerMap := by
  obtain ⟨hmap, -, hchanges⟩ := step_edits s i
  have hremoved : removedNames (daemon.edge s i).out.out =
      ((s.edit i).changes s.fpd.m_fingerMap).filterMap Change.removed? := by
    rw [removedNames, ← hchanges]
    rfl
  have hadded : addedNames (daemon.edge s i).out.out =
      ((s.edit i).changes s.fpd.m_fingerMap).filterMap Change.added? := by
    rw [addedNames, ← hchanges]
    rfl
  have hlist : (daemon.edge s i).dst.fpd.GetAll =
      FingerMap.values ((s.edit i).apply s.fpd.m_fingerMap) := by rw [← hmap]; rfl
  have htold : .signal .ListChanged ∈ (daemon.edge s i).out.out ↔
      .listed ∈ (s.edit i).changes s.fpd.m_fingerMap := by
    rw [← hchanges, listed_mem_changes]
    rfl
  refine ⟨fun h => ⟨?_, ?_, ?_⟩, fun h => ⟨?_, ?_, ?_⟩⟩
  · have := h.balance
    rwa [hremoved, hadded, hlist] at this
  · exact hremoved ▸ h.removed
  · exact fun hne => htold.mp (h.told (by rwa [hlist]))
  · rw [hremoved, hadded, hlist]
    exact h.balance
  · rw [hremoved]
    exact h.removed
  · exact fun hne => htold.mpr (h.told (by rwa [hlist] at hne))

/-- A step that completes no enumeration can be followed when it moves the keys it names. -/
theorem followsList_iff_movesKeys {s : System} {i : Input}
    (hno : ¬ CompletesEnumeration (daemon.edge s i)) :
    FollowsList (daemon.edge s i) ↔ MovesKeys (daemon.edge s i) := by
  rw [followsList_iff]
  rcases s.edit_cases i with he | ⟨hd, f, queue, hq⟩ | ⟨hd, f, queue, hq⟩ | hc
  · rw [he]
    refine iff_of_true (Edit.follows_keep _) ⟨fun hd f queue hq => ?_, fun hd f queue hq hf => ?_⟩
    · rw [System.edit_deliver (s := s) (i := i) hd hq] at he
      cases he
    · rw [System.edit_deliver (s := s) (i := i) hd hq, signalEdit, if_neg hf] at he
      cases he
  · rw [System.edit_deliver hd hq, signalEdit, Edit.follows_add]
    refine ⟨fun h => ⟨fun _ f' queue' hq' => ?_, fun _ f' queue' hq' => ?_⟩,
      fun h => h.added hd f queue hq⟩
    · cases hq.symm.trans hq'
      exact h
    · cases hq.symm.trans hq'
  · rw [System.edit_deliver hd hq, signalEdit]
    have hadded : ∀ f' queue', (daemon.edge s i).src.queue = .succeeded f' :: queue' →
        f' ∉ s.fpd.m_fingerMap := fun f' queue' hq' => by cases hq.symm.trans hq'
    by_cases hf : f = 0
    · rw [if_pos hf]
      refine iff_of_true (Edit.follows_wipe _) ⟨fun _ => hadded, fun _ f' queue' hq' hf' => ?_⟩
      cases hq.symm.trans hq'
      exact absurd hf hf'
    · rw [if_neg hf, Edit.follows_drop]
      refine ⟨fun h => ⟨fun _ => hadded, fun _ f' queue' hq' _ => ?_⟩,
        fun h => h.removed hd f queue hq hf⟩
      cases hq.symm.trans hq'
      exact h
  · exact absurd hc hno

/-- **Clients can follow the list from signals, exactly in the runs that add ids that are new and
remove ids that are there.** -/
theorem clients_follow_list (env : Env) (getprop : String → String)
    (database : Option (List UInt8)) (is : List Input) :
    (daemon.Along (boot env getprop database) is fun past e =>
        Loaded past → ¬ CompletesEnumeration e → FollowsList e) ↔
      daemon.Along (boot env getprop database) is fun past e =>
        Loaded past → ¬ CompletesEnumeration e → MovesKeys e := by
  refine ⟨?_, ?_⟩
  · exact fun h js i ks e hl hc => (followsList_iff_movesKeys hc).mp (h js i ks e hl hc)
  · exact fun h js i ks e hl hc => (followsList_iff_movesKeys hc).mpr (h js i ks e hl hc)

end Runs

/-- `:1.5` aborts a `Clear` after which the HAL holds one finger less, and enrols again: the HAL
reuses the id, and the name that is gone was not reported. -/
theorem overwritten_name_is_not_reported :
    letI := qt56
    let before : List Input :=
      [⟨.callback (.enumerate 7 1), .answering SYS_OK⟩,
        ⟨.callback (.enumerate 8 0), .answering SYS_OK⟩, ⟨.deliver, .answering SYS_OK⟩,
        ⟨.call ":1.5" .Clear, .answering SYS_OK⟩,
        ⟨.callback (.removed 7 1), .answering SYS_OK⟩,
        ⟨.call ":1.5" .Abort, .answering SYS_OK⟩,
        ⟨.call ":1.5" (.Enroll "left"), .answering SYS_OK⟩,
        ⟨.callback (.enrollresult 7 0), .answering SYS_OK⟩, ⟨.deliver, .answering SYS_OK⟩]
    let s := boot (.answering SYS_OK) (fun _ => "") none
    let e := daemon.edge (daemon.final s before) ⟨.deliver, .answering SYS_OK⟩
    Loaded (daemon.edges s before) ∧ ¬ CompletesEnumeration e ∧ ¬ FollowsList e ∧
      e.src.fpd.GetAll = ["Unknown 7", "Unknown 8"] ∧ e.dst.fpd.GetAll = ["left", "Unknown 8"] ∧
      changes e.out.out = [.added "left", .listed] := by
  let := qt56
  intro before s e
  refine ⟨⟨_, .tail _ (.tail _ (.head _)), rfl, [], rfl⟩, fun hc => ?_, fun h => ?_, by decide,
    by decide, by decide⟩
  · obtain ⟨-, queue, hq⟩ := hc
    cases (List.cons.inj hq).1
  · exact absurd h.balance.length_eq (by decide)

end SailfishFpd
