import SailfishFpd.Store.Edits

/-!
# Reconciliation

`loadFingers` drops the entries of the file whose finger the HAL did not report
and names the reported fingers the file does not know. What it leaves at a key
depends on the key only: not on the order of the reports, nor on repetitions.
-/

namespace SailfishFpd

namespace FPDCommunity

theorem getElem?_dropMissing (enumeratedFingers : List UInt32) (m : FingerMap) (k : UInt32) :
    (dropMissing enumeratedFingers m)[k]? = if k ∈ enumeratedFingers then m[k]? else none := by
  have hfold := KeyedFold.getElem?_foldl_erase (fun a => !enumeratedFingers.contains a) m.keys m k
  rw [dropMissing, hfold]
  by_cases hk : k ∈ enumeratedFingers
  · simp [hk]
  · by_cases hm : k ∈ m
    · simp [hk, hm]
    · simp [hk, hm]

theorem getElem?_addUnknown (enumeratedFingers : List UInt32) (m : FingerMap) (k : UInt32) :
    (addUnknown enumeratedFingers m)[k]? =
      if k ∈ enumeratedFingers ∧ k ∉ m then some (unknownName k) else m[k]? := by
  have hfold := KeyedFold.getElem?_foldl_insert (fun a => !m.keys.contains a) unknownName
    enumeratedFingers m k
  rw [addUnknown, hfold]
  by_cases hm : k ∈ m <;> simp [hm]

/-- **The map after reconciliation**: the reported fingers, each under its name in the file, or
under a generated one. -/
theorem getElem?_reconcile (enumeratedFingers : List UInt32) (m : FingerMap) (k : UInt32) :
    (reconcile enumeratedFingers m)[k]? =
      if k ∈ enumeratedFingers then some ((m[k]?).getD (unknownName k)) else none := by
  simp only [reconcile, getElem?_addUnknown, Std.ExtTreeMap.mem_iff_isSome_getElem?,
    getElem?_dropMissing]
  by_cases hk : k ∈ enumeratedFingers
  · cases h : m[k]? <;> simp [hk]
  · simp [hk]

theorem mem_reconcile {enumeratedFingers : List UInt32} {m : FingerMap} {k : UInt32} :
    k ∈ reconcile enumeratedFingers m ↔ k ∈ enumeratedFingers := by
  rw [Std.ExtTreeMap.mem_iff_isSome_getElem?, getElem?_reconcile]
  by_cases hk : k ∈ enumeratedFingers <;> simp [hk]

theorem getElem?_reconcile_of_mem {enumeratedFingers : List UInt32} {m : FingerMap} {k : UInt32}
    {name : String} (hk : k ∈ enumeratedFingers) (hm : m[k]? = some name) :
    (reconcile enumeratedFingers m)[k]? = some name := by
  rw [getElem?_reconcile, if_pos hk, hm, Option.getD_some]

/-- When the reported fingers are those of the file, but for the id `0` that is never reported,
reconciliation leaves the file's map, less that id. -/
theorem reconcile_eq_erase {enumeratedFingers : List UInt32} {m : FingerMap}
    (h : ∀ k, k ∈ enumeratedFingers ↔ k ≠ 0 ∧ k ∈ m) :
    reconcile enumeratedFingers m = m.erase 0 := by
  apply Std.ExtTreeMap.ext_getElem?
  intro k
  rw [getElem?_reconcile, Std.ExtTreeMap.getElem?_erase]
  by_cases hk : k = 0
  · have hno : (0 : UInt32) ∉ enumeratedFingers := fun hin => ((h 0).mp hin).1 rfl
    subst hk
    simp [hno]
  · by_cases hm : k ∈ m
    · have hin : k ∈ enumeratedFingers := (h k).mpr ⟨hk, hm⟩
      have hne : (0 : UInt32) ≠ k := Ne.symm hk
      simp [hin, hm, hne]
    · have hno : k ∉ enumeratedFingers := fun hin => hm ((h k).mp hin).2
      simp [hno, hm]

end FPDCommunity

end SailfishFpd
