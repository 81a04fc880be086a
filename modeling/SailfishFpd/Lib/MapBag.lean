import Mathlib.Data.List.Perm.Basic

/-!
# Ordered maps as bags of entries

Inserting a new key adds one entry to the list of an ordered map, up to the
order; erasing a key takes its entry off.
-/

namespace MapBag

open Std (ExtTreeMap)

variable {α β : Type} {cmp : α → α → Ordering} [Std.TransCmp cmp] [Std.LawfulEqCmp cmp]

theorem nodup_toList (m : ExtTreeMap α β cmp) : m.toList.Nodup := by
  refine ExtTreeMap.distinct_keys_toList.imp ?_
  rintro a _ h rfl
  exact h Std.ReflCmp.compare_self

theorem toList_insert [DecidableEq α] {m : ExtTreeMap α β cmp} {k : α} (h : k ∉ m) (v : β) :
    (m.insert k v).toList.Perm ((k, v) :: m.toList) := by
  have hnone : m[k]? = none := ExtTreeMap.getElem?_eq_none h
  have hnew : (k, v) ∉ m.toList := fun hm => by
    rw [ExtTreeMap.mem_toList_iff_getElem?_eq_some, hnone] at hm
    cases hm
  refine (List.perm_ext_iff_of_nodup (nodup_toList _)
    (List.nodup_cons.mpr ⟨hnew, nodup_toList m⟩)).mpr ?_
  rintro ⟨a, w⟩
  rw [List.mem_cons, ExtTreeMap.mem_toList_iff_getElem?_eq_some,
    ExtTreeMap.mem_toList_iff_getElem?_eq_some, ExtTreeMap.getElem?_insert]
  by_cases ha : k = a
  · subst ha
    have hself : cmp k k = .eq := Std.ReflCmp.compare_self
    simp [hnone, hself, eq_comm]
  · simp [ha, eq_comm (a := a)]

theorem toList_erase [DecidableEq α] {m : ExtTreeMap α β cmp} {k : α} {v : β}
    (h : m[k]? = some v) : m.toList.Perm ((k, v) :: (m.erase k).toList) := by
  have hm : m = (m.erase k).insert k v := by
    apply ExtTreeMap.ext_getElem?
    intro a
    rw [ExtTreeMap.getElem?_insert, ExtTreeMap.getElem?_erase]
    by_cases ha : k = a
    · subst ha
      simp [h]
    · simp [ha]
  have hno : k ∉ m.erase k := by simp
  have hperm := toList_insert hno v
  rwa [← hm] at hperm

end MapBag
