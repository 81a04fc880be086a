import Mathlib.Data.List.Induction

/-!
# Folds over the keys of an ordered map

Loops that delete from or insert into a map while walking a list of keys taken
beforehand, over any key order. A loop body is `local` when it sets the entry of
the key it is at and no other; what the loop leaves at a key then depends only
on whether the key is on the list, not on the order or the repetitions.
-/

namespace KeyedFold

open Std (ExtTreeMap)

variable {α β : Type} {cmp : α → α → Ordering} [Std.TransCmp cmp] [DecidableEq α]

/-- A fold whose body sets the entry of its own key to `v`, when `p` holds of the key. -/
theorem getElem?_foldl_local {g : ExtTreeMap α β cmp → α → ExtTreeMap α β cmp} {p : α → Bool}
    {v : α → Option β} (hg : ∀ m a k, (g m a)[k]? = if k = a ∧ p a then v a else m[k]?)
    (ks : List α) (m : ExtTreeMap α β cmp) (k : α) :
    (ks.foldl g m)[k]? = if k ∈ ks ∧ p k then v k else m[k]? := by
  induction ks generalizing m with
  | nil => simp
  | cons a ks ih =>
    rw [List.foldl_cons, ih, hg]
    by_cases ha : k = a
    · subst ha
      by_cases hp : p k <;> simp [hp]
    · simp [ha]

variable [Std.LawfulEqCmp cmp]

/-- Erasing the listed keys that satisfy `p`. -/
theorem getElem?_foldl_erase (p : α → Bool) (ks : List α) (m : ExtTreeMap α β cmp) (k : α) :
    (ks.foldl (fun m a => if p a then m.erase a else m) m)[k]? =
      if k ∈ ks ∧ p k then none else m[k]? := by
  refine getElem?_foldl_local (v := fun _ => none) (fun m a k => ?_) ks m k
  by_cases hp : p a <;> simp [hp, ExtTreeMap.getElem?_erase, eq_comm (a := k)]

/-- Inserting a value that depends on the key only, at the listed keys that satisfy `p`. -/
theorem getElem?_foldl_insert (p : α → Bool) (f : α → β) (ks : List α)
    (m : ExtTreeMap α β cmp) (k : α) :
    (ks.foldl (fun m a => if p a then m.insert a (f a) else m) m)[k]? =
      if k ∈ ks ∧ p k then some (f k) else m[k]? := by
  refine getElem?_foldl_local (v := fun a => some (f a)) (fun m a k => ?_) ks m k
  by_cases hp : p a <;> simp [hp, ExtTreeMap.getElem?_insert, eq_comm (a := k)]

end KeyedFold
