import Mathlib.Data.List.Destutter

/-!
# Values with repetitions removed

A variable that is announced when it changes, and only then: what is announced
after the value `a` is `news a l`, when the variable takes the values `l`.
-/

namespace Announce

variable {α : Type} [DecidableEq α]

/-- The values of `l` that differ from the one before, the first from `a`. -/
def news (a : α) : List α → List α
  | [] => []
  | b :: l => if b = a then news a l else b :: news b l

@[simp] theorem news_nil (a : α) : news a [] = [] := rfl

@[simp] theorem news_cons_self (a : α) (l : List α) : news a (a :: l) = news a l := if_pos rfl

theorem news_cons_ne {a b : α} (h : b ≠ a) (l : List α) : news a (b :: l) = b :: news b l :=
  if_neg h

/-- `a` and what is news after it is the list without its repetitions. -/
theorem cons_news (a : α) (l : List α) : a :: news a l = (a :: l).destutter (· ≠ ·) := by
  rw [List.destutter_cons']
  induction l generalizing a with
  | nil => rfl
  | cons b l ih =>
    by_cases h : b = a
    · subst h
      rw [news_cons_self, List.destutter'_cons_neg _ (by simp), ih]
    · rw [news_cons_ne h, List.destutter'_cons_pos _ (Ne.symm h), ih]

omit [DecidableEq α] in
theorem getLastD_append (a : α) (l m : List α) :
    (l ++ m).getLastD a = m.getLastD (l.getLastD a) := by
  simp [List.getLastD_eq_getLast?, List.getLast?_append, Option.getD_or]

theorem news_append (a : α) (l m : List α) :
    news a (l ++ m) = news a l ++ news (l.getLastD a) m := by
  induction l generalizing a with
  | nil => rfl
  | cons b l ih =>
    rw [List.cons_append, List.getLastD_cons]
    by_cases h : b = a
    · subst h
      rw [news_cons_self, news_cons_self, ih]
    · rw [news_cons_ne h, news_cons_ne h, ih, List.cons_append]

end Announce
