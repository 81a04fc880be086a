import Mathlib.Data.List.Basic

/-!
# Trees of directories

A path is the root or an entry of a directory; a tree gives an attribute to the
paths that exist. That the root exists, and the directory of whatever exists, are
fields of the tree, so its operations come with the proof that they leave a tree.
`Keeps` says that what existed before is still there with its attribute.
-/

namespace FileTree

inductive Path (ν : Type) where
  | root
  | child (dir : Path ν) (leaf : ν)
  deriving DecidableEq

namespace Path

variable {ν : Type}

/-- The path and the directories it is in. -/
def upTo : Path ν → List (Path ν)
  | root => [root]
  | child dir leaf => child dir leaf :: dir.upTo

theorem mem_upTo_self (p : Path ν) : p ∈ p.upTo := by
  cases p <;> exact List.mem_cons_self

theorem length_upTo_le {p q : Path ν} (h : q ∈ p.upTo) : q.upTo.length ≤ p.upTo.length := by
  induction p with
  | root =>
    obtain rfl := List.mem_singleton.mp h
    exact Nat.le_refl _
  | child dir leaf ih =>
    rcases List.mem_cons.mp h with rfl | h
    · exact Nat.le_refl _
    · exact Nat.le_succ_of_le (ih h)

/-- A directory is not inside its entries. -/
theorem child_not_mem_upTo (dir : Path ν) (leaf : ν) : child dir leaf ∉ dir.upTo :=
  fun h => absurd (length_upTo_le h) (Nat.not_succ_le_self _)

end Path

@[ext] structure Tree (ν α : Type) where
  entry : Path ν → Option α
  root : (entry .root).isSome
  closed : ∀ dir leaf, (entry (.child dir leaf)).isSome → (entry dir).isSome

namespace Tree

variable {ν α : Type} {t t₀ t₁ t₂ : Tree ν α} {p dir : Path ν} {leaf : ν}

def Exists (t : Tree ν α) (p : Path ν) : Prop := (t.entry p).isSome

instance (t : Tree ν α) (p : Path ν) : Decidable (t.Exists p) :=
  inferInstanceAs (Decidable ((t.entry p).isSome = true))

theorem exists_of_entry {a : α} (h : t.entry p = some a) : t.Exists p := by
  simp [Exists, h]

/-- With a path, the directories it is in exist. -/
theorem exists_of_mem_upTo (h : t.Exists p) {d : Path ν} (hd : d ∈ p.upTo) : t.Exists d := by
  induction p with
  | root =>
    obtain rfl := List.mem_singleton.mp hd
    exact h
  | child dir leaf ih =>
    rcases List.mem_cons.mp hd with rfl | hd
    · exact h
    · exact ih (t.closed dir leaf h) hd

/-- What exists in `t₀` has its attribute in `t`. -/
def Keeps (t₀ t : Tree ν α) : Prop := ∀ p a, t₀.entry p = some a → t.entry p = some a

theorem Keeps.refl (t : Tree ν α) : Keeps t t := fun _ _ h => h

theorem Keeps.trans (h : Keeps t₀ t₁) (h' : Keeps t₁ t₂) : Keeps t₀ t₂ :=
  fun p a hp => h' p a (h p a hp)

theorem Keeps.exists (h : Keeps t₀ t) (hp : t₀.Exists p) : t.Exists p := by
  obtain ⟨a, ha⟩ := Option.isSome_iff_exists.mp hp
  exact exists_of_entry (h p a ha)

section Operations

variable [DecidableEq ν]

def mkdir (t : Tree ν α) (dir : Path ν) (leaf : ν) (a : α) (h : t.Exists dir) : Tree ν α where
  entry p := if p = .child dir leaf then some a else t.entry p
  root := by simpa using t.root
  closed d l hl := by
    by_cases hd : d = .child dir leaf
    · simp [hd]
    · rw [if_neg hd]
      by_cases hc : Path.child d l = .child dir leaf
      · obtain ⟨rfl, rfl⟩ := Path.child.inj hc
        exact h
      · rw [if_neg hc] at hl
        exact t.closed d l hl

theorem isSome_modified (t : Tree ν α) (p : Path ν) (f : α → α) (q : Path ν) :
    (if q = p then (t.entry q).map f else t.entry q).isSome = (t.entry q).isSome := by
  split
  · exact Option.isSome_map
  · rfl

def modify (t : Tree ν α) (p : Path ν) (f : α → α) : Tree ν α where
  entry q := if q = p then (t.entry q).map f else t.entry q
  root := by
    rw [isSome_modified]
    exact t.root
  closed d l hl := by
    rw [isSome_modified] at hl ⊢
    exact t.closed d l hl

@[simp] theorem entry_mkdir (h : t.Exists dir) (a : α) (p : Path ν) :
    (t.mkdir dir leaf a h).entry p = if p = .child dir leaf then some a else t.entry p := rfl

@[simp] theorem entry_modify (f : α → α) (p q : Path ν) :
    (t.modify p f).entry q = if q = p then (t.entry q).map f else t.entry q := rfl

/-- To change the attribute of a path just made is to make it with the changed one. -/
@[simp] theorem modify_mkdir (h : t.Exists dir) (a : α) (f : α → α) :
    (t.mkdir dir leaf a h).modify (.child dir leaf) f = t.mkdir dir leaf (f a) h := by
  ext1
  funext p
  by_cases hp : p = .child dir leaf <;> simp [hp]

end Operations

end Tree

end FileTree
