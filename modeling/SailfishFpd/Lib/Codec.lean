import Mathlib.Data.List.Induction

/-!
# Byte codecs

A `Codec` writes a value as bytes and reads it back from the front of a byte
list; that it reads back what it wrote, and leaves what follows, is a field.
Formats are built from codecs, so their round trip comes with them.
-/

structure Codec (α : Type) where
  put : α → List UInt8
  get : List UInt8 → Option (α × List UInt8)
  get_put : ∀ a rest, get (put a ++ rest) = some (a, rest)

namespace Codec

variable {α β : Type}

def byte : Codec UInt8 where
  put b := [b]
  get
    | b :: rest => some (b, rest)
    | [] => none
  get_put _ _ := rfl

def pair (c : Codec α) (d : Codec β) : Codec (α × β) where
  put p := c.put p.1 ++ d.put p.2
  get bytes := do
    let (a, rest) ← c.get bytes
    let (b, rest) ← d.get rest
    return ((a, b), rest)
  get_put p rest := by simp [List.append_assoc, c.get_put, d.get_put]

/-- Values of another type, written through a function with a left inverse. -/
def via (c : Codec α) (f : β → α) (g : α → β) (h : ∀ b, g (f b) = b) : Codec β where
  put b := c.put (f b)
  get bytes := (c.get bytes).map fun p => (g p.1, p.2)
  get_put b rest := by simp [c.get_put, h]

def getMany (c : Codec α) : Nat → List UInt8 → Option (List α × List UInt8)
  | 0, bytes => some ([], bytes)
  | n + 1, bytes => do
    let (a, rest) ← c.get bytes
    let (as, rest) ← getMany c n rest
    return (a :: as, rest)

theorem getMany_put (c : Codec α) (as : List α) (rest : List UInt8) :
    c.getMany as.length (as.flatMap c.put ++ rest) = some (as, rest) := by
  induction as with
  | nil => rfl
  | cons a as ih => simp [getMany, List.append_assoc, c.get_put, ih]

def list (len : Codec Nat) (c : Codec α) : Codec (List α) where
  put as := len.put as.length ++ as.flatMap c.put
  get bytes := do
    let (n, rest) ← len.get bytes
    c.getMany n rest
  get_put as rest := by simp [List.append_assoc, len.get_put, getMany_put]

/-! ## Big-endian numbers -/

def u16 : Codec UInt16 :=
  (byte.pair byte).via (fun w => (UInt8.ofNat (w.toNat / 256), UInt8.ofNat w.toNat))
    (fun p => UInt16.ofNat (256 * p.1.toNat + p.2.toNat))
    (fun w => by
      have hw := w.toNat_lt
      apply UInt16.toNat.inj
      simp
      omega)

def u32 : Codec UInt32 :=
  (u16.pair u16).via (fun w => (UInt16.ofNat (w.toNat / 65536), UInt16.ofNat w.toNat))
    (fun p => UInt32.ofNat (65536 * p.1.toNat + p.2.toNat))
    (fun w => by
      have hw := w.toNat_lt
      apply UInt32.toNat.inj
      simp
      omega)

/-- Reads a number in base one, up to its end mark. -/
def getUnary : List UInt8 → Option (Nat × List UInt8)
  | [] => none
  | b :: rest => if b = 0 then some (0, rest) else (getUnary rest).map fun p => (p.1 + 1, p.2)

theorem getUnary_put (n : Nat) (rest : List UInt8) :
    getUnary (List.replicate n 1 ++ 0 :: rest) = some (n, rest) := by
  induction n with
  | zero => rfl
  | succ n ih => simp [List.replicate_succ, getUnary, ih]

/-- Stands for a length that 32 bits do not hold. -/
def lengthMark : UInt32 := 0xFFFFFFFE

/-- A length: 32 bits when it fits, else the mark and the length in base one. -/
def length : Codec Nat where
  put n :=
    if n < lengthMark.toNat then u32.put (UInt32.ofNat n)
    else u32.put lengthMark ++ List.replicate n 1 ++ [0]
  get bytes := do
    let (n, rest) ← u32.get bytes
    if n = lengthMark then getUnary rest else return (n.toNat, rest)
  get_put n rest := by
    by_cases hn : n < lengthMark.toNat
    · have h1 : (UInt32.ofNat n).toNat = n :=
        UInt32.toNat_ofNat_of_lt' (Nat.lt_trans hn lengthMark.toNat_lt)
      have h2 : UInt32.ofNat n ≠ lengthMark := by
        intro h
        rw [h] at h1
        omega
      simp [hn, u32.get_put, h1, h2]
    · simp [hn, List.append_assoc, u32.get_put, getUnary_put]

/-! ## Input that was cut short -/

/-- What is read from the front stays the same when more follows. -/
structure Stable (c : Codec α) : Prop where
  get_append : ∀ {bytes a rest}, c.get bytes = some (a, rest) → ∀ more,
    c.get (bytes ++ more) = some (a, rest ++ more)

/-- Then a value is not read from part of its bytes. -/
theorem Stable.get_take {c : Codec α} (h : c.Stable) (a : α) {n : Nat}
    (hn : n < (c.put a).length) : c.get ((c.put a).take n) = none := by
  rw [Option.eq_none_iff_forall_ne_some]
  rintro ⟨b, rest⟩ hget
  have hall := h.get_append hget ((c.put a).drop n)
  have hput := c.get_put a []
  rw [List.append_nil] at hput
  rw [List.take_append_drop, hput] at hall
  have hnil : [] = rest ++ (c.put a).drop n := (Prod.mk.inj (Option.some.inj hall)).2
  have hlen := congrArg List.length hnil
  simp only [List.length_append, List.length_drop, List.length_nil] at hlen
  omega

theorem stable_byte : byte.Stable := by
  refine ⟨fun {bytes a rest} h more => ?_⟩
  cases bytes with
  | nil => cases h
  | cons b bytes =>
    obtain ⟨rfl, rfl⟩ : b = a ∧ bytes = rest := by simpa [byte] using h
    rfl

theorem Stable.pair {c : Codec α} {d : Codec β} (hc : c.Stable) (hd : d.Stable) :
    (c.pair d).Stable := by
  refine ⟨fun {bytes p rest} h more => ?_⟩
  obtain ⟨⟨a, rest'⟩, ha, h⟩ := Option.bind_eq_some_iff.mp h
  obtain ⟨⟨b, rest''⟩, hb, h⟩ := Option.bind_eq_some_iff.mp h
  obtain ⟨rfl, rfl⟩ : (a, b) = p ∧ rest'' = rest := by simpa using h
  simp [Codec.pair, hc.get_append ha, hd.get_append hb]

theorem Stable.via {c : Codec α} (hc : c.Stable) (f : β → α) (g : α → β)
    (h : ∀ b, g (f b) = b) : (c.via f g h).Stable := by
  refine ⟨fun {bytes b rest} hget more => ?_⟩
  obtain ⟨⟨a, rest'⟩, ha, hp⟩ := Option.map_eq_some_iff.mp hget
  obtain ⟨rfl, rfl⟩ : g a = b ∧ rest' = rest := by simpa using hp
  simp [Codec.via, hc.get_append ha]

theorem Stable.getMany {c : Codec α} (hc : c.Stable) {n : Nat} {bytes : List UInt8} {as : List α}
    {rest : List UInt8} (h : c.getMany n bytes = some (as, rest)) (more : List UInt8) :
    c.getMany n (bytes ++ more) = some (as, rest ++ more) := by
  induction n generalizing bytes as with
  | zero =>
    obtain ⟨rfl, rfl⟩ : [] = as ∧ bytes = rest := by simpa [Codec.getMany] using h
    rfl
  | succ n ih =>
    obtain ⟨⟨a, rest'⟩, ha, h⟩ := Option.bind_eq_some_iff.mp h
    obtain ⟨⟨bs, rest''⟩, hb, h⟩ := Option.bind_eq_some_iff.mp h
    obtain ⟨rfl, rfl⟩ : a :: bs = as ∧ rest'' = rest := by simpa using h
    simp [Codec.getMany, hc.get_append ha, ih hb]

theorem Stable.list {len : Codec Nat} {c : Codec α} (hlen : len.Stable) (hc : c.Stable) :
    (Codec.list len c).Stable := by
  refine ⟨fun {bytes as rest} h more => ?_⟩
  obtain ⟨⟨n, rest'⟩, hn, h⟩ := Option.bind_eq_some_iff.mp h
  simp [Codec.list, hlen.get_append hn, hc.getMany h]

theorem stable_u16 : u16.Stable := (stable_byte.pair stable_byte).via _ _ _

theorem stable_u32 : u32.Stable := (stable_u16.pair stable_u16).via _ _ _

theorem getUnary_append {bytes : List UInt8} {n : Nat} {rest : List UInt8}
    (h : getUnary bytes = some (n, rest)) (more : List UInt8) :
    getUnary (bytes ++ more) = some (n, rest ++ more) := by
  induction bytes generalizing n with
  | nil => cases h
  | cons b bytes ih =>
    unfold getUnary at h
    rw [List.cons_append]
    unfold getUnary
    by_cases hb : b = 0
    · rw [if_pos hb] at h ⊢
      obtain ⟨rfl, rfl⟩ : 0 = n ∧ bytes = rest := by simpa using h
      rfl
    · rw [if_neg hb] at h ⊢
      obtain ⟨⟨m, rest'⟩, hm, hp⟩ := Option.map_eq_some_iff.mp h
      obtain ⟨rfl, rfl⟩ : m + 1 = n ∧ rest' = rest := by simpa using hp
      rw [ih hm]
      rfl

theorem stable_length : length.Stable := by
  refine ⟨fun {bytes n rest} h more => ?_⟩
  obtain ⟨⟨w, rest'⟩, hw, h⟩ := Option.bind_eq_some_iff.mp h
  simp only [length, stable_u32.get_append hw, Option.bind_eq_bind, Option.bind_some]
  by_cases hmark : w = lengthMark
  · simp only [hmark, if_true] at h ⊢
    exact getUnary_append h more
  · simp only [hmark, if_false] at h ⊢
    obtain ⟨rfl, rfl⟩ : w.toNat = n ∧ rest' = rest := by simpa using h
    rfl

end Codec
