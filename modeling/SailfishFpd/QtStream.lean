import SailfishFpd.Lib.Codec
import SailfishFpd.Qt

/-!
# The database file format

`QDataStream` at version `Qt_5_6`: numbers are big-endian, a `QString` is its
length in bytes and its UTF-16 units, a `QMap` is its size and its entries from
the last to the first. It is an instance of the parameter `QDataStream` of the
model. Lengths from `2 ^ 32 - 2` on, which Qt cannot write at this version, are
escaped, so that every map is read back.
-/

namespace SailfishFpd

/-- The UTF-16 units of a character. -/
def utf16Units (c : Char) : List UInt16 :=
  if c.toNat < 0x10000 then [UInt16.ofNat c.toNat]
  else
    [UInt16.ofNat (0xd800 + (c.toNat - 0x10000) / 0x400),
      UInt16.ofNat (0xdc00 + (c.toNat - 0x10000) % 0x400)]

/-- The characters of UTF-16 units. -/
def utf16Chars : List UInt16 → List Char
  | [] => []
  | [u] => [Char.ofNat u.toNat]
  | u :: v :: us =>
    if 0xd800 ≤ u.toNat ∧ u.toNat < 0xdc00 then
      Char.ofNat (0x10000 + (u.toNat - 0xd800) * 0x400 + (v.toNat - 0xdc00)) :: utf16Chars us
    else Char.ofNat u.toNat :: utf16Chars (v :: us)

theorem utf16Chars_single {u : UInt16} (h : ¬ (0xd800 ≤ u.toNat ∧ u.toNat < 0xdc00))
    (us : List UInt16) : utf16Chars (u :: us) = Char.ofNat u.toNat :: utf16Chars us := by
  cases us with
  | nil => rfl
  | cons v us => rw [utf16Chars, if_neg h]

theorem utf16Chars_units (c : Char) (us : List UInt16) :
    utf16Chars (utf16Units c ++ us) = c :: utf16Chars us := by
  have hv : c.toNat < 0xd800 ∨ (0xdfff < c.toNat ∧ c.toNat < 0x110000) := c.valid
  unfold utf16Units
  split
  · next h =>
    have hn : (UInt16.ofNat c.toNat).toNat = c.toNat := by simp; omega
    rw [List.singleton_append, utf16Chars_single (by rw [hn]; omega), hn, Char.ofNat_toNat]
  · next h =>
    have hu : (UInt16.ofNat (0xd800 + (c.toNat - 0x10000) / 0x400)).toNat =
        0xd800 + (c.toNat - 0x10000) / 0x400 := by simp; omega
    have hl : (UInt16.ofNat (0xdc00 + (c.toNat - 0x10000) % 0x400)).toNat =
        0xdc00 + (c.toNat - 0x10000) % 0x400 := by simp; omega
    rw [List.cons_append, List.singleton_append, utf16Chars, hu, hl, if_pos (by omega)]
    rw [show 0x10000 + (0xd800 + (c.toNat - 0x10000) / 0x400 - 0xd800) * 0x400 +
      (0xdc00 + (c.toNat - 0x10000) % 0x400 - 0xdc00) = c.toNat by omega, Char.ofNat_toNat]

theorem utf16Chars_flatMap (cs : List Char) : utf16Chars (cs.flatMap utf16Units) = cs := by
  induction cs with
  | nil => rfl
  | cons c cs ih => rw [List.flatMap_cons, utf16Chars_units, ih]

/-- A length in bytes, for a number of 16-bit units. -/
def unitLength : Codec Nat := Codec.length.via (2 * ·) (· / 2) (fun n => by omega)

/-- `QString`. -/
def qString : Codec String :=
  (Codec.list unitLength Codec.u16).via (fun s => s.toList.flatMap utf16Units)
    (fun us => String.ofList (utf16Chars us)) (fun s => by simp [utf16Chars_flatMap])

/-- The entries of a `QMap`, in the order they are written. -/
def qEntries : Codec (List (UInt32 × String)) := Codec.list Codec.length (Codec.u32.pair qString)

/-- `QDataStream` at version `Qt_5_6`; a failed read clears the map. A name is never the null
`QString`, which Qt writes as the length `0xFFFFFFFF`: it is empty, and that length is too large. -/
@[reducible] def qt56 : QDataStream where
  write m := qEntries.put m.toList.reverse
  read bytes :=
    match qEntries.get bytes with
    | some (entries, _) => Std.ExtTreeMap.ofList entries
    | none => ∅

theorem ofList_reverse_toList (m : FingerMap) :
    Std.ExtTreeMap.ofList m.toList.reverse = m := by
  apply Std.ExtTreeMap.ext_getElem?
  intro k
  have hd : m.toList.reverse.Pairwise fun a b => ¬ compare a.1 b.1 = .eq := by
    rw [List.pairwise_reverse]
    exact Std.ExtTreeMap.distinct_keys_toList.imp fun h e => h (Std.OrientedCmp.eq_symm e)
  cases h : m[k]? with
  | some name =>
    refine Std.ExtTreeMap.getElem?_ofList_of_mem (k := k) Std.ReflCmp.compare_self hd ?_
    rw [List.mem_reverse]
    exact Std.ExtTreeMap.mem_toList_iff_getElem?_eq_some.mpr h
  | none =>
    apply Std.ExtTreeMap.getElem?_ofList_of_contains_eq_false
    have hk : k ∉ m := fun hk => by simp [Std.ExtTreeMap.mem_iff_isSome_getElem?, h] at hk
    simpa [Std.ExtTreeMap.map_fst_toList_eq_keys] using hk

theorem qt56_lawful : @LawfulQDataStream qt56 :=
  letI := qt56
  { read_write := fun m => by
      show (match qEntries.get (qEntries.put m.toList.reverse) with
        | some (entries, _) => Std.ExtTreeMap.ofList entries
        | none => ∅) = m
      rw [← List.append_nil (qEntries.put _), qEntries.get_put]
      exact ofList_reverse_toList m }

theorem stable_qEntries : qEntries.Stable :=
  Codec.stable_length.list (Codec.stable_u32.pair
    (((Codec.stable_length.via _ _ _).list Codec.stable_u16).via _ _ _))

theorem qt56_cut : @CutQDataStream qt56 :=
  letI := qt56
  { read_take := fun m n hn => by
      show (match qEntries.get ((qEntries.put m.toList.reverse).take n) with
        | some (entries, _) => Std.ExtTreeMap.ofList entries
        | none => ∅) = (∅ : FingerMap)
      rw [stable_qEntries.get_take _ hn] }

end SailfishFpd
