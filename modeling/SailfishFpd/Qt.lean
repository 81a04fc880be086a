import SailfishFpd.Hal.Biometry
import SailfishFpd.Lib.KeyedFold

/-!
# Qt and libc, as far as the daemon uses them

`QMap<uint32_t, QString>` is an ordered map with extensional equality.
`QDataStream` stays a parameter: the database code only relies on reading back
what was written (`LawfulQDataStream`).
-/

namespace SailfishFpd

/-- `QMap<uint32_t, QString>`. -/
abbrev FingerMap := Std.ExtTreeMap UInt32 String compare

namespace FingerMap

/-- `QMap::values()`: the values in the order of their keys. -/
def values (m : FingerMap) : List String := m.toList.map (·.2)

theorem mem_values {m : FingerMap} {name : String} :
    name ∈ values m ↔ ∃ k : UInt32, m[k]? = some name := by
  simp [values, Std.ExtTreeMap.mem_toList_iff_getElem?_eq_some]

@[simp] theorem erase_insert (m : FingerMap) (k : UInt32) (name : String) :
    (m.insert k name).erase k = m.erase k := by
  apply Std.ExtTreeMap.ext_getElem?
  intro a
  by_cases h : k = a <;>
    simp [Std.ExtTreeMap.getElem?_erase, Std.ExtTreeMap.getElem?_insert, h]

end FingerMap

/-- `QDataStream` at version `Qt_5_6` over the finger database: what `<<` appends to an empty
file, and what `>>` makes of a file. -/
class QDataStream where
  write : FingerMap → List UInt8
  read : List UInt8 → FingerMap

/-- Reading back what was written gives the map that was written. -/
class LawfulQDataStream [QDataStream] : Prop where
  read_write : ∀ m : FingerMap, QDataStream.read (QDataStream.write m) = m

attribute [simp] LawfulQDataStream.read_write

/-- A map of which only the front was written reads as an empty one: `>>` clears the map when it
reads past the end. -/
class CutQDataStream [QDataStream] : Prop where
  read_take : ∀ (m : FingerMap) {n : Nat}, n < (QDataStream.write m).length →
    QDataStream.read ((QDataStream.write m).take n) = ∅

/-- `QStringLiteral("Unknown %1").arg(k)`. -/
def unknownName (k : UInt32) : String := "Unknown " ++ toString k.toNat

theorem unknownName_injective : Function.Injective unknownName := by
  intro k l h
  have hrepr : toString k.toNat = toString l.toNat := (String.append_right_inj _).mp h
  have hdigits : Nat.toDigits 10 k.toNat = Nat.toDigits 10 l.toNat := by
    rw [← Nat.toList_repr, ← Nat.toList_repr]
    exact congrArg String.toList hrepr
  have hvalue := congrArg (fun digits => Nat.ofDigitChars 10 digits 0) hdigits
  simp only [Nat.ofDigitChars_ten_toDigits] at hvalue
  exact UInt32.toNat_inj.mp hvalue

/-- The value of the leading digits, as `atoi` accumulates it. -/
def digitsValue : List Char → Nat → Nat
  | c :: cs, n => if c.isDigit then digitsValue cs (10 * n + (c.toNat - '0'.toNat)) else n
  | [], n => n

/-- C's `isspace` in the "C" locale. -/
def isSpace (c : Char) : Bool :=
  c == ' ' || (9 ≤ c.toNat && c.toNat ≤ 13)

/-- `atoi`, for values within `int` range. -/
def atoi (s : String) : Int :=
  match s.toList.dropWhile isSpace with
  | '-' :: cs => -(digitsValue cs 0)
  | '+' :: cs => digitsValue cs 0
  | cs => digitsValue cs 0

end SailfishFpd
