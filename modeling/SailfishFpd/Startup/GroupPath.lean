import SailfishFpd.AndroidFP

/-!
# The path of the fingerprint store

`getDefaultGroupPath` asks for the first API level, and for that of the SDK when
the answer is empty. But `AndroidPropertyStore` hands on what `getprop` prints,
and a property that is not set prints as a newline: the second question is never
asked, and `atoi` makes level `0` of the newline.
-/

namespace SailfishFpd

/-- What `getprop` prints: the value and a newline, or the newline alone. -/
def getprop (properties : String → Option String) (key : String) : String :=
  (properties key).getD "" ++ "\n"

/-- `AndroidPropertyStore::get`: the standard output of `/usr/bin/getprop`, as it is. -/
def AndroidPropertyStore.get (properties : String → Option String) (key : String) : String :=
  getprop properties key

/-- A decimal number within `int` range, as it is written. -/
structure Numeral where
  negative : Bool
  digits : List Char
  digits_ne_nil : digits ≠ []
  isDigit : ∀ c ∈ digits, c.isDigit = true
  inRange : Nat.ofDigitChars 10 digits 0 < 0x80000000 + negative.toNat

namespace Numeral

def text (n : Numeral) : String :=
  String.ofList (if n.negative then '-' :: n.digits else n.digits)

def value (n : Numeral) : Int :=
  if n.negative then -(Nat.ofDigitChars 10 n.digits 0) else Nat.ofDigitChars 10 n.digits 0

end Numeral

theorem digitsValue_append {digits : List Char} (h : ∀ c ∈ digits, c.isDigit = true)
    (rest : List Char) (n : Nat) :
    digitsValue (digits ++ rest) n = digitsValue rest (Nat.ofDigitChars 10 digits n) := by
  induction digits generalizing n with
  | nil => rw [List.nil_append, Nat.ofDigitChars_nil]
  | cons c digits ih =>
    rw [List.cons_append, digitsValue, if_pos (h c List.mem_cons_self), Nat.ofDigitChars_cons]
    exact ih (fun d hd => h d (List.mem_cons_of_mem _ hd)) _

theorem isDigit_ne {c : Char} (h : c.isDigit = true) : isSpace c = false ∧ c ≠ '-' ∧ c ≠ '+' := by
  have hc : 48 ≤ c.toNat ∧ c.toNat ≤ 57 := by
    simp only [Char.isDigit, Bool.and_eq_true, decide_eq_true_eq, ge_iff_le,
      UInt32.le_iff_toNat_le] at h
    exact h
  refine ⟨?_, ?_, ?_⟩
  · have hspace : c ≠ ' ' := by
      rintro rfl
      exact absurd hc.1 (by decide)
    simp [isSpace, hspace]
    omega
  · rintro rfl
    exact absurd hc.1 (by decide)
  · rintro rfl
    exact absurd hc.1 (by decide)

/-- `atoi` reads a number back, up to the newline. -/
theorem atoi_text (n : Numeral) : atoi (n.text ++ "\n") = n.value := by
  have hvalue : digitsValue (n.digits ++ ['\n']) 0 = Nat.ofDigitChars 10 n.digits 0 := by
    rw [digitsValue_append n.isDigit]
    rfl
  unfold atoi Numeral.text Numeral.value
  rw [String.toList_append, String.toList_ofList]
  by_cases hn : n.negative
  · simp [hn, isSpace, hvalue]
  · cases hd : n.digits with
    | nil => exact absurd hd n.digits_ne_nil
    | cons c cs =>
      rw [hd] at hvalue
      obtain ⟨hspace, hminus, hplus⟩ := isDigit_ne (n.isDigit c (by simp [hd]))
      simp only [hn, Bool.false_eq_true, if_false, List.cons_append, List.dropWhile_cons, hspace]
      split
      · next h => exact absurd (List.cons.inj h).1 hminus
      · next h => exact absurd (List.cons.inj h).1 hplus
      · exact congrArg Int.ofNat hvalue

/-- The properties of a device. -/
def apiLevels (first_api_level sdk : Option Numeral) (key : String) : Option String :=
  if key = "ro.product.first_api_level" then first_api_level.map Numeral.text
  else if key = "ro.build.version.sdk" then sdk.map Numeral.text
  else none

/-- The level that decides on the path, if one is set. -/
def effectiveLevel (first_api_level sdk : Option Numeral) : Option Int :=
  (first_api_level.or sdk).map Numeral.value

/-- The path of the store at an API level. -/
def storePath (level : Int) (uid : UInt32) : String :=
  if level ≤ 27 then "/data/system/users/" ++ toString uid.toNat ++ "/fpdata"
  else "/data/vendor_de/" ++ toString uid.toNat ++ "/fpdata"

theorem le_iff_of_storePath_eq {m n : Int} {uid : UInt32} (h : storePath m uid = storePath n uid) :
    m ≤ 27 ↔ n ≤ 27 := by
  have hne : ∀ s t : String, "/data/system/users/" ++ s ≠ "/data/vendor_de/" ++ t := by
    intro s t heq
    have hc := congrArg (fun path : String => path.toList[6]?) heq
    simp at hc
  unfold storePath at h
  by_cases hm : m ≤ 27 <;> by_cases hn : n ≤ 27
  · exact iff_of_true hm hn
  · rw [if_pos hm, if_neg hn, String.append_assoc, String.append_assoc] at h
    exact absurd h (hne _ _)
  · rw [if_neg hm, if_pos hn, String.append_assoc, String.append_assoc] at h
    exact absurd h.symm (hne _ _)
  · exact iff_of_false hm hn

/-- The code takes its level from the first property alone, `0` when that is not set. -/
theorem getDefaultGroupPath_eq (first_api_level sdk : Option Numeral) (uid : UInt32) :
    AndroidFP.getDefaultGroupPath (AndroidPropertyStore.get (apiLevels first_api_level sdk)) uid =
      storePath ((first_api_level.map Numeral.value).getD 0) uid := by
  have hanswer : AndroidPropertyStore.get (apiLevels first_api_level sdk)
      "ro.product.first_api_level" = (first_api_level.map Numeral.text).getD "" ++ "\n" := by
    simp [AndroidPropertyStore.get, getprop, apiLevels]
  have hne : ∀ s : String, s ++ "\n" ≠ "" := by
    intro s h
    have hl := congrArg String.toList h
    simp at hl
  have hlevel : atoi ((first_api_level.map Numeral.text).getD "" ++ "\n") =
      (first_api_level.map Numeral.value).getD 0 := by
    cases first_api_level with
    | none => rfl
    | some n => exact atoi_text n
  simp only [AndroidFP.getDefaultGroupPath, hanswer, hne, if_false, hlevel]
  rfl

/-- The path is the one for the level that decides on it. -/
def FollowsLevel (first_api_level sdk : Option Numeral) (uid : UInt32) : Prop :=
  ∀ level ∈ effectiveLevel first_api_level sdk,
    AndroidFP.getDefaultGroupPath (AndroidPropertyStore.get (apiLevels first_api_level sdk)) uid =
      storePath level uid

/-- **The path follows the API level, unless it is the SDK's and above 27.** -/
theorem group_path_follows_level (first_api_level sdk : Option Numeral) (uid : UInt32) :
    FollowsLevel first_api_level sdk uid ↔
      (first_api_level = none → ∀ n ∈ sdk, n.value ≤ 27) := by
  rw [FollowsLevel, getDefaultGroupPath_eq]
  cases first_api_level with
  | some n =>
    refine iff_of_true (fun level hlevel => ?_) (fun h => by cases h)
    obtain rfl : n.value = level := by simpa [effectiveLevel] using hlevel
    rfl
  | none =>
    cases sdk with
    | none => simp [effectiveLevel]
    | some n =>
      refine ⟨fun h _ m hm => ?_, fun h level hlevel => ?_⟩
      · obtain rfl : n = m := Option.some.inj hm
        exact (le_iff_of_storePath_eq (h n.value (by simp [effectiveLevel]))).mp (by decide)
      · obtain rfl : n.value = level := by simpa [effectiveLevel] using hlevel
        simp [storePath, h rfl n rfl]

/-- A device that sets only the SDK's level, 30, gets the path of the old ones. -/
theorem newer_device_gets_old_path :
    let sdk : Numeral := ⟨false, ['3', '0'], by decide, by simp, by decide⟩
    effectiveLevel none (some sdk) = some 30 ∧
      AndroidFP.getDefaultGroupPath
          (AndroidPropertyStore.get (apiLevels none (some sdk))) 100000 =
        "/data/system/users/100000/fpdata" ∧
      storePath 30 100000 = "/data/vendor_de/100000/fpdata" ∧
      ¬ FollowsLevel none (some sdk) 100000 := by
  refine ⟨by decide, by decide, by decide, fun h => ?_⟩
  exact absurd (h 30 (by decide)) (by decide)

end SailfishFpd
