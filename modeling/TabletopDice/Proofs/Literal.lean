/-
Decimal numerals, declared as a grammar.  A literal is read as the number of which it is a
numeral, exactly when this number is a magnitude, and every number is printed as a numeral
of itself.
-/
import Mathlib.Algebra.Order.Ring.Int
import Mathlib.Data.List.Basic
import Mathlib.Data.List.Induction
import TabletopDice.Text.Literal

namespace TabletopDice.Text

/-- A numeral of a number is a single digit, or a numeral with one more digit behind it.
Leading zeros are allowed. -/
inductive Numeral : List Char → Nat → Prop
  | digit {d : Nat} (hd : d < 10) : Numeral [d.digitChar] d
  | snoc {digits : List Char} {n d : Nat} (hdigits : Numeral digits n) (hd : d < 10) :
      Numeral (digits ++ [d.digitChar]) (10 * n + d)

theorem decimal_append_digitChar (digits : List Char) {d : Nat} (hd : d < 10) :
    decimal (digits ++ [d.digitChar]) = 10 * decimal digits + d := by
  rw [decimal, Nat.ofDigitChars_append,
    Nat.ofDigitChars_cons_digitChar_of_lt_ten hd, Nat.ofDigitChars_nil, decimal]

theorem isDigit_digitChar_of_lt {d : Nat} (hd : d < 10) : d.digitChar.isDigit := by
  rw [Nat.isDigit_digitChar]
  exact decide_eq_true hd

theorem exists_digitChar_of_isDigit {c : Char} (hc : c.isDigit) :
    ∃ d < 10, c = d.digitChar := by
  rw [Char.isDigit_iff_toNat] at hc
  have hzero : '0'.toNat = 48 := rfl
  have hnine : '9'.toNat = 57 := rfl
  have hd : c.toNat - 48 < 10 := by omega
  refine ⟨c.toNat - 48, hd, Char.toNat_inj.mp ?_⟩
  rw [Nat.toNat_digitChar_of_lt_ten hd]
  omega

theorem Numeral.isDigit {digits : List Char} {n : Nat} (h : Numeral digits n) :
    ∀ c ∈ digits, c.isDigit := by
  induction h with
  | digit hd =>
      intro c hc
      rw [List.mem_singleton.mp hc]
      exact isDigit_digitChar_of_lt hd
  | snoc hdigits hd ih =>
      intro c hc
      rcases List.mem_append.mp hc with hc | hc
      · exact ih c hc
      · rw [List.mem_singleton.mp hc]
        exact isDigit_digitChar_of_lt hd

theorem Numeral.decimal_eq {digits : List Char} {n : Nat} (h : Numeral digits n) :
    decimal digits = n := by
  induction h with
  | digit hd => simpa [decimal] using decimal_append_digitChar [] hd
  | snoc hdigits hd ih => rw [decimal_append_digitChar _ hd, ih]

theorem Numeral.ne_nil {digits : List Char} {n : Nat} (h : Numeral digits n) :
    digits ≠ [] := by
  cases h with
  | digit hd => exact List.cons_ne_nil _ _
  | snoc hdigits hd => exact List.append_ne_nil_of_right_ne_nil _ (List.cons_ne_nil _ _)

theorem numeral_decimal {digits : List Char} (hne : digits ≠ [])
    (hdigits : ∀ c ∈ digits, c.isDigit) : Numeral digits (decimal digits) := by
  induction digits using List.reverseRecOn with
  | nil => exact absurd rfl hne
  | append_singleton digits c ih =>
      obtain ⟨d, hd, rfl⟩ := exists_digitChar_of_isDigit
        (hdigits c (List.mem_append_right _ List.mem_cons_self))
      rw [decimal_append_digitChar digits hd]
      by_cases hnil : digits = []
      · subst hnil
        simpa [decimal] using Numeral.digit hd
      · exact .snoc (ih hnil fun c hc => hdigits c (List.mem_append_left _ hc)) hd

/-- Numerals are the non-empty strings of digits, each with one value. -/
theorem numeral_iff {digits : List Char} {n : Nat} :
    Numeral digits n ↔ digits ≠ [] ∧ (∀ c ∈ digits, c.isDigit) ∧ decimal digits = n := by
  constructor
  · intro h
    exact ⟨h.ne_nil, h.isDigit, h.decimal_eq⟩
  · rintro ⟨hne, hdigits, rfl⟩
    exact numeral_decimal hne hdigits

/-- Printing a number writes a numeral of it. -/
theorem numeral_toString (n : Nat) : Numeral (toString n).toList n := by
  rw [Nat.toString_eq_repr, Nat.toList_repr, numeral_iff]
  exact ⟨Nat.toDigits_ne_nil,
    fun c hc => Nat.isDigit_of_mem_toDigits (by decide) (by decide) hc,
    Nat.ofDigitChars_ten_toDigits⟩

/-- A string of digits that starts with no zero is the printed form of its value. -/
theorem toDigits_decimal {digits : List Char} (hne : digits ≠ [])
    (hdigits : ∀ c ∈ digits, c.isDigit) (hhead : digits.head? ≠ some '0') :
    Nat.toDigits 10 (decimal digits) = digits := by
  induction digits using List.reverseRecOn with
  | nil => exact absurd rfl hne
  | append_singleton digits c ih =>
      obtain ⟨d, hd, rfl⟩ := exists_digitChar_of_isDigit
        (hdigits c (List.mem_append_right _ List.mem_cons_self))
      rw [decimal_append_digitChar digits hd]
      by_cases hnil : digits = []
      · subst hnil
        simpa [decimal] using Nat.toDigits_of_lt_base hd
      · rw [List.head?_append_of_ne_nil _ hnil] at hhead
        have hrest := ih hnil (fun c hc => hdigits c (List.mem_append_left _ hc)) hhead
        have hpos : 0 < decimal digits := by
          rcases Nat.eq_zero_or_pos (decimal digits) with hzero | hpos
          · rw [hzero, Nat.toDigits_zero] at hrest
            rw [← hrest] at hhead
            exact absurd rfl hhead
          · exact hpos
        rw [← Nat.toDigits_append_toDigits (by decide) hpos hd, hrest,
          Nat.toDigits_of_lt_base hd]

theorem decimal_significant (digits : List Char) :
    decimal (significant digits) = decimal digits := by
  induction digits with
  | nil => rfl
  | cons c digits ih =>
      by_cases hc : c = '0'
      · subst hc
        simpa [decimal, significant, Nat.ofDigitChars_cons] using ih
      · simp [significant, hc]

/-- The significant digits are those that printing the value writes, unless it is zero. -/
theorem significant_eq {digits : List Char} (hdigits : ∀ c ∈ digits, c.isDigit) :
    significant digits = if decimal digits = 0 then [] else Nat.toDigits 10 (decimal digits) := by
  have hmem : ∀ c ∈ significant digits, c.isDigit := fun c hc =>
    hdigits c ((List.dropWhile_suffix _).subset hc)
  have hhead : (significant digits).head? ≠ some '0' := by
    intro h
    have hnot := List.head?_dropWhile_not (fun c => decide (c = '0')) digits
    rw [significant] at h
    rw [h] at hnot
    simp at hnot
  by_cases hnil : significant digits = []
  · have hzero : decimal digits = 0 := by
      rw [← decimal_significant, hnil]
      rfl
    rw [hnil, if_pos hzero]
  · have hprinted := toDigits_decimal hnil hmem hhead
    rw [decimal_significant] at hprinted
    rw [if_neg, hprinted]
    intro hzero
    rw [hzero, Nat.toDigits_zero] at hprinted
    exact hhead (by rw [← hprinted]; rfl)

theorem length_significant_le_iff {digits : List Char} (hdigits : ∀ c ∈ digits, c.isDigit)
    {k : Nat} (hk : 0 < k) : (significant digits).length ≤ k ↔ decimal digits < 10 ^ k := by
  rw [significant_eq hdigits]
  split
  · rename_i hzero
    have hpow : 0 < 10 ^ k := Nat.pow_pos (by decide)
    rw [hzero]
    exact iff_of_true (Nat.zero_le k) hpow
  · exact Nat.length_toDigits_le_iff (by decide) hk

/-- The digits that are converted write the value of all digits, also if a zero stands for
them. -/
theorem decimal_converted (digits : List Char) :
    decimal (converted digits) = decimal digits := by
  rw [← decimal_significant digits]
  unfold converted
  split
  · rename_i hnil
    rw [hnil]
    rfl
  · rfl

/-- To count the significant digits first comes to the same as to look at the value. -/
theorem magnitude_eq_dite {digits : List Char} (hdigits : ∀ c ∈ digits, c.isDigit) :
    magnitude digits =
      if h : decimal digits ≤ maxMagnitude then .ok ⟨decimal digits, h⟩
      else .error (.literalTooLong (significant digits).length) := by
  by_cases hlong : maxDigits < (significant digits).length
  · -- More than nineteen digits write more than any magnitude.
    have hlarge : ¬ decimal digits ≤ maxMagnitude := by
      have hvalue : ¬ decimal digits < 10 ^ maxDigits :=
        (length_significant_le_iff hdigits (by decide)).not.mp (Nat.not_le_of_gt hlong)
      have hmax : maxMagnitude < 10 ^ maxDigits := by decide
      omega
    rw [magnitude_eq, if_pos hlong, dif_neg hlarge]
  · simp only [magnitude_eq, if_neg hlong, decimal_converted]

/-- A literal is converted to its value, and only to that, when the value is a magnitude. -/
theorem magnitude_eq_ok_iff {digits : List Char} (hdigits : ∀ c ∈ digits, c.isDigit)
    {m : Magnitude} : magnitude digits = .ok m ↔ decimal digits = m.val := by
  rw [magnitude_eq_dite hdigits]
  split
  · constructor
    · rintro ⟨⟩
      rfl
    · intro h
      cases m
      cases h
      rfl
  · rename_i hlarge
    constructor
    · intro h
      simp at h
    · intro h
      exact absurd (h ▸ m.val_le) hlarge

end TabletopDice.Text

namespace TabletopDice

/-- A number is written out if it is less than the least one with too many digits. -/
theorem writable_iff {n : Int} : Writable n ↔ n.natAbs < 10 ^ maxWrittenDigits :=
  Nat.length_toDigits_le_iff (by decide) (by decide)

theorem writable_neg_iff {n : Int} : Writable (-n) ↔ Writable n := by
  unfold Writable
  rw [Int.natAbs_neg]

/-- The least number that is too long. -/
theorem not_writable_ten_pow : ¬ Writable (10 ^ maxWrittenDigits) := by
  have hbase : (10 : Int).natAbs = 10 := rfl
  rw [writable_iff, Int.natAbs_pow, hbase]
  exact Nat.lt_irrefl _

end TabletopDice
