/-
The conversion of literals.  Counting the significant digits stands in for looking at the number
that they write: what is refused for its length is too large, leading zeros do not count, and no
digits are converted of which there are more than the largest magnitude has.
-/
import TabletopDice.Proofs.Literal

namespace TabletopDice

theorem DiceError.message_literalTooLong (n : Nat) :
    (literalTooLong n).message = s!"A {n}-digit number does not fit in 63 bits." := by
  simp [message, detail]

namespace Text

section

variable {digits : List Char}

/-- Two conversions that agree on nineteen digits lead to the same reading, and no more digits
are ever converted. -/
theorem magnitudeBy_congr {m : Type → Type} [Monad m] {convert convert' : List Char → m Nat}
    (h : ∀ short : List Char, short.length ≤ maxDigits → convert short = convert' short) :
    magnitudeBy convert digits = magnitudeBy convert' digits := by
  unfold magnitudeBy
  by_cases hlong : maxDigits < (significant digits).length
  · rw [if_pos hlong, if_pos hlong]
  · have hshort : (converted digits).length ≤ maxDigits := by
      unfold converted
      split
      · decide
      · exact Nat.le_of_not_lt hlong
    rw [if_neg hlong, if_neg hlong, h _ hshort]

/-- A conversion without effects leaves none. -/
theorem magnitudeBy_pure {m : Type → Type} [Monad m] [LawfulMonad m] :
    magnitudeBy (m := m) (fun short => pure (decimal short)) digits =
      pure (magnitude digits) := by
  unfold magnitude magnitudeBy
  by_cases hlong : maxDigits < (significant digits).length
  · rw [if_pos hlong, if_pos hlong]
    rfl
  · rw [if_neg hlong, if_neg hlong, pure_bind]
    rfl

/-- A conversion need not be able to convert more than nineteen digits. -/
theorem magnitudeBy_eq_some_magnitude {convert : List Char → Option Nat}
    (hconvert : ∀ short : List Char, short.length ≤ 19 → convert short = some (decimal short)) :
    magnitudeBy convert digits = some (magnitude digits) :=
  (magnitudeBy_congr hconvert).trans magnitudeBy_pure

/-- A literal that is too large is refused with the number of digits that its value has. -/
theorem magnitude_of_lt_decimal (hdigits : ∀ c ∈ digits, c.isDigit)
    (h : maxMagnitude < decimal digits) :
    magnitude digits = .error (.literalTooLong (toString (decimal digits)).length) := by
  have hpos : ¬ decimal digits = 0 := by omega
  have hlength : (significant digits).length = (toString (decimal digits)).length := by
    rw [significant_eq hdigits, if_neg hpos, Nat.toString_eq_repr, ← String.length_toList,
      Nat.toList_repr]
  rw [magnitude_eq_dite hdigits, dif_neg (Nat.not_le_of_gt h), hlength]

theorem decimal_zeros_append (zeros : Nat) (digits : List Char) :
    decimal (List.replicate zeros '0' ++ digits) = decimal digits := by
  have hsignificant : significant (List.replicate zeros '0' ++ digits) = significant digits := by
    apply List.dropWhile_append_of_pos
    intro c hc
    exact decide_eq_true (List.eq_of_mem_replicate hc)
  rw [← decimal_significant, hsignificant, decimal_significant]

theorem isDigit_of_mem_zeros_append (zeros : Nat) (hdigits : ∀ c ∈ digits, c.isDigit) :
    ∀ c ∈ List.replicate zeros '0' ++ digits, c.isDigit := by
  intro c hc
  rcases List.mem_append.mp hc with hzero | hdigit
  · rw [List.eq_of_mem_replicate hzero]
    decide
  · exact hdigits c hdigit

/-- A printed magnitude is read back, whatever the number of zeros in front of it. -/
theorem magnitude_zeros_append_toString (zeros : Nat) (m : Magnitude) :
    magnitude (List.replicate zeros '0' ++ (toString m).toList) = .ok m := by
  have hprinted : Numeral (toString m).toList m.val := numeral_toString m.val
  have hdigits := isDigit_of_mem_zeros_append zeros hprinted.isDigit
  rw [magnitude_eq_ok_iff hdigits, decimal_zeros_append, hprinted.decimal_eq]

/-- A literal is read as the number that it writes if this is a magnitude, and otherwise refused
with the number of its digits.  Nothing depends on what the conversion makes of more than
nineteen digits, and zeros in front of a printed magnitude make no difference. -/
theorem magnitude_agrees_with_range_check (hne : digits ≠ [])
    (hdigits : ∀ c ∈ digits, c.isDigit) :
    (∃ n, Numeral digits n ∧
      (∀ h : n ≤ maxMagnitude, magnitude digits = .ok ⟨n, h⟩) ∧
      (maxMagnitude < n → ∃ error, magnitude digits = .error error ∧
        error.kind = .integerTooLarge ∧
        error.message = s!"A {(toString n).length}-digit number does not fit in 63 bits.")) ∧
    (∀ convert : List Char → Option Nat,
      (∀ short : List Char, short.length ≤ 19 → convert short = some (decimal short)) →
      magnitudeBy convert digits = some (magnitude digits)) ∧
    ∀ (zeros : Nat) (m : Magnitude),
      magnitude (List.replicate zeros '0' ++ (toString m).toList) = .ok m := by
  refine ⟨⟨decimal digits, numeral_decimal hne hdigits, ?_, ?_⟩, ?_,
    magnitude_zeros_append_toString⟩
  · intro h
    exact (magnitude_eq_ok_iff hdigits).mpr rfl
  · intro hlarge
    exact ⟨_, magnitude_of_lt_decimal hdigits hlarge, rfl, DiceError.message_literalTooLong _⟩
  · intro convert hconvert
    exact magnitudeBy_eq_some_magnitude hconvert

end

/-- Twenty digits behind three zeros are refused, although this conversion could not convert
them. -/
theorem twenty_nines_agree_with_range_check :
    let digits : List Char := List.replicate 3 '0' ++ List.replicate 20 '9'
    let convert : List Char → Option Nat := fun short =>
      if short.length ≤ 19 then some (decimal short) else none
    (∃ error, magnitude digits = .error error ∧ error.kind = .integerTooLarge ∧
      error.message = "A 20-digit number does not fit in 63 bits.") ∧
    convert (significant digits) = none ∧
    magnitudeBy convert digits = some (magnitude digits) ∧
    magnitude (List.replicate 3 '0' ++ (toString Magnitude.one).toList) = .ok .one := by
  intro digits convert
  have hne : digits ≠ [] := by decide
  have hdigits : ∀ c ∈ digits, c.isDigit := by
    apply isDigit_of_mem_zeros_append
    intro c hc
    rw [List.eq_of_mem_replicate hc]
    decide
  obtain ⟨⟨n, hnumeral, _, hlarge⟩, hconvert, hzeros⟩ :=
    magnitude_agrees_with_range_check hne hdigits
  have hvalue : n = 99999999999999999999 := hnumeral.decimal_eq.symm.trans (by decide)
  rw [hvalue] at hlarge
  obtain ⟨error, hrefused, hkind, hmessage⟩ := hlarge (by decide)
  refine ⟨⟨error, hrefused, hkind, hmessage.trans (by decide +kernel)⟩, by decide, ?_,
    hzeros 3 .one⟩
  apply hconvert
  intro short hshort
  exact if_pos hshort

end Text

end TabletopDice
