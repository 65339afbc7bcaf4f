/-
Building expressions from plain integers.  Each number is checked before a term is made,
and the first check that fails names the error.
-/
import TabletopDice.Error

namespace TabletopDice

/-- Checks the sides first, then the sign of the count, then both sizes. -/
def Dice.ofInts (count sides : Int) : Except DiceError Dice :=
  if hsides : sides < 1 then .error .noSides
  else if count < 0 then .error .negativeCount
  else if hcount : maxMagnitude < count.toNat then .error (.tooLarge .diceCount)
  else if hsize : maxMagnitude < sides.toNat then .error (.tooLarge .dieSize)
  else
    .ok {
      count := ⟨count.toNat, Nat.le_of_not_lt hcount⟩
      sides := ⟨sides.toNat, Nat.le_of_not_lt hsize⟩
      one_le_sides := by
        change 1 ≤ sides.toNat
        omega }

def Term.ofInt (value : Int) : Except DiceError Term :=
  if value < 0 then .error .negativeConstant
  else if h : maxMagnitude < value.toNat then .error (.tooLarge .constant)
  else .ok (.constant ⟨value.toNat, Nat.le_of_not_lt h⟩)

def Term.ofInts (count sides : Int) : Except DiceError Term :=
  (Dice.ofInts count sides).map .dice

def Expression.ofTerms : List SignedTerm → Except DiceError Expression
  | [] => .error .noTerms
  | first :: rest => .ok ⟨first, rest⟩

/-- A signed term in plain integers, not yet checked. -/
inductive TermForm where
  | dice (sign : Sign) (count sides : Int)
  | constant (sign : Sign) (value : Int)
deriving DecidableEq

def TermForm.check : TermForm → Except DiceError SignedTerm
  | dice sign count sides => (Term.ofInts count sides).map (⟨sign, ·⟩)
  | constant sign value => (Term.ofInt value).map (⟨sign, ·⟩)

/-- The first term that fails its check decides; only then does an empty list count. -/
def Expression.ofForms (forms : List TermForm) : Except DiceError Expression := do
  ofTerms (← forms.mapM TermForm.check)

/-- Dice are made of a count and a size just where these are the numbers of the dice. -/
theorem Dice.ofInts_eq_ok_iff {count sides : Int} {dice : Dice} :
    Dice.ofInts count sides = .ok dice ↔
      (dice.count.val : Int) = count ∧ (dice.sides.val : Int) = sides := by
  obtain ⟨⟨n, hn⟩, ⟨s, hs⟩, hone⟩ := dice
  unfold Dice.ofInts
  constructor
  · intro h
    split at h
    · cases h
    · split at h
      · cases h
      · split at h
        · cases h
        · split at h
          · cases h
          · cases h
            exact ⟨Int.toNat_of_nonneg (by omega), Int.toNat_of_nonneg (by omega)⟩
  · rintro ⟨rfl, rfl⟩
    have hcount : ¬ maxMagnitude < (n : Int).toNat := Nat.not_lt.mpr hn
    have hsize : ¬ maxMagnitude < (s : Int).toNat := Nat.not_lt.mpr hs
    have hsides : ¬ (s : Int) < 1 := by
      change 1 ≤ s at hone
      omega
    rw [dif_neg hsides, if_neg (Int.not_lt.mpr (Int.natCast_nonneg n)), dif_neg hcount,
      dif_neg hsize]
    rfl

/-- Two magnitudes pass all checks of size, so they make dice unless the die has no side. -/
theorem Dice.ofInts_magnitudes (count sides : Magnitude) :
    Dice.ofInts count.val sides.val =
      if h : 1 ≤ sides.val then .ok ⟨count, sides, h⟩ else .error .noSides := by
  split
  · exact Dice.ofInts_eq_ok_iff.mpr ⟨rfl, rfl⟩
  · have hsides : (sides.val : Int) < 1 := by omega
    exact dif_pos hsides

theorem Term.ofInt_eq_ok_iff {value : Int} {term : Term} :
    Term.ofInt value = .ok term ↔
      ∃ magnitude : Magnitude, (magnitude.val : Int) = value ∧ .constant magnitude = term := by
  unfold Term.ofInt
  constructor
  · intro h
    split at h
    · cases h
    · split at h
      · cases h
      · cases h
        exact ⟨_, Int.toNat_of_nonneg (by omega), rfl⟩
  · rintro ⟨⟨n, hn⟩, rfl, rfl⟩
    have hsize : ¬ maxMagnitude < (n : Int).toNat := Nat.not_lt.mpr hn
    rw [if_neg (by omega), dif_neg hsize]
    rfl

theorem Term.ofInt_magnitude (value : Magnitude) : Term.ofInt value.val = .ok (.constant value) :=
  Term.ofInt_eq_ok_iff.mpr ⟨value, rfl, rfl⟩

theorem Expression.ofTerms_terms (e : Expression) : ofTerms e.terms = .ok e := rfl

theorem Expression.ofTerms_eq_ok_iff {signed : List SignedTerm} {e : Expression} :
    ofTerms signed = .ok e ↔ e.terms = signed := by
  cases signed with
  | nil => simp [ofTerms, terms]
  | cons first rest =>
      constructor
      · intro h
        cases h
        rfl
      · intro h
        rw [← h]
        rfl

end TabletopDice
