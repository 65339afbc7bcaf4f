/-
Decimal literals, in the ten digits of the basic Latin block.  Leading zeros do not count,
and a literal is converted only when its remaining digits are few enough to fit.
-/
import TabletopDice.Error

namespace TabletopDice.Text

/-- The digits from the first one that is no zero. -/
def significant (digits : List Char) : List Char := digits.dropWhile (· = '0')

/-- As many digits as the largest magnitude has. -/
def maxDigits : Nat := 19

/-- The number that a string of digits writes; no digits write zero. -/
def decimal (digits : List Char) : Nat := Nat.ofDigitChars 10 digits 0

/-- What there is to convert: the significant digits, or a zero if there are none. -/
def converted (digits : List Char) : List Char :=
  if significant digits = [] then ['0'] else significant digits

/-- The reading of a literal where digits are converted in a given way, which may have effects of
its own. -/
def magnitudeBy {m : Type → Type} [Monad m] (convert : List Char → m Nat) (digits : List Char) :
    m (Except DiceError Magnitude) :=
  if maxDigits < (significant digits).length then
    return .error (.literalTooLong (significant digits).length)
  else do
    let n ← convert (converted digits)
    return if h : n ≤ maxMagnitude then .ok ⟨n, h⟩
      else .error (.literalTooLong (significant digits).length)

/-- The number that a literal writes, unless it takes more than 63 bits. -/
def magnitude (digits : List Char) : Except DiceError Magnitude :=
  Id.run (magnitudeBy (fun short => pure (decimal short)) digits)

theorem magnitude_eq (digits : List Char) :
    magnitude digits =
      if maxDigits < (significant digits).length then
        .error (.literalTooLong (significant digits).length)
      else if h : decimal (converted digits) ≤ maxMagnitude then .ok ⟨_, h⟩
      else .error (.literalTooLong (significant digits).length) := by
  unfold magnitude magnitudeBy
  split <;> rfl

end TabletopDice.Text
