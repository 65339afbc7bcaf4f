/-
Terms of a dice expression: dice or a constant, each under a sign.  Every number in a term
is a magnitude; the sign stands beside the term and not inside it.
-/
import TabletopDice.Range
import TabletopDice.Sign

namespace TabletopDice

/-- So many dice with so many sides each; there may be no dice, but a die has a side. -/
structure Dice where
  count : Magnitude
  sides : Magnitude
  one_le_sides : 1 ≤ sides.val
deriving DecidableEq

/-- One-sided dice always show a one, so they are never drawn. -/
def Dice.OneSided (dice : Dice) : Prop := dice.sides.val = 1

instance (dice : Dice) : Decidable dice.OneSided :=
  inferInstanceAs (Decidable (_ = _))

instance : ToString Dice := ⟨fun dice => s!"{dice.count}d{dice.sides}"⟩

/-- An unsigned term. -/
inductive Term where
  | dice (dice : Dice)
  | constant (value : Magnitude)
deriving DecidableEq

instance : ToString Term where
  toString
    | .dice dice => toString dice
    | .constant value => toString value

/-- A term with the sign under which it enters the sum. -/
structure SignedTerm where
  sign : Sign
  term : Term
deriving DecidableEq

namespace SignedTerm

/-- A term on its own, or first in an expression: a plus is left out, a minus is glued on. -/
instance : ToString SignedTerm := ⟨fun signed => signed.sign.leading ++ toString signed.term⟩

/-- A term that follows another: the sign is an operator between blanks. -/
def continuation (signed : SignedTerm) : String := s!" {signed.sign} {signed.term}"

end SignedTerm

end TabletopDice
