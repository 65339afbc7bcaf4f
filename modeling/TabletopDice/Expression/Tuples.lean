/-
The tuple form of an expression: for each term its signed count and its sides, where one
side marks a constant.  One-sided dice and the sign of a zero do not survive the form.
-/
import TabletopDice.Expression.Checked
import TabletopDice.Fault

namespace TabletopDice

/-- The signed number of a term and its sides. -/
def SignedTerm.toTuple (signed : SignedTerm) : Int × Int :=
  match signed.term with
  | .dice dice => (signed.sign * (dice.count.val : Int), dice.sides.val)
  | .constant value => (signed.sign * (value.val : Int), 1)

/-- The sides are looked at first, whatever the number is. -/
def SignedTerm.ofTuple : Int × Int → Except DiceError SignedTerm
  | (number, sides) =>
    let sign := Sign.ofInt number
    if sides < 1 then .error .noSidesInTuple
    else if sides = 1 then (Term.ofInt number.natAbs).map (⟨sign, ·⟩)
    else (Term.ofInts number.natAbs sides).map (⟨sign, ·⟩)

/-- An entry is a list of integers, of which two are expected.  Any other number of them is
quoted when it is refused. -/
def SignedTerm.ofEntry : List Int → Except Fault SignedTerm
  | [number, sides] => (ofTuple (number, sides)).mapError .refused
  | entry => .error (DiceError.wrongArity entry).raised

namespace Expression

def toTuples (e : Expression) : List (Int × Int) := e.terms.map SignedTerm.toTuple

def ofTuples (tuples : List (Int × Int)) : Except DiceError Expression := do
  ofTerms (← tuples.mapM SignedTerm.ofTuple)

/-- The first entry that is no tuple of a term decides; only then does an empty list
count. -/
def ofEntries (entries : List (List Int)) : Except Fault Expression := do
  (ofTerms (← entries.mapM SignedTerm.ofEntry)).mapError .refused

/-- Rewrites every term through its tuple, with all checks made again. -/
def mapTuples (f : Int × Int → Int × Int) (e : Expression) : Except DiceError Expression :=
  ofTuples (e.toTuples.map f)

end Expression

end TabletopDice
