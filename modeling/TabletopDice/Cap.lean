/-
Admission by size.  The steps of an expression are known before anything is rolled, and an
expression that needs more of them than the cap is refused without a draw.
-/
import TabletopDice.Evaluation
import TabletopDice.Expression.Form

namespace TabletopDice

/-- One step for every face drawn, and one for a term that needs no draw. -/
def Term.steps : Term → Nat
  | .dice pool => if pool.OneSided then 1 else pool.count.val
  | .constant _ => 1

/-- Counts steps on top of those counted already, and stops as soon as the cap is passed. -/
def stepsExceed (cap : Int) (steps : Nat) : List SignedTerm → Bool
  | [] => false
  | signed :: rest =>
    let steps := steps + signed.term.steps
    if cap < steps then true else stepsExceed cap steps rest

namespace Expression

def exceeds (e : Expression) (cap : Int) : Bool := stepsExceed cap 0 e.terms

/-- Rolls unless the cap is exceeded. -/
def rollCapped {σ : Type} (source : Source σ) (cap : Int) (e : Expression) : Rolling σ Result :=
  if e.exceeds cap then throw (DiceError.exceededCap e cap).raised else e.evaluate source

end Expression

/-- An expression that cannot be read is refused before its size is looked at. -/
def ExpressionForm.rollCapped {σ : Type} (source : Source σ) (cap : Int)
    (form : ExpressionForm) : Rolling σ Result := do
  (← Rolling.ofExcept form.read).rollCapped source cap

end TabletopDice
