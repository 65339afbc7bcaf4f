/-
The three forms in which an expression can be handed over: as text, as tuple entries and
as terms in plain integers.
-/
import TabletopDice.Expression.Parse
import TabletopDice.Expression.Tuples

namespace TabletopDice

inductive ExpressionForm where
  | text (written : String)
  | entries (listed : List (List Int))
  | terms (forms : List TermForm)

def ExpressionForm.read : ExpressionForm → Except Fault Expression
  | .text written => (Expression.parse written).mapError .refused
  | .entries listed => Expression.ofEntries listed
  | .terms forms => (Expression.ofForms forms).mapError .refused

end TabletopDice
