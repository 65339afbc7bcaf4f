/-
Audit records: an account of one roll that names its terms, its faces and its total, and
from which the roll can be replayed.
-/
import TabletopDice.Cap
import TabletopDice.Rendering.Layout

namespace TabletopDice

/-- The account of one term.  One-sided dice list no rolls, because nothing is drawn for
them. -/
inductive AuditEntry where
  | constant (sign : Sign) (value : Int)
  | dice (sign : Sign) (pool : Dice) (rolls : List Int) (subtotal : Int)
deriving DecidableEq

/-- What the term added to the total; a constant adds its signed value. -/
def AuditEntry.subtotal : AuditEntry → Int
  | constant _ value => value
  | dice _ _ _ subtotal => subtotal

def Outcome.entry (outcome : Outcome) : AuditEntry :=
  match outcome.signed.term with
  | .constant _ => .constant outcome.signed.sign outcome.value.amount
  | .dice pool =>
      .dice outcome.signed.sign pool
        (if pool.OneSided then [] else outcome.value.parts.toList) outcome.value.amount

/-- Where the faces came from: the randomness of the system, or a source of the caller. -/
inductive Origin where
  | system
  | supplied
deriving DecidableEq

/-- The account of one roll.  What a record is filed under is left out, since it does not come
from the roll: an identifier and a random mark made anew for each record, the time of day, and
the name of the class that a supplied source is of. -/
structure AuditRecord where
  input : String
  normalized : String
  entries : List AuditEntry
  total : Int
  explanation : String
  origin : Origin
deriving DecidableEq

namespace AuditRecord

def ofResult (origin : Origin) (style : Style) (input : String) (e : Expression)
    (result : Result) : AuditRecord where
  input := input
  normalized := toString e
  entries := result.outcomes.map Outcome.entry
  total := result.total
  explanation := result.render style
  origin := origin

end AuditRecord

namespace Expression

variable {σ : Type}

/-- Rolls within the cap and accounts for it under the given input. -/
def audit (source : Source σ) (origin : Origin) (style : Style) (cap : Int) (input : String)
    (e : Expression) : Rolling σ AuditRecord := do
  return .ofResult origin style input e (← e.rollCapped source cap)

/-- Reads, checks the cap, rolls and accounts for it. -/
def auditText (source : Source σ) (origin : Origin) (style : Style) (cap : Int)
    (text : String) : Rolling σ AuditRecord := do
  audit source origin style cap text (← Rolling.ofExcept (ExpressionForm.text text).read)

end Expression

end TabletopDice
