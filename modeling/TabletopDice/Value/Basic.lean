/-
Values of evaluated terms.  Dice remember their sign and their unsigned parts; a constant
is its signed value and nothing more.
-/
import TabletopDice.Sign
import TabletopDice.Value.Parts

namespace TabletopDice

inductive Value where
  | rolled (total : Int) (parts : Parts) (sign : Sign)
  | constant (value : Int)
deriving DecidableEq

namespace Value

/-- What the value adds to the sum. -/
def amount : Value → Int
  | rolled total _ _ => total
  | constant value => value

/-- A constant of zero is positive, whatever sign was written. -/
def sign : Value → Sign
  | rolled _ _ sign => sign
  | constant value => .ofInt value

def parts : Value → Parts
  | rolled _ parts _ => parts
  | constant value => .listed [value]

/-- Negation turns the total and the sign around and leaves the parts unsigned. -/
instance : Neg Value where
  neg
    | rolled total parts sign => rolled (-total) parts (-sign)
    | constant value => constant (-value)

theorem amount_neg (value : Value) : (-value).amount = -value.amount := by
  cases value <;> rfl

theorem amount_mul (sign : Sign) (value : Value) :
    (sign * value).amount = sign * value.amount := by
  cases sign with
  | plus => rfl
  | minus => exact amount_neg value

end Value

end TabletopDice
