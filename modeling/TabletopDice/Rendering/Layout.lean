/-
Rendering of results: `[T = ](EXP → N [+ N]*) [+ (EXP → N [+ N]*)]*[ = T]`.  A single value
that has at most one part is shown as its bare total.
-/
import TabletopDice.Evaluation
import TabletopDice.Rendering.Style

namespace TabletopDice

/-- A number, without its sign if the style leaves signs out. -/
def Style.number (style : Style) (n : Int) : String :=
  if style.ignoreSign then toString n.natAbs else toString n

namespace Value

/-- All parts in a row, each under the sign of the value. -/
def listing (sign : Sign) (parts : Parts) : String :=
  sign.leading ++ s!" {sign} ".intercalate (parts.toList.map toString)

/-- The faces of a value where the style lists them and there are several; otherwise its
amount. -/
def render (style : Style) : Value → String
  | rolled total parts sign =>
      if style.summarize ∨ parts.length ≤ 1 then style.number total
      else listing (if style.ignoreSign then .plus else sign) parts
  | constant value => style.number value

end Value

def SignedTerm.render (style : Style) (signed : SignedTerm) : String :=
  if style.ignoreSign then toString signed.term else toString signed

namespace Outcome

/-- What the dice came to.  The faces of one-sided dice are never listed, since there may be
any number of them. -/
def realised (style : Style) (pool : Dice) (value : Value) : String :=
  if pool.OneSided then style.number value.amount else value.render style

/-- A constant is its value; dice are shown with what they came to. -/
def render (style : Style) (outcome : Outcome) : String :=
  match outcome.signed.term with
  | .constant _ => outcome.value.render style
  | .dice pool =>
      let body :=
        s!"{outcome.signed.render style} → {realised style pool outcome.value}"
      if style.diceParentheses then s!"({body})" else body

/-- What stands in front of the first outcome of a list. -/
def opening (style : Style) (outcome : Outcome) : String :=
  match style.separator with
  | .plusSign => outcome.value.sign.leading
  | .comma => ""

/-- What stands between an outcome and the one before it. -/
def separation (style : Style) (outcome : Outcome) : String :=
  match style.separator with
  | .plusSign => s!" {outcome.value.sign} "
  | .comma => ", "

/-- The outcomes in a row, each behind its opening or separation. -/
def renderAll (style : Style) : List Outcome → String
  | [] => ""
  | first :: rest =>
      first.opening style ++ first.render style.forTerms ++
        String.join (rest.map fun outcome =>
          outcome.separation style ++ outcome.render style.forTerms)

end Outcome

namespace Result

/-- A single value with at most one part leaves nothing to list. -/
def IsBare (result : Result) : Prop :=
  match result.outcomes with
  | [outcome] => outcome.value.parts.length ≤ 1
  | _ => False

instance (result : Result) : Decidable result.IsBare := by
  unfold IsBare
  split <;> infer_instance

def render (style : Style) (result : Result) : String :=
  if result.IsBare then toString result.total
  else
    let outcomes := Outcome.renderAll style result.outcomes
    let listed := if style.listParentheses then s!"({outcomes})" else outcomes
    match style.totalPlace with
    | .left => s!"{result.total} = {listed}"
    | .right => s!"{listed} = {result.total}"
    | .suppressed => listed

/-- A result on its own is shown in the default style. -/
instance : ToString Result := ⟨render {}⟩

end Result

end TabletopDice
