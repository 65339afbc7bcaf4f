/-
Expressions from text.  Four things are asked in this order: is there a first term, do all
numbers fit, is the text read to its end, and has every die a side.
-/
import TabletopDice.Expression.Checked
import TabletopDice.Text.Blank
import TabletopDice.Text.Phrase

namespace TabletopDice

/-- A term whose numbers fit, but whose die may still lack sides. -/
inductive Draft where
  | dice (count sides : Magnitude)
  | constant (value : Magnitude)
deriving DecidableEq

/-- A missing dice count is one. -/
def Draft.ofLexeme : Text.Lexeme → Except DiceError Draft
  | .dice [] sides => (Text.magnitude sides).map (dice .one)
  | .dice count sides => do return dice (← Text.magnitude count) (← Text.magnitude sides)
  | .constant digits => (Text.magnitude digits).map constant

/-- Of the checks made here only that for sides can fail. -/
def Draft.term : Draft → Except DiceError Term
  | dice count sides => Term.ofInts count.val sides.val
  | constant value => Term.ofInt value.val

namespace Expression

/-- The expression that a phrase writes, once its numbers and its dice are checked. -/
def ofPhrase (text : List Char) (phrase : Text.Phrase) : Except DiceError Expression := do
  let drafts ← phrase.terms.mapM fun (sign, lexeme) =>
    (sign, ·) <$> Draft.ofLexeme lexeme
  if phrase.left ≠ [] then
    throw (.unreadable (String.ofList phrase.left) (String.ofList text))
  ofTerms (← drafts.mapM fun (sign, draft) => (⟨sign, ·⟩) <$> draft.term)

/-- Positions and quotations refer to the text without the blanks at its ends. -/
def ofChars (text : List Char) : Except DiceError Expression :=
  match Text.Phrase.ofText text with
  | .error position => .error (.expectedTerm position (String.ofList text))
  | .ok phrase => ofPhrase text phrase

/-- Reads an expression such as `2d6 + 3 - d20`. -/
def parse (text : String) : Except DiceError Expression :=
  ofChars (Text.trim text.toList)

end Expression

end TabletopDice
