/-
What can go wrong with an expression, as causes.  Every cause has a kind, every kind a
stable code, and the text of an error is the code in brackets before the wording.
-/
import TabletopDice.Expression.Basic

namespace TabletopDice

/-- The kinds of error, the most general one first. -/
inductive ErrorKind where
  | general
  | invalidDie
  | invalidExpression
  | integerTooLarge
  | overflowPositive
  | overflowNegative
  | noExpression
  | exceededCap
deriving DecidableEq

namespace ErrorKind

def code : ErrorKind → String
  | general => "DICE_ERROR"
  | invalidDie => "INVALID_DIE"
  | invalidExpression => "INVALID_EXPRESSION"
  | integerTooLarge => "INTEGER_TOO_LARGE"
  | overflowPositive => "OVERFLOW_POSITIVE"
  | overflowNegative => "OVERFLOW_NEGATIVE"
  | noExpression => "NO_EXPRESSION"
  | exceededCap => "EXCEEDED_CAP"

/-- The wording of an error that says no more than its kind. -/
def defaultMessage : ErrorKind → String
  | general => "Dice expression failed."
  | invalidDie => "Dice need at least one side and a non-negative count. Example: '2d6'."
  | invalidExpression => "Not a valid dice expression. Example: '2d6 + 3 - d20'."
  | integerTooLarge => "Number is too large; literals must fit in 63 bits."
  | overflowPositive => "Sum is too high for a 64-bit integer."
  | overflowNegative => "Sum is too low for a 64-bit integer."
  | noExpression => "No expression was parsed or supplied before finalizing the roll."
  | exceededCap => "Expression needs more rolls than allowed."

/-- The kind itself and then every wider kind; a number that is too large makes an
expression invalid. -/
def ancestry : ErrorKind → List ErrorKind
  | general => [general]
  | integerTooLarge => [integerTooLarge, invalidExpression, general]
  | kind => [kind, general]

end ErrorKind

/-- The numbers of a term whose size is checked. -/
inductive Measure where
  | diceCount
  | dieSize
  | constant
deriving DecidableEq

instance : ToString Measure where
  toString
    | .diceCount => "Dice count"
    | .dieSize => "Die size"
    | .constant => "Constant"

/-- The spelling of a tuple entry whose numbers are writable: a lone number keeps a comma
behind it. -/
def entryText : List Int → String
  | [n] => s!"({n},)"
  | numbers => "(" ++ ", ".intercalate (numbers.map toString) ++ ")"

/-- The causes of failure; `stated` is an error of a given kind in the caller's own words,
or without any. -/
inductive DiceError where
  | noSides
  | negativeCount
  | negativeConstant
  | tooLarge (measure : Measure)
  | noTerms
  | wrongArity (entry : List Int)
  | noSidesInTuple
  | literalTooLong (digits : Nat)
  | expectedTerm (position : Nat) (text : String)
  | unreadable (rest text : String)
  | rollTooHigh (dice : Dice)
  | totalTooHigh (signed : SignedTerm)
  | totalTooLow (signed : SignedTerm)
  | exceededCap (expression : Expression) (cap : Int)
  | stated (kind : ErrorKind) (message : Option String)
deriving DecidableEq

namespace DiceError

def kind : DiceError → ErrorKind
  | noSides | negativeCount | noSidesInTuple => .invalidDie
  | tooLarge _ | literalTooLong _ => .integerTooLarge
  | negativeConstant | noTerms | wrongArity _ | expectedTerm .. | unreadable .. =>
      .invalidExpression
  | rollTooHigh _ | totalTooHigh _ => .overflowPositive
  | totalTooLow _ => .overflowNegative
  | exceededCap .. => .exceededCap
  | stated kind _ => kind

/-- The numbers from outside that the wording quotes, which may have any size.  All other
numbers in a wording are magnitudes or count characters. -/
def quoted : DiceError → List Int
  | wrongArity entry => entry
  | exceededCap _ cap => [cap]
  | _ => []

/-- The error can be put into words: every number that it quotes is short enough. -/
def Wordable (error : DiceError) : Prop := ∀ n ∈ error.quoted, Writable n

instance (error : DiceError) : Decidable error.Wordable :=
  inferInstanceAs (Decidable (∀ n ∈ error.quoted, Writable n))

/-- The wording of a cause, where it has one of its own and can be put into words. -/
def detail : DiceError → Option String
  | noSides => some "A die needs at least one side. Example: '2d6'."
  | negativeCount => some "Dice count must not be negative. Example: '2d6'."
  | negativeConstant => some "Constant magnitude must not be negative."
  | tooLarge measure => some s!"{measure} does not fit in 63 bits."
  | noTerms => some "An expression needs at least one term. Example: 'd20'."
  | wrongArity entry =>
      some s!"Expected (signed_count, sides), got {entryText entry}. Example: (2, 6)."
  | noSidesInTuple => some "A die needs at least one side. Example: (2, 6)."
  | literalTooLong digits => some s!"A {digits}-digit number does not fit in 63 bits."
  | expectedTerm position text =>
      some s!"Expected a term at position {position} in '{text}'. Example: '2d6 + 3'."
  | unreadable rest text =>
      some s!"Could not understand '{rest}' in '{text}'. Example: '2d6 + 3'."
  | rollTooHigh dice => some s!"Rolling {dice} exceeds the 64-bit range."
  | totalTooHigh signed => some s!"Adding {signed} pushes the total past the 64-bit maximum."
  | totalTooLow signed => some s!"Adding {signed} pushes the total below the 64-bit minimum."
  | exceededCap expression cap => some s!"'{expression}' needs more than {cap} rolls."
  | stated _ message => message

/-- An empty wording counts as none. -/
def message (error : DiceError) : String :=
  match error.detail with
  | some words => if words.isEmpty then error.kind.defaultMessage else words
  | none => error.kind.defaultMessage

def text (error : DiceError) : String := s!"[{error.kind.code}] {error.message}"

/-- A roll was asked for before there was an expression to roll. -/
def noExpression : DiceError := stated .noExpression none

/-- The error of the negated sum: an overflow changes its direction and loses its own
wording, any other error stays. -/
def opposite (error : DiceError) : DiceError :=
  match error.kind with
  | .overflowPositive => stated .overflowNegative none
  | .overflowNegative => stated .overflowPositive none
  | _ => error

/-- The error of adding a term of the given value to a total that cannot take it. -/
def totalOutOfRange (signed : SignedTerm) (value : Int) : DiceError :=
  if 0 < value then totalTooHigh signed else totalTooLow signed

end DiceError

end TabletopDice
