/-
Rolling an expression.  Terms are rolled in order and each sum is checked against the
64-bit range as soon as it is made, so the first failure ends the roll; the faces drawn
until then stay drawn.
-/
import TabletopDice.Fault
import TabletopDice.Value.Basic

namespace TabletopDice

/-- A computation that may draw faces; the feed is kept when it fails. -/
abbrev Rolling (σ : Type) : Type → Type := EStateM Fault (Feed σ)

/-- A check that needs no source. -/
def Rolling.ofExcept {σ α : Type} : Except Fault α → Rolling σ α
  | .ok a => pure a
  | .error fault => throw fault

variable {σ : Type}

/-- Draws so many more faces of the dice, on top of a total and of faces, the latest face
first. -/
def Dice.drawFaces (source : Source σ) (dice : Dice) :
    Nat → Int → List Int → Rolling σ (Int × List Int)
  | 0, total, faces, feed => .ok (total, faces.reverse) feed
  | n + 1, total, faces, feed =>
    match source.draw dice.sides.val feed with
    | .error failure feed => .error (.source failure) feed
    | .ok face feed =>
      match checkedAdd total face with
      | none => .error (.refused (.rollTooHigh dice)) feed
      | some total => dice.drawFaces source n total (face :: faces) feed

/-- Draws a face for every die, also if it has one side only. -/
def Dice.drawAll (source : Source σ) (dice : Dice) : Rolling σ Value := fun feed =>
  match dice.drawFaces source dice.count.val 0 [] feed with
  | .ok (total, faces) feed => .ok (.rolled total (.listed faces) .plus) feed
  | .error fault feed => .error fault feed

/-- One-sided dice are settled without a draw, however many there are. -/
def Dice.roll (source : Source σ) (dice : Dice) : Rolling σ Value := fun feed =>
  if dice.OneSided then
    .ok (.rolled dice.count.val (.repeated ⟨1, dice.count.val⟩) .plus) feed
  else dice.drawAll source feed

/-- A term together with the value it took. -/
structure Outcome where
  signed : SignedTerm
  value : Value
deriving DecidableEq

/-- The outcomes of all terms in order, and their checked sum. -/
structure Result where
  outcomes : List Outcome
  total : Int
deriving DecidableEq

section

variable (rollDice : Dice → Rolling σ Value)

/-- Rolls a term, and its dice in the given way. -/
def Term.rollBy : Term → Rolling σ Value
  | .dice pool => rollDice pool
  | .constant value => fun feed => .ok (.constant value.val) feed

/-- The sign is applied after the roll; dice that overflow under a minus do so downwards. -/
def SignedTerm.rollBy (signed : SignedTerm) : Rolling σ Value := fun feed =>
  match signed.term.rollBy rollDice feed with
  | .ok value feed => .ok (signed.sign * value) feed
  | .error fault feed =>
    match signed.sign with
    | .plus => .error fault feed
    | .minus => .error fault.opposite feed

/-- Rolls the terms on top of a running total. -/
def rollTermsBy (total : Int) : List SignedTerm → Rolling σ Result
  | [], feed => .ok ⟨[], total⟩ feed
  | signed :: rest, feed =>
    match signed.rollBy rollDice feed with
    | .error fault feed => .error fault feed
    | .ok value feed =>
      match checkedAdd total value.amount with
      | none => .error (.refused (.totalOutOfRange signed value.amount)) feed
      | some total =>
        match rollTermsBy total rest feed with
        | .error fault feed => .error fault feed
        | .ok result feed => .ok ⟨⟨signed, value⟩ :: result.outcomes, result.total⟩ feed

/-- The evaluation, with the given way to roll dice. -/
def Expression.evaluateBy (e : Expression) : Rolling σ Result := rollTermsBy rollDice 0 e.terms

end

variable (source : Source σ)

def Term.roll (term : Term) : Rolling σ Value := term.rollBy (Dice.roll source)

def SignedTerm.roll (signed : SignedTerm) : Rolling σ Value := signed.rollBy (Dice.roll source)

def rollTerms (total : Int) (terms : List SignedTerm) : Rolling σ Result :=
  rollTermsBy (Dice.roll source) total terms

def Expression.evaluate (e : Expression) : Rolling σ Result := e.evaluateBy (Dice.roll source)

theorem SignedTerm.roll_eq (signed : SignedTerm) (feed : Feed σ) :
    signed.roll source feed =
      match signed.term.roll source feed with
      | .ok value feed => .ok (signed.sign * value) feed
      | .error fault feed =>
        match signed.sign with
        | .plus => .error fault feed
        | .minus => .error fault.opposite feed := rfl

theorem rollTerms_nil (total : Int) (feed : Feed σ) :
    rollTerms source total [] feed = .ok ⟨[], total⟩ feed := rfl

theorem rollTerms_cons (total : Int) (signed : SignedTerm) (rest : List SignedTerm)
    (feed : Feed σ) :
    rollTerms source total (signed :: rest) feed =
      match signed.roll source feed with
      | .error fault feed => .error fault feed
      | .ok value feed =>
        match checkedAdd total value.amount with
        | none => .error (.refused (.totalOutOfRange signed value.amount)) feed
        | some total =>
          match rollTerms source total rest feed with
          | .error fault feed => .error fault feed
          | .ok result feed => .ok ⟨⟨signed, value⟩ :: result.outcomes, result.total⟩ feed := rfl

end TabletopDice
