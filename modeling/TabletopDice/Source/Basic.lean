/-
Sources of faces.  A source answers each request for a face from its state, or fails; a
feed is a source in use, and it remembers every request, the failing ones included.
-/

namespace TabletopDice

/-- A source cannot answer; this is no error of the expression.  A source never fails with an
overflow of the dice, which would be taken for one of the term that is rolled. -/
structure SourceFailure where
  reason : String
deriving DecidableEq

/-- A source of faces with states in `σ`.  A request for a die with `n` sides asks for a whole
number from 1 to `n`; a request is always of this kind, so it is known by its sides.  Nothing
here says that the answer keeps to these bounds. -/
structure Source (σ : Type) where
  answer : Nat → EStateM SourceFailure σ Int

/-- The state that a source is in, and the sides of every face asked for so far. -/
structure Feed (σ : Type) where
  state : σ
  requests : Array Nat := #[]
deriving DecidableEq

/-- Asks for one face and notes the request, whatever the answer is. -/
def Source.draw {σ : Type} (source : Source σ) (sides : Nat) :
    EStateM SourceFailure (Feed σ) Int
  | ⟨state, requests⟩ =>
    match source.answer sides state with
    | .ok face state => .ok face ⟨state, requests.push sides⟩
    | .error failure state => .error failure ⟨state, requests.push sides⟩

end TabletopDice
