/-
Dice expressions: non-empty sums of signed terms, and their one normal spelling.
-/
import TabletopDice.Term

namespace TabletopDice

/-- A sum of signed terms in a fixed order, with a first one. -/
structure Expression where
  first : SignedTerm
  rest : List SignedTerm
deriving DecidableEq

namespace Expression

def terms (e : Expression) : List SignedTerm := e.first :: e.rest

def length (e : Expression) : Nat := e.terms.length

/-- The normal spelling: `2d6 + 3 - 1d20`, with a minus glued to the first term only. -/
instance : ToString Expression where
  toString e := toString e.first ++ String.join (e.rest.map SignedTerm.continuation)

theorem terms_ne_nil (e : Expression) : e.terms ≠ [] := List.cons_ne_nil _ _

end Expression

end TabletopDice
