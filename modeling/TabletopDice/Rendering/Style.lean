/-
How a result is laid out.  A style starts from the default and is changed by adjustments,
applied from left to right.
-/

namespace TabletopDice

inductive TotalPlace where
  | left
  | right
  | suppressed
deriving DecidableEq

inductive Separator where
  | plusSign
  | comma
deriving DecidableEq

/-- The layout of a result; the default lists every face and shows no total. -/
structure Style where
  totalPlace : TotalPlace := .suppressed
  summarize : Bool := false
  separator : Separator := .plusSign
  diceParentheses : Bool := true
  listParentheses : Bool := false
  /-- Signs are left out, because a separator shows them already. -/
  ignoreSign : Bool := false
deriving DecidableEq

inductive Adjustment where
  | excludeSign
  | totalLeft
  | totalRight
  | noTotal
  | concise
  | verbose
  | commas
  | pluses
  | diceParentheses
  | noDiceParentheses
  | listParentheses
  | noListParentheses
deriving DecidableEq

namespace Style

def adjust (style : Style) : Adjustment → Style
  | .excludeSign => { style with ignoreSign := true }
  | .totalLeft => { style with totalPlace := .left }
  | .totalRight => { style with totalPlace := .right }
  | .noTotal => { style with totalPlace := .suppressed }
  | .concise => { style with summarize := true }
  | .verbose => { style with summarize := false }
  | .commas => { style with separator := .comma }
  | .pluses => { style with separator := .plusSign }
  | .diceParentheses => { style with diceParentheses := true }
  | .noDiceParentheses => { style with diceParentheses := false }
  | .listParentheses => { style with listParentheses := true }
  | .noListParentheses => { style with listParentheses := false }

def ofAdjustments (adjustments : List Adjustment) : Style :=
  adjustments.foldl adjust {}

/-- The style of the terms in a list: between plus signs they lose their own signs. -/
def forTerms (style : Style) : Style :=
  match style.separator with
  | .plusSign => style.adjust .excludeSign
  | .comma => style

end Style

end TabletopDice
