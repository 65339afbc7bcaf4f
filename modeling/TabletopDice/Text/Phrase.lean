/-
The reading of a text as terms between separators.  A phrase takes the longest start of the
text that has the shape of an expression and keeps what is left over; numbers stay digits
here, so nothing is refused for its size.
-/
import TabletopDice.Text.Literal

namespace TabletopDice.Text

/-- A term as it is written. -/
inductive Lexeme where
  | dice (count sides : List Char)
  | constant (digits : List Char)
deriving DecidableEq

/-- Blanks that may stand around the sign of a separator. -/
def isPadding (c : Char) : Bool := c = ' ' || c = '\t'

/-- The sign at the start of the text with all padding around it, and the text behind. -/
def separator? (text : List Char) : Option (Sign × List Char) :=
  match text.dropWhile isPadding with
  | '+' :: behind => some (.plus, behind.dropWhile isPadding)
  | '-' :: behind => some (.minus, behind.dropWhile isPadding)
  | _ => none

/-- A `d` with at least one digit at the start of the text, and the text behind. -/
def dieSize? : List Char → Option (List Char × List Char)
  | 'd' :: behind =>
      let digits := behind.takeWhile Char.isDigit
      if digits = [] then none else some (digits, behind.dropWhile Char.isDigit)
  | _ => none

/-- The term at the start of the text, and the text behind.  Digits before a `d` are a
count only when digits follow the `d`; otherwise they are a constant. -/
def lexeme? (text : List Char) : Option (Lexeme × List Char) :=
  let digits := text.takeWhile Char.isDigit
  let behind := text.dropWhile Char.isDigit
  match dieSize? behind with
  | some (sides, rest) => some (.dice digits sides, rest)
  | none => if digits = [] then none else some (.constant digits, behind)

theorem length_dropWhile_le {α : Type} (p : α → Bool) (l : List α) :
    (l.dropWhile p).length ≤ l.length :=
  (List.dropWhile_suffix p).length_le

theorem length_of_separator? {text behind : List Char} {sign : Sign}
    (h : separator? text = some (sign, behind)) : behind.length < text.length := by
  have hle := length_dropWhile_le isPadding text
  unfold separator? at h
  split at h
  case h_3 => cases h
  all_goals
    rename_i after heq
    have hafter := length_dropWhile_le isPadding after
    rw [heq, List.length_cons] at hle
    cases h
    omega

theorem length_of_dieSize? {text sides rest : List Char}
    (h : dieSize? text = some (sides, rest)) : rest.length < text.length := by
  unfold dieSize? at h
  split at h
  · rename_i behind
    have hle := length_dropWhile_le Char.isDigit behind
    dsimp only at h
    split at h
    · cases h
    · cases h
      rw [List.length_cons]
      omega
  · cases h

theorem length_of_lexeme? {text rest : List Char} {lexeme : Lexeme}
    (h : lexeme? text = some (lexeme, rest)) : rest.length < text.length := by
  have hsplit : text.takeWhile Char.isDigit ++ text.dropWhile Char.isDigit = text :=
    List.takeWhile_append_dropWhile
  have hlength := congrArg List.length hsplit
  rw [List.length_append] at hlength
  simp only [lexeme?] at h
  split at h
  · rename_i hsize
    have hlt := length_of_dieSize? hsize
    cases h
    omega
  · split at h
    · cases h
    · cases h
      have hpos := List.length_pos_iff.mpr ‹¬ text.takeWhile Char.isDigit = []›
      omega

/-- Separators and terms as long as both follow; a separator without a term is left in the
text together with its padding. -/
def following (text : List Char) : List (Sign × Lexeme) × List Char :=
  match _hsep : separator? text with
  | none => ([], text)
  | some (sign, behind) =>
    match _hlex : lexeme? behind with
    | none => ([], text)
    | some (lexeme, rest) =>
      let (others, left) := following rest
      ((sign, lexeme) :: others, left)
termination_by text.length
decreasing_by
  exact Nat.lt_trans (length_of_lexeme? ‹_›) (length_of_separator? ‹_›)

/-- The terms of the longest readable start of a text, and the text left over. -/
structure Phrase where
  first : Sign × Lexeme
  others : List (Sign × Lexeme)
  left : List Char
deriving DecidableEq

namespace Phrase

def terms (phrase : Phrase) : List (Sign × Lexeme) := phrase.first :: phrase.others

/-- Reads an optional separator and then a term, without which there is no phrase; the
error is the position at which that term is missing. -/
def ofText (text : List Char) : Except Nat Phrase :=
  let (sign, body) := (separator? text).getD (.plus, text)
  match lexeme? body with
  | none => .error (text.length - body.length)
  | some (lexeme, rest) =>
    let (others, left) := following rest
    .ok ⟨(sign, lexeme), others, left⟩

end Phrase

end TabletopDice.Text
