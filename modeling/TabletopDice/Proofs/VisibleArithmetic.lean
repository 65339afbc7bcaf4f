/-
The arithmetic that is visible in a text.  The text is cut into numbers and single characters
and rid of the labels before arrows; what is left is added up from the left, where commas
stand for additions and parentheses for sums of their own.
-/
import TabletopDice.Proofs.OutcomeText

namespace TabletopDice

open Text

/-- A run of digits that is as long as it can be, or another character. -/
inductive Token where
  | run (digits : List Char)
  | mark (c : Char)
deriving DecidableEq

/-- Puts a character in front; a digit joins the run that starts there, if one does. -/
def Token.push (c : Char) (tokens : List Token) : List Token :=
  if c.isDigit then
    match tokens with
    | .run digits :: rest => .run (c :: digits) :: rest
    | tokens => .run [c] :: tokens
  else .mark c :: tokens

def tokens (text : List Char) : List Token := text.foldr Token.push []

/-- Leaves out every `NdM → `.  Between commas a minus that is glued to such a label belongs to
it and goes with it; between plus signs it is an operator and stays. -/
def eraseLabels (separator : Separator) : List Token → List Token
  | .mark '-' :: .run _ :: .mark 'd' :: .run _ :: .mark ' ' :: .mark '→' :: .mark ' ' :: rest =>
      match separator with
      | .plusSign => .mark '-' :: eraseLabels separator rest
      | .comma => eraseLabels separator rest
  | .run _ :: .mark 'd' :: .run _ :: .mark ' ' :: .mark '→' :: .mark ' ' :: rest =>
      eraseLabels separator rest
  | token :: rest => token :: eraseLabels separator rest
  | [] => []

/-- A sum in the making: the sums around the open parentheses, the innermost one first and each
with the sign of what its parenthesis holds; what there is of the sum itself; and the sign of
the next number, when one is expected. -/
structure Tally where
  outer : List (Int × Sign)
  total : Int
  next : Option Sign
deriving DecidableEq

namespace Tally

/-- An empty sum, which has to start with a number. -/
def start : Tally := ⟨[], 0, some .plus⟩

/-- A minus is an operator behind a number and turns the sign of a number around before it. -/
def step (tally : Tally) : Token → Option Tally
  | .run digits =>
      tally.next.map fun sign : Sign =>
        ⟨tally.outer, tally.total + sign * (decimal digits : Int), none⟩
  | .mark ' ' => some tally
  | .mark '-' =>
      match tally.next with
      | none => some { tally with next := some .minus }
      | some sign => some { tally with next := some (-sign) }
  | .mark '+' | .mark ',' =>
      match tally.next with
      | none => some { tally with next := some .plus }
      | some _ => none
  | .mark '(' =>
      tally.next.map fun sign : Sign => ⟨(tally.total, sign) :: tally.outer, 0, some .plus⟩
  | .mark ')' =>
      match tally.outer, tally.next with
      | (total, sign) :: outer, none => some ⟨outer, total + sign * tally.total, none⟩
      | _, _ => none
  | .mark _ => none

/-- A sum is complete when no parenthesis is open and no number is missing. -/
def result? : Tally → Option Int
  | ⟨[], total, none⟩ => some total
  | _ => none

/-- What the rest of a text makes of a sum. -/
def read (separator : Separator) (tally : Tally) (text : List Char) : Option Int :=
  ((eraseLabels separator (tokens text)).foldlM step tally).bind result?

end Tally

/-- The sum that the text shows, if it is one. -/
def visibleSum? (separator : Separator) (text : List Char) : Option Int :=
  Tally.start.read separator text

section

variable {c : Char} {text rest : List Char}

theorem tokens_cons (hc : c.isDigit = false) (text : List Char) :
    tokens (c :: text) = .mark c :: tokens text := by
  change Token.push c (tokens text) = _
  simp [Token.push, hc]

/-- Only a digit starts a run. -/
theorem tokens_ne_run (h : ∀ c ∈ text.head?, c.isDigit = false) (digits : List Char)
    (more : List Token) : tokens text ≠ .run digits :: more := by
  rcases text with _ | ⟨c, text⟩
  · simp [tokens]
  · rw [tokens_cons (h c rfl)]
    simp

theorem tokens_run {digits : List Char} (hne : digits ≠ [])
    (hdigits : ∀ c ∈ digits, c.isDigit) (hrest : ∀ c ∈ rest.head?, c.isDigit = false) :
    tokens (digits ++ rest) = .run digits :: tokens rest := by
  induction digits with
  | nil => exact absurd rfl hne
  | cons c digits ih =>
      have hc := hdigits c List.mem_cons_self
      change Token.push c (tokens (digits ++ rest)) = _
      rcases digits with _ | ⟨d, digits⟩
      · rw [List.nil_append, Token.push, if_pos hc]
        exact tokens_ne_run hrest
      · rw [ih (List.cons_ne_nil d digits)
          fun other hother => hdigits other (List.mem_cons_of_mem c hother)]
        simp [Token.push, hc]

theorem tokens_natural (n : Nat) (hrest : ∀ c ∈ rest.head?, c.isDigit = false) :
    tokens ((toString n).toList ++ rest) = .run (toString n).toList :: tokens rest :=
  tokens_run (numeral_toString n).ne_nil (numeral_toString n).isDigit hrest

/-- At a boundary no `d` stands before a run. -/
theorem tokens_ne_die (h : Boundary text) (digits : List Char) (more : List Token) :
    tokens text ≠ .mark 'd' :: .run digits :: more := by
  obtain ⟨hdigit, hdie⟩ := h
  rcases text with _ | ⟨c, text⟩
  · simp [tokens]
  · rw [tokens_cons (hdigit c rfl)]
    intro heq
    obtain ⟨hc, hmore⟩ := List.cons.inj heq
    obtain rfl := Token.mark.inj hc
    refine tokens_ne_run ?_ digits more hmore
    intro d hd
    by_contra hnot
    rcases text with _ | ⟨d', text⟩
    · simp at hd
    · obtain rfl : d' = d := by simpa using hd
      simp [dieSize?, hnot] at hdie

theorem toList_toString_dice (pool : Dice) :
    (toString pool).toList =
      (toString pool.count.val).toList ++ 'd' :: (toString pool.sides.val).toList := by
  simp [toString, String.toList_append]

/-- The tokens of dice with an arrow behind them. -/
theorem tokens_label (pool : Dice) (rest : List Char) :
    tokens ((toString pool).toList ++ ([' ', '→', ' '] ++ rest)) =
      .run (toString pool.count.val).toList :: .mark 'd' ::
        .run (toString pool.sides.val).toList :: .mark ' ' :: .mark '→' :: .mark ' ' ::
          tokens rest := by
  rw [toList_toString_dice, List.append_assoc, List.cons_append,
    tokens_natural _ (by simp), tokens_cons (by decide), tokens_natural _ (by simp)]
  rfl

end

section

variable {separator : Separator} {c : Char} {digits digits' : List Char} {rest : List Token}

theorem eraseLabels_mark (hc : c ≠ '-') :
    eraseLabels separator (.mark c :: rest) = .mark c :: eraseLabels separator rest := by
  rw [eraseLabels]
  · simp [hc]
  · simp

/-- A run is no part of a label if no dice can be read there. -/
theorem eraseLabels_run (h : ∀ digits more, rest ≠ .mark 'd' :: .run digits :: more) :
    eraseLabels separator (.run digits :: rest) = .run digits :: eraseLabels separator rest := by
  rw [eraseLabels]
  · simp
  · intro _ _ _ _ heq
    exact h _ _ heq

theorem eraseLabels_label :
    eraseLabels separator (.run digits :: .mark 'd' :: .run digits' :: .mark ' ' :: .mark '→' ::
      .mark ' ' :: rest) = eraseLabels separator rest := by
  rw [eraseLabels]

theorem eraseLabels_minus_label :
    eraseLabels .comma (.mark '-' :: .run digits :: .mark 'd' :: .run digits' :: .mark ' ' ::
      .mark '→' :: .mark ' ' :: rest) = eraseLabels .comma rest := by
  rw [eraseLabels]

theorem eraseLabels_minus_run (h : ∀ digits more, rest ≠ .mark 'd' :: .run digits :: more) :
    eraseLabels separator (.mark '-' :: .run digits :: rest) =
      .mark '-' :: .run digits :: eraseLabels separator rest := by
  rw [eraseLabels, eraseLabels_run h]
  · intro _ _ _ _ heq
    exact h _ _ (List.cons.inj heq).2
  · simp

theorem eraseLabels_minus_blank :
    eraseLabels separator (.mark '-' :: .mark ' ' :: rest) =
      .mark '-' :: .mark ' ' :: eraseLabels separator rest := by
  rw [eraseLabels, eraseLabels_mark (by decide)]
  · simp
  · simp

/-- Between plus signs every minus stays. -/
theorem eraseLabels_minus :
    eraseLabels .plusSign (.mark '-' :: rest) = .mark '-' :: eraseLabels .plusSign rest := by
  rw [eraseLabels.eq_def]
  split
  · rename_i heq
    obtain ⟨_, rfl⟩ := List.cons.inj heq
    rw [eraseLabels_label]
  · rename_i heq
    simp at heq
  · rename_i heq
    obtain ⟨rfl, rfl⟩ := List.cons.inj heq
    rfl
  · rename_i heq
    simp at heq

end

theorem Sign.mul_add (sign : Sign) (n m : Int) : sign * (n + m) = sign * n + sign * m := by
  cases sign
  · rfl
  · exact Int.neg_add

namespace Tally

variable {separator : Separator} {tally next : Tally} {outer : List (Int × Sign)} {total : Int}
  {sign : Sign} {c : Char} {rest : List Char}

/-- A character that is no part of a label is taken on its own. -/
theorem read_mark (hdigit : c.isDigit = false) (hc : c ≠ '-')
    (hstep : tally.step (.mark c) = some next) (rest : List Char) :
    tally.read separator (c :: rest) = next.read separator rest := by
  rw [read, tokens_cons hdigit, eraseLabels_mark hc, List.foldlM_cons, hstep]
  rfl

theorem read_blank (tally : Tally) (rest : List Char) :
    tally.read separator (' ' :: rest) = tally.read separator rest :=
  read_mark (by decide) (by decide) rfl rest

/-- A parenthesis opens where a number is expected. -/
theorem read_open :
    read separator ⟨outer, total, some sign⟩ ('(' :: rest) =
      read separator ⟨(total, sign) :: outer, 0, some .plus⟩ rest :=
  read_mark (by decide) (by decide) rfl rest

/-- Its sum is added as a whole when it is closed. -/
theorem read_close {inner : Int} :
    read separator ⟨(total, sign) :: outer, inner, none⟩ (')' :: rest) =
      read separator ⟨outer, total + sign * inner, none⟩ rest :=
  read_mark (by decide) (by decide) rfl rest

theorem read_comma :
    read separator ⟨outer, total, none⟩ ([',', ' '] ++ rest) =
      read separator ⟨outer, total, some .plus⟩ rest := by
  rw [List.cons_append, read_mark (by decide) (by decide) rfl]
  exact read_blank _ rest

/-- A sign between blanks is an operator, whatever stands behind. -/
theorem read_operator :
    read separator ⟨outer, total, none⟩ ([' ', signChar sign, ' '] ++ rest) =
      read separator ⟨outer, total, some sign⟩ rest := by
  rw [List.cons_append, read_blank]
  cases sign with
  | plus =>
      rw [List.cons_append]
      exact (read_mark (by decide) (by decide) rfl _).trans (read_blank _ rest)
  | minus =>
      change read separator _ ('-' :: ' ' :: rest) = _
      rw [read, tokens_cons (by decide), tokens_cons (by decide), eraseLabels_minus_blank]
      rfl

/-- Between plus signs a minus turns the sign of what follows around, be it dice or not. -/
theorem read_minus :
    read .plusSign ⟨outer, total, some sign⟩ ('-' :: rest) =
      read .plusSign ⟨outer, total, some (-sign)⟩ rest := by
  rw [read, tokens_cons (by decide), eraseLabels_minus]
  rfl

/-- A run adds its number under the sign that is expected. -/
theorem step_run (n : Nat) :
    step ⟨outer, total, some sign⟩ (.run (toString n).toList) =
      some ⟨outer, total + sign * (n : Int), none⟩ := by
  simp only [step, (numeral_toString n).decimal_eq]
  rfl

theorem read_natural (hrest : Boundary rest) (n : Nat) :
    read separator ⟨outer, total, some sign⟩ ((toString n).toList ++ rest) =
      read separator ⟨outer, total + sign * (n : Int), none⟩ rest := by
  rw [read, tokens_natural n hrest.1, eraseLabels_run (tokens_ne_die hrest), List.foldlM_cons,
    step_run]
  rfl

/-- A number with a sign glued to it. -/
theorem read_signed (hrest : Boundary rest) (own : Sign) (n : Nat) :
    read separator ⟨outer, total, some sign⟩
        (own.leading.toList ++ ((toString n).toList ++ rest)) =
      read separator ⟨outer, total + sign * (own * (n : Int)), none⟩ rest := by
  cases own with
  | plus => rw [Expression.toList_leading_plus, List.nil_append, read_natural hrest, Sign.plus_mul]
  | minus =>
      have hturned : step ⟨outer, total, some sign⟩ (.mark '-') =
          some ⟨outer, total, some (-sign)⟩ := rfl
      have hsum : -sign * (n : Int) = sign * (Sign.minus * (n : Int)) := by
        cases sign
        · rfl
        · exact (Int.neg_neg _).symm
      rw [Expression.toList_leading_minus, List.nil_append, List.cons_append, List.nil_append,
        read, tokens_cons (by decide), tokens_natural n hrest.1,
        eraseLabels_minus_run (tokens_ne_die hrest), List.foldlM_cons, hturned]
      change (List.foldlM step ⟨outer, total, some (-sign)⟩ (.run _ :: _)).bind result? = _
      rw [List.foldlM_cons, step_run, hsum]
      rfl

theorem read_integer (hrest : Boundary rest) (n : Int) :
    read separator ⟨outer, total, some sign⟩ ((toString n).toList ++ rest) =
      read separator ⟨outer, total + sign * n, none⟩ rest := by
  rw [toList_toString_int, List.append_assoc, read_signed hrest, Sign.ofInt_mul_natAbs]

theorem read_label (tally : Tally) (pool : Dice) (rest : List Char) :
    tally.read separator ((toString pool).toList ++ ([' ', '→', ' '] ++ rest)) =
      tally.read separator rest := by
  rw [read, tokens_label, eraseLabels_label]
  rfl

/-- Between commas a label goes with its sign. -/
theorem read_signed_label (tally : Tally) (own : Sign) (pool : Dice) (rest : List Char) :
    tally.read .comma (own.leading.toList ++
        ((toString pool).toList ++ ([' ', '→', ' '] ++ rest))) = tally.read .comma rest := by
  cases own with
  | plus => rw [Expression.toList_leading_plus, List.nil_append, read_label]
  | minus =>
      rw [Expression.toList_leading_minus, List.nil_append, List.cons_append, List.nil_append,
        read, tokens_cons (by decide), tokens_label, eraseLabels_minus_label]
      rfl

/-- A number behind an operator. -/
def operand (own : Sign) (n : Int) : List Char := [' ', signChar own, ' '] ++ (toString n).toList

theorem boundary_operands (hrest : Boundary rest) (own : Sign) (numbers : List Int) :
    Boundary (numbers.flatMap (operand own) ++ rest) := by
  cases numbers with
  | nil => exact hrest
  | cons n numbers =>
      rw [List.flatMap_cons, operand, List.append_assoc, List.append_assoc]
      exact Outcome.boundary_operator own _

/-- Numbers in a row, each behind the same operator. -/
theorem read_operands (hrest : Boundary rest) (own : Sign) (numbers : List Int) :
    read separator ⟨outer, total, none⟩ (numbers.flatMap (operand own) ++ rest) =
      read separator ⟨outer, total + own * numbers.sum, none⟩ rest := by
  induction numbers generalizing total with
  | nil =>
      have hzero : own * (0 : Int) = 0 := by cases own <;> rfl
      rw [List.flatMap_nil, List.nil_append, List.sum_nil, hzero, Int.add_zero]
  | cons n numbers ih =>
      rw [List.flatMap_cons, operand, List.append_assoc, List.append_assoc, read_operator,
        read_integer (boundary_operands hrest own numbers), ih, List.sum_cons, Sign.mul_add,
        Int.add_assoc]

end Tally

end TabletopDice
