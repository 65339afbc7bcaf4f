/-
The grammar of dice expressions, declared without any way of reading it: an optional
separator, a term, and then separators and terms in turn.  A derivation gives each term its
sign and its numbers, which may be of any size here.
-/
import Mathlib.Data.List.TakeWhile
import TabletopDice.Proofs.Literal
import TabletopDice.Term
import TabletopDice.Text.Blank

namespace TabletopDice

/-- A term as a derivation reads it; its numbers need not fit and its dice may lack sides. -/
inductive WrittenTerm where
  | dice (count sides : Nat)
  | constant (value : Nat)
deriving DecidableEq

/-- All numbers are magnitudes, and a die has at least one side. -/
def WrittenTerm.Admissible : WrittenTerm → Prop
  | dice count sides => count ≤ maxMagnitude ∧ sides ≤ maxMagnitude ∧ sides ≠ 0
  | constant value => value ≤ maxMagnitude

def Term.written : Term → WrittenTerm
  | dice pool => .dice pool.count.val pool.sides.val
  | constant value => .constant value.val

def SignedTerm.written (signed : SignedTerm) : Sign × WrittenTerm :=
  (signed.sign, signed.term.written)

theorem Magnitude.val_injective {left right : Magnitude} (h : left.val = right.val) :
    left = right := by
  obtain ⟨n, _⟩ := left
  obtain ⟨m, _⟩ := right
  simpa using h

/-- What the terms of an expression write is what can be admitted. -/
theorem WrittenTerm.admissible_iff {written : WrittenTerm} :
    written.Admissible ↔ ∃ term : Term, term.written = written := by
  cases written with
  | dice count sides =>
      constructor
      · rintro ⟨hcount, hsides, hne⟩
        exact ⟨.dice ⟨⟨count, hcount⟩, ⟨sides, hsides⟩, Nat.pos_of_ne_zero hne⟩, rfl⟩
      · rintro ⟨term, h⟩
        cases term with
        | dice pool =>
            cases h
            exact ⟨pool.count.val_le, pool.sides.val_le,
              Nat.ne_of_gt pool.one_le_sides⟩
        | constant value => cases h
  | constant value =>
      constructor
      · intro h
        exact ⟨.constant ⟨value, h⟩, rfl⟩
      · rintro ⟨term, h⟩
        cases term with
        | dice pool => cases h
        | constant value =>
            cases h
            exact value.val_le

namespace Text

/-- Blanks are gone from both ends of the text, and nothing else is. -/
structure Stripped (text core : List Char) : Prop where
  split : ∃ front back, text = front ++ core ++ back ∧
    (∀ c ∈ front, isBlank c) ∧ ∀ c ∈ back, isBlank c
  head : ∀ c ∈ core.head?, isBlank c = false
  last : ∀ c ∈ core.getLast?, isBlank c = false

/-- Any number of spaces and tabs. -/
def Padding (text : List Char) : Prop := ∀ c ∈ text, c = ' ' ∨ c = '\t'

def signChar : Sign → Char
  | .plus => '+'
  | .minus => '-'

/-- A sign with padding on both of its sides. -/
inductive SignText (sign : Sign) : List Char → Prop
  | intro {before after : List Char} (hbefore : Padding before) (hafter : Padding after) :
      SignText sign (before ++ signChar sign :: after)

/-- A count, a `d` and the sides, of which the count may be missing, or a number alone. -/
inductive TermText : List Char → WrittenTerm → Prop
  | dice {count sides : List Char} {n m : Nat} (hcount : Numeral count n)
      (hsides : Numeral sides m) : TermText (count ++ 'd' :: sides) (.dice n m)
  | die {sides : List Char} {m : Nat} (hsides : Numeral sides m) :
      TermText ('d' :: sides) (.dice 1 m)
  | constant {digits : List Char} {n : Nat} (hdigits : Numeral digits n) :
      TermText digits (.constant n)

/-- Terms with a separator before each of them. -/
inductive TailText : List Char → List (Sign × WrittenTerm) → Prop
  | nil : TailText [] []
  | cons {sign : Sign} {sep text rest : List Char} {term : WrittenTerm}
      {terms : List (Sign × WrittenTerm)} (hsep : SignText sign sep)
      (hterm : TermText text term) (hrest : TailText rest terms) :
      TailText (sep ++ (text ++ rest)) ((sign, term) :: terms)

/-- A whole expression, whose first separator may be missing and is a plus then. -/
inductive Derives : List Char → List (Sign × WrittenTerm) → Prop
  | unsigned {text rest : List Char} {term : WrittenTerm}
      {terms : List (Sign × WrittenTerm)} (hterm : TermText text term)
      (hrest : TailText rest terms) : Derives (text ++ rest) ((.plus, term) :: terms)
  | signed {sign : Sign} {sep text rest : List Char} {term : WrittenTerm}
      {terms : List (Sign × WrittenTerm)} (hsep : SignText sign sep)
      (hterm : TermText text term) (hrest : TailText rest terms) :
      Derives (sep ++ (text ++ rest)) ((sign, term) :: terms)

theorem Derives.terms_ne_nil {text : List Char} {terms : List (Sign × WrittenTerm)}
    (h : Derives text terms) : terms ≠ [] := by
  cases h with
  | unsigned hterm hrest => exact List.cons_ne_nil _ _
  | signed hsep hterm hrest => exact List.cons_ne_nil _ _

theorem stripped_trim (text : List Char) : Stripped text (trim text) := by
  let body := text.dropWhile isBlank
  have hbody : text.takeWhile isBlank ++ body = text := List.takeWhile_append_dropWhile
  have htrim : trim text ++ (body.reverse.takeWhile isBlank).reverse = body := by
    rw [trim, ← List.reverse_append, List.takeWhile_append_dropWhile, List.reverse_reverse]
  refine ⟨⟨text.takeWhile isBlank, (body.reverse.takeWhile isBlank).reverse, ?_, ?_, ?_⟩,
    ?_, ?_⟩
  · rw [List.append_assoc, htrim, hbody]
  · exact fun c hc => List.mem_takeWhile_imp hc
  · exact fun c hc => List.mem_takeWhile_imp (List.mem_reverse.mp hc)
  · intro c hc
    -- A first character of the trimmed text is the first one of the body.
    have hfirst : c ∈ body.head? := by
      rw [← htrim]
      exact List.mem_head?_append_of_mem_head? hc
    have hnot := List.head?_dropWhile_not isBlank text
    rw [Option.mem_def] at hfirst
    rw [hfirst] at hnot
    simpa using hnot
  · intro c hc
    rw [trim, List.getLast?_reverse, Option.mem_def] at hc
    have hnot := List.head?_dropWhile_not isBlank body.reverse
    rw [hc] at hnot
    simpa using hnot

/-- A run of characters that satisfy a test ends where the test fails. -/
theorem takeWhile_run {p : Char → Bool} {run rest : List Char} (hrun : ∀ c ∈ run, p c)
    (hrest : ∀ c ∈ rest.head?, p c = false) : (run ++ rest).takeWhile p = run := by
  rw [List.takeWhile_append_of_pos hrun]
  cases rest with
  | nil => simp
  | cons c rest => simp [hrest c rfl]

theorem dropWhile_run {p : Char → Bool} {run rest : List Char} (hrun : ∀ c ∈ run, p c)
    (hrest : ∀ c ∈ rest.head?, p c = false) : (run ++ rest).dropWhile p = rest := by
  rw [List.dropWhile_append_of_pos hrun]
  cases rest with
  | nil => rfl
  | cons c rest => simp [hrest c rfl]

/-- There is only one way to strip a text. -/
theorem Stripped.trim_eq {text core : List Char} (h : Stripped text core) :
    trim text = core := by
  obtain ⟨⟨front, back, rfl, hfront, hback⟩, hhead, hlast⟩ := h
  have hlast' : ∀ c ∈ core.reverse.head?, isBlank c = false := by
    rwa [List.head?_reverse]
  cases core with
  | nil =>
      have hall : ∀ c ∈ front ++ back, isBlank c := fun c hc =>
        (List.mem_append.mp hc).elim (hfront c) (hback c)
      have hdrop : (front ++ back ++ []).dropWhile isBlank = [] :=
        dropWhile_run hall (by simp)
      rw [List.append_nil] at hdrop
      rw [List.append_nil, trim, hdrop]
      rfl
  | cons c core =>
      have hdrop : (front ++ (c :: core ++ back)).dropWhile isBlank = c :: core ++ back :=
        dropWhile_run hfront hhead
      rw [trim, List.append_assoc, hdrop, List.reverse_append,
        dropWhile_run (fun c hc => hback c (List.mem_reverse.mp hc)) hlast',
        List.reverse_reverse]

end Text

end TabletopDice
