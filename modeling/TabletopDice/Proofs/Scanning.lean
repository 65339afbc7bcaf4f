/-
The scanner against the grammar.  What a phrase has taken from a text is derived by the
grammar, and a text that the grammar derives is taken as a whole, since a separator starts
with no character that could continue a term.
-/
import TabletopDice.Proofs.Grammar
import TabletopDice.Text.Phrase

namespace TabletopDice.Text

/-- The text of a term as it was written. -/
def Lexeme.spelling : Lexeme → List Char
  | dice count sides => count ++ 'd' :: sides
  | constant digits => digits

/-- The numbers of a term are digits, and only the count may be missing. -/
def Lexeme.WellFormed : Lexeme → Prop
  | dice count sides => (∀ c ∈ count, c.isDigit) ∧ (∀ c ∈ sides, c.isDigit) ∧ sides ≠ []
  | constant digits => (∀ c ∈ digits, c.isDigit) ∧ digits ≠ []

/-- The term that is written; a missing count is one. -/
def Lexeme.written : Lexeme → WrittenTerm
  | dice [] sides => .dice 1 (decimal sides)
  | dice count sides => .dice (decimal count) (decimal sides)
  | constant digits => .constant (decimal digits)

def writtenTerms (terms : List (Sign × Lexeme)) : List (Sign × WrittenTerm) :=
  terms.map fun term => (term.1, term.2.written)

/-- No term can be continued into the text. -/
def Boundary (text : List Char) : Prop :=
  (∀ c ∈ text.head?, c.isDigit = false) ∧ dieSize? text = none

theorem Lexeme.WellFormed.termText {lexeme : Lexeme} (h : lexeme.WellFormed) :
    TermText lexeme.spelling lexeme.written := by
  cases lexeme with
  | dice count sides =>
      obtain ⟨hcount, hsides, hne⟩ := h
      have hsides := numeral_decimal hne hsides
      cases count with
      | nil => exact .die hsides
      | cons c count => exact .dice (numeral_decimal (List.cons_ne_nil _ _) hcount) hsides
  | constant digits => exact .constant (numeral_decimal h.2 h.1)

/-- Every derivation of a term is the reading of a lexeme. -/
theorem TermText.exists_lexeme {text : List Char} {term : WrittenTerm}
    (h : TermText text term) :
    ∃ lexeme : Lexeme, lexeme.WellFormed ∧ lexeme.spelling = text ∧ lexeme.written = term := by
  cases h with
  | dice hcount hsides =>
      rename_i count sides n m
      refine ⟨.dice count sides, ⟨hcount.isDigit, hsides.isDigit, hsides.ne_nil⟩, rfl, ?_⟩
      rw [← hcount.decimal_eq, ← hsides.decimal_eq]
      cases count with
      | nil => exact absurd rfl hcount.ne_nil
      | cons c count => rfl
  | die hsides =>
      rename_i sides m
      refine ⟨.dice [] sides, ⟨by simp, hsides.isDigit, hsides.ne_nil⟩, rfl, ?_⟩
      rw [← hsides.decimal_eq]
      rfl
  | constant hdigits =>
      refine ⟨.constant text, ⟨hdigits.isDigit, hdigits.ne_nil⟩, rfl, ?_⟩
      rw [← hdigits.decimal_eq]
      rfl

/-- A term starts with a digit or with a `d`, so never with a character of a separator. -/
theorem TermText.head {text : List Char} {term : WrittenTerm} (h : TermText text term) :
    ∃ c rest, text = c :: rest ∧ (c.isDigit ∨ c = 'd') := by
  have hnumeral : ∀ {digits : List Char} {n : Nat}, Numeral digits n →
      ∃ c rest, digits = c :: rest ∧ c.isDigit := by
    intro digits n h
    cases digits with
    | nil => exact absurd rfl h.ne_nil
    | cons c rest => exact ⟨c, rest, rfl, h.isDigit c List.mem_cons_self⟩
  cases h with
  | dice hcount hsides =>
      obtain ⟨c, rest, rfl, hc⟩ := hnumeral hcount
      exact ⟨c, _, rfl, Or.inl hc⟩
  | die hsides => exact ⟨'d', _, rfl, Or.inr rfl⟩
  | constant hdigits =>
      obtain ⟨c, rest, rfl, hc⟩ := hnumeral hdigits
      exact ⟨c, rest, rfl, Or.inl hc⟩

theorem isPadding_iff {c : Char} : isPadding c ↔ c = ' ' ∨ c = '\t' := by
  simp [isPadding]

theorem not_isPadding_signChar (sign : Sign) : isPadding (signChar sign) = false := by
  cases sign <;> rfl

theorem not_isPadding_of_isDigit {c : Char} (hc : c.isDigit) : isPadding c = false := by
  by_contra hpad
  rw [Bool.not_eq_false, isPadding_iff] at hpad
  rcases hpad with rfl | rfl <;> exact absurd hc (by decide)

/-- The character at which a separator is over. -/
theorem TermText.not_isPadding_head {text : List Char} {term : WrittenTerm}
    (h : TermText text term) (rest : List Char) :
    ∀ c ∈ (text ++ rest).head?, isPadding c = false := by
  obtain ⟨c, tail, rfl, hc⟩ := h.head
  intro c' hc'
  cases hc'
  rcases hc with hc | rfl
  · exact not_isPadding_of_isDigit hc
  · rfl

theorem separator?_append {sign : Sign} {sep body : List Char} (hsep : SignText sign sep)
    (hbody : ∀ c ∈ body.head?, isPadding c = false) :
    separator? (sep ++ body) = some (sign, body) := by
  obtain ⟨hbefore, hafter⟩ := hsep
  rename_i before after
  have hsplit : before ++ signChar sign :: after ++ body =
      before ++ (signChar sign :: (after ++ body)) := by simp
  have hstart : (before ++ (signChar sign :: (after ++ body))).dropWhile isPadding =
      signChar sign :: (after ++ body) := by
    apply dropWhile_run
    · exact fun c hc => isPadding_iff.mpr (hbefore c hc)
    · intro c hc
      cases hc
      exact not_isPadding_signChar sign
  have hend : (after ++ body).dropWhile isPadding = body :=
    dropWhile_run (fun c hc => isPadding_iff.mpr (hafter c hc)) hbody
  rw [hsplit, separator?, hstart]
  cases sign <;> simp [signChar, hend]

theorem exists_signText_of_separator? {text behind : List Char} {sign : Sign}
    (h : separator? text = some (sign, behind)) :
    ∃ sep, text = sep ++ behind ∧ SignText sign sep := by
  have hpadding : ∀ l : List Char, Padding (l.takeWhile isPadding) :=
    fun l c hc => isPadding_iff.mp (List.mem_takeWhile_imp hc)
  -- The sign stands between the padding before it and the padding behind it.
  have hjoin : ∀ after : List Char, text.dropWhile isPadding = signChar sign :: after →
      after.dropWhile isPadding = behind →
      ∃ sep, text = sep ++ behind ∧ SignText sign sep := by
    intro after htext hafter
    refine ⟨_, ?_, .intro (hpadding text) (hpadding after)⟩
    rw [List.append_assoc, List.cons_append, ← hafter, List.takeWhile_append_dropWhile,
      ← htext, List.takeWhile_append_dropWhile]
  unfold separator? at h
  split at h
  · rename_i after htext
    cases h
    exact hjoin after htext rfl
  · rename_i after htext
    cases h
    exact hjoin after htext rfl
  · simp at h

/-- A text that starts with a term starts with no separator. -/
theorem separator?_of_termText {text rest : List Char} {term : WrittenTerm}
    (h : TermText text term) : separator? (text ++ rest) = none := by
  have hpad := h.not_isPadding_head rest
  obtain ⟨c, tail, rfl, hc⟩ := h.head
  have hc' := hpad c rfl
  rw [separator?, List.cons_append, List.dropWhile_cons_of_neg (by simp [hc'])]
  split
  · rename_i heq
    cases heq
    rcases hc with hc | hc <;> exact absurd hc (by decide)
  · rename_i heq
    cases heq
    rcases hc with hc | hc <;> exact absurd hc (by decide)
  · rfl

theorem dieSize?_append {sides rest : List Char} (hsides : ∀ c ∈ sides, c.isDigit)
    (hne : sides ≠ []) (hrest : ∀ c ∈ rest.head?, c.isDigit = false) :
    dieSize? ('d' :: (sides ++ rest)) = some (sides, rest) := by
  simp only [dieSize?]
  rw [takeWhile_run hsides hrest, dropWhile_run hsides hrest, if_neg hne]

theorem eq_of_dieSize? {text sides rest : List Char}
    (h : dieSize? text = some (sides, rest)) :
    text = 'd' :: (sides ++ rest) ∧ (∀ c ∈ sides, c.isDigit) ∧ sides ≠ [] := by
  unfold dieSize? at h
  split at h
  · rename_i behind
    dsimp only at h
    split at h
    · simp at h
    · rename_i hne
      cases h
      refine ⟨?_, fun c hc => List.mem_takeWhile_imp hc, hne⟩
      rw [List.takeWhile_append_dropWhile]
  · simp at h

/-- The longest term is the one that was written, if it cannot be continued. -/
theorem lexeme?_spelling {lexeme : Lexeme} {rest : List Char} (h : lexeme.WellFormed)
    (hrest : Boundary rest) : lexeme? (lexeme.spelling ++ rest) = some (lexeme, rest) := by
  cases lexeme with
  | dice count sides =>
      obtain ⟨hcount, hsides, hne⟩ := h
      have hd : ∀ c ∈ ('d' :: (sides ++ rest)).head?, c.isDigit = false := by
        intro c hc
        cases hc
        rfl
      simp only [lexeme?, Lexeme.spelling, List.append_assoc, List.cons_append]
      rw [takeWhile_run hcount hd, dropWhile_run hcount hd,
        dieSize?_append hsides hne hrest.1]
  | constant digits =>
      obtain ⟨hdigits, hne⟩ := h
      have htake : (digits ++ rest).takeWhile Char.isDigit = digits :=
        takeWhile_run hdigits hrest.1
      have hdrop : (digits ++ rest).dropWhile Char.isDigit = rest :=
        dropWhile_run hdigits hrest.1
      simp [lexeme?, Lexeme.spelling, htake, hdrop, hrest.2, hne]

theorem eq_of_lexeme? {text rest : List Char} {lexeme : Lexeme}
    (h : lexeme? text = some (lexeme, rest)) :
    text = lexeme.spelling ++ rest ∧ lexeme.WellFormed := by
  have hdigits : ∀ c ∈ text.takeWhile Char.isDigit, c.isDigit :=
    fun c hc => List.mem_takeWhile_imp hc
  have hsplit : text.takeWhile Char.isDigit ++ text.dropWhile Char.isDigit = text :=
    List.takeWhile_append_dropWhile
  simp only [lexeme?] at h
  split at h
  · rename_i sides rest' hsize
    obtain ⟨hbehind, hsides, hne⟩ := eq_of_dieSize? hsize
    cases h
    refine ⟨?_, hdigits, hsides, hne⟩
    rw [Lexeme.spelling, List.append_assoc, List.cons_append, ← hbehind, hsplit]
  · split at h
    · simp at h
    · rename_i hne
      cases h
      exact ⟨hsplit.symm, hdigits, hne⟩

theorem Boundary.nil : Boundary [] := ⟨by simp, rfl⟩

theorem Boundary.cons {c : Char} {text : List Char} (hdigit : c.isDigit = false)
    (hd : c ≠ 'd') : Boundary (c :: text) := by
  refine ⟨?_, ?_⟩
  · intro c' hc'
    cases hc'
    exact hdigit
  · unfold dieSize?
    split
    · rename_i heq
      cases heq
      exact absurd rfl hd
    · rfl

theorem SignText.boundary {sign : Sign} {sep : List Char} (h : SignText sign sep)
    (text : List Char) : Boundary (sep ++ text) := by
  obtain ⟨hbefore, -⟩ := h
  rename_i before after
  cases before with
  | nil => cases sign <;> exact .cons (by decide) (by decide)
  | cons c before =>
      rcases hbefore c List.mem_cons_self with rfl | rfl <;>
        exact .cons (by decide) (by decide)

/-- Behind a term there is a separator or nothing, and neither continues the term. -/
theorem TailText.boundary {text rest : List Char} {terms : List (Sign × WrittenTerm)}
    (h : TailText text terms) (hrest : Boundary rest) : Boundary (text ++ rest) := by
  cases h with
  | nil => exact hrest
  | cons hsep hterm htail =>
      rw [List.append_assoc]
      exact hsep.boundary _

/-- A derived term is taken as a whole by the scanner, and its numbers are kept. -/
theorem TermText.exists_lexeme? {text rest : List Char} {term : WrittenTerm}
    (h : TermText text term) (hrest : Boundary rest) :
    ∃ lexeme, lexeme? (text ++ rest) = some (lexeme, rest) ∧ lexeme.written = term := by
  obtain ⟨lexeme, hwell, rfl, hwritten⟩ := h.exists_lexeme
  exact ⟨lexeme, lexeme?_spelling hwell hrest, hwritten⟩

theorem following_of_no_separator {text : List Char} (h : separator? text = none) :
    following text = ([], text) := by
  rw [following]
  split
  · rfl
  · rename_i heq
    rw [h] at heq
    simp at heq

theorem following_of_term {text behind rest : List Char} {sign : Sign} {lexeme : Lexeme}
    (hsep : separator? text = some (sign, behind)) (hlex : lexeme? behind = some (lexeme, rest)) :
    following text = ((sign, lexeme) :: (following rest).1, (following rest).2) := by
  rw [following]
  split
  · rename_i heq
    rw [hsep] at heq
    simp at heq
  · rename_i heq
    rw [hsep] at heq
    cases heq
    split
    · rename_i heq
      rw [hlex] at heq
      simp at heq
    · rename_i heq
      rw [hlex] at heq
      cases heq
      rfl

/-- Derived terms are taken in full, and scanning goes on behind them. -/
theorem TailText.following_append {text rest : List Char}
    {terms : List (Sign × WrittenTerm)} (h : TailText text terms) (hrest : Boundary rest) :
    ∃ lexemes, writtenTerms lexemes = terms ∧
      following (text ++ rest) = (lexemes ++ (following rest).1, (following rest).2) := by
  induction h with
  | nil => exact ⟨[], rfl, rfl⟩
  | @cons sign sep text tail term terms hsep hterm htail ih =>
      obtain ⟨lexemes, hlexemes, htaken⟩ := ih
      obtain ⟨lexeme, hlexeme, hwritten⟩ := hterm.exists_lexeme? (htail.boundary hrest)
      have hseparator := separator?_append hsep (hterm.not_isPadding_head (tail ++ rest))
      refine ⟨(sign, lexeme) :: lexemes, ?_, ?_⟩
      · rw [writtenTerms, List.map_cons, hwritten]
        exact congrArg _ hlexemes
      · rw [List.append_assoc, List.append_assoc, following_of_term hseparator hlexeme, htaken]
        rfl

/-- Whatever is taken behind a first term can be derived. -/
theorem exists_tailText_of_following (text : List Char) :
    ∃ front, text = front ++ (following text).2 ∧
      TailText front (writtenTerms (following text).1) ∧
      ∀ term ∈ (following text).1, term.2.WellFormed := by
  fun_induction following text with
  | case1 text hsep => exact ⟨[], rfl, .nil, by simp⟩
  | case2 text sign behind hsep hlex => exact ⟨[], rfl, .nil, by simp⟩
  | case3 text sign behind hsep lexeme rest hlex others left hfollowing ih =>
      obtain ⟨front, hfront, htail, hwell⟩ := ih
      rw [hfollowing] at hfront htail hwell
      obtain ⟨sep, rfl, hseparator⟩ := exists_signText_of_separator? hsep
      obtain ⟨rfl, hlexeme⟩ := eq_of_lexeme? hlex
      refine ⟨sep ++ (lexeme.spelling ++ front), ?_, .cons hseparator hlexeme.termText htail, ?_⟩
      · rw [hfront]
        simp
      · intro term hterm
        rcases List.mem_cons.mp hterm with rfl | hterm
        · exact hlexeme
        · exact hwell term hterm

namespace Phrase

theorem ofText_of_no_separator {text rest : List Char} {lexeme : Lexeme}
    (hsep : separator? text = none) (hlex : lexeme? text = some (lexeme, rest)) :
    ofText text = .ok ⟨(.plus, lexeme), (following rest).1, (following rest).2⟩ := by
  simp [ofText, hsep, hlex]

theorem ofText_of_separator {text body rest : List Char} {sign : Sign} {lexeme : Lexeme}
    (hsep : separator? text = some (sign, body)) (hlex : lexeme? body = some (lexeme, rest)) :
    ofText text = .ok ⟨(sign, lexeme), (following rest).1, (following rest).2⟩ := by
  simp [ofText, hsep, hlex]

/-- Every phrase starts in one of two ways, with a separator or without. -/
theorem ofText_cases {text : List Char} {phrase : Phrase} (h : ofText text = .ok phrase) :
    ∃ rest, phrase.others = (following rest).1 ∧ phrase.left = (following rest).2 ∧
      ((separator? text = none ∧ phrase.first.1 = .plus ∧
          lexeme? text = some (phrase.first.2, rest)) ∨
        ∃ body, separator? text = some (phrase.first.1, body) ∧
          lexeme? body = some (phrase.first.2, rest)) := by
  cases hsep : separator? text with
  | none =>
      cases hlex : lexeme? text with
      | none => simp [ofText, hsep, hlex] at h
      | some found =>
          obtain ⟨lexeme, rest⟩ := found
          rw [ofText_of_no_separator hsep hlex] at h
          cases h
          exact ⟨rest, rfl, rfl, Or.inl ⟨rfl, rfl, rfl⟩⟩
  | some found =>
      obtain ⟨sign, body⟩ := found
      cases hlex : lexeme? body with
      | none => simp [ofText, hsep, hlex] at h
      | some found =>
          obtain ⟨lexeme, rest⟩ := found
          rw [ofText_of_separator hsep hlex] at h
          cases h
          exact ⟨rest, rfl, rfl, Or.inr ⟨body, rfl, hlex⟩⟩

/-- What a phrase has taken is derived by the grammar. -/
theorem exists_derives_of_ofText {text : List Char} {phrase : Phrase}
    (h : ofText text = .ok phrase) :
    (∃ front, text = front ++ phrase.left ∧ Derives front (writtenTerms phrase.terms)) ∧
      ∀ term ∈ phrase.terms, term.2.WellFormed := by
  obtain ⟨⟨sign, lexeme⟩, others, left⟩ := phrase
  obtain ⟨rest, rfl, rfl, hstart⟩ := ofText_cases h
  obtain ⟨front, hfront, htail, hwell⟩ := exists_tailText_of_following rest
  have hterms : lexeme.WellFormed →
      ∀ term ∈ (sign, lexeme) :: (following rest).1, term.2.WellFormed := by
    intro hlexeme term hterm
    rcases List.mem_cons.mp hterm with rfl | hterm
    · exact hlexeme
    · exact hwell term hterm
  rcases hstart with ⟨-, hsign, hlex⟩ | ⟨body, hsep, hlex⟩
  · obtain ⟨rfl, hlexeme⟩ := eq_of_lexeme? hlex
    cases hsign
    refine ⟨⟨lexeme.spelling ++ front, ?_, .unsigned hlexeme.termText htail⟩, hterms hlexeme⟩
    rw [List.append_assoc, ← hfront]
  · obtain ⟨sep, rfl, hseparator⟩ := exists_signText_of_separator? hsep
    obtain ⟨rfl, hlexeme⟩ := eq_of_lexeme? hlex
    refine ⟨⟨sep ++ (lexeme.spelling ++ front), ?_, .signed hseparator hlexeme.termText htail⟩,
      hterms hlexeme⟩
    rw [List.append_assoc, List.append_assoc, ← hfront]

/-- A derived text is taken as one phrase, and scanning goes on behind it. -/
theorem exists_ofText_of_derives {text rest : List Char} {terms : List (Sign × WrittenTerm)}
    (h : Derives text terms) (hrest : Boundary rest) :
    ∃ first others, writtenTerms (first :: others) = terms ∧
      ofText (text ++ rest) =
        .ok ⟨first, others ++ (following rest).1, (following rest).2⟩ := by
  cases h with
  | @unsigned text tail term terms hterm htail =>
      obtain ⟨lexemes, hlexemes, htaken⟩ := htail.following_append hrest
      obtain ⟨lexeme, hlexeme, hwritten⟩ := hterm.exists_lexeme? (htail.boundary hrest)
      refine ⟨(.plus, lexeme), lexemes, ?_, ?_⟩
      · rw [writtenTerms, List.map_cons, hwritten]
        exact congrArg _ hlexemes
      · rw [List.append_assoc,
          ofText_of_no_separator (separator?_of_termText hterm) hlexeme, htaken]
  | @signed sign sep text tail term terms hsep hterm htail =>
      obtain ⟨lexemes, hlexemes, htaken⟩ := htail.following_append hrest
      obtain ⟨lexeme, hlexeme, hwritten⟩ := hterm.exists_lexeme? (htail.boundary hrest)
      have hseparator := separator?_append hsep (hterm.not_isPadding_head (tail ++ rest))
      refine ⟨(sign, lexeme), lexemes, ?_, ?_⟩
      · rw [writtenTerms, List.map_cons, hwritten]
        exact congrArg _ hlexemes
      · rw [List.append_assoc, List.append_assoc, ofText_of_separator hseparator hlexeme,
          htaken]

/-- Exactly the derived texts are taken as a whole, with the terms of the derivation. -/
theorem derives_iff {text : List Char} {terms : List (Sign × WrittenTerm)} :
    Derives text terms ↔
      ∃ phrase, ofText text = .ok phrase ∧ phrase.left = [] ∧
        writtenTerms phrase.terms = terms := by
  constructor
  · intro h
    obtain ⟨first, others, hterms, htaken⟩ := exists_ofText_of_derives h .nil
    have hnil : following [] = ([], []) := following_of_no_separator rfl
    rw [List.append_nil, hnil, List.append_nil] at htaken
    exact ⟨_, htaken, rfl, hterms⟩
  · rintro ⟨phrase, htaken, hleft, rfl⟩
    obtain ⟨⟨front, hfront, hderives⟩, -⟩ := exists_derives_of_ofText htaken
    rw [hleft, List.append_nil] at hfront
    rwa [hfront]

end Phrase

/-- No text can be derived in two ways that differ in a sign or a number. -/
theorem Derives.unique {text : List Char} {left right : List (Sign × WrittenTerm)}
    (hleft : Derives text left) (hright : Derives text right) : left = right := by
  obtain ⟨phrase, htaken, -, rfl⟩ := Phrase.derives_iff.mp hleft
  obtain ⟨phrase', htaken', -, rfl⟩ := Phrase.derives_iff.mp hright
  rw [htaken] at htaken'
  cases htaken'
  rfl

end TabletopDice.Text
