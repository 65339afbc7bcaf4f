/-
Longest starts of a text.  The scanner takes the longest separator, the longest term and the
longest start that the grammar derives, so what is left over begins where no derivation can
go on.
-/
import TabletopDice.Proofs.Scanning

namespace TabletopDice.Text

/-- Of the starts of the text that have the shape this is the longest one. -/
structure LongestStart (Shape : List Char → Prop) (text front : List Char) : Prop where
  start : front <+: text
  shape : Shape front
  longest : ∀ other, other <+: text → Shape other → other.length ≤ front.length

def IsTerm (text : List Char) : Prop := ∃ term, TermText text term

/-- A separator that may be missing. -/
def IsOptionalSeparator (text : List Char) : Prop := text = [] ∨ ∃ sign, SignText sign text

def Grammatical (text : List Char) : Prop := ∃ terms, Derives text terms

def StartsWithTerm (text : List Char) : Prop := ∃ front, front <+: text ∧ IsTerm front

theorem length_le_takeWhile {p : Char → Bool} {run : List Char} (hrun : ∀ c ∈ run, p c)
    (rest : List Char) : run.length ≤ ((run ++ rest).takeWhile p).length := by
  rw [List.takeWhile_append_of_pos hrun, List.length_append]
  exact Nat.le_add_right _ _

/-- At the start of dice the scanner takes dice, perhaps with more digits. -/
theorem exists_lexeme?_dice {count sides : List Char} (hcount : ∀ c ∈ count, c.isDigit)
    (hsides : ∀ c ∈ sides, c.isDigit) (hne : sides ≠ []) (rest : List Char) :
    ∃ lexeme left, lexeme? (count ++ 'd' :: sides ++ rest) = some (lexeme, left) ∧
      (count ++ 'd' :: sides).length ≤ lexeme.spelling.length := by
  have hd : ∀ c ∈ ('d' :: (sides ++ rest)).head?, c.isDigit = false := by
    intro c hc
    cases hc
    rfl
  have hle := length_le_takeWhile hsides rest
  have htaken : (sides ++ rest).takeWhile Char.isDigit ≠ [] := by
    have hpos := List.length_pos_iff.mpr hne
    exact List.length_pos_iff.mp (Nat.lt_of_lt_of_le hpos hle)
  refine ⟨.dice count ((sides ++ rest).takeWhile Char.isDigit),
    (sides ++ rest).dropWhile Char.isDigit, ?_, ?_⟩
  · simp only [lexeme?, List.append_assoc, List.cons_append]
    rw [takeWhile_run hcount hd, dropWhile_run hcount hd]
    simp only [dieSize?, if_neg htaken]
  · simp only [Lexeme.spelling, List.length_append, List.length_cons]
    omega

/-- Where a term starts, the scanner takes a term that is no shorter. -/
theorem TermText.exists_lexeme?_ge {text : List Char} {term : WrittenTerm}
    (h : TermText text term) (rest : List Char) :
    ∃ lexeme left, lexeme? (text ++ rest) = some (lexeme, left) ∧
      text.length ≤ lexeme.spelling.length := by
  cases h with
  | dice hcount hsides =>
      exact exists_lexeme?_dice hcount.isDigit hsides.isDigit hsides.ne_nil rest
  | die hsides =>
      exact exists_lexeme?_dice (List.forall_mem_nil _) hsides.isDigit hsides.ne_nil rest
  | constant hdigits =>
      have hle := length_le_takeWhile hdigits.isDigit rest
      have hpos := List.length_pos_iff.mpr hdigits.ne_nil
      simp only [lexeme?]
      split
      · rename_i sides left hsize
        refine ⟨_, _, rfl, ?_⟩
        simp only [Lexeme.spelling, List.length_append]
        omega
      · rw [if_neg (List.length_pos_iff.mp (Nat.lt_of_lt_of_le hpos hle))]
        exact ⟨_, _, rfl, hle⟩

theorem longestStart_of_lexeme? {text rest : List Char} {lexeme : Lexeme}
    (h : lexeme? text = some (lexeme, rest)) : LongestStart IsTerm text lexeme.spelling := by
  obtain ⟨htext, hwell⟩ := eq_of_lexeme? h
  refine ⟨⟨rest, htext.symm⟩, ⟨_, hwell.termText⟩, ?_⟩
  rintro other ⟨behind, hbehind⟩ ⟨term, hterm⟩
  obtain ⟨taken, left, htaken, hle⟩ := hterm.exists_lexeme?_ge behind
  rw [hbehind, h] at htaken
  cases htaken
  exact hle

/-- No term is taken just where none starts. -/
theorem lexeme?_eq_none_iff {text : List Char} :
    lexeme? text = none ↔ ¬ StartsWithTerm text := by
  constructor
  · rintro h ⟨front, ⟨rest, rfl⟩, term, hterm⟩
    obtain ⟨lexeme, left, htaken, _⟩ := hterm.exists_lexeme?_ge rest
    rw [h] at htaken
    simp at htaken
  · intro hnone
    cases h : lexeme? text with
    | none => rfl
    | some found =>
        have hlongest := longestStart_of_lexeme? h
        exact absurd ⟨_, hlongest.start, hlongest.shape⟩ hnone

/-- The longest term at a place is the one that is taken there. -/
theorem LongestStart.lexeme? {text rest : List Char} {term : WrittenTerm}
    (h : LongestStart IsTerm (text ++ rest) text) (hterm : TermText text term) :
    ∃ lexeme, Text.lexeme? (text ++ rest) = some (lexeme, rest) ∧ lexeme.written = term := by
  obtain ⟨lexeme, left, htaken, hle⟩ := hterm.exists_lexeme?_ge rest
  obtain ⟨hsplit, hwell⟩ := eq_of_lexeme? htaken
  have hge := h.longest lexeme.spelling ⟨left, hsplit.symm⟩ ⟨_, hwell.termText⟩
  obtain ⟨rfl, rfl⟩ := List.append_inj hsplit (Nat.le_antisymm hle hge)
  obtain ⟨lexeme', htaken', hwritten⟩ := hterm.exists_lexeme? .nil
  rw [lexeme?_spelling hwell .nil] at htaken'
  cases htaken'
  exact ⟨lexeme, htaken, hwritten⟩

/-- Where a separator starts, the scanner takes one and leaves no more than stands behind. -/
theorem SignText.exists_separator? {sign : Sign} {sep : List Char} (h : SignText sign sep)
    (rest : List Char) :
    ∃ behind, separator? (sep ++ rest) = some (sign, behind) ∧ behind.length ≤ rest.length := by
  obtain ⟨hbefore, hafter⟩ := h
  rename_i before after
  have hhead : ∀ c ∈ (rest.dropWhile isPadding).head?, isPadding c = false := by
    intro c hc
    have hnot := List.head?_dropWhile_not isPadding rest
    rw [Option.mem_def] at hc
    rw [hc] at hnot
    simpa using hnot
  -- The padding in front of the rest belongs to the separator too.
  have hlonger : SignText sign (before ++ signChar sign :: (after ++ rest.takeWhile isPadding)) := by
    refine .intro hbefore fun c hc => ?_
    rcases List.mem_append.mp hc with hc | hc
    · exact hafter c hc
    · exact isPadding_iff.mp (List.mem_takeWhile_imp hc)
  have htaken := separator?_append hlonger hhead
  simp only [List.append_assoc, List.cons_append, List.takeWhile_append_dropWhile] at htaken
  refine ⟨rest.dropWhile isPadding, ?_, length_dropWhile_le isPadding rest⟩
  rwa [List.append_assoc, List.cons_append]

/-- What stands behind the separator at the start, or the whole text. -/
def unsigned (text : List Char) : List Char := ((separator? text).getD (.plus, text)).2

theorem exists_longest_separator (text : List Char) :
    ∃ lead, text = lead ++ unsigned text ∧ LongestStart IsOptionalSeparator text lead := by
  unfold unsigned
  cases h : separator? text with
  | none =>
      refine ⟨[], rfl, List.nil_prefix, .inl rfl, ?_⟩
      rintro other ⟨behind, rfl⟩ (rfl | ⟨sign, hsep⟩)
      · exact Nat.le_refl _
      · obtain ⟨left, htaken, _⟩ := hsep.exists_separator? behind
        rw [h] at htaken
        simp at htaken
  | some found =>
      obtain ⟨sign, body⟩ := found
      obtain ⟨sep, rfl, hsep⟩ := exists_signText_of_separator? h
      refine ⟨sep, rfl, List.prefix_append _ _, .inr ⟨sign, hsep⟩, ?_⟩
      rintro other ⟨behind, hbehind⟩ (rfl | ⟨sign', hother⟩)
      · exact Nat.zero_le _
      · obtain ⟨left, htaken, hle⟩ := hother.exists_separator? behind
        rw [hbehind, h] at htaken
        cases htaken
        have hlength := congrArg List.length hbehind
        rw [List.length_append, List.length_append] at hlength
        omega

theorem length_following_le (text : List Char) :
    (following text).2.length ≤ text.length := by
  obtain ⟨front, hfront, -⟩ := exists_tailText_of_following text
  have hlength := congrArg List.length hfront
  rw [List.length_append] at hlength
  omega

/-- A derived term and what follows it are taken, if not more. -/
theorem TermText.exists_following_length_le {text tail rest : List Char} {term : WrittenTerm}
    {terms : List (Sign × WrittenTerm)} (hterm : TermText text term) (htail : TailText tail terms)
    (hle : (following (tail ++ rest)).2.length ≤ rest.length) :
    ∃ lexeme left, lexeme? (text ++ (tail ++ rest)) = some (lexeme, left) ∧
      (following left).2.length ≤ rest.length := by
  cases htail with
  | nil =>
      -- The last term may go on in the text behind it.
      obtain ⟨lexeme, left, htaken, hge⟩ := hterm.exists_lexeme?_ge rest
      have hlength := congrArg List.length (eq_of_lexeme? htaken).1
      rw [List.length_append, List.length_append] at hlength
      refine ⟨lexeme, left, htaken, Nat.le_trans (length_following_le left) ?_⟩
      omega
  | cons hsep hnext hlater =>
      rw [List.append_assoc] at hle ⊢
      obtain ⟨lexeme, htaken, -⟩ := hterm.exists_lexeme? (hsep.boundary _)
      exact ⟨lexeme, _, htaken, hle⟩

theorem TailText.length_following_le {text rest : List Char}
    {terms : List (Sign × WrittenTerm)} (h : TailText text terms) :
    (following (text ++ rest)).2.length ≤ rest.length := by
  induction h with
  | nil => exact Text.length_following_le rest
  | @cons sign sep text tail term terms hsep hterm htail ih =>
      obtain ⟨lexeme, left, htaken, hle⟩ := hterm.exists_following_length_le htail ih
      have hseparator := separator?_append hsep (hterm.not_isPadding_head (tail ++ rest))
      rw [List.append_assoc, List.append_assoc, following_of_term hseparator htaken]
      exact hle

namespace Phrase

/-- There is a phrase if a term follows the separator; otherwise the length of the separator is
the position at which the term is missing. -/
theorem ofText_cases_of_start (text : List Char) :
    (¬ StartsWithTerm (unsigned text) ∧
        ofText text = .error (text.length - (unsigned text).length)) ∨
      (StartsWithTerm (unsigned text) ∧ ∃ phrase, ofText text = .ok phrase) := by
  cases h : lexeme? (unsigned text) with
  | none =>
      refine .inl ⟨lexeme?_eq_none_iff.mp h, ?_⟩
      unfold unsigned at h ⊢
      simp only [ofText, h]
  | some found =>
      have hlongest := longestStart_of_lexeme? h
      refine .inr ⟨⟨_, hlongest.start, hlongest.shape⟩, ?_⟩
      unfold unsigned at h
      simp only [ofText, h]
      exact ⟨_, rfl⟩

theorem exists_ofText_of_start {front : List Char} {terms : List (Sign × WrittenTerm)}
    (h : Derives front terms) (rest : List Char) :
    ∃ phrase, ofText (front ++ rest) = .ok phrase ∧ phrase.left.length ≤ rest.length := by
  cases h with
  | @unsigned text tail term terms hterm htail =>
      obtain ⟨lexeme, left, htaken, hle⟩ :=
        hterm.exists_following_length_le htail htail.length_following_le
      rw [List.append_assoc, ofText_of_no_separator (separator?_of_termText hterm) htaken]
      exact ⟨_, rfl, hle⟩
  | @signed sign sep text tail term terms hsep hterm htail =>
      obtain ⟨lexeme, left, htaken, hle⟩ :=
        hterm.exists_following_length_le htail htail.length_following_le
      have hseparator := separator?_append hsep (hterm.not_isPadding_head (tail ++ rest))
      rw [List.append_assoc, List.append_assoc, ofText_of_separator hseparator htaken]
      exact ⟨_, rfl, hle⟩

/-- A phrase leaves what stands behind the longest start that can be derived. -/
theorem exists_longestStart {text : List Char} {phrase : Phrase} (h : ofText text = .ok phrase) :
    ∃ front, text = front ++ phrase.left ∧ LongestStart Grammatical text front := by
  obtain ⟨⟨front, hfront, hderives⟩, -⟩ := exists_derives_of_ofText h
  refine ⟨front, hfront, ⟨phrase.left, hfront.symm⟩, ⟨_, hderives⟩, ?_⟩
  rintro other ⟨behind, hbehind⟩ ⟨terms, hother⟩
  obtain ⟨phrase', htaken, hle⟩ := exists_ofText_of_start hother behind
  rw [hbehind, h] at htaken
  cases htaken
  have hlength := congrArg List.length (hbehind.trans hfront)
  rw [List.length_append, List.length_append] at hlength
  omega

theorem grammatical_iff {text : List Char} :
    Grammatical text ↔ ∃ phrase, ofText text = .ok phrase ∧ phrase.left = [] := by
  constructor
  · rintro ⟨terms, h⟩
    obtain ⟨phrase, htaken, hleft, -⟩ := derives_iff.mp h
    exact ⟨phrase, htaken, hleft⟩
  · rintro ⟨phrase, htaken, hleft⟩
    exact ⟨_, derives_iff.mpr ⟨phrase, htaken, hleft, rfl⟩⟩

end Phrase

end TabletopDice.Text
