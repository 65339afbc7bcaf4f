/-
Texts that are refused.  A number that does not fit is reported as soon as its term is read,
whatever text follows; then a missing first term, then the text behind the longest start
that is an expression, and last a die without sides.  No text is refused for another reason.
-/
import TabletopDice.Proofs.LongestStart
import TabletopDice.Proofs.Reading

namespace TabletopDice

open Text

/-- All numbers are magnitudes. -/
def WrittenTerm.Fits : WrittenTerm → Prop
  | dice count sides => count ≤ maxMagnitude ∧ sides ≤ maxMagnitude
  | constant value => value ≤ maxMagnitude

/-- Dice that have no sides. -/
def WrittenTerm.Sideless : WrittenTerm → Prop
  | dice _ sides => sides = 0
  | constant _ => False

/-- All numbers of all terms fit. -/
def AllFit (terms : List (Sign × WrittenTerm)) : Prop := ∀ term ∈ terms, term.2.Fits

/-- Some die has no sides. -/
def AnySideless (terms : List (Sign × WrittenTerm)) : Prop := ∃ term ∈ terms, term.2.Sideless

theorem WrittenTerm.admissible_iff_fits {written : WrittenTerm} :
    written.Admissible ↔ written.Fits ∧ ¬ written.Sideless := by
  cases written with
  | dice count sides => simp [Admissible, Fits, Sideless, and_assoc]
  | constant value => simp [Admissible, Fits, Sideless]

theorem WrittenTerm.fits_iff {written : WrittenTerm} :
    written.Fits ↔ ∃ draft : Draft, written = draft.written := by
  cases written with
  | dice count sides =>
      constructor
      · rintro ⟨hcount, hsides⟩
        exact ⟨.dice ⟨count, hcount⟩ ⟨sides, hsides⟩, rfl⟩
      · rintro ⟨draft, h⟩
        cases draft with
        | dice n m =>
            cases h
            exact ⟨n.val_le, m.val_le⟩
        | constant value => cases h
  | constant value =>
      constructor
      · intro hvalue
        exact ⟨.constant ⟨value, hvalue⟩, rfl⟩
      · rintro ⟨draft, h⟩
        cases draft with
        | dice n m => cases h
        | constant m =>
            cases h
            exact m.val_le

/-- Numbers that fit are those of drafts. -/
theorem allFit_iff {terms : List (Sign × WrittenTerm)} :
    AllFit terms ↔
      ∃ drafts : List (Sign × Draft),
        terms = drafts.map fun draft => (draft.1, draft.2.written) := by
  constructor
  · intro h
    induction terms with
    | nil => exact ⟨[], rfl⟩
    | cons term terms ih =>
        obtain ⟨hterm, hlater⟩ := List.forall_mem_cons.mp h
        obtain ⟨draft, hdraft⟩ := WrittenTerm.fits_iff.mp hterm
        obtain ⟨drafts, hdrafts⟩ := ih hlater
        refine ⟨(term.1, draft) :: drafts, ?_⟩
        rw [List.map_cons, ← hdrafts, ← hdraft]
  · rintro ⟨drafts, rfl⟩ term hterm
    obtain ⟨draft, _, rfl⟩ := List.mem_map.mp hterm
    exact WrittenTerm.fits_iff.mpr ⟨draft.2, rfl⟩

namespace Draft

theorem term_eq_error_iff {draft : Draft} {error : DiceError} :
    draft.term = .error error ↔ draft.written.Sideless ∧ error = .noSides := by
  cases draft with
  | dice count sides =>
      rw [term, Term.ofInts, Check.map_eq_error_iff, Dice.ofInts_magnitudes]
      by_cases hsides : 1 ≤ sides.val
      · simp only [dif_pos hsides, written, WrittenTerm.Sideless]
        constructor
        · intro h
          cases h
        · rintro ⟨hzero, _⟩
          omega
      · have hzero : sides.val = 0 := by omega
        simp [written, WrittenTerm.Sideless, hzero, eq_comm]
  | constant value => simp [term, Term.ofInt_magnitude, written, WrittenTerm.Sideless]

theorem exists_literalTooLong_of_magnitude {digits : List Char} {error : DiceError}
    (h : magnitude digits = .error error) : ∃ n, error = .literalTooLong n := by
  rw [magnitude_eq] at h
  split at h
  · cases h
    exact ⟨_, rfl⟩
  · split at h
    · cases h
    · cases h
      exact ⟨_, rfl⟩

theorem exists_literalTooLong_of_ofLexeme {lexeme : Lexeme} {error : DiceError}
    (h : ofLexeme lexeme = .error error) : ∃ n, error = .literalTooLong n := by
  unfold ofLexeme at h
  split at h
  · exact exists_literalTooLong_of_magnitude (Check.map_eq_error_iff.mp h)
  · rcases Check.bind_eq_error_iff.mp h with h | ⟨n, _, h⟩
    · exact exists_literalTooLong_of_magnitude h
    · rcases Check.bind_eq_error_iff.mp h with h | ⟨m, _, h⟩
      · exact exists_literalTooLong_of_magnitude h
      · cases h
  · exact exists_literalTooLong_of_magnitude (Check.map_eq_error_iff.mp h)

end Draft

namespace Text

/-- What may stand in front of a term: nothing, a separator, or an expression and a separator.
The sign is that of the term, and the terms of the expression come with it. -/
inductive Opening : List Char → Sign → List (Sign × WrittenTerm) → Prop
  | start : Opening [] .plus []
  | separator {sign : Sign} {sep : List Char} (hsep : SignText sign sep) : Opening sep sign []
  | later {sign : Sign} {front sep : List Char} {terms : List (Sign × WrittenTerm)}
      (hfront : Derives front terms) (hsep : SignText sign sep) : Opening (front ++ sep) sign terms

theorem TailText.snoc {tail sep text : List Char} {terms : List (Sign × WrittenTerm)}
    {sign : Sign} {term : WrittenTerm} (h : TailText tail terms) (hsep : SignText sign sep)
    (hterm : TermText text term) :
    TailText (tail ++ (sep ++ text)) (terms ++ [(sign, term)]) := by
  induction h with
  | nil => simpa using TailText.cons hsep hterm .nil
  | cons hsep' hterm' _ ih => simpa using TailText.cons hsep' hterm' ih

/-- A term may follow its opening, and the two together are an expression. -/
theorem Opening.derives {before text : List Char} {sign : Sign}
    {earlier : List (Sign × WrittenTerm)} {term : WrittenTerm} (h : Opening before sign earlier)
    (hterm : TermText text term) : Derives (before ++ text) (earlier ++ [(sign, term)]) := by
  cases h with
  | start => simpa using Derives.unsigned hterm .nil
  | separator hsep => simpa using Derives.signed hsep hterm .nil
  | later hfront hsep =>
      cases hfront with
      | unsigned hfirst htail =>
          simpa using Derives.unsigned hfirst (htail.snoc hsep hterm)
      | signed hlead hfirst htail =>
          simpa using Derives.signed hlead hfirst (htail.snoc hsep hterm)

/-- A start of the text is an expression whose last term is the longest one at its place and
has a number that does not fit, while all numbers of the terms before it fit. -/
def Oversized (text : List Char) : Prop :=
  ∃ before last rest earlier sign term, text = before ++ (last ++ rest) ∧
    Opening before sign earlier ∧ TermText last term ∧
    Derives (before ++ last) (earlier ++ [(sign, term)]) ∧
    LongestStart IsTerm (last ++ rest) last ∧ AllFit earlier ∧ ¬ term.Fits

/-- Where a later term is taken, an opening stands in front of it. -/
theorem exists_opening_of_following {front text : List Char} {earlier : List (Sign × WrittenTerm)}
    {taken later : List (Sign × Lexeme)} {found : Sign × Lexeme}
    (hfront : Derives front earlier) (h : (following text).1 = taken ++ found :: later) :
    ∃ between rest, text = between ++ (found.2.spelling ++ rest) ∧
      Opening (front ++ between) found.1 (earlier ++ writtenTerms taken) ∧
      lexeme? (found.2.spelling ++ rest) = some (found.2, rest) := by
  fun_induction following text generalizing front earlier taken with
  | case1 text hsep => simp at h
  | case2 text sign behind hsep hlex => simp at h
  | case3 text sign behind hsep lexeme rest hlex others left hfollowing ih =>
      obtain ⟨sep, rfl, hseparator⟩ := exists_signText_of_separator? hsep
      obtain ⟨rfl, hwell⟩ := eq_of_lexeme? hlex
      have hopening : Opening (front ++ sep) sign earlier := .later hfront hseparator
      rcases taken with _ | ⟨next, taken⟩
      · cases h
        exact ⟨sep, rest, rfl, by simpa [writtenTerms] using hopening, hlex⟩
      · cases h
        have htail : (following rest).1 = taken ++ found :: later := congrArg Prod.fst hfollowing
        obtain ⟨between, behind, hsplit, hlater, htaken⟩ :=
          ih (hopening.derives hwell.termText) htail
        refine ⟨sep ++ (lexeme.spelling ++ between), behind, ?_, ?_, htaken⟩
        · rw [hsplit]
          simp
        · simpa [writtenTerms] using hlater

namespace Phrase

theorem exists_opening {text : List Char} {phrase : Phrase} (h : ofText text = .ok phrase)
    {taken later : List (Sign × Lexeme)} {found : Sign × Lexeme}
    (hterms : phrase.terms = taken ++ found :: later) :
    ∃ before rest, text = before ++ (found.2.spelling ++ rest) ∧
      Opening before found.1 (writtenTerms taken) ∧
      lexeme? (found.2.spelling ++ rest) = some (found.2, rest) := by
  -- The first term has the opening of the text, and later ones are found behind it.
  have hstart : ∃ before rest, text = before ++ (phrase.first.2.spelling ++ rest) ∧
      Opening before phrase.first.1 [] ∧
      lexeme? (phrase.first.2.spelling ++ rest) = some (phrase.first.2, rest) ∧
      phrase.others = (following rest).1 := by
    obtain ⟨rest, hothers, -, ⟨-, hsign, hlex⟩ | ⟨body, hsep, hlex⟩⟩ := ofText_cases h
    · obtain ⟨htext, -⟩ := eq_of_lexeme? hlex
      rw [htext] at hlex
      exact ⟨[], rest, htext, hsign ▸ .start, hlex, hothers⟩
    · obtain ⟨sep, rfl, hseparator⟩ := exists_signText_of_separator? hsep
      obtain ⟨hbody, -⟩ := eq_of_lexeme? hlex
      rw [hbody] at hlex
      exact ⟨sep, rest, by rw [hbody], .separator hseparator, hlex, hothers⟩
  obtain ⟨before, rest, rfl, hopening, hlex, hothers⟩ := hstart
  rcases taken with _ | ⟨next, taken⟩
  · obtain ⟨rfl, -⟩ := List.cons.inj hterms
    exact ⟨before, rest, rfl, hopening, hlex⟩
  · obtain ⟨rfl, htail⟩ := List.cons.inj hterms
    obtain ⟨between, behind, hsplit, hlater, htaken⟩ :=
      exists_opening_of_following (hopening.derives (eq_of_lexeme? hlex).2.termText)
        (hothers.symm.trans htail)
    refine ⟨before ++ (phrase.first.2.spelling ++ between), behind, ?_, ?_, htaken⟩
    · rw [hsplit]
      simp
    · simpa [writtenTerms] using hlater

/-- A term at the end of a start is taken if it is the longest one at its place. -/
theorem exists_mem_terms_of_opening {before last rest : List Char} {sign : Sign}
    {earlier : List (Sign × WrittenTerm)} {term : WrittenTerm} (h : Opening before sign earlier)
    (hterm : TermText last term) (hlongest : LongestStart IsTerm (last ++ rest) last) :
    ∃ phrase, ofText (before ++ (last ++ rest)) = .ok phrase ∧
      ∃ found ∈ phrase.terms, found.2.written = term := by
  obtain ⟨lexeme, htaken, hwritten⟩ := hlongest.lexeme? hterm
  have hhead := hterm.not_isPadding_head rest
  cases h with
  | start =>
      have hphrase := ofText_of_no_separator (separator?_of_termText hterm) htaken
      exact ⟨_, hphrase, _, List.mem_cons_self, hwritten⟩
  | separator hsep =>
      have hphrase := ofText_of_separator (separator?_append hsep hhead) htaken
      exact ⟨_, hphrase, _, List.mem_cons_self, hwritten⟩
  | later hfront hsep =>
      obtain ⟨first, others, -, hphrase⟩ := exists_ofText_of_derives hfront (hsep.boundary _)
      rw [following_of_term (separator?_append hsep hhead) htaken] at hphrase
      rw [List.append_assoc]
      exact ⟨_, hphrase, (sign, lexeme), by simp [terms], hwritten⟩

/-- What holds of the terms of an expression holds of those of its phrase. -/
theorem exists_derives_and_iff {text : List Char} {phrase : Phrase}
    {p : List (Sign × WrittenTerm) → Prop} (h : ofText text = .ok phrase) :
    (∃ terms, Derives text terms ∧ p terms) ↔
      phrase.left = [] ∧ p (writtenTerms phrase.terms) := by
  simp only [derives_iff, h]
  constructor
  · rintro ⟨_, ⟨_, ⟨⟩, hleft, rfl⟩, hp⟩
    exact ⟨hleft, hp⟩
  · rintro ⟨hleft, hp⟩
    exact ⟨_, ⟨phrase, rfl, hleft, rfl⟩, hp⟩

/-- Of the texts that start with a phrase those are oversized in which it has a number that
does not fit. -/
theorem oversized_iff {text : List Char} :
    Oversized text ↔ ∃ phrase, ofText text = .ok phrase ∧ ¬ AllFit (writtenTerms phrase.terms) := by
  constructor
  · rintro ⟨before, last, rest, earlier, sign, term, rfl, hopening, hterm, -, hlongest, -, hunfit⟩
    obtain ⟨phrase, htaken, found, hfound, rfl⟩ :=
      exists_mem_terms_of_opening hopening hterm hlongest
    refine ⟨phrase, htaken, fun hfits => hunfit ?_⟩
    exact hfits (found.1, found.2.written) (List.mem_map_of_mem hfound)
  · rintro ⟨phrase, htaken, h⟩
    have hsome : ∃ term ∈ phrase.terms, ¬ term.2.written.Fits := by
      simpa [AllFit, writtenTerms] using h
    obtain ⟨taken, found, later, hterms, hfits, hunfit⟩ := Check.exists_first_not hsome
    obtain ⟨before, rest, htext, hopening, hlexeme⟩ := exists_opening htaken hterms
    have hterm := (eq_of_lexeme? hlexeme).2.termText
    refine ⟨before, found.2.spelling, rest, writtenTerms taken, found.1, found.2.written, htext,
      hopening, hterm, hopening.derives hterm, longestStart_of_lexeme? hlexeme, ?_, hunfit⟩
    intro other hother
    obtain ⟨term, hmem, rfl⟩ := List.mem_map.mp hother
    exact hfits term hmem

end Phrase

end Text

namespace Expression

section

variable {terms : List (Sign × Lexeme)} {text : List Char} {phrase : Phrase}

theorem exists_drafts_iff (hwell : ∀ term ∈ terms, term.2.WellFormed) :
    (∃ drafts, (terms.mapM fun (sign, lexeme) => (sign, ·) <$> Draft.ofLexeme lexeme) =
        .ok drafts) ↔ AllFit (writtenTerms terms) := by
  simp only [drafts_eq_ok_iff hwell, allFit_iff]

/-- Numbers are looked at before anything else. -/
theorem ofPhrase_of_unfit (hwell : ∀ term ∈ phrase.terms, term.2.WellFormed)
    (h : ¬ AllFit (writtenTerms phrase.terms)) :
    ∃ digits, ofPhrase text phrase = .error (.literalTooLong digits) := by
  cases hdrafts : phrase.terms.mapM fun (sign, lexeme) => (sign, ·) <$> Draft.ofLexeme lexeme with
  | ok drafts => exact absurd ((exists_drafts_iff hwell).mp ⟨drafts, hdrafts⟩) h
  | error error =>
      obtain ⟨_, found, _, _, _, hfound⟩ := Check.mapM_eq_error_iff.mp hdrafts
      obtain ⟨digits, rfl⟩ :=
        Draft.exists_literalTooLong_of_ofLexeme (Check.map_eq_error_iff.mp hfound)
      exact ⟨digits, Check.bind_eq_error_iff.mpr (.inl hdrafts)⟩

theorem ofPhrase_of_left (hwell : ∀ term ∈ phrase.terms, term.2.WellFormed)
    (hfits : AllFit (writtenTerms phrase.terms)) (hleft : phrase.left ≠ []) :
    ofPhrase text phrase =
      .error (.unreadable (String.ofList phrase.left) (String.ofList text)) := by
  obtain ⟨drafts, hdrafts⟩ := (exists_drafts_iff hwell).mpr hfits
  refine Check.bind_eq_error_iff.mpr (.inr ⟨drafts, hdrafts, ?_⟩)
  rw [if_pos hleft]
  rfl

/-- Dice are built last, and all that can be wrong with them is that they have no sides. -/
theorem ofPhrase_of_sideless (hwell : ∀ term ∈ phrase.terms, term.2.WellFormed)
    (hfits : AllFit (writtenTerms phrase.terms)) (hleft : phrase.left = [])
    (hsideless : AnySideless (writtenTerms phrase.terms)) :
    ofPhrase text phrase = .error .noSides := by
  obtain ⟨drafts, hdrafts⟩ := (exists_drafts_iff hwell).mpr hfits
  rw [(drafts_eq_ok_iff hwell).mp hdrafts] at hsideless
  obtain ⟨_, hmem, hzero⟩ := hsideless
  obtain ⟨draft, hdraft, rfl⟩ := List.mem_map.mp hmem
  have hterm : draft.2.term = .error .noSides := Draft.term_eq_error_iff.mpr ⟨hzero, rfl⟩
  obtain ⟨error, hbuilt⟩ : ∃ error, (drafts.mapM fun draft =>
      (SignedTerm.mk draft.1 ·) <$> draft.2.term) = .error error :=
    Check.exists_mapM_eq_error_iff.mpr ⟨draft, hdraft, _, Check.map_eq_error_iff.mpr hterm⟩
  obtain ⟨_, found, _, _, _, hfound⟩ := Check.mapM_eq_error_iff.mp hbuilt
  obtain ⟨-, rfl⟩ := Draft.term_eq_error_iff.mp (Check.map_eq_error_iff.mp hfound)
  refine Check.bind_eq_error_iff.mpr (.inr ⟨drafts, hdrafts, ?_⟩)
  rw [if_neg (not_not_intro hleft)]
  exact Check.bind_eq_error_iff.mpr (.inl hbuilt)

theorem exists_ofPhrase_eq_ok (hwell : ∀ term ∈ phrase.terms, term.2.WellFormed)
    (hfits : AllFit (writtenTerms phrase.terms)) (hleft : phrase.left = [])
    (hsides : ¬ AnySideless (writtenTerms phrase.terms)) :
    ∃ e, ofPhrase text phrase = .ok e := by
  obtain ⟨e, he⟩ : ∃ e : Expression, e.terms.map SignedTerm.written = writtenTerms phrase.terms := by
    apply exists_expression_of_admissible (List.cons_ne_nil _ _)
    intro term hterm
    rw [WrittenTerm.admissible_iff_fits]
    exact ⟨hfits term hterm, fun hzero => hsides ⟨term, hterm, hzero⟩⟩
  exact ⟨e, (ofPhrase_eq_ok_iff hwell).mpr ⟨hleft, he.symm⟩⟩

/-- The four ways in which reading a phrase can end, and when each of them is taken. -/
theorem ofPhrase_cases (text : List Char) (hwell : ∀ term ∈ phrase.terms, term.2.WellFormed) :
    (¬ AllFit (writtenTerms phrase.terms) ∧
        ∃ digits, ofPhrase text phrase = .error (.literalTooLong digits)) ∨
      (AllFit (writtenTerms phrase.terms) ∧ phrase.left ≠ [] ∧ ofPhrase text phrase =
        .error (.unreadable (String.ofList phrase.left) (String.ofList text))) ∨
      (AllFit (writtenTerms phrase.terms) ∧ phrase.left = [] ∧
        AnySideless (writtenTerms phrase.terms) ∧ ofPhrase text phrase = .error .noSides) ∨
      (AllFit (writtenTerms phrase.terms) ∧ phrase.left = [] ∧
        ¬ AnySideless (writtenTerms phrase.terms) ∧ ∃ e, ofPhrase text phrase = .ok e) := by
  by_cases hfits : AllFit (writtenTerms phrase.terms)
  · by_cases hleft : phrase.left = []
    · by_cases hsideless : AnySideless (writtenTerms phrase.terms)
      · exact .inr (.inr (.inl
          ⟨hfits, hleft, hsideless, ofPhrase_of_sideless hwell hfits hleft hsideless⟩))
      · exact .inr (.inr (.inr
          ⟨hfits, hleft, hsideless, exists_ofPhrase_eq_ok hwell hfits hleft hsideless⟩))
    · exact .inr (.inl ⟨hfits, hleft, ofPhrase_of_left hwell hfits hleft⟩)
  · exact .inl ⟨hfits, ofPhrase_of_unfit hwell hfits⟩

end

section

variable {text : List Char}

theorem ofChars_of_ok {phrase : Phrase} (h : Phrase.ofText text = .ok phrase) :
    ofChars text = ofPhrase text phrase := by
  rw [ofChars, h]

theorem ofChars_of_error {position : Nat} (h : Phrase.ofText text = .error position) :
    ofChars text = .error (.expectedTerm position (String.ofList text)) := by
  rw [ofChars, h]

/-- A text is refused for one of four causes. -/
theorem causes_of_ofChars {error : DiceError} (h : ofChars text = .error error) :
    (∃ digits, error = .literalTooLong digits) ∨
      (∃ position, error = .expectedTerm position (String.ofList text)) ∨
      (∃ rest, error = .unreadable rest (String.ofList text)) ∨ error = .noSides := by
  cases htaken : Phrase.ofText text with
  | error position =>
      rw [ofChars_of_error htaken] at h
      exact .inr (.inl ⟨position, (Except.error.inj h).symm⟩)
  | ok phrase =>
      rw [ofChars_of_ok htaken] at h
      rcases ofPhrase_cases text (Phrase.exists_derives_of_ofText htaken).2 with
        ⟨-, digits, hend⟩ | ⟨-, -, hend⟩ | ⟨-, -, -, hend⟩ | ⟨-, -, -, e, hend⟩
      · exact .inl ⟨digits, Except.error.inj (h.symm.trans hend)⟩
      · exact .inr (.inr (.inl ⟨_, Except.error.inj (h.symm.trans hend)⟩))
      · exact .inr (.inr (.inr (Except.error.inj (h.symm.trans hend))))
      · rw [h] at hend
        simp at hend

/-- The error of a number is that of an oversized text, whatever else is wrong with it. -/
theorem exists_integerTooLarge_iff :
    (∃ error, ofChars text = .error error ∧ error.kind = .integerTooLarge) ↔ Oversized text := by
  have hcause : (∃ error, ofChars text = .error error ∧ error.kind = .integerTooLarge) ↔
      ∃ digits, ofChars text = .error (.literalTooLong digits) := by
    constructor
    · rintro ⟨error, h, hkind⟩
      rcases causes_of_ofChars h with ⟨digits, rfl⟩ | ⟨_, rfl⟩ | ⟨_, rfl⟩ | rfl
      · exact ⟨digits, h⟩
      all_goals simp [DiceError.kind] at hkind
    · rintro ⟨digits, h⟩
      exact ⟨_, h, rfl⟩
  rw [hcause, Phrase.oversized_iff]
  cases htaken : Phrase.ofText text with
  | error position => simp [ofChars_of_error htaken]
  | ok phrase =>
      rw [ofChars_of_ok htaken]
      rcases ofPhrase_cases text (Phrase.exists_derives_of_ofText htaken).2 with
        ⟨hunfit, hend⟩ | ⟨hfits, -, hend⟩ | ⟨hfits, -, -, hend⟩ | ⟨hfits, -, -, e, hend⟩
      · simp [hunfit, hend]
      · simp [hfits, hend]
      · simp [hfits, hend]
      · simp [hfits, hend]

/-- The error of a die is that of an expression whose numbers all fit. -/
theorem exists_invalidDie_iff :
    (∃ error, ofChars text = .error error ∧ error.kind = .invalidDie) ↔
      ∃ terms, Derives text terms ∧ AllFit terms ∧ AnySideless terms := by
  have hcause : (∃ error, ofChars text = .error error ∧ error.kind = .invalidDie) ↔
      ofChars text = .error .noSides := by
    constructor
    · rintro ⟨error, h, hkind⟩
      rcases causes_of_ofChars h with ⟨_, rfl⟩ | ⟨_, rfl⟩ | ⟨_, rfl⟩ | rfl
      · simp [DiceError.kind] at hkind
      · simp [DiceError.kind] at hkind
      · simp [DiceError.kind] at hkind
      · exact h
    · intro h
      exact ⟨_, h, rfl⟩
  rw [hcause]
  cases htaken : Phrase.ofText text with
  | error position => simp [ofChars_of_error htaken, Phrase.derives_iff, htaken]
  | ok phrase =>
      rw [ofChars_of_ok htaken, Phrase.exists_derives_and_iff htaken]
      rcases ofPhrase_cases text (Phrase.exists_derives_of_ofText htaken).2 with
        ⟨hunfit, digits, hend⟩ | ⟨hfits, hleft, hend⟩ | ⟨hfits, hleft, hsideless, hend⟩ |
          ⟨hfits, hleft, hsides, e, hend⟩
      · simp [hunfit, hend]
      · simp [hleft, hend]
      · simp [hfits, hleft, hsideless, hend]
      · simp [hsides, hend]

/-- Without a first term the length of the separator in front of it is reported. -/
theorem ofChars_of_not_startsWithTerm {lead : List Char} (hsplit : text = lead ++ unsigned text)
    (h : ¬ StartsWithTerm (unsigned text)) :
    ofChars text = .error (.expectedTerm lead.length (String.ofList text)) := by
  rcases Phrase.ofText_cases_of_start text with ⟨-, htaken⟩ | ⟨hstarts, -⟩
  · have hlength := congrArg List.length hsplit
    rw [List.length_append] at hlength
    have hposition : text.length - (unsigned text).length = lead.length := by omega
    rw [ofChars_of_error htaken, hposition]
  · exact absurd hstarts h

/-- A text that is no expression is quoted from the end of its longest start that is one. -/
theorem ofChars_of_not_grammatical (hfits : ¬ Oversized text)
    (hstarts : StartsWithTerm (unsigned text)) (h : ¬ Grammatical text) :
    ∃ front rest, text = front ++ rest ∧ LongestStart Grammatical text front ∧
      ofChars text = .error (.unreadable (String.ofList rest) (String.ofList text)) := by
  rcases Phrase.ofText_cases_of_start text with ⟨hnone, -⟩ | ⟨-, phrase, htaken⟩
  · exact absurd hstarts hnone
  · obtain ⟨front, hsplit, hlongest⟩ := Phrase.exists_longestStart htaken
    have hall : AllFit (writtenTerms phrase.terms) := by
      by_contra hunfit
      exact hfits (Phrase.oversized_iff.mpr ⟨phrase, htaken, hunfit⟩)
    have hleft : phrase.left ≠ [] := by
      intro hnil
      exact h (Phrase.grammatical_iff.mpr ⟨phrase, htaken, hnil⟩)
    refine ⟨front, phrase.left, hsplit, hlongest, ?_⟩
    rw [ofChars_of_ok htaken]
    exact ofPhrase_of_left (Phrase.exists_derives_of_ofText htaken).2 hall hleft

/-- An expression whose numbers fit can be refused only for a die without sides. -/
theorem ofChars_of_grammatical (hfits : ¬ Oversized text) (h : Grammatical text)
    (hrefused : ∃ error, ofChars text = .error error) : ofChars text = .error .noSides := by
  obtain ⟨phrase, htaken, hleft⟩ := Phrase.grammatical_iff.mp h
  obtain ⟨error, hrefused⟩ := hrefused
  rw [ofChars_of_ok htaken] at hrefused ⊢
  rcases ofPhrase_cases text (Phrase.exists_derives_of_ofText htaken).2 with
    ⟨hunfit, -⟩ | ⟨-, hmore, -⟩ | ⟨-, -, -, hend⟩ | ⟨-, -, -, e, hend⟩
  · exact absurd (Phrase.oversized_iff.mpr ⟨phrase, htaken, hunfit⟩) hfits
  · exact absurd hleft hmore
  · exact hend
  · rw [hrefused] at hend
    simp at hend

end

/-- Why a text is refused depends on its core.  A number that does not fit counts if its term
ends a start that is an expression, whatever follows.  Otherwise it is the first term that is
missing, at the end of the separator in front of it; or else the text is quoted from where its
longest start that is an expression ends; and if it is an expression as a whole, some die
has no sides.  There are no other causes. -/
theorem parse_error_causes (text : String) :
    ∃ core, Stripped text.toList core ∧
      ((∃ error, parse text = .error error ∧ error.kind = .integerTooLarge) ↔ Oversized core) ∧
      (∃ lead behind, core = lead ++ behind ∧ LongestStart IsOptionalSeparator core lead ∧
        (¬ StartsWithTerm behind →
          parse text = .error (.expectedTerm lead.length (String.ofList core))) ∧
        (¬ Oversized core → StartsWithTerm behind → ¬ Grammatical core →
          ∃ front rest, core = front ++ rest ∧ LongestStart Grammatical core front ∧
            parse text = .error (.unreadable (String.ofList rest) (String.ofList core)))) ∧
      (¬ Oversized core → Grammatical core → (∃ error, parse text = .error error) →
        parse text = .error .noSides) ∧
      ((∃ error, parse text = .error error ∧ error.kind = .invalidDie) ↔
        ∃ terms, Derives core terms ∧ AllFit terms ∧ AnySideless terms) ∧
      ∀ error, parse text = .error error →
        (∃ digits, error = .literalTooLong digits) ∨
          (∃ position, error = .expectedTerm position (String.ofList core)) ∨
          (∃ rest, error = .unreadable rest (String.ofList core)) ∨ error = .noSides := by
  obtain ⟨lead, hsplit, hlead⟩ := exists_longest_separator (trim text.toList)
  refine ⟨trim text.toList, stripped_trim text.toList, exists_integerTooLarge_iff,
    ⟨lead, unsigned (trim text.toList), hsplit, hlead, ofChars_of_not_startsWithTerm hsplit,
      ofChars_of_not_grammatical⟩,
    ofChars_of_grammatical, exists_invalidDie_iff, ?_⟩
  intro error h
  exact causes_of_ofChars h

/-- A dangling operator is left over together with its padding. -/
example : parse " 2d6 - 3 +" = .error (.unreadable " +" "2d6 - 3 +") := by decide +kernel

end Expression

end TabletopDice
