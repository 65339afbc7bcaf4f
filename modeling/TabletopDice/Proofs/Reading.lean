/-
Reading an expression from text, against the grammar.  Exactly those texts are read whose
core has a derivation with admissible numbers, and the expression holds the terms of that
derivation, of which there is only one.
-/
import TabletopDice.Expression.Parse
import TabletopDice.Proofs.Checks
import TabletopDice.Proofs.Scanning

namespace TabletopDice

open Text

def Draft.written : Draft → WrittenTerm
  | dice count sides => .dice count.val sides.val
  | constant value => .constant value.val

theorem Draft.written_injective {left right : Draft} (h : left.written = right.written) :
    left = right := by
  cases left with
  | dice count sides =>
      cases right with
      | dice count' sides' =>
          obtain ⟨hcount, hsides⟩ := WrittenTerm.dice.inj h
          rw [Magnitude.val_injective hcount, Magnitude.val_injective hsides]
      | constant value => simp [written] at h
  | constant value =>
      cases right with
      | dice count sides => simp [written] at h
      | constant value' => rw [Magnitude.val_injective (WrittenTerm.constant.inj h)]

/-- A draft of a term, which forgets that dice have sides. -/
def Term.draft : Term → Draft
  | dice pool => .dice pool.count pool.sides
  | constant value => .constant value

theorem Term.written_draft (term : Term) : term.draft.written = term.written := by
  cases term <;> rfl

theorem Term.term_draft (term : Term) : term.draft.term = .ok term := by
  cases term with
  | dice pool => exact Check.map_eq_ok_iff.mpr ⟨pool, Dice.ofInts_eq_ok_iff.mpr ⟨rfl, rfl⟩, rfl⟩
  | constant value => exact Term.ofInt_magnitude value

theorem Draft.term_eq_ok_iff {draft : Draft} {term : Term} :
    draft.term = .ok term ↔ draft.written = term.written := by
  constructor
  · intro h
    cases draft with
    | dice count sides =>
        obtain ⟨pool, hpool, rfl⟩ := Check.map_eq_ok_iff.mp h
        rw [Dice.ofInts_magnitudes] at hpool
        split at hpool
        · cases hpool
          rfl
        · simp at hpool
    | constant value =>
        obtain rfl := Except.ok.inj ((Term.ofInt_magnitude value).symm.trans h)
        rfl
  · intro h
    rw [← term.written_draft] at h
    rw [Draft.written_injective h, term.term_draft]

/-- The numbers of a lexeme are converted to themselves, or not at all. -/
theorem Draft.ofLexeme_eq_ok_iff {lexeme : Lexeme} {draft : Draft}
    (hwell : lexeme.WellFormed) :
    Draft.ofLexeme lexeme = .ok draft ↔ lexeme.written = draft.written := by
  cases lexeme with
  | dice count sides =>
      obtain ⟨hcount, hsides, -⟩ := hwell
      cases count with
      | nil =>
          rw [ofLexeme, Check.map_eq_ok_iff]
          simp only [magnitude_eq_ok_iff hsides]
          constructor
          · rintro ⟨m, hm, rfl⟩
            rw [Lexeme.written, written, hm]
            rfl
          · intro h
            cases draft with
            | dice one m =>
                obtain ⟨hone, hm⟩ := WrittenTerm.dice.inj h
                refine ⟨m, hm, ?_⟩
                exact congrArg (dice · m) (Magnitude.val_injective hone)
            | constant value => simp [Lexeme.written, written] at h
      | cons c count =>
          rw [ofLexeme.eq_2 _ _ (List.cons_ne_nil c count), Check.bind_eq_ok_iff]
          simp only [Check.bind_eq_ok_iff, magnitude_eq_ok_iff hsides,
            magnitude_eq_ok_iff hcount]
          constructor
          · rintro ⟨n, hn, m, hm, ⟨⟩⟩
            rw [Lexeme.written, written, hn, hm]
            exact List.cons_ne_nil c count
          · intro h
            cases draft with
            | dice n m =>
                obtain ⟨hn, hm⟩ := WrittenTerm.dice.inj h
                exact ⟨n, hn, m, hm, rfl⟩
            | constant value => simp [Lexeme.written, written] at h
  | constant digits =>
      rw [ofLexeme, Check.map_eq_ok_iff]
      simp only [magnitude_eq_ok_iff hwell.1]
      cases draft with
      | dice count sides => simp [Lexeme.written, written]
      | constant value => simp [Lexeme.written, written]

namespace Expression

/-- The drafts of a phrase carry over its signs and its numbers. -/
theorem drafts_eq_ok_iff {terms : List (Sign × Lexeme)} {drafts : List (Sign × Draft)}
    (hwell : ∀ term ∈ terms, term.2.WellFormed) :
    (terms.mapM fun (sign, lexeme) => (sign, ·) <$> Draft.ofLexeme lexeme) = .ok drafts ↔
      writtenTerms terms = drafts.map fun draft => (draft.1, draft.2.written) := by
  apply Check.mapM_eq_ok_iff
  rintro ⟨sign, lexeme⟩ hmem ⟨sign', draft⟩
  have hlexeme : lexeme.WellFormed := hwell _ hmem
  change (Draft.ofLexeme lexeme).map (sign, ·) = .ok (sign', draft) ↔ _
  rw [Check.map_eq_ok_iff]
  simp [Draft.ofLexeme_eq_ok_iff hlexeme, and_comm]

/-- Building the terms of drafts carries over their signs and their numbers. -/
theorem built_eq_ok_iff {drafts : List (Sign × Draft)} {terms : List SignedTerm} :
    (drafts.mapM fun (sign, draft) => (SignedTerm.mk sign ·) <$> draft.term) = .ok terms ↔
      (drafts.map fun draft => (draft.1, draft.2.written)) =
        terms.map SignedTerm.written := by
  apply Check.mapM_eq_ok_iff
  rintro ⟨sign, draft⟩ - ⟨sign', term⟩
  change draft.term.map (SignedTerm.mk sign) = .ok ⟨sign', term⟩ ↔ _
  rw [Check.map_eq_ok_iff]
  simp [Draft.term_eq_ok_iff, SignedTerm.written, and_comm]

theorem ofPhrase_eq_ok_iff {text : List Char} {phrase : Phrase} {e : Expression}
    (hwell : ∀ term ∈ phrase.terms, term.2.WellFormed) :
    ofPhrase text phrase = .ok e ↔
      phrase.left = [] ∧ writtenTerms phrase.terms = e.terms.map SignedTerm.written := by
  rw [ofPhrase, Check.bind_eq_ok_iff]
  simp only [drafts_eq_ok_iff hwell]
  constructor
  · rintro ⟨drafts, hdrafts, h⟩
    split at h
    · simp [throw, throwThe, MonadExceptOf.throw, bind, Except.bind] at h
    · rename_i hleft
      obtain ⟨terms, hterms, hterms'⟩ := Check.bind_eq_ok_iff.mp h
      rw [ofTerms_eq_ok_iff] at hterms'
      rw [hdrafts, hterms', ← built_eq_ok_iff]
      exact ⟨of_not_not hleft, hterms⟩
  · rintro ⟨hleft, hterms⟩
    -- Nothing is lost when the terms of the expression are taken back to drafts.
    let drafts := e.terms.map fun signed => (signed.sign, signed.term.draft)
    have hdrafts : (drafts.map fun draft => (draft.1, draft.2.written)) =
        e.terms.map SignedTerm.written := by
      simp [drafts, Term.written_draft, SignedTerm.written]
    refine ⟨drafts, hterms.trans hdrafts.symm, ?_⟩
    rw [if_neg (not_not_intro hleft)]
    exact Check.bind_eq_ok_iff.mpr
      ⟨e.terms, built_eq_ok_iff.mpr hdrafts, ofTerms_terms e⟩

/-- A text without blanks at its ends is read as the terms that the grammar derives. -/
theorem ofChars_eq_ok_iff {text : List Char} {e : Expression} :
    ofChars text = .ok e ↔ Derives text (e.terms.map SignedTerm.written) := by
  rw [Phrase.derives_iff, ofChars]
  cases htaken : Phrase.ofText text with
  | error position => simp
  | ok phrase =>
      have hwell := (Phrase.exists_derives_of_ofText htaken).2
      simp only [ofPhrase_eq_ok_iff hwell]
      constructor
      · intro h
        exact ⟨phrase, rfl, h⟩
      · rintro ⟨_, ⟨⟩, h⟩
        exact h

theorem parse_eq_ok_iff {text : String} {e : Expression} :
    parse text = .ok e ↔ Derives (trim text.toList) (e.terms.map SignedTerm.written) :=
  ofChars_eq_ok_iff

theorem exists_signedTerms_of_admissible {terms : List (Sign × WrittenTerm)}
    (hadmissible : ∀ term ∈ terms, term.2.Admissible) :
    ∃ signed : List SignedTerm, signed.map SignedTerm.written = terms := by
  induction terms with
  | nil => exact ⟨[], rfl⟩
  | cons written terms ih =>
      obtain ⟨signed, hsigned⟩ :=
        ih fun term hterm => hadmissible term (List.mem_cons_of_mem written hterm)
      obtain ⟨term, hterm⟩ :=
        WrittenTerm.admissible_iff.mp (hadmissible written List.mem_cons_self)
      refine ⟨⟨written.1, term⟩ :: signed, ?_⟩
      rw [List.map_cons, hsigned, SignedTerm.written, hterm]

/-- Terms that are admissible are those of some expression, if there are any. -/
theorem exists_expression_of_admissible {terms : List (Sign × WrittenTerm)}
    (hne : terms ≠ []) (hadmissible : ∀ term ∈ terms, term.2.Admissible) :
    ∃ e : Expression, e.terms.map SignedTerm.written = terms := by
  obtain ⟨signed, rfl⟩ := exists_signedTerms_of_admissible hadmissible
  cases signed with
  | nil => exact absurd rfl hne
  | cons first rest => exact ⟨⟨first, rest⟩, rfl⟩

/-- A text is read exactly when the grammar derives its core with numbers that fit and dice
that have sides, and what is read are the terms of the one derivation there is. -/
theorem parse_ok_iff_admissible_derivation (text : String) :
    (∀ core, Stripped text.toList core ↔ core = trim text.toList) ∧
      ((∃ e, parse text = .ok e) ↔
        ∃ terms, Derives (trim text.toList) terms ∧ ∀ term ∈ terms, term.2.Admissible) ∧
      (∀ e, parse text = .ok e ↔
        Derives (trim text.toList) (e.terms.map SignedTerm.written)) ∧
      ∀ left right, Derives (trim text.toList) left → Derives (trim text.toList) right →
        left = right := by
  refine ⟨?_, ?_, fun e => parse_eq_ok_iff, fun left right => Derives.unique⟩
  · intro core
    constructor
    · intro h
      exact h.trim_eq.symm
    · rintro rfl
      exact stripped_trim text.toList
  · simp only [parse_eq_ok_iff]
    constructor
    · rintro ⟨e, h⟩
      refine ⟨_, h, fun term hterm => ?_⟩
      obtain ⟨signed, _, rfl⟩ := List.mem_map.mp hterm
      exact WrittenTerm.admissible_iff.mpr ⟨signed.term, rfl⟩
    · rintro ⟨terms, h, hadmissible⟩
      obtain ⟨e, rfl⟩ := exists_expression_of_admissible h.terms_ne_nil hadmissible
      exact ⟨e, h⟩

end Expression

end TabletopDice
