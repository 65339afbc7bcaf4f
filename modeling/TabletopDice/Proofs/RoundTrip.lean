/-
Printing and reading back.  The normal spelling of an expression is one of the texts that the
grammar derives from its terms and has no blanks at its ends, so it is read as the same
expression again, and different expressions are spelled differently.
-/
import TabletopDice.Proofs.Reading

namespace TabletopDice

open Text

theorem Term.termText_toString (term : Term) :
    TermText (toString term).toList term.written := by
  cases term with
  | dice pool =>
      have htext : (toString (Term.dice pool)).toList =
          (toString pool.count.val).toList ++ 'd' :: (toString pool.sides.val).toList := by
        change (toString pool).toList = _
        simp [toString, String.toList_append]
      rw [htext]
      exact .dice (numeral_toString _) (numeral_toString _)
  | constant value => exact .constant (numeral_toString value.val)

/-- A later term stands behind its sign between two spaces. -/
theorem SignedTerm.toList_continuation (signed : SignedTerm) :
    signed.continuation.toList =
      [' ', signChar signed.sign, ' '] ++ (toString signed.term).toList := by
  obtain ⟨sign, term⟩ := signed
  cases sign <;> simp [continuation, toString, signChar, String.toList_append]

theorem padding_space : Padding [' '] := by
  intro c hc
  exact Or.inl (List.mem_singleton.mp hc)

theorem tailText_continuations (terms : List SignedTerm) :
    TailText (String.join (terms.map SignedTerm.continuation)).toList
      (terms.map SignedTerm.written) := by
  rw [String.toList_join]
  induction terms with
  | nil => exact .nil
  | cons signed terms ih =>
      have hseparator : SignText signed.sign [' ', signChar signed.sign, ' '] :=
        .intro padding_space padding_space
      rw [List.map_cons, List.flatMap_cons, List.map_cons, SignedTerm.toList_continuation,
        List.append_assoc]
      exact .cons hseparator signed.term.termText_toString ih

namespace Expression

theorem toList_toString (sign : Sign) (term : Term) (rest : List SignedTerm) :
    (toString (mk ⟨sign, term⟩ rest)).toList = sign.leading.toList ++
      ((toString term).toList ++ (String.join (rest.map SignedTerm.continuation)).toList) := by
  change (sign.leading ++ toString term ++
    String.join (rest.map SignedTerm.continuation)).toList = _
  rw [String.toList_append, String.toList_append, List.append_assoc]

theorem toList_leading_plus : Sign.plus.leading.toList = [] := by decide

theorem toList_leading_minus : Sign.minus.leading.toList = [] ++ '-' :: [] := by decide

/-- The normal spelling is derived from the terms of the expression. -/
theorem derives_toString (e : Expression) :
    Derives (toString e).toList (e.terms.map SignedTerm.written) := by
  obtain ⟨⟨sign, term⟩, rest⟩ := e
  have htail := tailText_continuations rest
  rw [toList_toString, terms, List.map_cons]
  cases sign with
  | plus =>
      rw [toList_leading_plus, List.nil_append]
      exact .unsigned term.termText_toString htail
  | minus =>
      have hpadding : Padding [] := by simp [Padding]
      rw [toList_leading_minus]
      exact .signed (.intro hpadding hpadding) term.termText_toString htail

end Expression

namespace Text

theorem not_isBlank_of_isDigit {c : Char} (hc : c.isDigit) : isBlank c = false := by
  obtain ⟨d, hd, rfl⟩ := exists_digitChar_of_isDigit hc
  have hall : ∀ d < 10, isBlank d.digitChar = false := by decide
  exact hall d hd

def EndsInDigit (text : List Char) : Prop := ∃ front c, text = front ++ [c] ∧ c.isDigit

theorem EndsInDigit.append {text : List Char} (h : EndsInDigit text) (before : List Char) :
    EndsInDigit (before ++ text) := by
  obtain ⟨front, c, rfl, hc⟩ := h
  exact ⟨before ++ front, c, (List.append_assoc _ _ _).symm, hc⟩

theorem Numeral.endsInDigit {digits : List Char} {n : Nat} (h : Numeral digits n) :
    EndsInDigit digits := by
  cases h with
  | digit hd => exact ⟨[], _, rfl, isDigit_digitChar_of_lt hd⟩
  | snoc hdigits hd => exact ⟨_, _, rfl, isDigit_digitChar_of_lt hd⟩

theorem TermText.endsInDigit {text : List Char} {term : WrittenTerm}
    (h : TermText text term) : EndsInDigit text := by
  cases h with
  | dice hcount hsides => exact (hsides.endsInDigit.append ['d']).append _
  | die hsides => exact hsides.endsInDigit.append ['d']
  | constant hdigits => exact hdigits.endsInDigit

theorem TermText.append_tail_endsInDigit {text rest : List Char} {term : WrittenTerm}
    {terms : List (Sign × WrittenTerm)} (hterm : TermText text term)
    (hrest : TailText rest terms) : EndsInDigit (text ++ rest) := by
  induction hrest generalizing text term with
  | nil =>
      rw [List.append_nil]
      exact hterm.endsInDigit
  | cons hsep hnext htail ih => exact ((ih hnext).append _).append _

/-- The last character of an expression belongs to a number. -/
theorem Derives.endsInDigit {text : List Char} {terms : List (Sign × WrittenTerm)}
    (h : Derives text terms) : EndsInDigit text := by
  cases h with
  | unsigned hterm hrest => exact hterm.append_tail_endsInDigit hrest
  | signed hsep hterm hrest => exact (hterm.append_tail_endsInDigit hrest).append _

end Text

namespace Expression

theorem not_isBlank_head_toString (e : Expression) :
    ∀ c ∈ (toString e).toList.head?, isBlank c = false := by
  obtain ⟨⟨sign, term⟩, rest⟩ := e
  rw [toList_toString]
  intro c hc
  cases sign with
  | plus =>
      obtain ⟨c', tail, htext, hc'⟩ := term.termText_toString.head
      rw [toList_leading_plus, htext] at hc
      obtain rfl := Option.some.inj hc
      rcases hc' with hdigit | rfl
      · exact not_isBlank_of_isDigit hdigit
      · decide
  | minus =>
      rw [toList_leading_minus] at hc
      obtain rfl := Option.some.inj hc
      decide

/-- There is nothing to trim from a normal spelling. -/
theorem trim_toString (e : Expression) :
    trim (toString e).toList = (toString e).toList := by
  refine Stripped.trim_eq ⟨⟨[], [], by simp⟩, e.not_isBlank_head_toString, ?_⟩
  intro c hc
  obtain ⟨front, last, htext, hlast⟩ := e.derives_toString.endsInDigit
  rw [htext, List.getLast?_concat] at hc
  obtain rfl := Option.some.inj hc
  exact not_isBlank_of_isDigit hlast

theorem parse_toString (e : Expression) : parse (toString e) = .ok e := by
  rw [parse_eq_ok_iff, trim_toString]
  exact e.derives_toString

/-- Every expression is read back from its normal spelling, however it was made, so two
expressions are spelled alike exactly when they are the same. -/
theorem parse_toString_and_toString_inj (e f : Expression) :
    parse (toString e) = .ok e ∧ (toString e = toString f ↔ e = f) := by
  refine ⟨e.parse_toString, ?_, congrArg _⟩
  intro h
  have hparse := e.parse_toString
  rw [h, f.parse_toString] at hparse
  exact (Except.ok.inj hparse).symm

end Expression

end TabletopDice
