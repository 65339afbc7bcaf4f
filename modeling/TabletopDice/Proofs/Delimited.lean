/-
Numbers and terms in front of other text.  As long as the text behind cannot continue them,
they can be told from it: where two such texts are equal, so are the numbers or the terms at
their heads, and so is what stands behind.
-/
import TabletopDice.Proofs.RoundTrip

namespace TabletopDice

open Text

section

variable {rest rest' : List Char}

theorem natural_append_inj {n m : Nat} (hrest : Boundary rest) (hrest' : Boundary rest')
    (h : (toString n).toList ++ rest = (toString m).toList ++ rest') :
    n = m ∧ rest = rest' := by
  have hn := numeral_toString n
  have hm := numeral_toString m
  have hdigits : (toString n).toList = (toString m).toList := by
    rw [← takeWhile_run hn.isDigit hrest.1, h, takeWhile_run hm.isDigit hrest'.1]
  refine ⟨?_, ?_⟩
  · rw [← hn.decimal_eq, hdigits, hm.decimal_eq]
  · rw [hdigits] at h
    exact List.append_cancel_left h

theorem Term.written_injective {left right : Term} (h : left.written = right.written) :
    left = right := by
  rw [← left.written_draft, ← right.written_draft] at h
  have hterm := left.term_draft
  rw [Draft.written_injective h, right.term_draft] at hterm
  exact (Except.ok.inj hterm).symm

/-- The scanner takes the term and leaves the rest, so it tells the two apart. -/
theorem Term.append_inj {left right : Term} (hrest : Boundary rest) (hrest' : Boundary rest')
    (h : (toString left).toList ++ rest = (toString right).toList ++ rest') :
    left = right ∧ rest = rest' := by
  obtain ⟨lexeme, hleft, hwritten⟩ := left.termText_toString.exists_lexeme? hrest
  obtain ⟨lexeme', hright, hwritten'⟩ := right.termText_toString.exists_lexeme? hrest'
  rw [h, hright] at hleft
  obtain ⟨rfl, rfl⟩ := Prod.mk.inj (Option.some.inj hleft)
  exact ⟨Term.written_injective (hwritten.symm.trans hwritten'), rfl⟩

/-- Neither a number nor a term starts with a minus. -/
theorem Text.TermText.head?_append_ne {text : List Char} {term : WrittenTerm}
    (h : TermText text term) (rest : List Char) : (text ++ rest).head? ≠ some '-' := by
  obtain ⟨c, tail, rfl, hc⟩ := h.head
  intro hminus
  obtain rfl := Option.some.inj hminus
  rcases hc with hdigit | hd
  · exact absurd hdigit (by decide)
  · exact absurd hd (by decide)

theorem Sign.leading_append_inj {left right : Sign} {text text' : List Char}
    (htext : text.head? ≠ some '-') (htext' : text'.head? ≠ some '-')
    (h : left.leading.toList ++ text = right.leading.toList ++ text') :
    left = right ∧ text = text' := by
  have hminus : ∀ {text : List Char}, minus.leading.toList ++ text = '-' :: text := by
    intro text
    rw [Expression.toList_leading_minus]
    rfl
  rcases left <;> rcases right
  · exact ⟨rfl, List.append_cancel_left h⟩
  · rw [Expression.toList_leading_plus, hminus] at h
    exact absurd (congrArg List.head? h) htext
  · rw [Expression.toList_leading_plus, hminus] at h
    exact absurd (congrArg List.head? h.symm) htext'
  · exact ⟨rfl, List.append_cancel_left h⟩

/-- An integer is printed like a number under a sign. -/
theorem toList_toString_int (n : Int) :
    (toString n).toList = (Sign.ofInt n).leading.toList ++ (toString n.natAbs).toList := by
  rcases n with n | n
  · rfl
  · have hsign : Sign.ofInt (Int.negSucc n) = .minus := if_pos (Int.negSucc_lt_zero n)
    change ("-" ++ toString (n + 1)).toList = _
    rw [String.toList_append, hsign]
    rfl

theorem integer_append_inj {n m : Int} (hrest : Boundary rest) (hrest' : Boundary rest')
    (h : (toString n).toList ++ rest = (toString m).toList ++ rest') :
    n = m ∧ rest = rest' := by
  rw [toList_toString_int, toList_toString_int, List.append_assoc, List.append_assoc] at h
  obtain ⟨hsign, habs⟩ := Sign.leading_append_inj
    ((TermText.constant (numeral_toString n.natAbs)).head?_append_ne rest)
    ((TermText.constant (numeral_toString m.natAbs)).head?_append_ne rest') h
  obtain ⟨hvalue, hbehind⟩ := natural_append_inj hrest hrest' habs
  refine ⟨?_, hbehind⟩
  rw [← Sign.ofInt_mul_natAbs n, hsign, hvalue, Sign.ofInt_mul_natAbs]

/-- Numbers in a row are told apart if it is known how many there are. -/
theorem integers_append_inj {sep : List Char} {numbers numbers' : List Int}
    (hsep : ∀ text, Boundary (sep ++ text)) (hlength : numbers.length = numbers'.length)
    (hrest : Boundary rest) (hrest' : Boundary rest')
    (h : sep.intercalate (numbers.map fun n => (toString n).toList) ++ rest =
      sep.intercalate (numbers'.map fun n => (toString n).toList) ++ rest') :
    numbers = numbers' ∧ rest = rest' := by
  induction numbers generalizing numbers' with
  | nil =>
      obtain rfl := List.length_eq_zero_iff.mp hlength.symm
      exact ⟨rfl, h⟩
  | cons n numbers ih =>
      obtain ⟨m, numbers', rfl⟩ := List.exists_cons_of_length_eq_add_one hlength.symm
      have hlater : numbers.length = numbers'.length := Nat.succ.inj hlength
      rcases numbers with _ | ⟨k, numbers⟩
      · obtain rfl := List.length_eq_zero_iff.mp hlater.symm
        simp only [List.map_cons, List.map_nil, List.intercalate_singleton] at h
        obtain ⟨rfl, hbehind⟩ := integer_append_inj hrest hrest' h
        exact ⟨rfl, hbehind⟩
      · obtain ⟨l, numbers', rfl⟩ := List.exists_cons_of_length_eq_add_one hlater.symm
        simp only [List.map_cons, List.intercalate_cons_cons, List.append_assoc] at h
        obtain ⟨rfl, hbehind⟩ := integer_append_inj (hsep _) (hsep _) h
        obtain ⟨hnumbers, hend⟩ := ih hlater (List.append_cancel_left hbehind)
        exact ⟨congrArg _ hnumbers, hend⟩

end

end TabletopDice
