/-
The text of one outcome.  Its term stands in front, and from the number and the sides of its
dice it is known how many faces follow, so the outcome ends where the text behind it starts.
Outcomes that begin two equal texts agree in all that the style shows.
-/
import TabletopDice.Proofs.Delimited
import TabletopDice.Proofs.Fairness
import TabletopDice.Rendering.Layout

namespace TabletopDice

open Text

/-- Two outcomes agree in their terms and their signed values, and in the faces of dice that
were drawn if these are listed; a constant of zero may have stood under either sign. -/
structure Outcome.Alike (style : Style) (left right : Outcome) : Prop where
  term : left.signed.term = right.signed.term
  amount : left.value.amount = right.value.amount
  sign : left.signed.sign = right.signed.sign ∨
    ∃ value : Magnitude, left.signed.term = .constant value ∧ value.val = 0
  faces : style.summarize = false → ∀ pool : Dice, left.signed.term = .dice pool →
    ¬ pool.OneSided → left.value.parts.toList = right.value.parts.toList

namespace Style

variable {style : Style} {rest rest' : List Char}

/-- The sign in front of a number or a term, in a style that does not leave signs out. -/
def shownSign (style : Style) (sign : Sign) : List Char :=
  if style.ignoreSign then [] else sign.leading.toList

theorem shownSign_append_inj {left right : Sign} {text text' : List Char}
    (htext : text.head? ≠ some '-') (htext' : text'.head? ≠ some '-')
    (h : style.shownSign left ++ text = style.shownSign right ++ text') :
    (style.ignoreSign = false → left = right) ∧ text = text' := by
  unfold shownSign at h
  split at h
  · rename_i hignore
    refine ⟨?_, h⟩
    intro hshown
    rw [hignore] at hshown
    exact absurd hshown (by decide)
  · obtain ⟨hsign, htext⟩ := Sign.leading_append_inj htext htext' h
    exact ⟨fun _ => hsign, htext⟩

theorem toList_number (style : Style) (n : Int) :
    (style.number n).toList = style.shownSign (.ofInt n) ++ (toString n.natAbs).toList := by
  unfold number shownSign
  split
  · rfl
  · exact toList_toString_int n

theorem number_append_inj {n m : Int} (hrest : Boundary rest) (hrest' : Boundary rest')
    (h : (style.number n).toList ++ rest = (style.number m).toList ++ rest') :
    (style.ignoreSign = false → n = m) ∧ n.natAbs = m.natAbs ∧ rest = rest' := by
  rw [toList_number, toList_number, List.append_assoc, List.append_assoc] at h
  obtain ⟨hsign, habs⟩ := shownSign_append_inj
    ((TermText.constant (numeral_toString n.natAbs)).head?_append_ne rest)
    ((TermText.constant (numeral_toString m.natAbs)).head?_append_ne rest') h
  obtain ⟨hvalue, hbehind⟩ := natural_append_inj hrest hrest' habs
  refine ⟨?_, hvalue, hbehind⟩
  intro hshown
  rw [← Sign.ofInt_mul_natAbs n, hsign hshown, hvalue, Sign.ofInt_mul_natAbs]

end Style

namespace SignedTerm

variable {style : Style} {rest rest' : List Char}

theorem toList_render (style : Style) (signed : SignedTerm) :
    (signed.render style).toList =
      style.shownSign signed.sign ++ (toString signed.term).toList := by
  unfold render Style.shownSign
  split
  · rfl
  · exact String.toList_append

theorem render_append_inj {left right : SignedTerm} (hrest : Boundary rest)
    (hrest' : Boundary rest')
    (h : (left.render style).toList ++ rest = (right.render style).toList ++ rest') :
    (style.ignoreSign = false → left.sign = right.sign) ∧ left.term = right.term ∧
      rest = rest' := by
  rw [toList_render, toList_render, List.append_assoc, List.append_assoc] at h
  obtain ⟨hsign, hterm⟩ := Style.shownSign_append_inj
    (left.term.termText_toString.head?_append_ne rest)
    (right.term.termText_toString.head?_append_ne rest') h
  exact ⟨hsign, Term.append_inj hrest hrest' hterm⟩

end SignedTerm

namespace Outcome

section

variable {style : Style} {rest rest' : List Char} {left right : Outcome} {pool : Dice}

/-- If the signs of the values agree, so do amounts of one size. -/
theorem Fair.amount_eq (hleft : left.Fair) (hright : right.Fair)
    (hsign : left.value.sign = right.value.sign)
    (habs : left.value.amount.natAbs = right.value.amount.natAbs) :
    left.value.amount = right.value.amount := by
  rw [← hleft.sign_mul_natAbs, hsign, habs, hright.sign_mul_natAbs]

theorem toList_listing (sign : Sign) (faces : List Int) :
    (Value.listing sign (.listed faces)).toList = sign.leading.toList ++
      [' ', signChar sign, ' '].intercalate (faces.map fun face => (toString face).toList) := by
  have hsep : (s!" {sign} ").toList = [' ', signChar sign, ' '] := by
    rcases sign <;> decide
  rw [Value.listing, String.toList_append, String.toList_intercalate, hsep, List.map_map]
  rfl

theorem boundary_operator (sign : Sign) (text : List Char) :
    Boundary ([' ', signChar sign, ' '] ++ text) :=
  .cons (by decide) (by decide)

theorem listing_append_inj {sign : Sign} {faces faces' : List Int}
    (hlength : faces.length = faces'.length) (hrest : Boundary rest) (hrest' : Boundary rest')
    (h : (Value.listing sign (.listed faces)).toList ++ rest =
      (Value.listing sign (.listed faces')).toList ++ rest') :
    faces = faces' ∧ rest = rest' := by
  rw [toList_listing, toList_listing, List.append_assoc, List.append_assoc] at h
  exact integers_append_inj (boundary_operator sign) hlength hrest hrest'
    (List.append_cancel_left h)

/-- The faces of the dice are listed one by one; otherwise only their amount is shown. -/
def Lists (style : Style) (pool : Dice) : Prop :=
  ¬ pool.OneSided ∧ style.summarize = false ∧ 1 < pool.count.val

theorem Accounts.realised_of_lists {outcome : Outcome} {faces : List Int}
    (h : outcome.Accounts faces) (hterm : outcome.signed.term = .dice pool)
    (hlists : Lists style pool) :
    realised style pool outcome.value =
      Value.listing (if style.ignoreSign then .plus else outcome.value.sign) (.listed faces) := by
  obtain ⟨hseveral, hverbose, hcount⟩ := hlists
  obtain ⟨hvalue, hlength⟩ := h.of_drawn hterm hseveral
  have hmany : ¬ faces.length ≤ 1 := by
    rw [hlength]
    exact Nat.not_le_of_gt hcount
  rw [realised, if_neg hseveral, hvalue, Value.render, hverbose]
  simp [Parts.length, hmany, Value.sign]

theorem Accounts.realised_of_not_lists {outcome : Outcome} {faces : List Int}
    (h : outcome.Accounts faces) (hterm : outcome.signed.term = .dice pool)
    (hlists : ¬ Lists style pool) :
    realised style pool outcome.value = style.number outcome.value.amount := by
  by_cases hone : pool.OneSided
  · rw [realised, if_pos hone]
  · obtain ⟨hvalue, hlength⟩ := h.of_drawn hterm hone
    have hfew : style.summarize ∨ faces.length ≤ 1 := by
      by_contra hnot
      rw [not_or, hlength, Nat.not_le] at hnot
      exact hlists ⟨hone, Bool.eq_false_of_not_eq_true hnot.1, hnot.2⟩
    rw [realised, if_neg hone, hvalue]
    exact if_pos hfew

/-- At most one face is known from the sum. -/
theorem eq_of_sum_eq {faces faces' : List Int} (hlength : faces.length = faces'.length)
    (hfew : faces.length ≤ 1) (hsum : faces.sum = faces'.sum) : faces = faces' := by
  rcases faces with _ | ⟨face, _ | ⟨_, _⟩⟩
  · exact (List.length_eq_zero_iff.mp hlength.symm).symm
  · obtain ⟨face', rfl⟩ := List.length_eq_one_iff.mp hlength.symm
    simpa using hsum
  · simp at hfew

/-- What dice came to is told from the text behind, since equal dice show equally many
faces. -/
theorem realised_append_inj (hleft : left.Fair) (hright : right.Fair)
    (hterm : left.signed.term = .dice pool) (hterm' : right.signed.term = .dice pool)
    (hsign : left.value.sign = right.value.sign) (hrest : Boundary rest)
    (hrest' : Boundary rest')
    (h : (realised style pool left.value).toList ++ rest =
      (realised style pool right.value).toList ++ rest') :
    left.value.amount = right.value.amount ∧
      (style.summarize = false → ¬ pool.OneSided → left.value.parts = right.value.parts) ∧
      rest = rest' := by
  have hfair := hleft
  have hfair' := hright
  obtain ⟨faces, haccounts, _⟩ := hleft
  obtain ⟨faces', haccounts', _⟩ := hright
  by_cases hlists : Lists style pool
  · obtain ⟨hvalue, hlength⟩ := haccounts.of_drawn hterm hlists.1
    obtain ⟨hvalue', hlength'⟩ := haccounts'.of_drawn hterm' hlists.1
    rw [haccounts.realised_of_lists hterm hlists, haccounts'.realised_of_lists hterm' hlists,
      hsign] at h
    obtain ⟨rfl, hbehind⟩ := listing_append_inj (hlength.trans hlength'.symm) hrest hrest' h
    have hsigned : left.signed.sign = right.signed.sign := by
      rw [← haccounts.sign_of_dice hterm, hsign, haccounts'.sign_of_dice hterm']
    rw [hvalue, hvalue', hsigned]
    exact ⟨rfl, fun _ _ => rfl, hbehind⟩
  · rw [haccounts.realised_of_not_lists hterm hlists,
      haccounts'.realised_of_not_lists hterm' hlists] at h
    obtain ⟨_, habs, hbehind⟩ := Style.number_append_inj hrest hrest' h
    have hamount := hfair.amount_eq hfair' hsign habs
    refine ⟨hamount, ?_, hbehind⟩
    intro hverbose hseveral
    obtain ⟨hvalue, hlength⟩ := haccounts.of_drawn hterm hseveral
    obtain ⟨hvalue', hlength'⟩ := haccounts'.of_drawn hterm' hseveral
    have hfew : faces.length ≤ 1 := by
      rw [hlength]
      by_contra hmany
      exact hlists ⟨hseveral, hverbose, Nat.lt_of_not_le hmany⟩
    have hsum : faces.sum = faces'.sum := by
      rw [haccounts.sign_of_dice hterm, haccounts'.sign_of_dice hterm'] at hsign
      rw [hvalue, hvalue', hsign] at hamount
      exact Sign.mul_left_cancel hamount
    rw [hvalue, hvalue', eq_of_sum_eq (hlength.trans hlength'.symm) hfew hsum]
    rfl

/-- The term of an outcome under the sign of its value, as it stands in front. -/
def headline (style : Style) (outcome : Outcome) : List Char :=
  (SignedTerm.render style ⟨outcome.value.sign, outcome.signed.term⟩).toList

theorem headline_append_inj (hrest : Boundary rest) (hrest' : Boundary rest')
    (h : headline style left ++ rest = headline style right ++ rest') :
    (style.ignoreSign = false → left.value.sign = right.value.sign) ∧
      left.signed.term = right.signed.term ∧ rest = rest' :=
  SignedTerm.render_append_inj hrest hrest' h

/-- A constant is printed as its term would be, but under the sign of its value. -/
theorem Accounts.toList_render_of_constant {outcome : Outcome} {faces : List Int}
    {value : Magnitude} (h : outcome.Accounts faces)
    (hterm : outcome.signed.term = .constant value) :
    (outcome.render style).toList = headline style outcome := by
  obtain ⟨hvalue, _⟩ := h.of_constant hterm
  have habs : (outcome.signed.sign * (value.val : Int)).natAbs = value.val := by
    rw [Sign.natAbs_mul, Int.natAbs_natCast]
  have hrender : outcome.render style = style.number (outcome.signed.sign * (value.val : Int)) := by
    rw [Outcome.render, hterm, hvalue]
    rfl
  rw [hrender, Style.toList_number, habs, headline, SignedTerm.toList_render, hterm, hvalue]
  rfl

/-- The text between the parentheses around dice, which may be left out. -/
def body (style : Style) (pool : Dice) (outcome : Outcome) : List Char :=
  headline style outcome ++ ([' ', '→', ' '] ++ (realised style pool outcome.value).toList)

theorem Accounts.toList_render_of_dice {outcome : Outcome} {faces : List Int}
    (h : outcome.Accounts faces) (hterm : outcome.signed.term = .dice pool) :
    (outcome.render style).toList =
      if style.diceParentheses then '(' :: (body style pool outcome ++ [')'])
      else body style pool outcome := by
  have hbody : (outcome.signed.render style ++ " → " ++
      realised style pool outcome.value).toList = body style pool outcome := by
    have hsigned : outcome.signed = ⟨outcome.value.sign, outcome.signed.term⟩ := by
      rw [h.sign_of_dice hterm]
    rw [body, headline, ← hsigned, String.toList_append, String.toList_append,
      List.append_assoc]
    rfl
  rw [Outcome.render, hterm]
  by_cases hparentheses : style.diceParentheses
  · rw [if_pos hparentheses, ← hbody]
    change (if style.diceParentheses then "(" ++ (outcome.signed.render style ++ " → " ++
      realised style pool outcome.value) ++ ")" else _).toList = _
    rw [if_pos hparentheses, String.toList_append, String.toList_append]
    rfl
  · rw [if_neg hparentheses, ← hbody]
    change (if style.diceParentheses then _ else outcome.signed.render style ++ " → " ++
      realised style pool outcome.value).toList = _
    rw [if_neg hparentheses]

theorem boundary_arrow (text : List Char) : Boundary ([' ', '→', ' '] ++ text) :=
  .cons (by decide) (by decide)

theorem body_append_inj {pool' : Dice} (hleft : left.Fair) (hright : right.Fair)
    (hterm : left.signed.term = .dice pool) (hterm' : right.signed.term = .dice pool')
    (hsign : style.ignoreSign = true → left.value.sign = right.value.sign)
    (hrest : Boundary rest) (hrest' : Boundary rest')
    (h : body style pool left ++ rest = body style pool' right ++ rest') :
    left.Alike style right ∧ rest = rest' := by
  rw [body, body, List.append_assoc, List.append_assoc, List.append_assoc,
    List.append_assoc] at h
  obtain ⟨hshown, hterms, hbehind⟩ :=
    headline_append_inj (boundary_arrow _) (boundary_arrow _) h
  have hsigns : left.value.sign = right.value.sign := by
    by_cases hignore : style.ignoreSign
    · exact hsign hignore
    · exact hshown (Bool.eq_false_of_not_eq_true hignore)
  have hpool := hterms
  rw [hterm, hterm'] at hpool
  obtain rfl := Term.dice.inj hpool
  obtain ⟨hamount, hparts, hend⟩ := realised_append_inj hleft hright hterm hterm' hsigns
    hrest hrest' (List.append_cancel_left hbehind)
  refine ⟨⟨hterms, hamount, ?_, ?_⟩, hend⟩
  · obtain ⟨faces, haccounts, _⟩ := hleft
    obtain ⟨faces', haccounts', _⟩ := hright
    rw [haccounts.sign_of_dice hterm, haccounts'.sign_of_dice hterm'] at hsigns
    exact .inl hsigns
  · intro hverbose drawn hdrawn hseveral
    rw [hterm] at hdrawn
    obtain rfl := Term.dice.inj hdrawn
    rw [hparts hverbose hseveral]

/-- Constants of one magnitude under one sign of their values are alike. -/
theorem Fair.alike_of_constant {value : Magnitude} (hleft : left.Fair) (hright : right.Fair)
    (hterm : left.signed.term = .constant value) (hterm' : right.signed.term = .constant value)
    (hsign : left.value.sign = right.value.sign) : left.Alike style right := by
  have hfair := hleft
  have hfair' := hright
  obtain ⟨faces, haccounts, _⟩ := hleft
  obtain ⟨faces', haccounts', _⟩ := hright
  have hvalue := (haccounts.of_constant hterm).1
  have hvalue' := (haccounts'.of_constant hterm').1
  have habs : left.value.amount.natAbs = right.value.amount.natAbs := by
    rw [hvalue, hvalue']
    exact (Sign.natAbs_mul _ _).trans (Sign.natAbs_mul _ _).symm
  have hamount := hfair.amount_eq hfair' hsign habs
  refine ⟨hterm.trans hterm'.symm, hamount, ?_, ?_⟩
  · rw [hvalue, hvalue'] at hamount
    rcases Sign.eq_or_eq_zero_of_mul_eq hamount with hsigns | hzero
    · exact .inl hsigns
    · exact .inr ⟨value, hterm, hzero⟩
  · intro _ pool hpool
    rw [hterm] at hpool
    simp at hpool

theorem head?_headline_append_ne (style : Style) (outcome : Outcome) (rest : List Char) :
    (headline style outcome ++ rest).head? ≠ some '(' := by
  obtain ⟨c, tail, htext, hc⟩ := outcome.signed.term.termText_toString.head
  have hterm : ((toString outcome.signed.term).toList ++ rest).head? ≠ some '(' := by
    rw [htext]
    intro hparenthesis
    obtain rfl := Option.some.inj hparenthesis
    rcases hc with hdigit | hd
    · exact absurd hdigit (by decide)
    · exact absurd hd (by decide)
  rw [headline, SignedTerm.toList_render, List.append_assoc, Style.shownSign]
  split
  · exact hterm
  · rcases outcome.value.sign
    · exact hterm
    · rw [Expression.toList_leading_minus]
      intro hparenthesis
      exact absurd (Option.some.inj hparenthesis) (by decide)

/-- The text of a constant is never the beginning of the text of dice. -/
theorem headline_append_ne_render {faces : List Int} {value : Magnitude}
    (hleft : left.signed.term = .constant value) (haccounts : right.Accounts faces)
    (hright : right.signed.term = .dice pool) (hrest : Boundary rest) :
    headline style left ++ rest ≠ (right.render style).toList ++ rest' := by
  intro h
  rw [haccounts.toList_render_of_dice hright] at h
  by_cases hparentheses : style.diceParentheses
  · rw [if_pos hparentheses] at h
    exact head?_headline_append_ne style left rest (congrArg List.head? h)
  · rw [if_neg hparentheses, body, List.append_assoc, List.append_assoc] at h
    obtain ⟨_, hterms, _⟩ := headline_append_inj hrest (boundary_arrow _) h
    rw [hleft, hright] at hterms
    simp at hterms

/-- Outcomes at the head of equal texts are alike, and so is what stands behind them.  In a
style that leaves signs out the signs have to be known already. -/
theorem render_append_inj (hleft : left.Fair) (hright : right.Fair)
    (hsign : style.ignoreSign = true → left.value.sign = right.value.sign)
    (hrest : Boundary rest) (hrest' : Boundary rest')
    (h : (left.render style).toList ++ rest = (right.render style).toList ++ rest') :
    left.Alike style right ∧ rest = rest' := by
  have hfair := hleft
  have hfair' := hright
  obtain ⟨faces, haccounts, _⟩ := hleft
  obtain ⟨faces', haccounts', _⟩ := hright
  rcases hterm : left.signed.term with pool | value <;>
    rcases hterm' : right.signed.term with pool' | value'
  · rw [haccounts.toList_render_of_dice hterm, haccounts'.toList_render_of_dice hterm'] at h
    by_cases hparentheses : style.diceParentheses
    · simp only [if_pos hparentheses, List.cons_append, List.append_assoc] at h
      obtain ⟨halike, hbehind⟩ := body_append_inj hfair hfair' hterm hterm' hsign
        (.cons (by decide) (by decide)) (.cons (by decide) (by decide)) (List.cons.inj h).2
      exact ⟨halike, (List.cons.inj hbehind).2⟩
    · rw [if_neg hparentheses, if_neg hparentheses] at h
      exact body_append_inj hfair hfair' hterm hterm' hsign hrest hrest' h
  · rw [haccounts'.toList_render_of_constant hterm'] at h
    exact absurd h.symm (headline_append_ne_render hterm' haccounts hterm hrest')
  · rw [haccounts.toList_render_of_constant hterm] at h
    exact absurd h (headline_append_ne_render hterm haccounts' hterm' hrest)
  · rw [haccounts.toList_render_of_constant hterm,
      haccounts'.toList_render_of_constant hterm'] at h
    obtain ⟨hshown, hterms, hbehind⟩ := headline_append_inj hrest hrest' h
    rw [hterm, hterm'] at hterms
    obtain rfl := Term.constant.inj hterms
    refine ⟨hfair.alike_of_constant hfair' hterm hterm' ?_, hbehind⟩
    by_cases hignore : style.ignoreSign
    · exact hsign hignore
    · exact hshown (Bool.eq_false_of_not_eq_true hignore)

end

end Outcome

end TabletopDice
