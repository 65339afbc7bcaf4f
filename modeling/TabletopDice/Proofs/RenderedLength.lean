/-
The length of a rendering.  No number in it has more than twenty digits, every term stands in it
once, and the only faces that are listed are those that were drawn.  So the length is bounded by
the number of the terms and that of the requests, however many one-sided dice there are.
-/
import TabletopDice.Proofs.Admission
import TabletopDice.Proofs.Bounds
import TabletopDice.Proofs.VisibleSum

namespace TabletopDice

open Text Tally

theorem length_natural_le {n k : Nat} (hk : 0 < k) (h : n < 10 ^ k) :
    (toString n).toList.length ≤ k := by
  rw [Nat.toString_eq_repr, Nat.toList_repr]
  exact (Nat.length_toDigits_le_iff (by decide) hk).mpr h

theorem Magnitude.length_digits_le (m : Magnitude) : (toString m.val).toList.length ≤ 19 :=
  length_natural_le (by decide) (Nat.lt_of_le_of_lt m.val_le (by decide))

theorem Term.length_toString_le (term : Term) : (toString term).toList.length ≤ 39 := by
  cases term with
  | dice pool =>
      have hcount := pool.count.length_digits_le
      have hsides := pool.sides.length_digits_le
      change (toString pool).toList.length ≤ 39
      rw [toList_toString_dice, List.length_append, List.length_cons]
      omega
  | constant value => exact Nat.le_trans value.length_digits_le (by decide)

theorem Sign.length_leading_le (sign : Sign) : sign.leading.toList.length ≤ 1 := by
  cases sign <;> decide

theorem length_integer_le {n : Int} {k : Nat} (hk : 0 < k) (h : n.natAbs < 10 ^ k) :
    (toString n).toList.length ≤ k + 1 := by
  have hsign := (Sign.ofInt n).length_leading_le
  have hdigits := length_natural_le hk h
  rw [toList_toString_int, List.length_append]
  omega

/-- A total takes nineteen digits and a sign. -/
theorem InRange.length_toString_le {n : Int} (h : InRange n) :
    (toString n).toList.length ≤ 20 := by
  obtain ⟨hlow, hhigh⟩ := h
  exact length_integer_le (by decide) (by omega : n.natAbs < 10 ^ 19)

/-- A number that some die can show. -/
def Showable (face : Int) : Prop := 1 ≤ face ∧ face ≤ (maxMagnitude : Int)

/-- What a die shows is printed without a sign. -/
theorem Showable.length_toString_le {face : Int} (h : Showable face) :
    (toString face).toList.length ≤ 19 := by
  obtain ⟨hone, hmax⟩ := h
  obtain ⟨n, rfl⟩ := Int.eq_ofNat_of_zero_le (by omega : 0 ≤ face)
  exact Magnitude.length_digits_le ⟨n, Int.ofNat_le.mp hmax⟩

namespace Style

/-- How many characters a sign takes in front of a number or a term. -/
def signWidth (style : Style) : Nat := if style.ignoreSign then 0 else 1

theorem length_shownSign_le (style : Style) (sign : Sign) :
    (style.shownSign sign).length ≤ style.signWidth := by
  unfold shownSign signWidth
  split
  · exact Nat.le_refl 0
  · exact sign.length_leading_le

theorem length_number_le (style : Style) {n : Int} {k : Nat} (hk : 0 < k)
    (h : n.natAbs < 10 ^ k) : (style.number n).toList.length ≤ style.signWidth + k := by
  rw [toList_number, List.length_append]
  exact Nat.add_le_add (style.length_shownSign_le _) (length_natural_le hk h)

/-- Either a separator shows the sign of a term, or the term shows it itself and the separator is
shorter. -/
theorem signWidth_forTerms (style : Style) :
    style.separator = .plusSign ∧ style.forTerms.signWidth = 0 ∨
      style.separator = .comma ∧ style.forTerms.signWidth ≤ 1 := by
  rcases hseparator : style.separator
  · exact .inl ⟨rfl, by simp [signWidth, forTerms, hseparator, adjust]⟩
  · refine .inr ⟨rfl, ?_⟩
    unfold signWidth
    split <;> decide

/-- Around the list there are its parentheses, the total and what divides the two. -/
theorem length_before_append_behind_le (style : Style) {total : Int} (hrange : InRange total)
    (list : List Char) :
    (style.before total ++ (list ++ style.behind total)).length ≤ 25 + list.length := by
  have htotal := hrange.length_toString_le
  have hlist : (style.openList ++ (list ++ style.closeList)).length ≤ list.length + 2 := by
    unfold openList closeList
    split <;> simp
  rw [before_append_behind]
  rcases style.totalPlace
  · simp only [List.length_append, List.length_cons, List.length_nil] at hlist ⊢
    omega
  · simp only [List.length_append, List.length_cons, List.length_nil] at hlist ⊢
    omega
  · exact Nat.le_trans hlist (by omega)

end Style

namespace Outcome

/-- The numbers of the outcome besides those of its term are not long: the faces are such as dice
show, and the amount lies between two totals that are in range. -/
structure Compact (outcome : Outcome) (faces : List Int) : Prop where
  accounts : outcome.Accounts faces
  faces : ∀ face ∈ faces, Showable face
  amount : outcome.value.amount.natAbs < 10 ^ 20

variable {outcome : Outcome} {faces : List Int} {pool : Dice}

theorem length_headline_le (style : Style) (outcome : Outcome) :
    (headline style outcome).length ≤ style.signWidth + 39 := by
  rw [headline, SignedTerm.toList_render, List.length_append]
  exact Nat.add_le_add (style.length_shownSign_le _) outcome.signed.term.length_toString_le

/-- A face behind an operator takes at most 22 characters. -/
theorem length_operands_le (sign : Sign) (hfaces : ∀ face ∈ faces, Showable face) :
    (faces.flatMap (operand sign)).length ≤ 22 * faces.length := by
  induction faces with
  | nil => simp
  | cons face faces ih =>
      obtain ⟨hfirst, hlater⟩ := List.forall_mem_cons.mp hfaces
      have hface := hfirst.length_toString_le
      have hrest := ih hlater
      simp only [List.flatMap_cons, operand, List.length_append, List.length_cons,
        List.length_nil]
      omega

theorem length_listing_le (sign : Sign) (hfaces : ∀ face ∈ faces, Showable face) :
    (Value.listing sign (.listed faces)).toList.length ≤
      sign.leading.toList.length + 22 * faces.length := by
  rcases faces with _ | ⟨face, later⟩
  · simp [toList_listing]
  · obtain ⟨hfirst, hlater⟩ := List.forall_mem_cons.mp hfaces
    have hface := hfirst.length_toString_le
    have hoperands := length_operands_le sign hlater
    rw [toList_listing_cons, List.length_append, List.length_append, List.length_cons]
    omega

/-- Faces are listed only if they were drawn; otherwise there is one number. -/
theorem Compact.length_realised_le (h : outcome.Compact faces)
    (hterm : outcome.signed.term = .dice pool) (style : Style) :
    (realised style pool outcome.value).toList.length ≤
      style.signWidth + 20 + 22 * faces.length := by
  by_cases hlists : Lists style pool
  · have hlisting := length_listing_le (if style.ignoreSign then .plus else outcome.value.sign)
      h.faces
    have hsign : (if style.ignoreSign then Sign.plus else outcome.value.sign).leading.toList =
        style.shownSign outcome.value.sign := by
      unfold Style.shownSign
      split
      · exact Expression.toList_leading_plus
      · rfl
    have hwidth := style.length_shownSign_le outcome.value.sign
    rw [h.accounts.realised_of_lists hterm hlists]
    rw [hsign] at hlisting
    omega
  · have hnumber := style.length_number_le (by decide) h.amount
    rw [h.accounts.realised_of_not_lists hterm hlists]
    omega

theorem Compact.length_render_le (h : outcome.Compact faces) (style : Style) :
    (outcome.render style).toList.length ≤ 64 + 2 * style.signWidth + 22 * faces.length := by
  -- Besides the faces: two parentheses, the term, the arrow between blanks and one number, the
  -- term and the number each under a sign that the style may leave out.
  have hheadline := length_headline_le style outcome
  rcases hterm : outcome.signed.term with pool | value
  · have hrealised := h.length_realised_le hterm style
    have hbody : (body style pool outcome).length ≤
        62 + 2 * style.signWidth + 22 * faces.length := by
      simp only [body, List.length_append, List.length_cons, List.length_nil]
      omega
    rw [h.accounts.toList_render_of_dice hterm]
    split
    · rw [List.length_cons, List.length_append, List.length_singleton]
      omega
    · omega
  · rw [h.accounts.toList_render_of_constant hterm]
    omega

theorem Compact.length_continuation_le (h : outcome.Compact faces) (style : Style) :
    (continuation style outcome).length ≤ 68 + 22 * faces.length := by
  have hrender := h.length_render_le style.forTerms
  rw [continuation, List.length_append, toList_separation]
  rcases style.signWidth_forTerms with ⟨hplus, hwidth⟩ | ⟨hcomma, hwidth⟩
  · simp only [hplus, List.length_cons, List.length_nil]
    omega
  · simp only [hcomma, List.length_cons, List.length_nil]
    omega

theorem Compact.length_first_le (h : outcome.Compact faces) (style : Style) :
    ((outcome.opening style).toList ++ (outcome.render style.forTerms).toList).length ≤
      68 + 22 * faces.length := by
  have hrender := h.length_render_le style.forTerms
  rw [List.length_append, opening]
  rcases style.signWidth_forTerms with ⟨hplus, hwidth⟩ | ⟨hcomma, hwidth⟩
  · have hsign := outcome.value.sign.length_leading_le
    simp only [hplus]
    omega
  · simp only [hcomma, String.toList_empty, List.length_nil]
    omega

theorem length_continuations_le (style : Style) {outcomes : List Outcome}
    {shares : List (List Int)} (h : List.Forall₂ Compact outcomes shares) :
    (outcomes.flatMap (continuation style)).length ≤
      68 * outcomes.length + 22 * shares.flatten.length := by
  induction h with
  | nil => simp
  | cons hfirst _ ih =>
      have hcontinuation := hfirst.length_continuation_le style
      rw [List.flatMap_cons, List.flatten_cons, List.length_append, List.length_append,
        List.length_cons]
      omega

theorem length_renderAll_le (style : Style) {outcomes : List Outcome}
    {shares : List (List Int)} (h : List.Forall₂ Compact outcomes shares) :
    (renderAll style outcomes).toList.length ≤
      68 * outcomes.length + 22 * shares.flatten.length := by
  cases h with
  | nil => simp [renderAll]
  | cons hfirst hlater =>
      have hopening := hfirst.length_first_le style
      have hcontinuations := length_continuations_le style hlater
      rw [toList_renderAll, ← List.append_assoc, List.length_append, List.flatten_cons]
      simp only [List.length_append, List.length_cons] at hopening ⊢
      omega

end Outcome

/-- A rendering has no more than a total in front of it or behind it, some characters for each
term and some for each face. -/
theorem Result.length_render_le {result : Result} {shares : List (List Int)} (style : Style)
    (hrange : InRange result.total) (h : List.Forall₂ Outcome.Compact result.outcomes shares) :
    (result.render style).length ≤
      25 + 68 * result.outcomes.length + 22 * shares.flatten.length := by
  rw [← String.length_toList]
  by_cases hbare : result.IsBare
  · have htotal := hrange.length_toString_le
    rw [render, if_pos hbare]
    omega
  · have hall := Outcome.length_renderAll_le style h
    have hsurround := style.length_before_append_behind_le hrange
      (Outcome.renderAll style result.outcomes).toList
    rw [toList_render_of_not_bare hbare]
    omega

section

variable {total : Int} {terms : List SignedTerm} {faces : List Int}

/-- Every amount is the difference of two totals in range. -/
theorem natAbs_amount_lt (hlength : faces.length = (requestsOf terms).length)
    (hrange : InRange total) (h : breach? total terms faces = none) :
    ∀ outcome ∈ outcomesOf terms faces, outcome.value.amount.natAbs < 10 ^ 20 := by
  induction terms generalizing total faces with
  | nil => simp [outcomesOf]
  | cons signed rest ih =>
      obtain ⟨_, hlater⟩ := length_own_and_later hlength
      obtain ⟨hsum, hrest⟩ := inRange_and_breach?_later hlength h
      rw [outcomesOf, List.forall_mem_cons]
      refine ⟨?_, ih hlater hsum hrest⟩
      obtain ⟨hlow, hhigh⟩ := hrange
      obtain ⟨hlow', hhigh'⟩ := hsum
      dsimp only
      omega

end

theorem Outcome.compact_of_accounts {outcomes : List Outcome} {shares : List (List Int)}
    (h : List.Forall₂ Accounts outcomes shares)
    (hfaces : ∀ face ∈ shares.flatten, Showable face)
    (hamounts : ∀ outcome ∈ outcomes, outcome.value.amount.natAbs < 10 ^ 20) :
    List.Forall₂ Compact outcomes shares := by
  induction h with
  | nil => exact .nil
  | cons hfirst _ ih =>
      rw [List.flatten_cons, List.forall_mem_append] at hfaces
      rw [List.forall_mem_cons] at hamounts
      exact .cons ⟨hfirst, hfaces.1, hamounts.1⟩ (ih hfaces.2 hamounts.2)

namespace Expression

variable {σ : Type} {source : Source σ} {e : Expression} {feed last : Feed σ}
  {result : Result} {sides : Nat}

/-- The sides asked for are several, and no more than a magnitude allows. -/
theorem sides_of_mem_requests (h : sides ∈ e.requests) : sides ≠ 1 ∧ sides ≤ maxMagnitude := by
  obtain ⟨signed, _, hsides⟩ := List.mem_flatMap.mp h
  obtain ⟨pool, hseveral, rfl⟩ := SignedTerm.exists_dice_of_mem_requests hsides
  exact ⟨hseveral, pool.sides.val_le⟩

/-- The outcomes of a fair roll are compact, and there is one face for each request. -/
theorem exists_compact_of_evaluate (h : e.evaluate source feed = .ok result last)
    (hfair : source.FairOn e.requests feed.state) :
    ∃ shares : List (List Int), shares.flatten.length = e.requests.length ∧
      List.Forall₂ Outcome.Compact result.outcomes shares := by
  obtain ⟨shares, hshares, haccounts⟩ := exists_shares_of_evaluate h
  obtain ⟨hbreach, hanswered, rfl, _⟩ := evaluate_eq_ok_iff.mp h
  have hlength := Source.failure_eq_none_iff.mp hanswered
  refine ⟨shares, by rw [← hshares, hlength], Outcome.compact_of_accounts haccounts ?_ ?_⟩
  · intro face hface
    rw [← hshares] at hface
    obtain ⟨sides, hsides, hone, hle⟩ := Source.exists_sides_of_fairOn hfair hface
    have hmax := (sides_of_mem_requests hsides).2
    exact ⟨hone, by omega⟩
  · exact natAbs_amount_lt hlength (by decide) hbreach

/-- In every style a fair roll is rendered with a number of characters that is bounded by its
terms and by the requests it made, and none of these is for one-sided dice.  So an admitted
expression is rendered within a bound that is known from its terms and the cap. -/
theorem length_render_le_terms_and_requests (style : Style) (source : Source σ) (e : Expression)
    (feed last : Feed σ) (result : Result) (hroll : e.evaluate source feed = .ok result last)
    (hfair : source.FairOn e.requests feed.state) :
    (∃ made : List Nat, last.requests = feed.requests ++ made.toArray ∧
      (∀ sides ∈ made, sides ≠ 1) ∧
      (result.render style).length ≤ 25 + 68 * e.length + 22 * made.length) ∧
    ∀ cap : Int, e.exceeds cap = false →
      ((result.render style).length : Int) ≤ 25 + 68 * (e.length : Int) + 22 * max cap 0 := by
  obtain ⟨shares, hshares, hcompact⟩ := exists_compact_of_evaluate hroll hfair
  have hterms : result.outcomes.length = e.length := by
    rw [length, ← signed_of_evaluate hroll, List.length_map]
  have hlength : (result.render style).length ≤
      25 + 68 * e.length + 22 * e.requests.length := by
    rw [← hterms, ← hshares]
    exact result.length_render_le style (inRange_total_of_evaluate hroll) hcompact
  constructor
  · obtain ⟨_, hanswered, _, rfl⟩ := evaluate_eq_ok_iff.mp hroll
    exact ⟨e.requests, Feed.requests_after_of_answered hanswered,
      fun _ hsides => (sides_of_mem_requests hsides).1, hlength⟩
  · intro cap hadmitted
    have hcap := length_requests_le_of_admitted hadmitted
    omega

/-- As many one-sided dice as there can be, before others:
`9223372036854775807d1 - 2d6 + 1d4 + 0`. -/
def crowded : Expression where
  first := ⟨.plus, .dice ⟨⟨maxMagnitude, Nat.le_refl _⟩, .one, Nat.one_pos⟩⟩
  rest := (withZero .plus).terms

/-- Of all its dice only the last three are drawn and listed. -/
theorem crowded_length_render_le :
    let style : Style := .ofAdjustments [.commas]
    ∃ (result : Result) (feed : Feed Generator),
      crowded.evaluate Generator.source ⟨.script [3, 4, 2], #[]⟩ = .ok result feed ∧
        result.render style =
          "(9223372036854775807d1 → 9223372036854775807), (-2d6 → -3 - 4), (1d4 → 2), 0" ∧
        crowded.exceeds 5 = false ∧ (result.render style).length ≤ 25 + 68 * 4 + 22 * 5 := by
  intro style
  have h : crowded.evaluate Generator.source ⟨.script [3, 4, 2], #[]⟩ = .ok _ _ := rfl
  have hfair : Source.FairOn Generator.source crowded.requests (.script [3, 4, 2]) := by
    unfold Source.FairOn
    decide
  have hadmitted : crowded.exceeds 5 = false := by decide
  obtain ⟨_, hcapped⟩ := length_render_le_terms_and_requests style _ _ _ _ _ h hfair
  exact ⟨_, _, h, by decide +kernel, hadmitted, Int.ofNat_le.mp (hcapped 5 hadmitted)⟩

end Expression

end TabletopDice
