/-
What a rendering adds up to.  In every style that shows signs it is the total, but for one
layout: where the faces of dice under a minus are listed between plus signs and without
parentheses, the minus reaches the first face only, and the others are added.
-/
import TabletopDice.Proofs.Decoding
import TabletopDice.Proofs.VisibleArithmetic

namespace TabletopDice

open Text Tally

/-- The text without the total in front of it or behind it, where the style puts one. -/
def Style.withoutTotal (style : Style) (text : List Char) : List Char :=
  if '=' ∈ text then
    match style.totalPlace with
    | .left => (text.dropWhile (· ≠ '=')).drop 2
    | .right => ((text.reverse.dropWhile (· ≠ '=')).drop 2).reverse
    | .suppressed => text
  else text

/-- The sum that is seen in a rendering when its total is covered up. -/
def Style.visibleSum? (style : Style) (text : String) : Option Int :=
  TabletopDice.visibleSum? style.separator (style.withoutTotal text.toList)

/-- The minus of a term does not reach all of its faces: they are listed with plus signs in
between and with no parentheses around. -/
def Style.Misleading (style : Style) : Prop :=
  style.separator = .plusSign ∧ style.summarize = false ∧ style.diceParentheses = false

instance (style : Style) : Decidable style.Misleading :=
  inferInstanceAs (Decidable (_ ∧ _))

namespace Outcome

/-- Several faces of dice under a minus. -/
def Stretched (outcome : Outcome) : Prop :=
  match outcome.signed with
  | ⟨.minus, .dice pool⟩ => ¬ pool.OneSided ∧ 1 < outcome.value.parts.length
  | _ => False

instance (outcome : Outcome) : Decidable outcome.Stretched := by
  unfold Stretched
  split <;> infer_instance

/-- The sum of the faces behind the first one, where a minus stands before several. -/
def trailing (outcome : Outcome) : Int :=
  if outcome.Stretched then outcome.value.parts.toList.tail.sum else 0

end Outcome

def Result.trailing (result : Result) : Int := (result.outcomes.map Outcome.trailing).sum

namespace Style

variable {style : Style} {outer : List (Int × Sign)} {total : Int} {sign : Sign}
  {separator : Separator} {rest : List Char}

theorem forTerms_diceParentheses (style : Style) :
    style.forTerms.diceParentheses = style.diceParentheses := by
  rcases hseparator : style.separator <;> simp [forTerms, hseparator, adjust]

/-- A number as the style shows it. -/
def shown (style : Style) (n : Int) : Int := if style.ignoreSign then n.natAbs else n

/-- The sign that the style puts in front of listed faces. -/
def faceSign (style : Style) (sign : Sign) : Sign := if style.ignoreSign then .plus else sign

theorem read_number (hrest : Boundary rest) (style : Style) (n : Int) :
    read separator ⟨outer, total, some sign⟩ ((style.number n).toList ++ rest) =
      read separator ⟨outer, total + sign * style.shown n, none⟩ rest := by
  unfold number shown
  split
  · exact read_natural hrest n.natAbs
  · exact read_integer hrest n

end Style

namespace Outcome

variable {style : Style} {outcome : Outcome} {faces : List Int} {pool : Dice}
  {outer : List (Int × Sign)} {total : Int} {sign : Sign} {separator : Separator}
  {rest : List Char}

theorem toList_listing_cons (own : Sign) (face : Int) (later : List Int) :
    (Value.listing own (.listed (face :: later))).toList =
      own.leading.toList ++ ((toString face).toList ++ later.flatMap (operand own)) := by
  rw [toList_listing]
  congr 1
  induction later generalizing face with
  | nil => simp
  | cons next later ih =>
      simp only [List.map_cons] at ih ⊢
      rw [List.intercalate_cons_cons, ih, List.flatMap_cons, operand, List.append_assoc,
        List.append_assoc]

theorem read_listing (hrest : Boundary rest) (own : Sign) {face : Int} (hface : 0 ≤ face)
    (later : List Int) :
    read separator ⟨outer, total, some sign⟩
        ((Value.listing own (.listed (face :: later))).toList ++ rest) =
      read separator ⟨outer, total + sign * (own * face) + own * later.sum, none⟩ rest := by
  have hprint : (toString face).toList = (toString face.natAbs).toList := by
    conv_lhs => rw [← Int.natAbs_of_nonneg hface]
    rfl
  rw [toList_listing_cons, List.append_assoc, List.append_assoc, hprint,
    read_signed (boundary_operands hrest own later), Int.natAbs_of_nonneg hface,
    read_operands hrest]

/-- The faces of dice that are listed are the parts of their value, and there are several. -/
theorem Fair.exists_faces_of_lists (h : outcome.Fair) (hterm : outcome.signed.term = .dice pool)
    (hlists : Lists style pool) :
    ∃ face next later, outcome.Accounts (face :: next :: later) ∧
      (∀ other ∈ face :: next :: later, 1 ≤ other) ∧
      outcome.value.parts.toList = face :: next :: later ∧
      outcome.value.amount = outcome.value.sign * (face + (next :: later).sum) := by
  obtain ⟨faces, haccounts, hfaces⟩ := h
  obtain ⟨hvalue, hlength⟩ := haccounts.of_drawn hterm hlists.1
  have hcount := hlists.2.2
  rw [← hlength] at hcount
  rcases faces with _ | ⟨face, _ | ⟨next, later⟩⟩
  · simp at hcount
  · simp at hcount
  · rw [hvalue]
    exact ⟨face, next, later, haccounts, hfaces, rfl, rfl⟩

/-- Where the faces are not listed, only the amount is seen. -/
theorem Fair.read_realised_of_not_lists (h : outcome.Fair)
    (hterm : outcome.signed.term = .dice pool) (hlists : ¬ Lists style pool)
    (hrest : Boundary rest) :
    read separator ⟨outer, total, some sign⟩
        ((realised style pool outcome.value).toList ++ rest) =
      read separator ⟨outer, total + sign * style.shown outcome.value.amount, none⟩ rest := by
  obtain ⟨faces, haccounts, _⟩ := h
  rw [haccounts.realised_of_not_lists hterm hlists, style.read_number hrest]

/-- Where they are listed, the sign in front reaches the first of them only. -/
theorem Fair.read_realised_of_lists (h : outcome.Fair) (hterm : outcome.signed.term = .dice pool)
    (hlists : Lists style pool) (hrest : Boundary rest) :
    ∃ face later, outcome.value.parts.toList = face :: later ∧ 0 ≤ face + later.sum ∧
      outcome.value.amount = outcome.value.sign * (face + later.sum) ∧
      ∀ (total : Int) (sign : Sign),
        read separator ⟨outer, total, some sign⟩
            ((realised style pool outcome.value).toList ++ rest) =
          read separator ⟨outer, total + sign * (style.faceSign outcome.value.sign * face) +
            style.faceSign outcome.value.sign * later.sum, none⟩ rest := by
  obtain ⟨face, next, later, haccounts, hfaces, hparts, hamount⟩ :=
    h.exists_faces_of_lists hterm hlists
  have hface : 0 ≤ face := Int.le_of_lt (hfaces face List.mem_cons_self)
  have hsum : 0 ≤ (face :: next :: later).sum :=
    List.sum_nonneg fun other hother => Int.le_of_lt (hfaces other hother)
  refine ⟨face, next :: later, hparts, hsum, hamount, ?_⟩
  intro total sign
  rw [haccounts.realised_of_lists hterm hlists, read_listing hrest _ hface]
  rfl

/-- Under a plus it does not matter how far the sign reaches. -/
theorem Fair.read_realised (h : outcome.Fair) (hterm : outcome.signed.term = .dice pool)
    (hrest : Boundary rest) :
    read separator ⟨outer, total, some .plus⟩
        ((realised style pool outcome.value).toList ++ rest) =
      read separator ⟨outer, total + style.shown outcome.value.amount, none⟩ rest := by
  by_cases hlists : Lists style pool
  · obtain ⟨face, later, _, hsum, hamount, hread⟩ := h.read_realised_of_lists hterm hlists hrest
    rw [hread, Sign.plus_mul, Int.add_assoc, ← Sign.mul_add, Style.shown, Style.faceSign,
      hamount]
    split
    · rw [Sign.plus_mul, Sign.natAbs_mul, Int.natAbs_of_nonneg hsum]
    · rfl
  · rw [h.read_realised_of_not_lists hterm hlists hrest, Sign.plus_mul]

/-- A label is left out with its sign, unless the minus in front of it is an operator. -/
theorem read_body (hlabel : style.ignoreSign = true ∨ separator = .comma)
    (hterm : outcome.signed.term = .dice pool) (tally : Tally) :
    tally.read separator (body style pool outcome ++ rest) =
      tally.read separator ((realised style pool outcome.value).toList ++ rest) := by
  have hpool : (toString (Term.dice pool)).toList = (toString pool).toList := rfl
  rw [body, headline, SignedTerm.toList_render, hterm, hpool, Style.shownSign]
  simp only [List.append_assoc]
  split
  · rw [List.nil_append, ← List.append_assoc [' ', '→', ' ']]
    exact read_label tally pool _
  · rename_i hshown
    obtain rfl := hlabel.resolve_left hshown
    exact read_signed_label tally _ pool _

theorem Accounts.render_of_constant {value : Magnitude} (h : outcome.Accounts faces)
    (hterm : outcome.signed.term = .constant value) :
    outcome.render style = style.number outcome.value.amount := by
  rw [Outcome.render, hterm, (h.of_constant hterm).1]
  rfl

/-- An outcome is read as what the style shows of its amount, if dice are in parentheses, or
under a plus, or not listed by their faces. -/
theorem Fair.read_render (h : outcome.Fair)
    (hlabel : style.ignoreSign = true ∨ separator = .comma)
    (hsafe : style.diceParentheses = true ∨ sign = .plus ∨
      ∀ pool : Dice, outcome.signed.term = .dice pool → ¬ Lists style pool)
    (hrest : Boundary rest) :
    read separator ⟨outer, total, some sign⟩ ((outcome.render style).toList ++ rest) =
      read separator ⟨outer, total + sign * style.shown outcome.value.amount, none⟩ rest := by
  have hfair := h
  obtain ⟨faces, haccounts, _⟩ := h
  rcases hterm : outcome.signed.term with pool | value
  · rw [haccounts.toList_render_of_dice hterm]
    by_cases hparentheses : style.diceParentheses
    · have hclose : Boundary ([')'] ++ rest) := .cons (by decide) (by decide)
      rw [if_pos hparentheses, List.cons_append, List.append_assoc, read_open,
        read_body hlabel hterm, hfair.read_realised hterm hclose, Int.zero_add]
      exact read_close
    · rw [if_neg hparentheses, read_body hlabel hterm]
      rcases hsafe.resolve_left hparentheses with rfl | hlists
      · rw [hfair.read_realised hterm hrest, Sign.plus_mul]
      · exact hfair.read_realised_of_not_lists hterm (hlists pool hterm) hrest
  · rw [haccounts.render_of_constant hterm]
    exact style.read_number hrest _

/-- Faces that are listed bare behind a minus are added but for the first one. -/
theorem Fair.read_render_of_minus (h : outcome.Fair) (hignore : style.ignoreSign = true)
    (hbare : style.diceParentheses = false) (hterm : outcome.signed.term = .dice pool)
    (hlists : Lists style pool) (hrest : Boundary rest) :
    read separator ⟨outer, total, some .minus⟩ ((outcome.render style).toList ++ rest) =
      read separator ⟨outer, total - outcome.value.amount.natAbs +
        2 * outcome.value.parts.toList.tail.sum, none⟩ rest := by
  obtain ⟨face, later, hparts, hsum, hamount, hread⟩ :=
    h.read_realised_of_lists hterm hlists hrest
  obtain ⟨faces, haccounts, _⟩ := h
  have hreading : total + Sign.minus * (Sign.plus * face) + Sign.plus * later.sum =
      total - (face + later.sum) + 2 * later.sum := by
    simp only [Sign.minus_mul, Sign.plus_mul]
    omega
  rw [haccounts.toList_render_of_dice hterm, hbare, if_neg (by decide),
    read_body (.inl hignore) hterm, hread, Style.faceSign, if_pos hignore, hamount,
    Sign.natAbs_mul, Int.natAbs_of_nonneg hsum, hparts, List.tail_cons, hreading]

/-- Dice are stretched by the sign of their value, since that is the one of the term. -/
theorem Fair.stretched_iff (h : outcome.Fair) :
    outcome.Stretched ↔ ∃ pool : Dice, outcome.signed.term = .dice pool ∧
      outcome.value.sign = .minus ∧ ¬ pool.OneSided ∧ 1 < pool.count.val := by
  obtain ⟨faces, haccounts, _⟩ := h
  rcases haccounts with ⟨sign, pool, faces, several, hlength⟩ | ⟨sign, pool, hone⟩ |
    ⟨sign, value⟩
  · cases sign <;> simp [Stretched, several, Value.sign, Value.parts, Parts.length, hlength]
  · cases sign <;> simp [Stretched, hone]
  · cases sign <;> simp [Stretched]

/-- What the style makes of an outcome beyond its amount. -/
def surplus (style : Style) (outcome : Outcome) : Int :=
  if style.Misleading then 2 * outcome.trailing else 0

/-- The sign that the text in front of the outcome gives to it. -/
def separationSign (style : Style) (outcome : Outcome) : Sign :=
  match style.separator with
  | .plusSign => outcome.value.sign
  | .comma => .plus

theorem Fair.trailing_pos (h : outcome.Fair) (hstretched : outcome.Stretched) :
    0 < outcome.trailing := by
  obtain ⟨pool, hterm, _, hseveral, hcount⟩ := h.stretched_iff.mp hstretched
  have hlists : Lists {} pool := ⟨hseveral, rfl, hcount⟩
  obtain ⟨face, next, later, _, hfaces, hparts, _⟩ := h.exists_faces_of_lists hterm hlists
  have hnext : 1 ≤ next := hfaces next (by simp)
  have hlater : 0 ≤ later.sum :=
    List.sum_nonneg fun other hother => Int.le_of_lt (hfaces other (by simp [hother]))
  rw [trailing, if_pos hstretched, hparts, List.tail_cons, List.sum_cons]
  omega

theorem Fair.trailing_nonneg (h : outcome.Fair) : 0 ≤ outcome.trailing := by
  by_cases hstretched : outcome.Stretched
  · exact Int.le_of_lt (h.trailing_pos hstretched)
  · rw [trailing, if_neg hstretched]

theorem surplus_eq_zero (h : ¬ (style.Misleading ∧ outcome.Stretched)) :
    outcome.surplus style = 0 := by
  unfold surplus trailing
  split
  · rw [if_neg fun hstretched => h ⟨‹_›, hstretched⟩, Int.mul_zero]
  · rfl

/-- Between plus signs the style is misleading just if faces may be listed bare. -/
theorem Fair.misled_of_lists (h : outcome.Fair) (hseparator : style.separator = .plusSign)
    (hbare : ¬ style.forTerms.diceParentheses = true) (hminus : ¬ outcome.value.sign = .plus)
    (hterm : outcome.signed.term = .dice pool) (hlists : Lists style.forTerms pool) :
    style.Misleading ∧ outcome.Stretched := by
  obtain ⟨hseveral, hverbose, hcount⟩ := hlists
  rw [Style.forTerms_summarize] at hverbose
  rw [Style.forTerms_diceParentheses] at hbare
  have hsign : outcome.value.sign = .minus := by
    rcases hsign : outcome.value.sign
    · exact absurd hsign hminus
    · rfl
  exact ⟨⟨hseparator, hverbose, Bool.eq_false_of_not_eq_true hbare⟩,
    h.stretched_iff.mpr ⟨pool, hterm, hsign, hseveral, hcount⟩⟩

/-- An outcome is read as its amount and what the style makes of it beyond that. -/
theorem Fair.read_forTerms (h : outcome.Fair) (hshown : style.ignoreSign = false)
    (hrest : Boundary rest) :
    read style.separator ⟨outer, total, some (outcome.separationSign style)⟩
        ((outcome.render style.forTerms).toList ++ rest) =
      read style.separator ⟨outer, total + outcome.value.amount + outcome.surplus style, none⟩
        rest := by
  rcases hseparator : style.separator
  · have hignore := (Style.forTerms_ignoreSign hshown).mpr hseparator
    have hsign : outcome.separationSign style = outcome.value.sign := by
      rw [separationSign, hseparator]
    have hamount := h.sign_mul_natAbs
    by_cases hmisled : style.Misleading ∧ outcome.Stretched
    · obtain ⟨hmisleading, hstretched⟩ := hmisled
      obtain ⟨pool, hterm, hminus, hseveral, hcount⟩ := h.stretched_iff.mp hstretched
      have hlists : Lists style.forTerms pool :=
        ⟨hseveral, style.forTerms_summarize.trans hmisleading.2.1, hcount⟩
      have hbare := style.forTerms_diceParentheses.trans hmisleading.2.2
      rw [hminus, Sign.minus_mul] at hamount
      rw [hsign, hminus, h.read_render_of_minus hignore hbare hterm hlists hrest, surplus,
        if_pos hmisleading, trailing, if_pos hstretched, Int.sub_eq_add_neg, hamount]
    · have hsafe : style.forTerms.diceParentheses = true ∨ outcome.value.sign = .plus ∨
          ∀ pool : Dice, outcome.signed.term = .dice pool → ¬ Lists style.forTerms pool := by
        by_contra hnot
        obtain ⟨hbare, hnot⟩ := not_or.mp hnot
        obtain ⟨hminus, hnot⟩ := not_or.mp hnot
        apply hnot
        intro pool hterm hlists
        exact hmisled (h.misled_of_lists hseparator hbare hminus hterm hlists)
      rw [hsign, h.read_render (.inl hignore) hsafe hrest, Style.shown, if_pos hignore, hamount,
        surplus_eq_zero hmisled, Int.add_zero]
  · have hforTerms : style.forTerms = style := by rw [Style.forTerms, hseparator]
    have hsign : outcome.separationSign style = .plus := by rw [separationSign, hseparator]
    have hsound : ¬ style.Misleading := by simp [Style.Misleading, hseparator]
    rw [hforTerms, hsign, h.read_render (.inr rfl) (.inr (.inl rfl)) hrest, Sign.plus_mul,
      Style.shown, hshown, surplus_eq_zero fun hmisled => hsound hmisled.1, Int.add_zero]
    rfl

theorem Fair.read_continuation (h : outcome.Fair) (hshown : style.ignoreSign = false)
    (hrest : Boundary rest) :
    read style.separator ⟨outer, total, none⟩ (continuation style outcome ++ rest) =
      read style.separator ⟨outer, total + outcome.value.amount + outcome.surplus style, none⟩
        rest := by
  rw [← h.read_forTerms hshown hrest, continuation, toList_separation, List.append_assoc,
    separationSign]
  rcases style.separator
  · exact read_operator
  · exact read_comma

theorem Fair.read_first (h : outcome.Fair) (hshown : style.ignoreSign = false)
    (hrest : Boundary rest) :
    read style.separator ⟨outer, total, some .plus⟩ ((outcome.opening style).toList ++
        ((outcome.render style.forTerms).toList ++ rest)) =
      read style.separator ⟨outer, total + outcome.value.amount + outcome.surplus style, none⟩
        rest := by
  rw [← h.read_forTerms hshown hrest, opening, separationSign]
  rcases style.separator
  · rcases outcome.value.sign
    · rw [Expression.toList_leading_plus, List.nil_append]
    · rw [Expression.toList_leading_minus]
      exact read_minus
  · rfl

/-- The outcomes of a list are read one by one. -/
theorem read_continuations {outcomes : List Outcome} (hfair : ∀ outcome ∈ outcomes, outcome.Fair)
    (hshown : style.ignoreSign = false) (hclosing : Closing rest) :
    read style.separator ⟨outer, total, none⟩ (outcomes.flatMap (continuation style) ++ rest) =
      read style.separator ⟨outer,
        total + (outcomes.map fun outcome => outcome.value.amount + outcome.surplus style).sum,
        none⟩ rest := by
  induction outcomes generalizing total with
  | nil => rw [List.flatMap_nil, List.nil_append, List.map_nil, List.sum_nil, Int.add_zero]
  | cons first outcomes ih =>
      obtain ⟨hfirst, hlater⟩ := List.forall_mem_cons.mp hfair
      rw [List.flatMap_cons, List.append_assoc,
        hfirst.read_continuation hshown (boundary_continuations hclosing style outcomes),
        ih hlater, List.map_cons, List.sum_cons, Int.add_assoc total, Int.add_assoc total]

theorem read_renderAll {outcomes : List Outcome} (hne : outcomes ≠ [])
    (hfair : ∀ outcome ∈ outcomes, outcome.Fair) (hshown : style.ignoreSign = false)
    (hclosing : Closing rest) :
    read style.separator ⟨outer, total, some .plus⟩
        ((renderAll style outcomes).toList ++ rest) =
      read style.separator ⟨outer,
        total + (outcomes.map fun outcome => outcome.value.amount + outcome.surplus style).sum,
        none⟩ rest := by
  obtain ⟨first, later, rfl⟩ := List.exists_cons_of_ne_nil hne
  obtain ⟨hfirst, hlater⟩ := List.forall_mem_cons.mp hfair
  rw [toList_renderAll, List.append_assoc, List.append_assoc,
    hfirst.read_first hshown (boundary_continuations hclosing style later),
    read_continuations hlater hshown hclosing, List.map_cons, List.sum_cons, Int.add_assoc total,
    Int.add_assoc total]

end Outcome

namespace Style

variable {style : Style}

/-- What the style puts around the outcomes besides the total. -/
def openList (style : Style) : List Char := if style.listParentheses then ['('] else []

def closeList (style : Style) : List Char := if style.listParentheses then [')'] else []

theorem closing_closeList (style : Style) : Closing style.closeList := by
  unfold closeList
  split
  · exact .inr (.inl ⟨[], rfl⟩)
  · exact .inl rfl

theorem drop_through_equals {front text : List Char} (h : '=' ∉ front) :
    ((front ++ ([' ', '=', ' '] ++ text)).dropWhile (· ≠ '=')).drop 2 = text := by
  have hfront : ∀ c ∈ front ++ [' '], (decide (c ≠ '=')) = true := by
    intro c hc
    rcases List.mem_append.mp hc with hc | hc
    · exact decide_eq_true fun heq => h (heq ▸ hc)
    · rw [List.mem_singleton.mp hc]
      decide
  have hsplit : front ++ ([' ', '=', ' '] ++ text) =
      (front ++ [' ']) ++ ('=' :: ' ' :: text) := by
    simp
  rw [hsplit, dropWhile_run hfront (by simp)]
  rfl

/-- The list stands in its parentheses, if it has them, and the total on its side of both. -/
theorem before_append_behind (style : Style) (total : Int) (list : List Char) :
    style.before total ++ (list ++ style.behind total) =
      match style.totalPlace with
      | .left => (toString total).toList ++ ([' ', '=', ' '] ++
          (style.openList ++ (list ++ style.closeList)))
      | .right => (style.openList ++ (list ++ style.closeList)) ++ ([' ', '=', ' '] ++
          (toString total).toList)
      | .suppressed => style.openList ++ (list ++ style.closeList) := by
  rcases hplace : style.totalPlace <;> simp [before, behind, openList, closeList, hplace]

/-- With the total gone the list is left, in its parentheses if it has them. -/
theorem withoutTotal_list (style : Style) (total : Int) (list : List Char) :
    style.withoutTotal (style.before total ++ (list ++ style.behind total)) =
      style.openList ++ (list ++ style.closeList) := by
  have htotal : '=' ∉ (toString total).toList :=
    Result.not_mem_toString (by decide) (by decide) total
  rw [before_append_behind, withoutTotal]
  rcases style.totalPlace
  · simp only
    rw [if_pos (by simp)]
    exact drop_through_equals htotal
  · have hreverse : ((style.openList ++ (list ++ style.closeList)) ++ ([' ', '=', ' '] ++
        (toString total).toList)).reverse = (toString total).toList.reverse ++
          ([' ', '=', ' '] ++ (style.openList ++ (list ++ style.closeList)).reverse) := by
      simp
    simp only
    rw [if_pos (by simp), hreverse, drop_through_equals (by simpa using htotal),
      List.reverse_reverse]
  · simp only
    exact ite_self _

theorem visibleSum?_toString (style : Style) (n : Int) :
    style.visibleSum? (toString n) = some n := by
  have hnone : '=' ∉ (toString n).toList :=
    Result.not_mem_toString (by decide) (by decide) n
  have hread := @read_integer style.separator [] 0 .plus [] .nil n
  rw [List.append_nil, Sign.plus_mul, Int.zero_add] at hread
  rw [visibleSum?, withoutTotal, if_neg hnone]
  exact hread

end Style

namespace Result

variable {style : Style} {result : Result}

theorem sum_surplus (style : Style) (outcomes : List Outcome) :
    (outcomes.map fun outcome => outcome.value.amount + outcome.surplus style).sum =
      (outcomes.map fun outcome => outcome.value.amount).sum +
        if style.Misleading then 2 * (outcomes.map Outcome.trailing).sum else 0 := by
  induction outcomes with
  | nil => simp
  | cons first outcomes ih =>
      rw [List.map_cons, List.map_cons, List.map_cons, List.sum_cons, List.sum_cons,
        List.sum_cons, ih, Outcome.surplus]
      split <;> omega

theorem trailing_eq_zero (h : ∀ outcome ∈ result.outcomes, ¬ outcome.Stretched) :
    result.trailing = 0 := by
  apply List.sum_eq_zero
  intro n hn
  obtain ⟨outcome, houtcome, rfl⟩ := List.mem_map.mp hn
  exact if_neg (h outcome houtcome)

theorem trailing_pos (hfair : ∀ outcome ∈ result.outcomes, outcome.Fair) {outcome : Outcome}
    (houtcome : outcome ∈ result.outcomes) (h : outcome.Stretched) : 0 < result.trailing := by
  have hnonneg : ∀ n ∈ result.outcomes.map Outcome.trailing, 0 ≤ n := by
    intro n hn
    obtain ⟨other, hother, rfl⟩ := List.mem_map.mp hn
    exact (hfair other hother).trailing_nonneg
  exact Int.lt_of_lt_of_le ((hfair outcome houtcome).trailing_pos h)
    (List.single_le_sum hnonneg _ (List.mem_map_of_mem houtcome))

/-- A bare total has no stretched dice behind it. -/
theorem IsBare.not_stretched (h : result.IsBare) :
    ∀ outcome ∈ result.outcomes, ¬ outcome.Stretched := by
  intro outcome houtcome hstretched
  unfold IsBare at h
  split at h
  · rename_i only honly
    rw [honly, List.mem_singleton] at houtcome
    unfold Outcome.Stretched at hstretched
    split at hstretched
    · rw [houtcome] at hstretched
      exact absurd h (Nat.not_le_of_gt hstretched.2)
    · exact hstretched
  · exact h

/-- Parentheses around the list leave its sum as it is. -/
theorem visibleSum?_list {outcomes : List Outcome} (hfair : ∀ outcome ∈ outcomes, outcome.Fair)
    (hne : outcomes ≠ []) (hshown : style.ignoreSign = false) :
    TabletopDice.visibleSum? style.separator
        (style.openList ++ ((Outcome.renderAll style outcomes).toList ++ style.closeList)) =
      some (outcomes.map fun outcome => outcome.value.amount + outcome.surplus style).sum := by
  have hclosing := style.closing_closeList
  rw [TabletopDice.visibleSum?, Tally.start]
  unfold Style.openList
  unfold Style.closeList at hclosing ⊢
  split
  · rename_i hparentheses
    rw [if_pos hparentheses] at hclosing
    rw [List.cons_append, List.nil_append, read_open,
      Outcome.read_renderAll hne hfair hshown hclosing, read_close, Int.zero_add, Sign.plus_mul,
      Int.zero_add]
    rfl
  · rename_i hparentheses
    rw [if_neg hparentheses] at hclosing
    rw [List.nil_append, Outcome.read_renderAll hne hfair hshown hclosing, Int.zero_add]
    rfl

theorem visibleSum?_render_eq (hfair : ∀ outcome ∈ result.outcomes, outcome.Fair)
    (hne : result.outcomes ≠ [])
    (htotal : result.total = (result.outcomes.map fun outcome => outcome.value.amount).sum)
    (hshown : style.ignoreSign = false) :
    style.visibleSum? (result.render style) =
      some (result.total + if style.Misleading then 2 * result.trailing else 0) := by
  by_cases hbare : result.IsBare
  · rw [render, if_pos hbare, style.visibleSum?_toString, trailing_eq_zero hbare.not_stretched]
    simp
  · rw [Style.visibleSum?, toList_render_of_not_bare hbare, style.withoutTotal_list,
      visibleSum?_list hfair hne hshown, sum_surplus, ← htotal]
    rfl

/-- In every style that shows signs the rendering of a fair roll adds up to the total, with one
exception: in a misleading style, if there are several faces of dice under a minus, what is
seen exceeds the total by twice the sum of all such faces but the first of each term. -/
theorem visibleSum?_render {σ : Type} (style : Style) (hshown : style.ignoreSign = false)
    (source : Source σ) (e : Expression) (feed last : Feed σ) (result : Result)
    (hroll : e.evaluate source feed = .ok result last)
    (hfair : source.FairOn e.requests feed.state) :
    (¬ (style.Misleading ∧ ∃ outcome ∈ result.outcomes, outcome.Stretched) →
      style.visibleSum? (result.render style) = some result.total) ∧
    ((style.Misleading ∧ ∃ outcome ∈ result.outcomes, outcome.Stretched) →
      style.visibleSum? (result.render style) = some (result.total + 2 * result.trailing) ∧
        0 < result.trailing) := by
  have houtcomes := Expression.fair_of_evaluate hroll hfair
  have hsum := visibleSum?_render_eq houtcomes (Expression.outcomes_ne_nil_of_evaluate hroll)
    (Expression.total_of_evaluate hroll) hshown
  constructor
  · intro hsound
    have hnone : (if style.Misleading then 2 * result.trailing else 0) = 0 := by
      split
      · rename_i hmisleading
        rw [trailing_eq_zero fun outcome houtcome hstretched =>
          hsound ⟨hmisleading, outcome, houtcome, hstretched⟩, Int.mul_zero]
      · rfl
    rw [hsum, hnone, Int.add_zero]
  · rintro ⟨hmisleading, outcome, houtcome, hstretched⟩
    rw [hsum, if_pos hmisleading]
    exact ⟨rfl, trailing_pos houtcomes houtcome hstretched⟩

/-- Without the parentheses a roll of -5 is seen as 3. -/
theorem rolledWithZero_visibleSum?_render :
    let bare : Style := .ofAdjustments [.noDiceParentheses, .totalRight]
    let grouped : Style := .ofAdjustments [.totalLeft]
    (Expression.withZero .plus).evaluate Generator.source ⟨.script [3, 4, 2], #[]⟩ =
        .ok (rolledWithZero .plus) ⟨.script [], #[6, 6, 4]⟩ ∧
      (rolledWithZero .plus).render bare = "-2d6 → 3 + 4 + 1d4 → 2 + 0 = -5" ∧
      bare.visibleSum? ((rolledWithZero .plus).render bare) = some 3 ∧
      (rolledWithZero .plus).render grouped = "-5 = -(2d6 → 3 + 4) + (1d4 → 2) + 0" ∧
      grouped.visibleSum? ((rolledWithZero .plus).render grouped) = some (-5) := by
  intro bare grouped
  have hroll : (Expression.withZero .plus).evaluate Generator.source ⟨.script [3, 4, 2], #[]⟩ =
      .ok (rolledWithZero .plus) ⟨.script [], #[6, 6, 4]⟩ := rfl
  have hfair : Source.FairOn Generator.source (Expression.withZero .plus).requests
      (.script [3, 4, 2]) := by
    unfold Source.FairOn
    decide
  refine ⟨hroll, by decide +kernel, ?_, by decide +kernel, ?_⟩
  · exact ((visibleSum?_render bare rfl _ _ _ _ _ hroll hfair).2 (by decide)).1
  · exact (visibleSum?_render grouped rfl _ _ _ _ _ hroll hfair).1 (by decide)

end Result

end TabletopDice
