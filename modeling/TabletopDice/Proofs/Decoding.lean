/-
Reading a rendering back.  A list of outcomes is read from the left: each outcome is behind
its separation and ends where the next one or the closing of the list starts.  So results
that are rendered alike have the same total and agree outcome by outcome.
-/
import TabletopDice.Proofs.OutcomeText
import TabletopDice.Source.Generator

namespace TabletopDice

open Text

/-- What may stand behind the last outcome: nothing, a parenthesis or the total. -/
def Closing (text : List Char) : Prop :=
  text = [] ∨ (∃ rest, text = ')' :: rest) ∨ ∃ rest, text = ' ' :: '=' :: rest

theorem Closing.boundary {text : List Char} (h : Closing text) : Boundary text := by
  rcases h with rfl | ⟨rest, rfl⟩ | ⟨rest, rfl⟩
  · exact .nil
  · exact .cons (by decide) (by decide)
  · exact .cons (by decide) (by decide)

namespace Style

variable {style : Style}

theorem forTerms_ignoreSign (hshown : style.ignoreSign = false) :
    style.forTerms.ignoreSign = true ↔ style.separator = .plusSign := by
  rcases hseparator : style.separator <;> simp [forTerms, hseparator, adjust, hshown]

theorem forTerms_summarize (style : Style) : style.forTerms.summarize = style.summarize := by
  rcases hseparator : style.separator <;> simp [forTerms, hseparator, adjust]

end Style

namespace Outcome

variable {style : Style} {left right : Outcome}

theorem Alike.of_forTerms (h : left.Alike style.forTerms right) : left.Alike style right := by
  refine { h with faces := ?_ }
  rw [← style.forTerms_summarize]
  exact h.faces

theorem toList_separation (style : Style) (outcome : Outcome) :
    (outcome.separation style).toList = match style.separator with
      | .plusSign => [' ', signChar outcome.value.sign, ' ']
      | .comma => [',', ' '] := by
  rcases hseparator : style.separator
  · rw [separation, hseparator]
    rcases outcome.value.sign <;> decide
  · rw [separation, hseparator]
    change (", ").toList = [',', ' ']
    decide

theorem boundary_separation (style : Style) (outcome : Outcome) (text : List Char) :
    Boundary ((outcome.separation style).toList ++ text) := by
  rw [toList_separation]
  rcases style.separator
  · exact boundary_operator _ text
  · exact .cons (by decide) (by decide)

/-- No separation is taken for the end of the list. -/
theorem separation_append_ne {closing text : List Char} (hclosing : Closing closing)
    (style : Style) (outcome : Outcome) :
    (outcome.separation style).toList ++ text ≠ closing := by
  rw [toList_separation]
  rcases style.separator <;> rcases outcome.value.sign <;> intro h <;>
    rcases hclosing with rfl | ⟨rest, rfl⟩ | ⟨rest, rfl⟩ <;> simp [signChar] at h

theorem signChar_injective {left right : Sign} (h : signChar left = signChar right) :
    left = right := by
  rcases left <;> rcases right
  · rfl
  · exact absurd h (by decide)
  · exact absurd h (by decide)
  · rfl

/-- Between plus signs the separation shows the sign of the value. -/
theorem separation_append_inj {text text' : List Char}
    (h : (left.separation style).toList ++ text = (right.separation style).toList ++ text') :
    (style.separator = .plusSign → left.value.sign = right.value.sign) ∧ text = text' := by
  rw [toList_separation, toList_separation] at h
  rcases hseparator : style.separator
  · simp only [hseparator, List.cons_append, List.nil_append, List.cons.injEq, true_and] at h
    exact ⟨fun _ => signChar_injective h.1, h.2⟩
  · simp only [hseparator] at h
    exact ⟨fun hplus => by simp at hplus, List.append_cancel_left h⟩

/-- An outcome behind another one, with what separates the two. -/
def continuation (style : Style) (outcome : Outcome) : List Char :=
  (outcome.separation style).toList ++ (outcome.render style.forTerms).toList

theorem boundary_continuations {closing : List Char} (hclosing : Closing closing)
    (style : Style) (outcomes : List Outcome) :
    Boundary (outcomes.flatMap (continuation style) ++ closing) := by
  rcases outcomes with _ | ⟨outcome, outcomes⟩
  · exact hclosing.boundary
  · rw [List.flatMap_cons, continuation, List.append_assoc, List.append_assoc]
    exact boundary_separation style outcome _

theorem continuations_append_inj {lefts rights : List Outcome} {closing closing' : List Char}
    (hshown : style.ignoreSign = false) (hlefts : ∀ outcome ∈ lefts, outcome.Fair)
    (hrights : ∀ outcome ∈ rights, outcome.Fair) (hclosing : Closing closing)
    (hclosing' : Closing closing')
    (h : lefts.flatMap (continuation style) ++ closing =
      rights.flatMap (continuation style) ++ closing') :
    List.Forall₂ (Alike style) lefts rights := by
  induction lefts generalizing rights with
  | nil =>
      rcases rights with _ | ⟨right, rights⟩
      · exact .nil
      · rw [List.flatMap_cons, continuation, List.append_assoc, List.append_assoc] at h
        exact absurd h.symm (separation_append_ne hclosing style right)
  | cons left lefts ih =>
      rcases rights with _ | ⟨right, rights⟩
      · rw [List.flatMap_cons, continuation, List.append_assoc, List.append_assoc] at h
        exact absurd h (separation_append_ne hclosing' style left)
      · simp only [List.flatMap_cons, continuation, List.append_assoc] at h
        obtain ⟨hsign, houtcomes⟩ := separation_append_inj h
        obtain ⟨halike, hlater⟩ := render_append_inj (hlefts left List.mem_cons_self)
          (hrights right List.mem_cons_self)
          (fun hignore => hsign ((Style.forTerms_ignoreSign hshown).mp hignore))
          (boundary_continuations hclosing style lefts)
          (boundary_continuations hclosing' style rights) houtcomes
        apply List.Forall₂.cons halike.of_forTerms
        exact ih (fun outcome houtcome => hlefts outcome (List.mem_cons_of_mem left houtcome))
          (fun outcome houtcome => hrights outcome (List.mem_cons_of_mem right houtcome)) hlater

/-- Where signs are left out, the text of an outcome starts with none. -/
theorem Fair.head?_render_append_ne {outcome : Outcome} (h : outcome.Fair)
    (hignore : style.ignoreSign = true) (rest : List Char) :
    ((outcome.render style).toList ++ rest).head? ≠ some '-' := by
  have hheadline : ∀ rest, (headline style outcome ++ rest).head? ≠ some '-' := by
    intro rest
    rw [headline, SignedTerm.toList_render, Style.shownSign, if_pos hignore]
    exact outcome.signed.term.termText_toString.head?_append_ne rest
  obtain ⟨faces, haccounts, _⟩ := h
  rcases hterm : outcome.signed.term with pool | value
  · rw [haccounts.toList_render_of_dice hterm]
    split
    · intro hminus
      exact absurd (Option.some.inj hminus) (by decide)
    · rw [body, List.append_assoc]
      exact hheadline _
  · rw [haccounts.toList_render_of_constant hterm]
    exact hheadline rest

theorem toList_renderAll (style : Style) (first : Outcome) (rest : List Outcome) :
    (renderAll style (first :: rest)).toList = (first.opening style).toList ++
      ((first.render style.forTerms).toList ++ rest.flatMap (continuation style)) := by
  have hjoin : (String.join (rest.map fun outcome =>
      outcome.separation style ++ outcome.render style.forTerms)).toList =
        rest.flatMap (continuation style) := by
    rw [String.toList_join, List.flatMap_map]
    simp only [String.toList_append]
    rfl
  rw [renderAll, String.toList_append, String.toList_append, hjoin, List.append_assoc]

/-- The first outcome shows the sign of its value in front, if the separations show signs. -/
theorem opening_append_inj {text text' : List Char} (hleft : left.Fair) (hright : right.Fair)
    (hshown : style.ignoreSign = false)
    (h : (left.opening style).toList ++ ((left.render style.forTerms).toList ++ text) =
      (right.opening style).toList ++ ((right.render style.forTerms).toList ++ text')) :
    (style.forTerms.ignoreSign = true → left.value.sign = right.value.sign) ∧
      (left.render style.forTerms).toList ++ text =
        (right.render style.forTerms).toList ++ text' := by
  rcases hseparator : style.separator
  · have hignore := (Style.forTerms_ignoreSign hshown).mpr hseparator
    simp only [opening, hseparator] at h
    obtain ⟨hsign, htext⟩ := Sign.leading_append_inj
      (hleft.head?_render_append_ne hignore text)
      (hright.head?_render_append_ne hignore text') h
    exact ⟨fun _ => hsign, htext⟩
  · simp only [opening, hseparator] at h
    refine ⟨?_, List.append_cancel_left h⟩
    intro hignore
    rw [Style.forTerms_ignoreSign hshown, hseparator] at hignore
    simp at hignore

theorem renderAll_append_inj {lefts rights : List Outcome} {closing closing' : List Char}
    (hshown : style.ignoreSign = false) (hlefts : ∀ outcome ∈ lefts, outcome.Fair)
    (hrights : ∀ outcome ∈ rights, outcome.Fair) (hne : lefts ≠ []) (hne' : rights ≠ [])
    (hclosing : Closing closing) (hclosing' : Closing closing')
    (h : (renderAll style lefts).toList ++ closing =
      (renderAll style rights).toList ++ closing') :
    List.Forall₂ (Alike style) lefts rights := by
  obtain ⟨left, lefts, rfl⟩ := List.exists_cons_of_ne_nil hne
  obtain ⟨right, rights, rfl⟩ := List.exists_cons_of_ne_nil hne'
  have hleft := hlefts left List.mem_cons_self
  have hright := hrights right List.mem_cons_self
  simp only [toList_renderAll, List.append_assoc] at h
  obtain ⟨hsign, hfirst⟩ := opening_append_inj hleft hright hshown h
  obtain ⟨halike, hlater⟩ := render_append_inj hleft hright hsign
    (boundary_continuations hclosing style lefts)
    (boundary_continuations hclosing' style rights) hfirst
  apply List.Forall₂.cons halike.of_forTerms
  exact continuations_append_inj hshown
    (fun outcome houtcome => hlefts outcome (List.mem_cons_of_mem left houtcome))
    (fun outcome houtcome => hrights outcome (List.mem_cons_of_mem right houtcome))
    hclosing hclosing' hlater

end Outcome

namespace Style

variable {style : Style}

/-- What stands in front of the outcomes. -/
def before (style : Style) (total : Int) : List Char :=
  (match style.totalPlace with
    | .left => (toString total).toList ++ [' ', '=', ' ']
    | .right | .suppressed => []) ++
    if style.listParentheses then ['('] else []

/-- What stands behind the outcomes. -/
def behind (style : Style) (total : Int) : List Char :=
  (if style.listParentheses then [')'] else []) ++
    match style.totalPlace with
    | .right => [' ', '=', ' '] ++ (toString total).toList
    | .left | .suppressed => []

theorem closing_behind (style : Style) (total : Int) : Closing (style.behind total) := by
  unfold behind
  rcases style.listParentheses
  · rcases style.totalPlace
    · exact .inl rfl
    · exact .inr (.inr ⟨_, rfl⟩)
    · exact .inl rfl
  · exact .inr (.inl ⟨_, rfl⟩)

theorem boundary_equals (text : List Char) : Boundary ([' ', '=', ' '] ++ text) :=
  .cons (by decide) (by decide)

/-- The total in front is told from the outcomes by the blank behind it. -/
theorem before_append_inj {n m : Int} {text text' : List Char}
    (h : style.before n ++ text = style.before m ++ text') : text = text' := by
  rcases hplace : style.totalPlace
  · simp only [before, hplace, List.append_assoc] at h
    obtain ⟨_, hbehind⟩ := integer_append_inj (boundary_equals _) (boundary_equals _) h
    exact List.append_cancel_left (List.append_cancel_left hbehind)
  · simp only [before, hplace] at h
    exact List.append_cancel_left h
  · simp only [before, hplace] at h
    exact List.append_cancel_left h

end Style

namespace Result

variable {style : Style} {result : Result}

theorem toList_render_of_not_bare (h : ¬ result.IsBare) :
    (result.render style).toList = style.before result.total ++
      ((Outcome.renderAll style result.outcomes).toList ++ style.behind result.total) := by
  rw [render, if_neg h, Style.before, Style.behind]
  rcases style.totalPlace <;> rcases style.listParentheses <;>
    simp [toString, String.toList_append]

/-- A list shows a blank, before an arrow or within a separation. -/
theorem blank_mem_render (style : Style) (hfair : ∀ outcome ∈ result.outcomes, outcome.Fair)
    (hne : result.outcomes ≠ []) (h : ¬ result.IsBare) :
    ' ' ∈ (result.render style).toList := by
  obtain ⟨first, rest, houtcomes⟩ := List.exists_cons_of_ne_nil hne
  rw [toList_render_of_not_bare h, houtcomes, Outcome.toList_renderAll]
  rcases rest with _ | ⟨second, rest⟩
  · -- The one outcome has several parts, so it is no constant.
    obtain ⟨faces, haccounts, _⟩ := hfair first (houtcomes ▸ List.mem_cons_self)
    rcases hterm : first.signed.term with pool | value
    · have hbody : ' ' ∈ (first.render style.forTerms).toList := by
        rw [haccounts.toList_render_of_dice hterm]
        split <;> simp [Outcome.body]
      simp [hbody]
    · rw [IsBare, houtcomes] at h
      have hparts : ¬ first.value.parts.length ≤ 1 := h
      rw [(haccounts.of_constant hterm).1] at hparts
      exact absurd (Nat.le_refl 1) hparts
  · have hseparation : ' ' ∈ (second.separation style).toList := by
      rw [Outcome.toList_separation]
      split <;> simp
    simp [Outcome.continuation, hseparation]

/-- A number shows digits and its sign only. -/
theorem not_mem_toString {c : Char} (hdigit : c.isDigit = false) (hminus : c ≠ '-') (n : Int) :
    c ∉ (toString n).toList := by
  intro h
  rw [toList_toString_int, List.mem_append] at h
  rcases h with hsign | hnumber
  · rcases hofInt : Sign.ofInt n
    · rw [hofInt, Expression.toList_leading_plus] at hsign
      simp at hsign
    · rw [hofInt, Expression.toList_leading_minus] at hsign
      simp [hminus] at hsign
  · rw [(numeral_toString n.natAbs).isDigit c hnumber] at hdigit
    simp at hdigit

theorem blank_not_mem_toString (n : Int) : ' ' ∉ (toString n).toList :=
  not_mem_toString (by decide) (by decide) n

/-- Lists of fair outcomes that are rendered alike agree outcome by outcome. -/
theorem alike_of_render_eq {left right : Result} (hshown : style.ignoreSign = false)
    (hlefts : ∀ outcome ∈ left.outcomes, outcome.Fair)
    (hrights : ∀ outcome ∈ right.outcomes, outcome.Fair)
    (hne : left.outcomes ≠ []) (hne' : right.outcomes ≠ [])
    (hbare : ¬ left.IsBare) (hbare' : ¬ right.IsBare)
    (h : left.render style = right.render style) :
    List.Forall₂ (Outcome.Alike style) left.outcomes right.outcomes := by
  have htext := congrArg String.toList h
  rw [toList_render_of_not_bare hbare, toList_render_of_not_bare hbare'] at htext
  exact Outcome.renderAll_append_inj hshown hlefts hrights hne hne'
    (style.closing_behind left.total) (style.closing_behind right.total)
    (Style.before_append_inj htext)

theorem sum_eq_of_alike {lefts rights : List Outcome}
    (h : List.Forall₂ (Outcome.Alike style) lefts rights) :
    (lefts.map fun outcome => outcome.value.amount).sum =
      (rights.map fun outcome => outcome.value.amount).sum := by
  induction h with
  | nil => rfl
  | cons hfirst _ ih => rw [List.map_cons, List.map_cons, List.sum_cons, List.sum_cons,
      hfirst.amount, ih]

/-- Two fair rolls that are rendered alike in a style that shows signs have the same total.
Either both are shown as nothing but that, or both are lists of equally many outcomes that
are alike one by one. -/
theorem render_eq_determines {σ τ : Type} (style : Style) (hshown : style.ignoreSign = false)
    (source : Source σ) (source' : Source τ) (e e' : Expression) (feed last : Feed σ)
    (feed' last' : Feed τ) (left right : Result)
    (hleft : e.evaluate source feed = .ok left last)
    (hright : e'.evaluate source' feed' = .ok right last')
    (hfair : source.FairOn e.requests feed.state)
    (hfair' : source'.FairOn e'.requests feed'.state)
    (h : left.render style = right.render style) :
    left.total = right.total ∧
      (left.IsBare ∧ right.IsBare ∨
        ¬ left.IsBare ∧ ¬ right.IsBare ∧
          List.Forall₂ (Outcome.Alike style) left.outcomes right.outcomes) := by
  have hlefts := Expression.fair_of_evaluate hleft hfair
  have hrights := Expression.fair_of_evaluate hright hfair'
  have hne := Expression.outcomes_ne_nil_of_evaluate hleft
  have hne' := Expression.outcomes_ne_nil_of_evaluate hright
  by_cases hbare : left.IsBare <;> by_cases hbare' : right.IsBare
  · have htext := congrArg String.toList h
    rw [render, render, if_pos hbare, if_pos hbare'] at htext
    have htotal : left.total = right.total :=
      (integer_append_inj .nil .nil (congrArg (· ++ []) htext)).1
    exact ⟨htotal, .inl ⟨hbare, hbare'⟩⟩
  · have hblank := blank_mem_render style hrights hne' hbare'
    rw [← h, render, if_pos hbare] at hblank
    exact absurd hblank (blank_not_mem_toString left.total)
  · have hblank := blank_mem_render style hlefts hne hbare
    rw [h, render, if_pos hbare'] at hblank
    exact absurd hblank (blank_not_mem_toString right.total)
  · have halike := alike_of_render_eq hshown hlefts hrights hne hne' hbare hbare' h
    refine ⟨?_, .inr ⟨hbare, hbare', halike⟩⟩
    rw [Expression.total_of_evaluate hleft, Expression.total_of_evaluate hright,
      sum_eq_of_alike halike]

end Result

/-- `-2d6 + 1d4` and then a zero under the sign. -/
def Expression.withZero (sign : Sign) : Expression where
  first := ⟨.minus, .dice
    ⟨⟨2, (by decide : 2 ≤ 0x7fffffffffffffff)⟩, ⟨6, (by decide : 6 ≤ 0x7fffffffffffffff)⟩,
      by decide⟩⟩
  rest := [
    ⟨.plus, .dice ⟨.one, ⟨4, (by decide : 4 ≤ 0x7fffffffffffffff)⟩, by decide⟩⟩,
    ⟨sign, .constant ⟨0, Nat.zero_le _⟩⟩]

/-- What it comes to with the faces 3, 4 and 2. -/
def Result.rolledWithZero (sign : Sign) : Result where
  outcomes := List.zipWith Outcome.mk (Expression.withZero sign).terms
    [.rolled (-7) (.listed [3, 4]) .minus, .rolled 2 (.listed [2]) .plus, .constant 0]
  total := -5

open Expression in
/-- Without parentheses both are shown as `-2d6 → 3 + 4 + 1d4 → 2 + 0 = -5`: only the sign of
the zero is not told. -/
theorem Result.withZero_render_eq_determines :
    let style : Style := .ofAdjustments [.noDiceParentheses, .totalRight]
    (withZero .plus).evaluate Generator.source ⟨.script [3, 4, 2], #[]⟩ =
        .ok (rolledWithZero .plus) ⟨.script [], #[6, 6, 4]⟩ ∧
      (withZero .minus).evaluate Generator.source ⟨.script [3, 4, 2], #[]⟩ =
        .ok (rolledWithZero .minus) ⟨.script [], #[6, 6, 4]⟩ ∧
      (rolledWithZero .plus).render style = (rolledWithZero .minus).render style ∧
      rolledWithZero .plus ≠ rolledWithZero .minus ∧
      List.Forall₂ (Outcome.Alike style) (rolledWithZero .plus).outcomes
        (rolledWithZero .minus).outcomes := by
  intro style
  have hroll : ∀ sign, (withZero sign).evaluate Generator.source ⟨.script [3, 4, 2], #[]⟩ =
      .ok (rolledWithZero sign) ⟨.script [], #[6, 6, 4]⟩ := by
    intro sign
    rcases sign <;> rfl
  have hfair : ∀ sign, Source.FairOn Generator.source (withZero sign).requests
      (.script [3, 4, 2]) := by
    intro sign
    unfold Source.FairOn
    rcases sign <;> decide
  have hrender : (rolledWithZero .plus).render style = (rolledWithZero .minus).render style := by
    decide +kernel
  obtain ⟨_, ⟨hbare, _⟩ | ⟨_, _, halike⟩⟩ := render_eq_determines style rfl _ _ _ _ _ _ _ _ _ _
    (hroll .plus) (hroll .minus) (hfair .plus) (hfair .minus) hrender
  · exact absurd hbare (by decide)
  · exact ⟨hroll .plus, hroll .minus, hrender, by decide, halike⟩

end TabletopDice
