/-
The numbers that a rendering shows, which are its longest runs of digits.  No piece of the
layout starts with a digit right behind another one that ends in a number, so no numbers are
glued together.  Which numbers there are is told by the outcomes and by whether faces are
summarized, and all that the rest of the style decides is where the total stands.
-/
import TabletopDice.Proofs.VisibleSum

namespace TabletopDice

open Text Tally

def Token.digits? : Token → Option (List Char)
  | .run digits => some digits
  | .mark _ => none

/-- The longest runs of digits in the text, from left to right. -/
def digitRuns (text : List Char) : List (List Char) := (tokens text).filterMap Token.digits?

def numerals (numbers : List Nat) : List (List Char) := numbers.map fun n => (toString n).toList

/-- The number and the sides of dice, or the value of a constant. -/
def Term.numbers : Term → List Nat
  | .dice pool => [pool.count.val, pool.sides.val]
  | .constant value => [value.val]

namespace Outcome

/-- The faces of several dice, unless they are one-sided or summarized; otherwise what the dice
came to. -/
def numbersBehind (summarize : Bool) (pool : Dice) (value : Value) : List Nat :=
  if ¬ pool.OneSided ∧ summarize = false ∧ 1 < pool.count.val then
    value.parts.toList.map Int.natAbs
  else [value.amount.natAbs]

def numbers (summarize : Bool) (outcome : Outcome) : List Nat :=
  outcome.signed.term.numbers ++
    match outcome.signed.term with
    | .dice pool => numbersBehind summarize pool outcome.value
    | .constant _ => []

end Outcome

def Result.numbers (summarize : Bool) (result : Result) : List Nat :=
  result.outcomes.flatMap (Outcome.numbers summarize)

/-- The numbers with the total on the side where the style puts it. -/
def Style.withTotal (style : Style) (total : Int) (numbers : List Nat) : List Nat :=
  match style.totalPlace with
  | .left => total.natAbs :: numbers
  | .right => numbers ++ [total.natAbs]
  | .suppressed => numbers

section

variable {c : Char} {text front back : List Char} {numbers numbers' : List Nat}

/-- No digit at the start of the text continues a number in front of it.  Other than at a
boundary, a `d` and the sides of dice may follow. -/
def Detached (text : List Char) : Prop := ∀ c ∈ text.head?, c.isDigit = false

theorem detached_cons (hc : c.isDigit = false) (text : List Char) : Detached (c :: text) := by
  intro other hother
  obtain rfl := Option.some.inj hother
  exact hc

theorem digitRuns_cons (hc : c.isDigit = false) (text : List Char) :
    digitRuns (c :: text) = digitRuns text := by
  rw [digitRuns, tokens_cons hc]
  rfl

theorem numerals_append (numbers numbers' : List Nat) :
    numerals (numbers ++ numbers') = numerals numbers ++ numerals numbers' :=
  List.map_append

/-- The text shows the numbers, in front of whatever does not continue the last one. -/
def Shows (text : List Char) (numbers : List Nat) : Prop :=
  ∀ rest, Detached rest → digitRuns (text ++ rest) = numerals numbers ++ digitRuns rest

theorem Shows.digitRuns_eq (h : Shows text numbers) : digitRuns text = numerals numbers := by
  have hend := h [] (by simp [Detached])
  rwa [List.append_nil, show digitRuns [] = [] from rfl, List.append_nil] at hend

theorem shows_nil : Shows [] [] := fun _ _ => rfl

theorem shows_natural (n : Nat) : Shows (toString n).toList [n] := by
  intro rest hrest
  rw [digitRuns, tokens_natural n hrest]
  rfl

theorem Shows.cons (hc : c.isDigit = false) (h : Shows text numbers) :
    Shows (c :: text) numbers := by
  intro rest hrest
  rw [List.cons_append, digitRuns_cons hc]
  exact h rest hrest

theorem Shows.append (hfront : Shows front numbers) (hback : Shows back numbers')
    (hdetached : ∀ rest, Detached (back ++ rest)) :
    Shows (front ++ back) (numbers ++ numbers') := by
  intro rest hrest
  rw [List.append_assoc, hfront _ (hdetached rest), hback rest hrest, numerals_append,
    List.append_assoc]

/-- Numbers on both sides of a character that is no digit stay apart. -/
theorem Shows.append_cons (hfront : Shows front numbers) (hc : c.isDigit = false)
    (hback : Shows back numbers') : Shows (front ++ c :: back) (numbers ++ numbers') :=
  hfront.append (hback.cons hc) fun rest => detached_cons hc (back ++ rest)

theorem Shows.append_singleton (h : Shows text numbers) (hc : c.isDigit = false) :
    Shows (text ++ [c]) numbers := by
  rw [← List.append_nil numbers]
  exact h.append_cons hc shows_nil

/-- A mark between blanks, in front of the text. -/
theorem Shows.spaced (h : Shows text numbers) (hc : c.isDigit = false) :
    Shows ([' ', c, ' '] ++ text) numbers :=
  ((h.cons (by decide)).cons hc).cons (by decide)

theorem Shows.append_spaced (hfront : Shows front numbers) (hc : c.isDigit = false)
    (hback : Shows back numbers') :
    Shows (front ++ ([' ', c, ' '] ++ back)) (numbers ++ numbers') :=
  hfront.append (hback.spaced hc) fun _ => detached_cons (by decide) _

/-- Pieces in a row show their numbers one after the other. -/
theorem Shows.append_flatMap {α : Type} {piece : α → List Char} {own : α → List Nat}
    {items : List α} (hfront : Shows front numbers)
    (hpieces : ∀ item ∈ items, Shows (piece item) (own item))
    (hdetached : ∀ item rest, Detached (piece item ++ rest)) :
    Shows (front ++ items.flatMap piece) (numbers ++ items.flatMap own) := by
  induction items generalizing front numbers with
  | nil => simpa using hfront
  | cons item items ih =>
      obtain ⟨hitem, hitems⟩ := List.forall_mem_cons.mp hpieces
      rw [List.flatMap_cons, List.flatMap_cons, ← List.append_assoc, ← List.append_assoc]
      exact ih (hfront.append hitem (hdetached item)) hitems

theorem Shows.leading_append (h : Shows text numbers) (sign : Sign) :
    Shows (sign.leading.toList ++ text) numbers := by
  cases sign with
  | plus =>
      rw [Expression.toList_leading_plus]
      exact h
  | minus =>
      rw [Expression.toList_leading_minus]
      exact h.cons (by decide)

theorem shows_integer (n : Int) : Shows (toString n).toList [n.natAbs] := by
  rw [toList_toString_int]
  exact (shows_natural n.natAbs).leading_append _

theorem Shows.shownSign_append (h : Shows text numbers) (style : Style) (sign : Sign) :
    Shows (style.shownSign sign ++ text) numbers := by
  unfold Style.shownSign
  split
  · exact h
  · exact h.leading_append sign

theorem Style.shows_number (style : Style) (n : Int) :
    Shows (style.number n).toList [n.natAbs] := by
  rw [toList_number]
  exact (shows_natural n.natAbs).shownSign_append style _

theorem Term.shows_toString (term : Term) : Shows (toString term).toList term.numbers := by
  cases term with
  | dice pool =>
      change Shows (toString pool).toList _
      rw [toList_toString_dice]
      exact (shows_natural pool.count.val).append_cons (by decide)
        (shows_natural pool.sides.val)
  | constant value => exact shows_natural value.val

end

namespace Outcome

variable {style : Style} {outcome : Outcome} {faces : List Int} {pool : Dice}

theorem shows_headline (style : Style) (outcome : Outcome) :
    Shows (headline style outcome) outcome.signed.term.numbers := by
  rw [headline, SignedTerm.toList_render]
  exact outcome.signed.term.shows_toString.shownSign_append style _

theorem isDigit_signChar (sign : Sign) : (signChar sign).isDigit = false := by
  cases sign <;> decide

theorem shows_operand (sign : Sign) (n : Int) : Shows (operand sign n) [n.natAbs] :=
  (shows_integer n).spaced (isDigit_signChar sign)

/-- Listed faces show each face once, whatever their sign. -/
theorem shows_listing (sign : Sign) (faces : List Int) :
    Shows (Value.listing sign (.listed faces)).toList (faces.map Int.natAbs) := by
  rcases faces with _ | ⟨face, later⟩
  · rw [toList_listing]
    exact shows_nil.leading_append sign
  · rw [toList_listing_cons, List.map_cons, List.map_eq_flatMap]
    exact ((shows_integer face).append_flatMap (fun n _ => shows_operand sign n)
      fun _ _ => detached_cons (by decide) _).leading_append sign

theorem Accounts.shows_realised (h : outcome.Accounts faces)
    (hterm : outcome.signed.term = .dice pool) :
    Shows (realised style pool outcome.value).toList
      (numbersBehind style.summarize pool outcome.value) := by
  by_cases hlists : Lists style pool
  · have hvalue := (h.of_drawn hterm hlists.1).1
    have hnumbers : numbersBehind style.summarize pool outcome.value =
        faces.map Int.natAbs := by
      rw [hvalue]
      exact if_pos hlists
    rw [h.realised_of_lists hterm hlists, hnumbers]
    exact shows_listing _ faces
  · have hnumbers : numbersBehind style.summarize pool outcome.value =
        [outcome.value.amount.natAbs] := if_neg hlists
    rw [h.realised_of_not_lists hterm hlists, hnumbers]
    exact style.shows_number _

/-- An outcome shows the same numbers in every layout. -/
theorem Accounts.shows_render (h : outcome.Accounts faces) (style : Style) :
    Shows (outcome.render style).toList (outcome.numbers style.summarize) := by
  have hheadline := shows_headline style outcome
  rcases hterm : outcome.signed.term with pool | value
  · have hnumbers : outcome.numbers style.summarize = outcome.signed.term.numbers ++
        numbersBehind style.summarize pool outcome.value := by
      rw [numbers, hterm]
    have hbody : Shows (body style pool outcome) (outcome.numbers style.summarize) := by
      rw [hnumbers]
      exact hheadline.append_spaced (by decide) (h.shows_realised hterm)
    rw [h.toList_render_of_dice hterm]
    split
    · exact (hbody.append_singleton (by decide)).cons (by decide)
    · exact hbody
  · have hnumbers : outcome.numbers style.summarize = outcome.signed.term.numbers := by
      rw [numbers, hterm]
      exact List.append_nil _
    rw [h.toList_render_of_constant hterm, hnumbers]
    exact hheadline

theorem Accounts.shows_forTerms (h : outcome.Accounts faces) (style : Style) :
    Shows (outcome.render style.forTerms).toList (outcome.numbers style.summarize) := by
  rw [← style.forTerms_summarize]
  exact h.shows_render style.forTerms

theorem Accounts.shows_continuation (h : outcome.Accounts faces) (style : Style) :
    Shows (continuation style outcome) (outcome.numbers style.summarize) := by
  rw [continuation, toList_separation]
  rcases style.separator
  · exact (h.shows_forTerms style).spaced (isDigit_signChar _)
  · exact ((h.shows_forTerms style).cons (by decide)).cons (by decide)

theorem Accounts.shows_first (h : outcome.Accounts faces) (style : Style) :
    Shows ((outcome.opening style).toList ++ (outcome.render style.forTerms).toList)
      (outcome.numbers style.summarize) := by
  rw [opening]
  rcases style.separator
  · exact (h.shows_forTerms style).leading_append _
  · exact h.shows_forTerms style

theorem shows_renderAll (style : Style) {outcomes : List Outcome}
    (h : ∀ outcome ∈ outcomes, ∃ faces, outcome.Accounts faces) :
    Shows (renderAll style outcomes).toList (outcomes.flatMap (numbers style.summarize)) := by
  rcases outcomes with _ | ⟨first, later⟩
  · exact shows_nil
  · obtain ⟨⟨faces, hfirst⟩, hlater⟩ := List.forall_mem_cons.mp h
    rw [toList_renderAll, ← List.append_assoc, List.flatMap_cons]
    apply (hfirst.shows_first style).append_flatMap
    · intro outcome houtcome
      obtain ⟨_, haccounts⟩ := hlater outcome houtcome
      exact haccounts.shows_continuation style
    · intro outcome rest
      rw [continuation, List.append_assoc]
      exact (boundary_separation style outcome _).1

theorem exists_accounts {outcomes : List Outcome} {shares : List (List Int)}
    (h : List.Forall₂ Accounts outcomes shares) :
    ∀ outcome ∈ outcomes, ∃ faces, outcome.Accounts faces := by
  induction h with
  | nil => simp
  | cons hfirst _ ih => exact List.forall_mem_cons.mpr ⟨⟨_, hfirst⟩, ih⟩

end Outcome

/-- A list shows its numbers also inside its parentheses, and the total stands beside them. -/
theorem Style.shows_list (style : Style) (total : Int) {list : List Char} {numbers : List Nat}
    (h : Shows list numbers) :
    Shows (style.before total ++ (list ++ style.behind total))
      (style.withTotal total numbers) := by
  have htotal := shows_integer total
  have hlist : Shows (style.openList ++ (list ++ style.closeList)) numbers := by
    unfold openList closeList
    split
    · exact (h.append_singleton (by decide)).cons (by decide)
    · rw [List.append_nil]
      exact h
  rw [before_append_behind, withTotal]
  rcases style.totalPlace
  · exact htotal.append_spaced (by decide) hlist
  · exact hlist.append_spaced (by decide) htotal
  · exact hlist

namespace Result

variable {result : Result}

theorem digitRuns_render_of_not_bare (style : Style)
    (h : ∀ outcome ∈ result.outcomes, ∃ faces, outcome.Accounts faces)
    (hbare : ¬ result.IsBare) :
    digitRuns (result.render style).toList =
      numerals (style.withTotal result.total (result.numbers style.summarize)) := by
  rw [toList_render_of_not_bare hbare]
  exact (style.shows_list result.total (Outcome.shows_renderAll style h)).digitRuns_eq

/-- Styles that agree in whether faces are summarized show the same numbers in the same order,
each with the number of the total on its own side or without it.  A bare total looks the same
in all styles. -/
theorem digitRuns_render {σ : Type} (left right : Style)
    (hsummarize : left.summarize = right.summarize) (source : Source σ) (e : Expression)
    (feed last : Feed σ) (result : Result)
    (hroll : e.evaluate source feed = .ok result last) :
    (result.IsBare → result.render left = result.render right) ∧
    (¬ result.IsBare →
      digitRuns (result.render left).toList =
        numerals (left.withTotal result.total (result.numbers left.summarize)) ∧
      digitRuns (result.render right).toList =
        numerals (right.withTotal result.total (result.numbers left.summarize))) := by
  obtain ⟨_, _, hshares⟩ := Expression.exists_shares_of_evaluate hroll
  have haccounts := Outcome.exists_accounts hshares
  constructor
  · intro hbare
    rw [render, render, if_pos hbare, if_pos hbare]
  · intro hbare
    refine ⟨digitRuns_render_of_not_bare left haccounts hbare, ?_⟩
    rw [hsummarize]
    exact digitRuns_render_of_not_bare right haccounts hbare

/-- The signs move, the parentheses and the total change places, and the numbers stay. -/
theorem rolledWithZero_digitRuns_render :
    let left : Style := .ofAdjustments [.totalLeft, .commas]
    let right : Style := .ofAdjustments [.totalRight, .noDiceParentheses, .listParentheses]
    (Expression.withZero .plus).evaluate Generator.source ⟨.script [3, 4, 2], #[]⟩ =
        .ok (rolledWithZero .plus) ⟨.script [], #[6, 6, 4]⟩ ∧
      (rolledWithZero .plus).render left = "-5 = (-2d6 → -3 - 4), (1d4 → 2), 0" ∧
      (rolledWithZero .plus).render right = "(-2d6 → 3 + 4 + 1d4 → 2 + 0) = -5" ∧
      digitRuns ((rolledWithZero .plus).render left).toList =
        numerals [5, 2, 6, 3, 4, 1, 4, 2, 0] ∧
      digitRuns ((rolledWithZero .plus).render right).toList =
        numerals [2, 6, 3, 4, 1, 4, 2, 0, 5] := by
  intro left right
  have hroll : (Expression.withZero .plus).evaluate Generator.source ⟨.script [3, 4, 2], #[]⟩ =
      .ok (rolledWithZero .plus) ⟨.script [], #[6, 6, 4]⟩ := rfl
  obtain ⟨hleft, hright⟩ :=
    (digitRuns_render left right rfl _ _ _ _ _ hroll).2 (by decide)
  exact ⟨hroll, by decide +kernel, by decide +kernel, hleft, hright⟩

end Result

end TabletopDice
