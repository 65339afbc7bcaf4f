/-
Rolls on different sources.  A roll touches the feed of its own source and no other, so what
is answered to the rolls on one source is what their expressions come to when they are rolled
one after another on its feed.  Rolls on other sources may come in between, in any order, or not
at all.
-/
import Mathlib.Logic.Relation
import TabletopDice.Proofs.Admission
import TabletopDice.Proofs.History

namespace TabletopDice

variable {κ σ : Type}

/-- The roll that a step makes behind the steps done before, if it makes one. -/
def rollMade? (key : κ) (before : List (Step κ)) : Step κ → Option (BoundRoll κ)
  | .roll index => (boundRolls key before)[index]?
  | _ => none

/-- For each of the steps, done in order behind others, the roll that it makes. -/
def rollsMade (key : κ) (before : List (Step κ)) : List (Step κ) → List (Option (BoundRoll κ))
  | [] => []
  | next :: rest => rollMade? key before next :: rollsMade key (before ++ [next]) rest

/-- What a roll of the expression answers on a feed. -/
def Expression.answer (source : Source σ) (e : Expression) (feed : Feed σ) :
    Except Fault StepReply :=
  match e.evaluate source feed with
  | .ok result _ => .ok (.rolled result)
  | .error fault _ => .error fault

/-- The answers to expressions that are rolled one after another on one feed, and the feed that
is left.  A roll that fails keeps the faces it has drawn. -/
def rollInTurn (source : Source σ) (feed : Feed σ) :
    List Expression → List (Except Fault StepReply) × Feed σ
  | [] => ([], feed)
  | e :: rest =>
    let (answers, last) := rollInTurn source (finalFeed (e.evaluate source feed)) rest
    (e.answer source feed :: answers, last)

section

variable [DecidableEq κ]

/-- The expression of a roll on the given source. -/
def BoundRoll.on? (own : κ) (bound : BoundRoll κ) : Option Expression :=
  if bound.source = own then some bound.expression else none

/-- The expressions that are rolled on a source, in order. -/
def expressionsOn (own : κ) (made : List (Option (BoundRoll κ))) : List Expression :=
  made.filterMap fun roll => roll.bind (BoundRoll.on? own)

/-- The answers to the rolls on a source, in order. -/
def answersOn (own : κ) (made : List (Option (BoundRoll κ))) (reports : List Workbench.Report) :
    List (Except Fault StepReply) :=
  (made.zip reports).filterMap fun entry =>
    (entry.1.bind (BoundRoll.on? own)).map fun _ => entry.2.reply

/-- The steps without the rolls on other sources. -/
def withoutOthers (key own : κ) (before : List (Step κ)) : List (Step κ) → List (Step κ)
  | [] => []
  | next :: rest =>
    if (rollMade? key before next).any (·.source ≠ own) then
      withoutOthers key own (before ++ [next]) rest
    else next :: withoutOthers key own (before ++ [next]) rest

end

/-- A roll and the step behind it have changed places.  The roll was bound before both of them,
and the other step does not roll on its source. -/
inductive Swapped [DecidableEq κ] (key : κ) : List (Step κ) → List (Step κ) → Prop
  | intro {before later : List (Step κ)} {index : Nat} {bound : BoundRoll κ} {next : Step κ}
      (hbound : (boundRolls key before)[index]? = some bound)
      (hother : (rollMade? key before next).bind (BoundRoll.on? bound.source) = none) :
      Swapped key (before ++ .roll index :: next :: later)
        (before ++ next :: .roll index :: later)

/-- Rolls have been moved past steps that do not roll on their sources. -/
def Reordered [DecidableEq κ] (key : κ) : List (Step κ) → List (Step κ) → Prop :=
  Relation.EqvGen (Swapped key)

/-- Two histories behind which every step does the same. -/
structure SameBindings (key : κ) (left right : List (Step κ)) : Prop where
  expression : lastExpression left = lastExpression right
  source : lastSource key left = lastSource key right
  rolls : boundRolls key left = boundRolls key right

section

variable {key own : κ} {before left right steps : List (Step κ)} {next : Step κ}
  {index : Nat} {bound : BoundRoll κ}

theorem SameBindings.refl (key : κ) (history : List (Step κ)) :
    SameBindings key history history :=
  ⟨rfl, rfl, rfl⟩

theorem SameBindings.symm (h : SameBindings key left right) : SameBindings key right left :=
  ⟨h.expression.symm, h.source.symm, h.rolls.symm⟩

theorem SameBindings.trans {middle : List (Step κ)} (h : SameBindings key left middle)
    (h' : SameBindings key middle right) : SameBindings key left right :=
  ⟨h.expression.trans h'.expression, h.source.trans h'.source, h.rolls.trans h'.rolls⟩

theorem SameBindings.boundAt?_eq (h : SameBindings key left right) (next : Step κ) :
    boundAt? key (left ++ [next]) left.length = boundAt? key (right ++ [next]) right.length := by
  by_cases hnext : next = .finalize
  · rw [hnext, boundAt?_length_of_finalize, boundAt?_length_of_finalize, currentRoll?,
      currentRoll?, h.expression, h.source]
  · rw [boundAt?_length_of_ne_finalize hnext, boundAt?_length_of_ne_finalize hnext]

theorem SameBindings.snoc (h : SameBindings key left right) (next : Step κ) :
    SameBindings key (left ++ [next]) (right ++ [next]) where
  expression := by rw [lastExpression_snoc, lastExpression_snoc, h.expression]
  source := by rw [lastSource_snoc, lastSource_snoc, h.source]
  rolls := by rw [boundRolls_snoc, boundRolls_snoc, h.rolls, h.boundAt?_eq]

/-- A roll binds nothing. -/
theorem sameBindings_roll (key : κ) (history : List (Step κ)) (index : Nat) :
    SameBindings key (history ++ [.roll index]) history where
  expression := lastExpression_snoc history _
  source := lastSource_snoc key history _
  rolls := by
    rw [boundRolls_snoc, boundAt?_length_of_ne_finalize (by simp), Option.toList_none,
      List.append_nil]

theorem SameBindings.rollMade?_eq (h : SameBindings key left right) (next : Step κ) :
    rollMade? key left next = rollMade? key right next := by
  cases next with
  | roll index => rw [rollMade?, rollMade?, h.rolls]
  | expression | source | finalize => rfl

theorem SameBindings.rollsMade_eq (h : SameBindings key left right) (steps : List (Step κ)) :
    rollsMade key left steps = rollsMade key right steps := by
  induction steps generalizing left right with
  | nil => rfl
  | cons next rest ih => rw [rollsMade, rollsMade, h.rollMade?_eq, ih (h.snoc next)]

theorem rollsMade_append (key : κ) (before first second : List (Step κ)) :
    rollsMade key before (first ++ second) =
      rollsMade key before first ++ rollsMade key (before ++ first) second := by
  induction first generalizing before with
  | nil => rw [rollsMade, List.append_nil, List.nil_append, List.nil_append]
  | cons next rest ih =>
      rw [List.cons_append, rollsMade, ih, rollsMade, List.append_assoc, List.singleton_append,
        List.cons_append]

/-- What was bound stays bound under its index. -/
theorem rollMade?_snoc_of_some (h : (boundRolls key before)[index]? = some bound)
    (next : Step κ) : rollMade? key (before ++ [next]) (.roll index) = some bound := by
  obtain ⟨hindex, _⟩ := List.getElem?_eq_some_iff.mp h
  rw [rollMade?, boundRolls_snoc, List.getElem?_append_left hindex, h]

/-- Only a roll is made by a step that makes a roll. -/
theorem exists_index_of_rollMade? (h : rollMade? key before next = some bound) :
    ∃ index, next = .roll index ∧ (boundRolls key before)[index]? = some bound := by
  cases next with
  | roll index => exact ⟨index, rfl, h⟩
  | expression | source | finalize => cases h

variable [DecidableEq κ] {made : Option (BoundRoll κ)} {rolls : List (Option (BoundRoll κ))}
  {report : Workbench.Report} {reports : List Workbench.Report} {e : Expression}

theorem expressionsOn_cons_of_none (h : made.bind (BoundRoll.on? own) = none) :
    expressionsOn own (made :: rolls) = expressionsOn own rolls := by
  rw [expressionsOn, List.filterMap_cons, h, expressionsOn]

theorem expressionsOn_cons_of_some (h : made.bind (BoundRoll.on? own) = some e) :
    expressionsOn own (made :: rolls) = e :: expressionsOn own rolls := by
  rw [expressionsOn, List.filterMap_cons, h, expressionsOn]

theorem expressionsOn_append (own : κ) (first second : List (Option (BoundRoll κ))) :
    expressionsOn own (first ++ second) = expressionsOn own first ++ expressionsOn own second :=
  List.filterMap_append

/-- What is not rolled on the source may stand anywhere. -/
theorem expressionsOn_swap (h : made.bind (BoundRoll.on? own) = none)
    (other : Option (BoundRoll κ)) :
    expressionsOn own (other :: made :: rolls) = expressionsOn own (made :: other :: rolls) := by
  rw [expressionsOn_cons_of_none h]
  rcases hother : other.bind (BoundRoll.on? own) with _ | e
  · rw [expressionsOn_cons_of_none hother, expressionsOn_cons_of_none hother,
      expressionsOn_cons_of_none h]
  · rw [expressionsOn_cons_of_some hother, expressionsOn_cons_of_some hother,
      expressionsOn_cons_of_none h]

theorem answersOn_cons_of_none (h : made.bind (BoundRoll.on? own) = none) :
    answersOn own (made :: rolls) (report :: reports) = answersOn own rolls reports := by
  rw [answersOn, List.zip_cons_cons, List.filterMap_cons, h, answersOn]
  rfl

theorem answersOn_cons_of_some (h : made.bind (BoundRoll.on? own) = some e) :
    answersOn own (made :: rolls) (report :: reports) =
      report.reply :: answersOn own rolls reports := by
  rw [answersOn, List.zip_cons_cons, List.filterMap_cons, h, answersOn]
  rfl

/-- Exchanging a roll with a step that does not roll on its source leaves the order of the rolls
on every source as it is. -/
theorem Swapped.expressionsOn_eq (h : Swapped key left right) (own : κ) :
    expressionsOn own (rollsMade key [] left) = expressionsOn own (rollsMade key [] right) := by
  obtain ⟨hbound, hother⟩ := h
  rename_i before later index bound next
  have hroll : rollMade? key before (.roll index) = some bound := hbound
  have hnext : rollMade? key (before ++ [.roll index]) next = rollMade? key before next :=
    (sameBindings_roll key before index).rollMade?_eq next
  have hlater : rollsMade key (before ++ [.roll index] ++ [next]) later =
      rollsMade key (before ++ [next] ++ [.roll index]) later :=
    (((sameBindings_roll key before index).snoc next).trans
      (sameBindings_roll key (before ++ [next]) index).symm).rollsMade_eq later
  rw [rollsMade_append, rollsMade_append, List.nil_append]
  simp only [rollsMade, hroll, hnext, hlater, rollMade?_snoc_of_some hbound next]
  rw [expressionsOn_append, expressionsOn_append]
  by_cases hown : bound.source = own
  · rw [hown] at hother
    rw [expressionsOn_swap hother]
  · have hnot : (some bound).bind (BoundRoll.on? own) = none := if_neg hown
    rw [← expressionsOn_swap hnot]

theorem Reordered.expressionsOn_eq (h : Reordered key left right) (own : κ) :
    expressionsOn own (rollsMade key [] left) = expressionsOn own (rollsMade key [] right) := by
  induction h with
  | rel _ _ hswapped => exact hswapped.expressionsOn_eq own
  | refl _ => rfl
  | symm _ _ _ ih => exact ih.symm
  | trans _ _ _ _ _ ih ih' => exact ih.trans ih'

/-- Rolls on other sources bind nothing and are not rolled on the own one. -/
theorem SameBindings.expressionsOn_withoutOthers (h : SameBindings key left right) (own : κ)
    (steps : List (Step κ)) :
    expressionsOn own (rollsMade key left (withoutOthers key own right steps)) =
      expressionsOn own (rollsMade key right steps) := by
  induction steps generalizing left right with
  | nil => rfl
  | cons next rest ih =>
      rw [withoutOthers]
      split
      · rename_i hany
        obtain ⟨bound, hmade, hsource⟩ := (Option.any_eq_true _ _).mp hany
        obtain ⟨index, rfl, hbound⟩ := exists_index_of_rollMade? hmade
        have hother : (rollMade? key right (.roll index)).bind (BoundRoll.on? own) = none := by
          rw [hmade, Option.bind_some, BoundRoll.on?, if_neg (of_decide_eq_true hsource)]
        rw [ih (h.trans (sameBindings_roll key right index).symm), rollsMade,
          expressionsOn_cons_of_none hother]
      · have hrest := ih (h.snoc next)
        rw [rollsMade, rollsMade, h.rollMade?_eq]
        rcases hroll : (rollMade? key right next).bind (BoundRoll.on? own) with _ | e
        · rw [expressionsOn_cons_of_none hroll, expressionsOn_cons_of_none hroll, hrest]
        · rw [expressionsOn_cons_of_some hroll, expressionsOn_cons_of_some hroll, hrest]

end

namespace Workbench

variable [DecidableEq κ] {source : Source σ} {bench : Workbench κ σ} {key own : κ}
  {before : List (Step κ)} {next : Step κ} {bound : BoundRoll κ} {e : Expression}

theorem ended_evaluate (bench : Workbench κ σ) (own : κ) (source : Source σ) (e : Expression)
    (feed : Feed σ) :
    bench.ended own (e.evaluate source feed) =
      (e.answer source feed, bench.setFeed own (finalFeed (e.evaluate source feed))) := by
  rw [Expression.answer]
  rcases e.evaluate source feed <;> rfl

/-- A step that makes no roll on a source does not touch its feed. -/
theorem Remembers.feeds_step_of_not_on (h : bench.Remembers key before) (source : Source σ)
    (hnone : (rollMade? key before next).bind (BoundRoll.on? own) = none) :
    (bench.step source next).2.feeds own = bench.feeds own := by
  cases next with
  | roll index =>
      rcases hbound : (boundRolls key before)[index]? with _ | bound
      · rw [Workbench.step, h.rolls, hbound]
      · rw [rollMade?, hbound, Option.bind_some, BoundRoll.on?] at hnone
        have hother : own ≠ bound.source := by
          rintro rfl
          simp at hnone
        rw [← h.rolls] at hbound
        rw [step_roll hbound, ended_evaluate]
        exact if_neg hother
  | expression | source | finalize => rw [feeds_step_of_ne_roll (by simp)]

/-- A step that rolls on a source answers what its expression comes to on the feed of that
source, and leaves the feed on which this ends. -/
theorem Remembers.step_of_on (h : bench.Remembers key before) (source : Source σ)
    (hsome : (rollMade? key before next).bind (BoundRoll.on? own) = some e) :
    (bench.step source next).1 = e.answer source (bench.feeds own) ∧
      (bench.step source next).2.feeds own = finalFeed (e.evaluate source (bench.feeds own)) := by
  obtain ⟨bound, hmade, hon⟩ := Option.bind_eq_some_iff.mp hsome
  obtain ⟨index, rfl, hbound⟩ := exists_index_of_rollMade? hmade
  rw [BoundRoll.on?] at hon
  split at hon
  · rename_i hsource
    obtain rfl := Option.some.inj hon
    rw [← h.rolls] at hbound
    rw [step_roll hbound, ended_evaluate, hsource]
    exact ⟨rfl, if_pos rfl⟩
  · cases hon

/-- What the rolls on a source come to in a run is what their expressions come to in turn. -/
theorem Remembers.run_eq_rollInTurn (h : bench.Remembers key before) (source : Source σ)
    (own : κ) (steps : List (Step κ)) :
    (answersOn own (rollsMade key before steps) (bench.run source steps).1,
        (bench.run source steps).2.feeds own) =
      rollInTurn source (bench.feeds own) (expressionsOn own (rollsMade key before steps)) := by
  induction steps generalizing bench before with
  | nil => rfl
  | cons next rest ih =>
      have hrest := ih (h.step source next)
      rcases hroll : (rollMade? key before next).bind (BoundRoll.on? own) with _ | e
      · rw [h.feeds_step_of_not_on source hroll] at hrest
        rw [rollsMade, Workbench.run, answersOn_cons_of_none hroll,
          expressionsOn_cons_of_none hroll]
        exact hrest
      · obtain ⟨hreply, hfeed⟩ := h.step_of_on source hroll
        rw [hfeed] at hrest
        rw [rollsMade, Workbench.run, answersOn_cons_of_some hroll,
          expressionsOn_cons_of_some hroll, rollInTurn, ← hrest, ← hreply]

/-- What is seen of a run from one source: the answers to the rolls on it, and its feed with all
requests in the end. -/
def seenOn (source : Source σ) (key own : κ) (feeds : κ → Feed σ) (history : List (Step κ)) :
    List (Except Fault StepReply) × Feed σ :=
  let (reports, bench) := (start key feeds).run source history
  (answersOn own (rollsMade key [] history) reports, bench.feeds own)

theorem seenOn_eq_rollInTurn (source : Source σ) (key own : κ) (feeds : κ → Feed σ)
    (history : List (Step κ)) :
    seenOn source key own feeds history =
      rollInTurn source (feeds own) (expressionsOn own (rollsMade key [] history)) :=
  (remembers_start key feeds).run_eq_rollInTurn source own history

/-- What is seen of a run from one source is told by the feed of this source and by the
expressions that are rolled on it, in their order: it is what they come to when nothing else is
done.  So it makes no difference if rolls are moved past steps that do not roll on their sources,
or if all rolls on other sources are left out. -/
theorem rolls_on_sources_independent (source : Source σ) (key own : κ) (feeds : κ → Feed σ)
    (history : List (Step κ)) :
    seenOn source key own feeds history =
      rollInTurn source (feeds own) (expressionsOn own (rollsMade key [] history)) ∧
    (∀ reordered, Reordered key history reordered →
      seenOn source key own feeds reordered = seenOn source key own feeds history) ∧
    seenOn source key own feeds (withoutOthers key own [] history) =
      seenOn source key own feeds history := by
  refine ⟨seenOn_eq_rollInTurn source key own feeds history, ?_, ?_⟩
  · intro reordered hreordered
    rw [seenOn_eq_rollInTurn, seenOn_eq_rollInTurn, hreordered.expressionsOn_eq own]
  · rw [seenOn_eq_rollInTurn, seenOn_eq_rollInTurn,
      (SameBindings.refl key []).expressionsOn_withoutOthers own history]

/-- Two dice are finalized on one source and a die under a minus on another one. -/
def twoSources (rolls : List (Step Bool)) : List (Step Bool) :=
  [.expression (.entries [[2, 4]]), .finalize, .source true, .expression (.entries [[-1, 6]]),
    .finalize] ++ rolls

/-- The two dice show a one and a two, and then there is one face left of the script.  The other
die may be rolled in between, before or not at all. -/
theorem twoSources_rolls_independent :
    let seen := fun rolls =>
      seenOn Generator.source false false rebuiltFeeds (twoSources rolls)
    let onScript : List (Except Fault StepReply) × Feed Generator :=
      ([.ok (.rolled ⟨[⟨⟨.plus, .dice ⟨⟨2, by decide⟩, ⟨4, by decide⟩, by decide⟩⟩,
          .rolled 3 (.listed [1, 2]) .plus⟩], 3⟩), .error (.source Generator.exhausted)],
        ⟨.script [], #[4, 4, 4, 4]⟩)
    seen [.roll 0, .roll 1, .roll 0] = onScript ∧ seen [.roll 1, .roll 0, .roll 0] = onScript ∧
      seen [.roll 0, .roll 0] = onScript := by
  intro seen onScript
  obtain ⟨hseen, hreordered, hwithout⟩ := rolls_on_sources_independent Generator.source false
    false rebuiltFeeds (twoSources [.roll 0, .roll 1, .roll 0])
  have hbetween : seen [.roll 0, .roll 1, .roll 0] = onScript := hseen.trans rfl
  have hswapped : Swapped false (twoSources [.roll 0, .roll 1, .roll 0])
      (twoSources [.roll 1, .roll 0, .roll 0]) :=
    @Swapped.intro _ _ false (twoSources []) [.roll 0] 0 _ (.roll 1) rfl rfl
  exact ⟨hbetween, (hreordered _ (.rel _ _ hswapped)).trans hbetween, hwithout.trans hbetween⟩

end Workbench

end TabletopDice
