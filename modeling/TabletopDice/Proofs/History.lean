/-
The history of a workbench.  What is current is told by the steps done so far: the last
expression that could be read and the last source that was named.  A finalized roll is told
by the steps before it was finalized, so nothing that is done later changes it.
-/
import Mathlib.Data.List.Basic
import TabletopDice.Builder
import TabletopDice.Source.Generator

namespace TabletopDice

variable {κ σ : Type} {key : κ}

/-- The expression that the step hands over, if it can be read. -/
def Step.expression? : Step κ → Option Expression
  | .expression form => form.read.toOption
  | _ => none

/-- The key that the step hands over. -/
def Step.source? : Step κ → Option κ
  | .source key => some key
  | _ => none

/-- The expression that was handed over last, those that cannot be read left out. -/
def lastExpression (history : List (Step κ)) : Option Expression :=
  (history.filterMap Step.expression?).getLast?

/-- The key that was handed over last, or else the one to start with. -/
def lastSource (key : κ) (history : List (Step κ)) : κ :=
  (history.filterMap Step.source?).getLast?.getD key

/-- What a finalizing step behind the history binds. -/
def currentRoll? (key : κ) (history : List (Step κ)) : Option (BoundRoll κ) :=
  (lastExpression history).map (⟨·, lastSource key history⟩)

/-- What the `n`-th step binds, if it is a finalizing one that succeeds. -/
def boundAt? (key : κ) (history : List (Step κ)) (n : Nat) : Option (BoundRoll κ) :=
  match history[n]? with
  | some .finalize => currentRoll? key (history.take n)
  | _ => none

/-- The rolls that have been bound, in the order of the steps that bound them. -/
def boundRolls (key : κ) (history : List (Step κ)) : List (BoundRoll κ) :=
  (List.range history.length).filterMap (boundAt? key history)

variable {history : List (Step κ)} {next : Step κ}

theorem lastExpression_snoc (history : List (Step κ)) (next : Step κ) :
    lastExpression (history ++ [next]) = next.expression?.or (lastExpression history) := by
  rw [lastExpression, List.filterMap_append, lastExpression]
  rcases hnext : next.expression? with _ | e <;> simp [hnext]

theorem lastSource_snoc (key : κ) (history : List (Step κ)) (next : Step κ) :
    lastSource key (history ++ [next]) = next.source?.getD (lastSource key history) := by
  rw [lastSource, List.filterMap_append, lastSource]
  rcases hnext : next.source? with _ | other <;> simp [hnext]

/-- A step that is done later makes no difference to what was bound before. -/
theorem boundAt?_snoc {n : Nat} (hn : n < history.length) :
    boundAt? key (history ++ [next]) n = boundAt? key history n := by
  rw [boundAt?, List.getElem?_append_left hn,
    List.take_append_of_le_length (Nat.le_of_lt hn), boundAt?]

theorem boundRolls_snoc (key : κ) (history : List (Step κ)) (next : Step κ) :
    boundRolls key (history ++ [next]) =
      boundRolls key history ++ (boundAt? key (history ++ [next]) history.length).toList := by
  have hearlier : (List.range history.length).filterMap (boundAt? key (history ++ [next])) =
      boundRolls key history := by
    apply List.filterMap_congr
    intro n hn
    exact boundAt?_snoc (List.mem_range.mp hn)
  rw [boundRolls, List.length_append, List.length_singleton, List.range_succ,
    List.filterMap_append, hearlier]
  rcases hbound : boundAt? key (history ++ [next]) history.length with _ | bound <;>
    simp [hbound]

theorem lastExpression_eq_none_iff :
    lastExpression history = none ↔
      ¬ ∃ form e, Step.expression form ∈ history ∧ form.read = .ok e := by
  rw [lastExpression, List.getLast?_eq_none_iff, List.filterMap_eq_nil_iff]
  constructor
  · rintro h ⟨form, e, hform, hread⟩
    have hnone := h _ hform
    simp [Step.expression?, hread, Except.toOption] at hnone
  · intro h next hnext
    rcases next with form | key | _ | index
    · rcases hread : form.read with fault | e
      · simp [Step.expression?, hread, Except.toOption]
      · exact absurd ⟨form, e, hnext, hread⟩ h
    all_goals rfl

theorem boundAt?_length_of_finalize (key : κ) (history : List (Step κ)) :
    boundAt? key (history ++ [.finalize]) history.length = currentRoll? key history := by
  simp [boundAt?]

theorem boundAt?_length_of_ne_finalize (hnext : next ≠ .finalize) :
    boundAt? key (history ++ [next]) history.length = none := by
  rw [boundAt?, List.getElem?_concat_length]
  rcases next with form | other | _ | index
  · rfl
  · rfl
  · exact absurd rfl hnext
  · rfl

namespace Workbench

variable {bench : Workbench κ σ}

/-- The builder and the rolls are those that the history tells. -/
structure Remembers (key : κ) (history : List (Step κ)) (bench : Workbench κ σ) : Prop where
  expression : bench.builder.expression = lastExpression history
  source : bench.builder.source = lastSource key history
  rolls : bench.rolls = boundRolls key history

theorem remembers_start (key : κ) (feeds : κ → Feed σ) : (start key feeds).Remembers key [] :=
  ⟨rfl, rfl, rfl⟩

theorem Remembers.currentRoll?_eq (h : bench.Remembers key history) :
    currentRoll? key history =
      bench.builder.expression.map (⟨·, bench.builder.source⟩) := by
  rw [currentRoll?, h.expression, h.source]

/-- It is enough that a step changes each part as it adds to the history. -/
theorem Remembers.snoc {after : Workbench κ σ} (h : bench.Remembers key history)
    (hexpression : after.builder.expression = next.expression?.or bench.builder.expression)
    (hsource : after.builder.source = next.source?.getD bench.builder.source)
    (hrolls : after.rolls =
      bench.rolls ++ (boundAt? key (history ++ [next]) history.length).toList) :
    after.Remembers key (history ++ [next]) where
  expression := by rw [lastExpression_snoc, hexpression, h.expression]
  source := by rw [lastSource_snoc, hsource, h.source]
  rolls := by rw [boundRolls_snoc, hrolls, h.rolls]

variable [DecidableEq κ] {source : Source σ}

/-- A roll answers what its evaluation comes to, and the feed on which that ends takes the
place of the one on which it began. -/
def ended (bench : Workbench κ σ) (key : κ) :
    EStateM.Result Fault (Feed σ) Result → Except Fault StepReply × Workbench κ σ
  | .ok result feed => (.ok (.rolled result), bench.setFeed key feed)
  | .error fault feed => (.error fault, bench.setFeed key feed)

theorem builder_ended (bench : Workbench κ σ) (key : κ)
    (ending : EStateM.Result Fault (Feed σ) Result) :
    (bench.ended key ending).2.builder = bench.builder := by
  rcases ending <;> rfl

theorem rolls_ended (bench : Workbench κ σ) (key : κ)
    (ending : EStateM.Result Fault (Feed σ) Result) :
    (bench.ended key ending).2.rolls = bench.rolls := by
  rcases ending <;> rfl

/-- All that a step can do: what it answers, and the workbench that it leaves. -/
inductive Effect (source : Source σ) (bench : Workbench κ σ) :
    Step κ → Except Fault StepReply × Workbench κ σ → Prop where
  | read {form : ExpressionForm} {e : Expression} (h : form.read = .ok e) :
      Effect source bench (.expression form)
        (.ok .done, { bench with builder := { bench.builder with expression := some e } })
  | unreadable {form : ExpressionForm} {fault : Fault} (h : form.read = .error fault) :
      Effect source bench (.expression form) (.error fault, bench)
  | named (key : κ) :
      Effect source bench (.source key)
        (.ok .done, { bench with builder := { bench.builder with source := key } })
  | bound {e : Expression} (h : bench.builder.expression = some e) :
      Effect source bench .finalize
        (.ok (.finalized e),
          { bench with rolls := bench.rolls ++ [⟨e, bench.builder.source⟩] })
  | unbound (h : bench.builder.expression = none) :
      Effect source bench .finalize (.error (.refused .noExpression), bench)
  | rolled {index : Nat} {bound : BoundRoll κ} (h : bench.rolls[index]? = some bound) :
      Effect source bench (.roll index)
        (bench.ended bound.source
          (bound.expression.evaluate source (bench.feeds bound.source)))
  | missing {index : Nat} (h : bench.rolls[index]? = none) :
      Effect source bench (.roll index) (.ok .noSuchRoll, bench)

theorem step_roll {index : Nat} {bound : BoundRoll κ} (h : bench.rolls[index]? = some bound) :
    bench.step source (.roll index) =
      bench.ended bound.source
        (bound.expression.evaluate source (bench.feeds bound.source)) := by
  rw [step, h]
  change bench.roll source bound = _
  rw [roll]
  rcases bound.expression.evaluate source (bench.feeds bound.source) <;> rfl

theorem effect_step (source : Source σ) (bench : Workbench κ σ) (next : Step κ) :
    Effect source bench next (bench.step source next) := by
  rcases next with form | key | _ | index
  · rcases hread : form.read with fault | e
    · rw [step, Builder.withForm, hread]
      exact .unreadable hread
    · rw [step, Builder.withForm, hread]
      exact .read hread
  · exact .named key
  · rcases hcurrent : bench.builder.expression with _ | e
    · rw [step, Builder.finalize, hcurrent]
      exact .unbound hcurrent
    · rw [step, Builder.finalize, hcurrent]
      exact .bound hcurrent
  · rcases hindex : bench.rolls[index]? with _ | bound
    · rw [step, hindex]
      exact .missing hindex
    · rw [step_roll hindex]
      exact .rolled hindex

/-- One step keeps the workbench in line with its history. -/
theorem Remembers.step (h : bench.Remembers key history) (source : Source σ)
    (next : Step κ) : (bench.step source next).2.Remembers key (history ++ [next]) := by
  have hnone (hnext : next ≠ .finalize) :
      bench.rolls = bench.rolls ++
        (boundAt? key (history ++ [next]) history.length).toList := by
    rw [boundAt?_length_of_ne_finalize hnext, Option.toList_none, List.append_nil]
  have hbound : boundAt? key (history ++ [.finalize]) history.length =
      bench.builder.expression.map (⟨·, bench.builder.source⟩) := by
    rw [boundAt?_length_of_finalize, h.currentRoll?_eq]
  have heffect := effect_step source bench next
  generalize bench.step source next = outcome at heffect ⊢
  cases heffect with
  | read hread =>
      refine h.snoc ?_ rfl (hnone (by simp))
      rw [Step.expression?, hread]
      rfl
  | unreadable hread =>
      refine h.snoc ?_ rfl (hnone (by simp))
      rw [Step.expression?, hread]
      rfl
  | named other => exact h.snoc rfl rfl (hnone (by simp))
  | bound hcurrent =>
      refine h.snoc rfl rfl ?_
      rw [hbound, hcurrent, Option.map_some, Option.toList_some]
  | unbound hcurrent =>
      refine h.snoc rfl rfl ?_
      rw [hbound, hcurrent, Option.map_none, Option.toList_none, List.append_nil]
  | rolled hindex =>
      refine h.snoc ?_ ?_ ?_
      · rw [builder_ended]
        rfl
      · rw [builder_ended]
        rfl
      · rw [rolls_ended]
        exact hnone (by simp)
  | missing hindex => exact h.snoc rfl rfl (hnone (by simp))

theorem Remembers.run (h : bench.Remembers key history) (source : Source σ)
    (steps : List (Step κ)) :
    (bench.run source steps).2.Remembers key (history ++ steps) := by
  induction steps generalizing bench history with
  | nil => rwa [List.append_nil]
  | cons next rest ih =>
      have hrest := ih (h.step source next)
      rwa [List.append_assoc, List.singleton_append] at hrest

/-- The report on a step tells its answer, and what is current then. -/
theorem getElem?_run (source : Source σ) (bench : Workbench κ σ) (before later : List (Step κ))
    (next : Step κ) :
    (bench.run source (before ++ next :: later)).1[before.length]? =
      some ⟨((bench.run source before).2.step source next).1,
        ((bench.run source before).2.step source next).2.builder.expression⟩ := by
  induction before generalizing bench with
  | nil => rfl
  | cons first rest ih => exact ih (bench.step source first).2

/-- A step that fails leaves the builder and the rolls as they are. -/
theorem builder_and_rolls_of_error {fault : Fault} (h : (bench.step source next).1 = .error fault) :
    (bench.step source next).2.builder = bench.builder ∧
      (bench.step source next).2.rolls = bench.rolls := by
  have heffect := effect_step source bench next
  generalize bench.step source next = outcome at heffect h ⊢
  cases heffect with
  | read | named | bound => cases h
  | unreadable | unbound | missing => exact ⟨rfl, rfl⟩
  | rolled => exact ⟨builder_ended .., rolls_ended ..⟩

/-- Only a roll draws faces. -/
theorem feeds_step_of_ne_roll (hnext : ∀ index, next ≠ .roll index) :
    (bench.step source next).2.feeds = bench.feeds := by
  have heffect := effect_step source bench next
  generalize bench.step source next = outcome at heffect ⊢
  cases heffect with
  | rolled => exact absurd rfl (hnext _)
  | _ => rfl

/-- The workbench on which all steps of the history have been done. -/
def after (source : Source σ) (key : κ) (feeds : κ → Feed σ) (history : List (Step κ)) :
    Workbench κ σ :=
  ((start key feeds).run source history).2

theorem remembers_after (source : Source σ) (key : κ) (feeds : κ → Feed σ)
    (history : List (Step κ)) : (after source key feeds history).Remembers key history :=
  (remembers_start key feeds).run source history

theorem step_finalize_eq_noExpression_iff (h : bench.Remembers key history) :
    (bench.step source .finalize).1 = .error (.refused .noExpression) ↔
      ¬ ∃ form e, Step.expression form ∈ history ∧ form.read = .ok e := by
  rw [← lastExpression_eq_none_iff, ← h.expression]
  have heffect := effect_step source bench .finalize
  generalize bench.step source .finalize = outcome at heffect ⊢
  cases heffect with
  | bound hcurrent => simp [hcurrent]
  | unbound hcurrent => exact iff_of_true rfl hcurrent

/-- After any steps the builder holds the last expression that could be read and the last
source, and the finalized rolls are what was current when each of them was made.  A step that
fails changes none of this; finalizing fails just as long as no expression has been read;
feeds are changed by rolls alone.  A roll comes to what its own expression comes to on the
feed that its own source has by then, whatever the builder holds. -/
theorem steps_are_atomic_and_rolls_snapshots (source : Source σ) (key : κ)
    (feeds : κ → Feed σ) (history : List (Step κ)) :
    let bench := after source key feeds history
    bench.builder = ⟨lastExpression history, lastSource key history⟩ ∧
    bench.rolls = boundRolls key history ∧
    (∀ next later,
      ((start key feeds).run source (history ++ next :: later)).1[history.length]? =
        some ⟨(bench.step source next).1, lastExpression (history ++ [next])⟩) ∧
    (∀ next fault, (bench.step source next).1 = .error fault →
      (bench.step source next).2.builder = bench.builder ∧
        (bench.step source next).2.rolls = bench.rolls) ∧
    ((bench.step source .finalize).1 = .error (.refused .noExpression) ↔
      ¬ ∃ form e, Step.expression form ∈ history ∧ form.read = .ok e) ∧
    (∀ next, (∀ index, next ≠ .roll index) →
      (bench.step source next).2.feeds = bench.feeds) ∧
    (∀ index bound, (boundRolls key history)[index]? = some bound →
      bench.step source (.roll index) =
        bench.ended bound.source
          (bound.expression.evaluate source (bench.feeds bound.source))) := by
  intro bench
  have hremembers : bench.Remembers key history := remembers_after source key feeds history
  refine ⟨?_, hremembers.rolls, ?_, ?_, step_finalize_eq_noExpression_iff hremembers, ?_, ?_⟩
  · rw [← hremembers.expression, ← hremembers.source]
  · intro next later
    rw [getElem?_run, ← (hremembers.step source next).expression]
    rfl
  · intro next fault hfault
    exact builder_and_rolls_of_error hfault
  · intro next hnext
    exact feeds_step_of_ne_roll hnext
  · intro index bound hbound
    rw [← hremembers.rolls] at hbound
    exact step_roll hbound

/-- Two dice are finalized on one source and a constant on another, and the dice are rolled
once. -/
def rebuilt : List (Step Bool) :=
  [.finalize, .expression (.entries [[2, 4]]), .finalize, .expression (.text "zz"),
    .source true, .expression (.entries [[-3, 1]]), .finalize, .roll 0]

def rebuiltFeeds (key : Bool) : Feed Generator :=
  ⟨if key then .highest else .script [1, 2, 3], #[]⟩

/-- The second roll of the dice finds one face left of the script and fails. -/
theorem rebuilt_rolls_snapshots :
    let bench := after Generator.source false rebuiltFeeds rebuilt
    (bench.step Generator.source (.expression (.text "zz"))).1 =
        .error (.refused (.expectedTerm 0 "zz")) ∧
      (bench.step Generator.source (.expression (.text "zz"))).2.builder = bench.builder ∧
      (bench.step Generator.source (.source false)).2.feeds = bench.feeds ∧
      bench.step Generator.source (.roll 0) =
        (.error (.source Generator.exhausted),
          bench.setFeed false ⟨.script [], #[4, 4, 4, 4]⟩) := by
  intro bench
  obtain ⟨_, _, _, hfails, _, hfeeds, hroll⟩ :=
    steps_are_atomic_and_rolls_snapshots Generator.source false rebuiltFeeds rebuilt
  have hunreadable : (bench.step Generator.source (.expression (.text "zz"))).1 =
      .error (.refused (.expectedTerm 0 "zz")) := rfl
  have hdice := hroll 0 ⟨⟨⟨.plus, .dice ⟨⟨2, by decide⟩, ⟨4, by decide⟩, by decide⟩⟩, []⟩, false⟩
    rfl
  exact ⟨hunreadable, (hfails _ _ hunreadable).1, hfeeds _ (by simp), hdice⟩

end Workbench

end TabletopDice
