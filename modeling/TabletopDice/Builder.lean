/-
Step by step assembly of rolls.  A builder holds the current expression and names the
current source; a finalized roll keeps what was current when it was made, and rolls bound
to one source share its state.
-/
import TabletopDice.Evaluation
import TabletopDice.Expression.Form

namespace TabletopDice

/-- An expression bound to a source, which is known by a key. -/
structure BoundRoll (κ : Type) where
  expression : Expression
  source : κ

/-- The current expression, if there is one yet, and the key of the current source. -/
structure Builder (κ : Type) where
  expression : Option Expression := none
  source : κ

namespace Builder

variable {κ : Type}

/-- Takes an expression in any form; one that cannot be read changes nothing. -/
def withForm (builder : Builder κ) (form : ExpressionForm) :
    Except Fault (Builder κ) :=
  form.read.map fun e => { builder with expression := some e }

def withSource (builder : Builder κ) (source : κ) : Builder κ :=
  { builder with source := source }

def finalize (builder : Builder κ) : Except Fault (BoundRoll κ) :=
  match builder.expression with
  | some e => .ok ⟨e, builder.source⟩
  | none => .error (.refused .noExpression)

end Builder

/-- One builder, the rolls finalized so far, and a feed for every key. -/
structure Workbench (κ σ : Type) where
  builder : Builder κ
  rolls : List (BoundRoll κ) := []
  feeds : κ → Feed σ

/-- What can be done on a workbench. -/
inductive Step (κ : Type) where
  | expression (form : ExpressionForm)
  | source (key : κ)
  | finalize
  | roll (index : Nat)

/-- What a step answers when it succeeds. -/
inductive StepReply where
  | done
  | finalized (expression : Expression)
  | rolled (result : Result)
  | noSuchRoll

namespace Workbench

variable {κ σ : Type}

def start (source : κ) (feeds : κ → Feed σ) : Workbench κ σ where
  builder := { source := source }
  feeds := feeds

/-- Replaces the feed of one key. -/
def setFeed [DecidableEq κ] (bench : Workbench κ σ) (key : κ) (feed : Feed σ) :
    Workbench κ σ :=
  { bench with feeds := fun other => if other = key then feed else bench.feeds other }

/-- Rolls on the feed to which the roll is bound; the builder has no part in it. -/
def roll [DecidableEq κ] (source : Source σ) (bench : Workbench κ σ) (bound : BoundRoll κ) :
    Except Fault StepReply × Workbench κ σ :=
  match bound.expression.evaluate source (bench.feeds bound.source) with
  | .ok result feed => (.ok (.rolled result), bench.setFeed bound.source feed)
  | .error fault feed => (.error fault, bench.setFeed bound.source feed)

/-- One step.  A step that fails leaves the builder and the finalized rolls as they were. -/
def step [DecidableEq κ] (source : Source σ) (bench : Workbench κ σ) :
    Step κ → Except Fault StepReply × Workbench κ σ
  | .expression form =>
    match bench.builder.withForm form with
    | .ok builder => (.ok .done, { bench with builder := builder })
    | .error fault => (.error fault, bench)
  | .source key =>
    (.ok .done, { bench with builder := bench.builder.withSource key })
  | .finalize =>
    match bench.builder.finalize with
    | .ok bound =>
      (.ok (.finalized bound.expression), { bench with rolls := bench.rolls ++ [bound] })
    | .error fault => (.error fault, bench)
  | .roll index =>
    match bench.rolls[index]? with
    | some bound => bench.roll source bound
    | none => (.ok .noSuchRoll, bench)

/-- The answer to a step, and the expression that is current after it. -/
structure Report where
  reply : Except Fault StepReply
  expression : Option Expression

/-- Does all steps in order; a step that fails does not keep the later ones from being
done. -/
def run [DecidableEq κ] (source : Source σ) (bench : Workbench κ σ) :
    List (Step κ) → List Report × Workbench κ σ
  | [] => ([], bench)
  | next :: rest =>
    let (reply, bench) := bench.step source next
    let (reports, last) := bench.run source rest
    (⟨reply, bench.builder.expression⟩ :: reports, last)

end Workbench

/-- Reads an expression in any form and rolls it at once, as a builder with one expression
and one source would. -/
def ExpressionForm.roll {σ : Type} (source : Source σ) (form : ExpressionForm) :
    Rolling σ Result := do
  let bound ← Rolling.ofExcept (Builder.withForm { source := () } form >>= Builder.finalize)
  bound.expression.evaluate source

end TabletopDice
