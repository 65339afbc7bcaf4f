/-
A service of three tools over one cap and one shared source.  Errors of the dice reach the
caller as plain text; all other faults are passed on as they are.
-/
import TabletopDice.Audit
import TabletopDice.Expression.Tuples

namespace TabletopDice

namespace Service

inductive Call where
  | roll (text : String)
  | parse (text : String)
  | rollTuples (entries : List (List Int))

/-- What a text was read as; nothing is rolled for it. -/
structure Reading where
  input : String
  normalized : String
  tuples : List (Int × Int)
deriving DecidableEq

inductive Reply where
  | rolled (record : AuditRecord)
  | parsed (reading : Reading)
deriving DecidableEq

inductive CallFailure where
  | invalid (message : String)
  | overlong
  | source (failure : SourceFailure)
deriving DecidableEq

def CallFailure.ofFault : Fault → CallFailure
  | .refused error => invalid error.text
  | .overlong => overlong
  | .source failure => source failure

/-- What all calls share: where faces come from, and the cap. -/
structure Setup (σ : Type) where
  source : Source σ
  origin : Origin
  cap : Int

/-- Explanations give the total of each term, and the total of all on the right. -/
def explanationStyle : Style := .ofAdjustments [.totalRight, .concise]

def readingOf (text : String) (e : Expression) : Reading := ⟨text, toString e, e.toTuples⟩

variable {σ : Type}

/-- A list of tuples is accounted for under its normal spelling. -/
def perform (setup : Setup σ) : Call → Rolling σ Reply
  | .roll text =>
      .rolled <$>
        Expression.auditText setup.source setup.origin explanationStyle setup.cap text
  | .parse text =>
      (.parsed ∘ readingOf text) <$> Rolling.ofExcept (ExpressionForm.text text).read
  | .rollTuples entries => do
      let e ← Rolling.ofExcept (ExpressionForm.entries entries).read
      .rolled <$>
        e.audit setup.source setup.origin explanationStyle setup.cap (toString e)

/-- One call on the shared feed. -/
def call (setup : Setup σ) (request : Call) (feed : Feed σ) :
    Except CallFailure Reply × Feed σ :=
  match perform setup request feed with
  | .ok reply feed => (.ok reply, feed)
  | .error fault feed => (.error (.ofFault fault), feed)

/-- All calls in order on the shared feed. -/
def run (setup : Setup σ) : List Call → Feed σ → List (Except CallFailure Reply) × Feed σ
  | [], feed => ([], feed)
  | request :: rest, feed =>
    let (answer, feed) := call setup request feed
    let (answers, last) := run setup rest feed
    (answer :: answers, last)

end Service

end TabletopDice
