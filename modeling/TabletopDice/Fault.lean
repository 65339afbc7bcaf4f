/-
Why reading or rolling stops.  An error is raised in words, so one that would quote a number
too long to be written is never raised; the attempt to write the number fails in its place,
and that is no error of the dice.  Errors that quote no number from outside are raised as they
are, and are given as refusals straight away.
-/
import TabletopDice.Error
import TabletopDice.Source.Basic

namespace TabletopDice

/-- The expression was refused or overflowed, a number was too long to be written, or the
source failed. -/
inductive Fault where
  | refused (error : DiceError)
  | overlong
  | source (failure : SourceFailure)
deriving DecidableEq

/-- The fault of the negated term; only an error of the dice is different for it. -/
def Fault.opposite : Fault → Fault
  | refused error => refused error.opposite
  | overlong => overlong
  | source failure => source failure

/-- What becomes of an error when it is raised. -/
def DiceError.raised (error : DiceError) : Fault :=
  if error.Wordable then .refused error else .overlong

theorem DiceError.raised_of_wordable {error : DiceError} (h : error.Wordable) :
    error.raised = .refused error :=
  if_pos h

theorem DiceError.raised_of_not_wordable {error : DiceError} (h : ¬ error.Wordable) :
    error.raised = .overlong :=
  if_neg h

theorem DiceError.wordable_of_quoted_eq_nil {error : DiceError} (h : error.quoted = []) :
    error.Wordable := by
  intro n hn
  rw [h] at hn
  exact absurd hn List.not_mem_nil

/-- An error that can be put into words is raised as it is, and no other one is raised as an
error at all. -/
theorem DiceError.raised_eq_refused_iff {error other : DiceError} :
    error.raised = .refused other ↔ error.Wordable ∧ error = other := by
  unfold raised
  split <;> simp [*]

/-- Of what refuses an expression for its size only the cap can be too long. -/
theorem DiceError.wordable_exceededCap_iff {e : Expression} {cap : Int} :
    (exceededCap e cap).Wordable ↔ Writable cap :=
  List.forall_mem_singleton

theorem DiceError.raised_exceededCap_of_writable {e : Expression} {cap : Int}
    (h : Writable cap) : (exceededCap e cap).raised = .refused (.exceededCap e cap) :=
  raised_of_wordable (wordable_exceededCap_iff.mpr h)

theorem DiceError.raised_exceededCap_of_not_writable {e : Expression} {cap : Int}
    (h : ¬ Writable cap) : (exceededCap e cap).raised = .overlong :=
  raised_of_not_wordable (mt wordable_exceededCap_iff.mp h)

end TabletopDice
