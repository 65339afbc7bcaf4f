/-
The parts of a rolled value.  Equal parts in any number are kept as one face and a count;
such a run can be indexed, sliced and compared as if it were written out.
-/
import TabletopDice.Range

namespace TabletopDice

/-- So many copies of one face.  Any count can be kept, but only a magnitude is a length. -/
structure RepeatedFace where
  face : Int
  count : Int
deriving DecidableEq

/-- Bounds and step of a slice, each of which may be left open. -/
structure Slice where
  start : Option Int
  stop : Option Int
  step : Option Int

namespace Slice

/-- A missing step is one. -/
def stride (slice : Slice) : Int := slice.step.getD 1

/-- The positions that a bound may take: going up from the first place to behind the last,
going down from the last place to before the first. -/
def limits (slice : Slice) (length : Nat) : Int × Int :=
  if 0 < slice.stride then (0, length) else (-1, length - 1)

/-- A negative bound counts from the end; every bound is moved into its limits. -/
def place (slice : Slice) (length : Nat) (bound : Int) : Int :=
  let (low, high) := slice.limits length
  max low (min high (if bound < 0 then bound + length else bound))

/-- Where the slice begins: an open start is the near end in the direction of the step. -/
def first (slice : Slice) (length : Nat) : Int :=
  match slice.start with
  | some bound => slice.place length bound
  | none => if 0 < slice.stride then (slice.limits length).1 else (slice.limits length).2

/-- Where the slice ends, this place not included: an open stop is the far end. -/
def last (slice : Slice) (length : Nat) : Int :=
  match slice.stop with
  | some bound => slice.place length bound
  | none => if 0 < slice.stride then (slice.limits length).2 else (slice.limits length).1

/-- How many places the slice visits. -/
def size (slice : Slice) (length : Nat) : Nat :=
  let distance :=
    if 0 < slice.stride then slice.last length - slice.first length
    else slice.first length - slice.last length
  if 0 < distance then ((distance - 1) / slice.stride.natAbs + 1).toNat else 0

end Slice

inductive PartsError where
  | indexOutOfRange
  | zeroStep
  | negativeLength
  | oversizedLength
  | sliceOfNegativeLength
  | oversizedSlice
  | overlongNumber
deriving DecidableEq

def PartsError.message : PartsError → String
  | indexOutOfRange => "part index out of range"
  | zeroStep => "slice step cannot be zero"
  | negativeLength | sliceOfNegativeLength => "length should not be negative"
  | oversizedLength | oversizedSlice => "length should fit in 63 bits"
  | overlongNumber => "number should be short enough to be written"

/-- What a run of equal parts may be compared with. -/
inductive Comparand where
  | run (run : RepeatedFace)
  | list (faces : List Int)
  | text (text : String)

namespace RepeatedFace

/-- The parts written out; there are none under a negative count. -/
def toList (run : RepeatedFace) : List Int := List.replicate run.count.toNat run.face

/-- The count, where it is a length. -/
def length (run : RepeatedFace) : Except PartsError Nat :=
  if run.count < 0 then .error .negativeLength
  else if run.count.toNat ≤ maxMagnitude then .ok run.count.toNat
  else .error .oversizedLength

/-- All parts, of a run that has a length. -/
def list (run : RepeatedFace) : Except PartsError (List Int) :=
  run.length.map fun _ => run.toList

/-- A negative index counts from the end; under a negative count no index is in range. -/
def get (run : RepeatedFace) (index : Int) : Except PartsError Int :=
  if -run.count ≤ index ∧ index < run.count then .ok run.face else .error .indexOutOfRange

/-- The count is looked at first, then the step, and last the size of the slice; a count
beyond all lengths may still have short slices. -/
def slice (run : RepeatedFace) (slice : Slice) : Except PartsError RepeatedFace :=
  if run.count < 0 then .error .sliceOfNegativeLength
  else if slice.stride = 0 then .error .zeroStep
  else if slice.size run.count.toNat ≤ maxMagnitude then
    .ok ⟨run.face, slice.size run.count.toNat⟩
  else .error .oversizedSlice

/-- Runs are equal when they denote the same list, so the face of an empty run does not
matter.  Lengths are compared first, those of the run itself before the other one; no run
equals a text, whatever its count. -/
def equals (run : RepeatedFace) : Comparand → Except PartsError Bool
  | .run other => do
    let length ← run.length
    let otherLength ← other.length
    return length = otherLength && (length = 0 || run.face = other.face)
  | .list faces => do
    let length ← run.length
    return length = faces.length && faces.all (· = run.face)
  | .text _ => .ok false

/-- The spelling of a run as a value, if both of its numbers can be written. -/
def describe (run : RepeatedFace) : Except PartsError String :=
  if Writable run.face ∧ Writable run.count then
    .ok s!"RepeatedParts(face={run.face}, count={run.count})"
  else .error .overlongNumber

theorem length_toList (run : RepeatedFace) : run.toList.length = run.count.toNat :=
  List.length_replicate

theorem length_eq_ok_iff {run : RepeatedFace} {n : Nat} :
    run.length = .ok n ↔ run.count = n ∧ n ≤ maxMagnitude := by
  unfold length
  split
  · constructor
    · intro h
      cases h
    · rintro ⟨h, _⟩
      omega
  · split
    · constructor
      · intro h
        cases h
        exact ⟨by omega, ‹_›⟩
      · rintro ⟨h, _⟩
        rw [h]
        rfl
    · constructor
      · intro h
        cases h
      · rintro ⟨h, hle⟩
        omega

end RepeatedFace

/-- The parts of a value, listed or as a run. -/
inductive Parts where
  | listed (faces : List Int)
  | repeated (run : RepeatedFace)
deriving DecidableEq

namespace Parts

def length : Parts → Nat
  | listed faces => faces.length
  | repeated run => run.count.toNat

def toList : Parts → List Int
  | listed faces => faces
  | repeated run => run.toList

theorem length_toList (parts : Parts) : parts.toList.length = parts.length := by
  cases parts with
  | listed faces => rfl
  | repeated run => exact run.length_toList

end Parts

end TabletopDice
