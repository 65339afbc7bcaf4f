/-
The numbers that an expression may hold and the range that its sums keep to: magnitudes
fit in 63 bits, sums in a signed 64-bit integer.  Other numbers can be of any size, but only
those that are not too long are ever written out.
-/

namespace TabletopDice

/-- The largest number that an expression may hold: 63 bits, all set. -/
def maxMagnitude : Nat := 0x7fffffffffffffff

/-- A sum is in range when it fits in a signed 64-bit integer; there is one more negative
number than there are positive ones. -/
def InRange (n : Int) : Prop := -0x8000000000000000 ≤ n ∧ n ≤ 0x7fffffffffffffff

instance (n : Int) : Decidable (InRange n) :=
  inferInstanceAs (Decidable (_ ∧ _))

/-- The exact sum, where it stays in range. -/
def checkedAdd (a b : Int) : Option Int :=
  if InRange (a + b) then some (a + b) else none

theorem checkedAdd_eq_some_iff {a b c : Int} :
    checkedAdd a b = some c ↔ a + b = c ∧ InRange c := by
  unfold checkedAdd
  split
  · constructor
    · rintro ⟨⟩
      exact ⟨rfl, ‹_›⟩
    · rintro ⟨rfl, _⟩
      rfl
  · constructor
    · intro h
      cases h
    · rintro ⟨rfl, h⟩
      contradiction

theorem checkedAdd_eq_none_iff {a b : Int} :
    checkedAdd a b = none ↔ ¬ InRange (a + b) := by
  unfold checkedAdd
  split <;> simp [*]

/-- A count, a die size or a constant: a number that fits in 63 bits. -/
structure Magnitude where
  val : Nat
  val_le : val ≤ maxMagnitude
deriving DecidableEq

namespace Magnitude

/-- What a missing dice count stands for. -/
def one : Magnitude := ⟨1, by decide⟩

instance : ToString Magnitude := ⟨fun m => toString m.val⟩

end Magnitude

/-- The most digits with which a number is written out. -/
def maxWrittenDigits : Nat := 4300

/-- A number is written out if it has no more digits than that; its sign does not count. -/
def Writable (n : Int) : Prop := (Nat.toDigits 10 n.natAbs).length ≤ maxWrittenDigits

instance (n : Int) : Decidable (Writable n) :=
  inferInstanceAs (Decidable (_ ≤ _))

end TabletopDice
