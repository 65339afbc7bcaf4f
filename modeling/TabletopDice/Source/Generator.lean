/-
Four ways to make faces: from a script, always the lowest, always the highest, or by a
linear congruence on 64-bit words.
-/
import TabletopDice.Source.Basic

namespace TabletopDice

inductive Generator where
  | script (faces : List Int)
  | lowest
  | highest
  | congruential (word : UInt64)
deriving DecidableEq

namespace Generator

/-- Only the lowest 64 bits of a seed matter. -/
def seeded (seed : Int) : Generator := congruential (.ofInt seed)

def multiplier : UInt64 := 6364136223846793005

def increment : UInt64 := 1442695040888963407

/-- The word that follows; words wrap around. -/
def nextWord (word : UInt64) : UInt64 := word * multiplier + increment

/-- The face that a word stands for.  Its low bits are dropped, since they repeat soon. -/
def faceOfWord (sides : Nat) (word : UInt64) : Int :=
  ((1 + (word.toNat >>> 16) % sides : Nat) : Int)

/-- What a script reports when it has no face left. -/
def exhausted : SourceFailure := ⟨"no more faces"⟩

def answer (sides : Nat) : EStateM SourceFailure Generator Int
  | script [] => .error exhausted (script [])
  | script (face :: faces) => .ok face (script faces)
  | lowest => .ok 1 lowest
  | highest => .ok sides highest
  | congruential word =>
      .ok (faceOfWord sides (nextWord word)) (congruential (nextWord word))

/-- Every generator is a source, with itself as the state. -/
def source : Source Generator := ⟨answer⟩

end Generator

end TabletopDice
