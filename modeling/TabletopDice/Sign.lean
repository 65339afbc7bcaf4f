/-
The sign of a term.  A sign multiplies whatever can be negated, from either side.
-/

namespace TabletopDice

inductive Sign where
  | plus
  | minus
deriving DecidableEq

namespace Sign

instance : Neg Sign where
  neg
    | plus => minus
    | minus => plus

instance {α : Type} [Neg α] : HMul Sign α α where
  hMul
    | plus, a => a
    | minus, a => -a

instance {α : Type} [Neg α] : HMul α Sign α where
  hMul a sign := sign * a

/-- The sign as an operator between two terms. -/
instance : ToString Sign where
  toString
    | plus => "+"
    | minus => "-"

/-- The sign in front of a first term, where a plus is left out. -/
def leading : Sign → String
  | plus => ""
  | minus => "-"

/-- Zero counts as positive. -/
def ofInt (n : Int) : Sign := if n < 0 then minus else plus

@[simp] theorem neg_plus : -plus = minus := rfl

@[simp] theorem neg_minus : -minus = plus := rfl

@[simp] theorem neg_neg (sign : Sign) : - -sign = sign := by
  cases sign <;> rfl

@[simp] theorem plus_mul {α : Type} [Neg α] (a : α) : plus * a = a := rfl

@[simp] theorem minus_mul {α : Type} [Neg α] (a : α) : minus * a = -a := rfl

theorem ofInt_mul_natAbs (n : Int) : ofInt n * (n.natAbs : Int) = n := by
  unfold ofInt
  split
  · rw [minus_mul]
    omega
  · rw [plus_mul]
    omega

theorem natAbs_mul (sign : Sign) (n : Int) : (sign * n).natAbs = n.natAbs := by
  rcases sign
  · rfl
  · exact Int.natAbs_neg n

theorem mul_natAbs_mul (sign : Sign) {n : Int} (hn : 0 ≤ n) :
    sign * ((sign * n).natAbs : Int) = sign * n := by
  rw [natAbs_mul, Int.natAbs_of_nonneg hn]

theorem mul_left_cancel {sign : Sign} {n m : Int} (h : sign * n = sign * m) : n = m := by
  rcases sign
  · exact h
  · exact Int.neg_inj.mp h

/-- Two signs of one magnitude come to the same value only if it is zero or they agree. -/
theorem eq_or_eq_zero_of_mul_eq {left right : Sign} {n : Nat}
    (h : left * (n : Int) = right * (n : Int)) : left = right ∨ n = 0 := by
  rcases left <;> rcases right
  · exact .inl rfl
  · rw [plus_mul, minus_mul] at h
    exact .inr (by omega)
  · rw [plus_mul, minus_mul] at h
    exact .inr (by omega)
  · exact .inl rfl

/-- Every number has one sign and one size, if zero under a minus is left out. -/
theorem ofInt_eq_and_natAbs_eq_iff {sign : Sign} {size : Nat} {n : Int} :
    ofInt n = sign ∧ n.natAbs = size ↔
      sign * (size : Int) = n ∧ ¬ (sign = minus ∧ size = 0) := by
  constructor
  · rintro ⟨rfl, rfl⟩
    refine ⟨ofInt_mul_natAbs n, ?_⟩
    rintro ⟨hsign, hsize⟩
    rw [Int.natAbs_eq_zero.mp hsize] at hsign
    exact absurd hsign (by decide)
  · rintro ⟨rfl, hzero⟩
    refine ⟨?_, natAbs_mul sign size⟩
    unfold ofInt
    rcases sign
    · rw [plus_mul, if_neg (by omega)]
    · have hsize : size ≠ 0 := fun hsize => hzero ⟨rfl, hsize⟩
      rw [minus_mul, if_pos (by omega)]

end Sign

end TabletopDice
