/-
Outcomes of fair rolls.  Where no face is less than one, an amount is told from its size and
the sign of its value, and the only values that can hide the sign of their term are
constants of zero.
-/
import Mathlib.Algebra.Order.BigOperators.Group.List
import TabletopDice.Proofs.Account

namespace TabletopDice

namespace Outcome

variable {outcome : Outcome} {faces : List Int} {pool : Dice} {value : Magnitude}

theorem Accounts.of_drawn (h : outcome.Accounts faces)
    (hterm : outcome.signed.term = .dice pool) (hseveral : ¬ pool.OneSided) :
    outcome.value = .rolled (outcome.signed.sign * faces.sum) (.listed faces)
        outcome.signed.sign ∧ faces.length = pool.count.val := by
  rcases h with ⟨sign, drawn, faces, several, hlength⟩ | ⟨sign, single, hone⟩ | ⟨sign, value⟩
  · obtain rfl := Term.dice.inj hterm
    exact ⟨rfl, hlength⟩
  · obtain rfl := Term.dice.inj hterm
    exact absurd hone hseveral
  · simp at hterm

theorem Accounts.of_oneSided (h : outcome.Accounts faces)
    (hterm : outcome.signed.term = .dice pool) (hone : pool.OneSided) :
    outcome.value = .rolled (outcome.signed.sign * (pool.count.val : Int))
        (.repeated ⟨1, pool.count.val⟩) outcome.signed.sign ∧ faces = [] := by
  rcases h with ⟨sign, drawn, faces, several, hlength⟩ | ⟨sign, single, _⟩ | ⟨sign, value⟩
  · obtain rfl := Term.dice.inj hterm
    exact absurd hone several
  · obtain rfl := Term.dice.inj hterm
    exact ⟨rfl, rfl⟩
  · simp at hterm

theorem Accounts.of_constant (h : outcome.Accounts faces)
    (hterm : outcome.signed.term = .constant value) :
    outcome.value = .constant (outcome.signed.sign * (value.val : Int)) ∧ faces = [] := by
  rcases h with ⟨sign, drawn, faces, several, hlength⟩ | ⟨sign, single, hone⟩ | ⟨sign, constant⟩
  · simp at hterm
  · simp at hterm
  · obtain rfl := Term.constant.inj hterm
    exact ⟨rfl, rfl⟩

/-- Dice keep the sign of their term, also when they come to zero. -/
theorem Accounts.sign_of_dice (h : outcome.Accounts faces)
    (hterm : outcome.signed.term = .dice pool) : outcome.value.sign = outcome.signed.sign := by
  by_cases hone : pool.OneSided
  · rw [(h.of_oneSided hterm hone).1]
    rfl
  · rw [(h.of_drawn hterm hone).1]
    rfl

/-- The outcome of a term for which only faces were drawn that a die can show. -/
def Fair (outcome : Outcome) : Prop :=
  ∃ faces, outcome.Accounts faces ∧ ∀ face ∈ faces, 1 ≤ face

/-- The size of the amount and the sign of the value make up the amount. -/
theorem Fair.sign_mul_natAbs {outcome : Outcome} (h : outcome.Fair) :
    outcome.value.sign * (outcome.value.amount.natAbs : Int) = outcome.value.amount := by
  obtain ⟨faces, haccounts, hfaces⟩ := h
  rcases haccounts with ⟨sign, pool, faces, several, hlength⟩ | ⟨sign, pool, hone⟩ |
    ⟨sign, value⟩
  · have hsum : 0 ≤ faces.sum :=
      List.sum_nonneg fun face hface => Int.le_of_lt (hfaces face hface)
    exact sign.mul_natAbs_mul hsum
  · exact sign.mul_natAbs_mul (Int.natCast_nonneg _)
  · exact Sign.ofInt_mul_natAbs _

theorem fair_of_accounts {outcomes : List Outcome} {shares : List (List Int)}
    (h : List.Forall₂ Accounts outcomes shares)
    (hfaces : ∀ face ∈ shares.flatten, 1 ≤ face) : ∀ outcome ∈ outcomes, outcome.Fair := by
  induction h with
  | nil => simp
  | @cons first share outcomes shares hfirst _ ih =>
      rw [List.flatten_cons] at hfaces
      intro outcome houtcome
      rcases List.mem_cons.mp houtcome with rfl | hlater
      · exact ⟨share, hfirst, fun face hface => hfaces face (List.mem_append_left _ hface)⟩
      · exact ih (fun face hface => hfaces face (List.mem_append_right _ hface)) outcome hlater

end Outcome

namespace Expression

variable {σ : Type} {source : Source σ} {e : Expression} {feed last : Feed σ}
  {result : Result}

/-- The faces of a successful roll fall into shares of its outcomes. -/
theorem exists_shares_of_evaluate (h : e.evaluate source feed = .ok result last) :
    ∃ shares : List (List Int),
      (source.replies e.requests feed.state).faces = shares.flatten ∧
        List.Forall₂ Outcome.Accounts result.outcomes shares := by
  obtain ⟨_, hanswered, rfl, _⟩ := evaluate_eq_ok_iff.mp h
  obtain ⟨shares, hshares, haccounts⟩ := exists_shares (Source.failure_eq_none_iff.mp hanswered)
  exact ⟨shares, hshares.symm, haccounts⟩

theorem fair_of_evaluate (h : e.evaluate source feed = .ok result last)
    (hfair : source.FairOn e.requests feed.state) :
    ∀ outcome ∈ result.outcomes, outcome.Fair := by
  obtain ⟨shares, hshares, haccounts⟩ := exists_shares_of_evaluate h
  apply Outcome.fair_of_accounts haccounts
  intro face hface
  rw [← hshares] at hface
  exact Source.one_le_of_fairOn hfair hface

theorem signed_of_evaluate (h : e.evaluate source feed = .ok result last) :
    result.outcomes.map Outcome.signed = e.terms := by
  obtain ⟨_, _, rfl, _⟩ := evaluate_eq_ok_iff.mp h
  exact outcomesOf_signed ..

theorem outcomes_ne_nil_of_evaluate (h : e.evaluate source feed = .ok result last) :
    result.outcomes ≠ [] := by
  intro hnil
  have hsigned := signed_of_evaluate h
  rw [hnil] at hsigned
  exact e.terms_ne_nil hsigned.symm

theorem total_of_evaluate (h : e.evaluate source feed = .ok result last) :
    result.total = (result.outcomes.map fun outcome => outcome.value.amount).sum := by
  obtain ⟨_, _, rfl, _⟩ := evaluate_eq_ok_iff.mp h
  rfl

theorem inRange_total_of_evaluate (h : e.evaluate source feed = .ok result last) :
    InRange result.total := by
  obtain ⟨hbreach, hanswered, rfl, _⟩ := evaluate_eq_ok_iff.mp h
  have hlength := Source.failure_eq_none_iff.mp hanswered
  have hrange := inRange_exactTotal hlength (by decide : InRange 0) hbreach
  rwa [Int.zero_add] at hrange

end Expression

end TabletopDice
