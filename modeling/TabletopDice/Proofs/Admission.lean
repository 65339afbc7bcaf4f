/-
Admission under a cap.  All steps are counted, even if the count stops early, and no term
makes more requests than it has steps.  So an admitted expression never draws more often than
the cap allows, whatever becomes of the roll.
-/
import TabletopDice.Cap
import TabletopDice.Proofs.Verdict

namespace TabletopDice

variable {σ α : Type}

/-- The feed that is left when a roll has ended, well or not. -/
def finalFeed : EStateM.Result Fault (Feed σ) α → Feed σ
  | .ok _ last => last
  | .error _ last => last

/-- Between the two feeds at most so many requests have been made. -/
def Feed.WithinRequests (feed last : Feed σ) (bound : Int) : Prop :=
  ∃ made : List Nat, last.requests = feed.requests ++ made.toArray ∧ (made.length : Int) ≤ bound

theorem Feed.withinRequests_refl (feed : Feed σ) {bound : Int} (hbound : 0 ≤ bound) :
    feed.WithinRequests feed bound :=
  ⟨[], by simp, hbound⟩

theorem Feed.WithinRequests.mono {feed last : Feed σ} {bound bound' : Int}
    (h : feed.WithinRequests last bound) (hle : bound ≤ bound') :
    feed.WithinRequests last bound' := by
  obtain ⟨made, hmade, hlength⟩ := h
  exact ⟨made, hmade, Int.le_trans hlength hle⟩

/-- The steps of all terms, however many they are. -/
def stepsOf (terms : List SignedTerm) : Nat := (terms.map fun signed => signed.term.steps).sum

/-- The count may stop early, but its answer is that of the full count. -/
theorem stepsExceed_iff {cap : Int} {steps : Nat} {terms : List SignedTerm} :
    stepsExceed cap steps terms ↔ terms ≠ [] ∧ cap < (steps + stepsOf terms : Nat) := by
  induction terms generalizing steps with
  | nil => simp [stepsExceed]
  | cons signed rest ih =>
      have hsteps : stepsOf (signed :: rest) = signed.term.steps + stepsOf rest := rfl
      rw [stepsExceed, hsteps, ← Nat.add_assoc]
      by_cases hcap : cap < (steps + signed.term.steps : Nat)
      · have hall : cap < (steps + signed.term.steps + stepsOf rest : Nat) := by omega
        rw [if_pos hcap]
        exact iff_of_true rfl ⟨List.cons_ne_nil _ _, hall⟩
      · rw [if_neg hcap, ih]
        rcases rest with _ | ⟨next, rest⟩
        · simpa [stepsOf] using hcap
        · simp

theorem Expression.exceeds_iff {e : Expression} {cap : Int} :
    e.exceeds cap ↔ cap < (stepsOf e.terms : Nat) := by
  rw [exceeds, stepsExceed_iff, Nat.zero_add]
  exact and_iff_right e.terms_ne_nil

theorem Expression.exceeds_of_neg {e : Expression} {cap : Int} (hcap : cap < 0) :
    e.exceeds cap = true := by
  rw [exceeds_iff]
  omega

/-- Nothing is left to the source: a constant, or dice that always show a one. -/
def Term.Certain : Term → Prop
  | dice pool => pool.OneSided
  | constant _ => True

instance : (term : Term) → Decidable term.Certain
  | .dice pool => inferInstanceAs (Decidable pool.OneSided)
  | .constant _ => inferInstanceAs (Decidable True)

theorem Term.steps_eq (term : Term) :
    term.steps = term.requests.length + if term.Certain then 1 else 0 := by
  rcases term with pool | value
  · by_cases hone : pool.OneSided
    · simp [steps, requests, Dice.requests, Certain, hone]
    · simp [steps, requests, Dice.requests, Certain, hone]
  · rfl

/-- A step is one request of a roll that goes through, or a term that makes none because it is
certain. -/
theorem stepsOf_eq (terms : List SignedTerm) :
    stepsOf terms =
      (requestsOf terms).length + terms.countP fun signed => signed.term.Certain := by
  induction terms with
  | nil => rfl
  | cons signed rest ih =>
      have hsteps : stepsOf (signed :: rest) = signed.term.steps + stepsOf rest := rfl
      have hrequests : requestsOf (signed :: rest) = signed.term.requests ++ requestsOf rest := rfl
      rw [hsteps, hrequests, ih, signed.term.steps_eq, List.length_append, List.countP_cons]
      simp only [decide_eq_true_eq]
      omega

theorem stepsOf_take_le (terms : List SignedTerm) (k : Nat) :
    stepsOf (terms.take k) ≤ stepsOf terms := by
  have hsplit : stepsOf terms = stepsOf (terms.take k) + stepsOf (terms.drop k) := by
    rw [stepsOf, stepsOf, stepsOf, ← List.sum_append, ← List.map_append, List.take_append_drop]
  omega

theorem stepsOf_perm {left right : List SignedTerm} (h : left.Perm right) :
    stepsOf left = stepsOf right :=
  (h.map _).sum_nat

theorem length_requestsOf_le (terms : List SignedTerm) :
    (requestsOf terms).length ≤ stepsOf terms := by
  rw [stepsOf_eq]
  exact Nat.le_add_right _ _

theorem Expression.length_requests_le_of_admitted {e : Expression} {cap : Int}
    (h : e.exceeds cap = false) : (e.requests.length : Int) ≤ cap := by
  have hsteps : ¬ cap < (stepsOf e.terms : Nat) := by
    rw [← exceeds_iff, h]
    decide
  have hle := length_requestsOf_le e.terms
  rw [Expression.requests]
  omega

/-- A roll makes its requests from the first one on and stops somewhere. -/
theorem exists_take_of_settle (source : Source σ) (feed : Feed σ) (requests : List Nat)
    (breach : Option Breach) (value : α) :
    ∃ n, (finalFeed (settle source feed requests breach value)).requests =
      feed.requests ++ (requests.take n).toArray := by
  rcases breach with _ | ⟨draws, error⟩
  · rcases hfailure : (source.replies requests feed.state).failure with _ | failure
    · rw [settle_of_answered hfailure]
      exact ⟨_, rfl⟩
    · rw [settle_of_failed hfailure]
      exact ⟨_, rfl⟩
  · simp only [finalFeed, settle, Feed.after, List.take_take]
    exact ⟨_, rfl⟩

/-- Whether it succeeds or fails, an evaluation stays within the cap that admits it. -/
theorem Expression.withinRequests_evaluate {e : Expression} {cap : Int}
    (h : e.exceeds cap = false) (source : Source σ) (feed : Feed σ) :
    feed.WithinRequests (finalFeed (e.evaluate source feed)) cap := by
  rw [evaluate_eq_settle]
  obtain ⟨n, hmade⟩ := exists_take_of_settle source feed e.requests _ _
  refine ⟨e.requests.take n, hmade, ?_⟩
  have hall := length_requests_le_of_admitted h
  have htake := List.length_take_le' n e.requests
  omega

namespace Expression

/-- Some first terms take more steps than the cap allows just if all terms together do. -/
theorem exists_take_exceeds_iff {e : Expression} {cap : Int} :
    (∃ k, cap < (stepsOf (e.terms.take k) : Nat)) ↔ cap < (stepsOf e.terms : Nat) := by
  constructor
  · rintro ⟨k, hk⟩
    have hle := stepsOf_take_le e.terms k
    omega
  · intro h
    exact ⟨e.terms.length, by rwa [List.take_length]⟩

/-- An expression exceeds a cap just if its steps are more than the cap, and it makes no
difference that the count stops at the first terms that take more.  Its steps are the requests
of a roll that goes through and one for each certain term.  So every cap below zero is exceeded,
and the order of the terms does not matter. -/
theorem exceeds_iff_total_steps (e : Expression) (cap : Int) :
    (e.exceeds cap = true ↔ cap < ((e.terms.map fun signed => signed.term.steps).sum : Nat)) ∧
    (e.exceeds cap = true ↔ ∃ k, cap < (stepsOf (e.terms.take k) : Nat)) ∧
    stepsOf e.terms =
      e.requests.length + (e.terms.countP fun signed => signed.term.Certain) ∧
    (cap < 0 → e.exceeds cap = true) ∧
    ∀ f : Expression, f.terms.Perm e.terms → f.exceeds cap = e.exceeds cap := by
  refine ⟨exceeds_iff, ?_, stepsOf_eq e.terms, exceeds_of_neg, ?_⟩
  · rw [exists_take_exceeds_iff]
    exact exceeds_iff
  · intro f hperm
    rw [Bool.eq_iff_iff, exceeds_iff, exceeds_iff, stepsOf_perm hperm]

/-- The terms take no step, one step and twelve steps: `0d10 + 7d1 + 12d10`. -/
def climbing : Expression where
  first := ⟨.plus, .dice ⟨⟨0, Nat.zero_le _⟩, ⟨10, by decide⟩, by decide⟩⟩
  rest := [
    ⟨.plus, .dice ⟨⟨7, by decide⟩, .one, Nat.one_pos⟩⟩,
    ⟨.plus, .dice ⟨⟨12, by decide⟩, ⟨10, by decide⟩, by decide⟩⟩]

/-- The same terms, the largest number of steps first: `12d10 + 7d1 + 0d10`. -/
def falling : Expression where
  first := ⟨.plus, .dice ⟨⟨12, by decide⟩, ⟨10, by decide⟩, by decide⟩⟩
  rest := [
    ⟨.plus, .dice ⟨⟨7, by decide⟩, .one, Nat.one_pos⟩⟩,
    ⟨.plus, .dice ⟨⟨0, Nat.zero_le _⟩, ⟨10, by decide⟩, by decide⟩⟩]

/-- One count stops at the last term and the other one at the second. -/
theorem climbing_exceeds :
    climbing.exceeds (-1) = true ∧ climbing.exceeds 12 = true ∧
      falling.exceeds 12 = climbing.exceeds 12 ∧ stepsOf climbing.terms = 12 + 1 := by
  obtain ⟨_, _, _, hbelow, _⟩ := exceeds_iff_total_steps climbing (-1)
  obtain ⟨htotal, _, hsteps, _, horder⟩ := exceeds_iff_total_steps climbing 12
  exact ⟨hbelow (by decide), htotal.mpr (by decide), horder falling (by decide), hsteps⟩

end Expression

end TabletopDice
