/-
What a successful roll tells about its source.  The faces fall into shares, one for each
term, and nothing is left over: a share is what the dice of its term show, and terms that
are settled without a draw have an empty one.
-/
import Mathlib.Data.List.Forall2
import TabletopDice.Audit
import TabletopDice.Proofs.Verdict
import TabletopDice.Source.Generator

namespace TabletopDice

/-- The outcome of a term for which exactly these faces were drawn. -/
inductive Outcome.Accounts : Outcome → List Int → Prop where
  | drawn (sign : Sign) (pool : Dice) (faces : List Int) (several : ¬ pool.OneSided)
      (length : faces.length = pool.count.val) :
      Accounts ⟨⟨sign, .dice pool⟩, .rolled (sign * faces.sum) (.listed faces) sign⟩ faces
  | oneSided (sign : Sign) (pool : Dice) (single : pool.OneSided) :
      Accounts ⟨⟨sign, .dice pool⟩,
        .rolled (sign * (pool.count.val : Int)) (.repeated ⟨1, pool.count.val⟩) sign⟩ []
  | constant (sign : Sign) (value : Magnitude) :
      Accounts ⟨⟨sign, .constant value⟩, .constant (sign * (value.val : Int))⟩ []

theorem SignedTerm.accounts_shown (signed : SignedTerm) {faces : List Int}
    (hlength : faces.length = signed.requests.length) :
    Outcome.Accounts ⟨signed, signed.shown faces⟩ faces := by
  obtain ⟨sign, term⟩ := signed
  cases term with
  | constant value =>
      have hnil : faces = [] := List.length_eq_zero_iff.mp hlength
      rw [hnil]
      exact .constant sign value
  | dice pool =>
      by_cases hone : pool.OneSided
      · have hnil : faces = [] := by
          simpa [requests, Term.requests, Dice.requests, hone] using hlength
        simp only [hnil, shown, if_pos hone]
        exact .oneSided sign pool hone
      · have hcount : faces.length = pool.count.val := by
          simpa [requests, Term.requests, Dice.requests, hone] using hlength
        simp only [shown, if_neg hone]
        exact .drawn sign pool faces hone hcount

theorem outcomesOf_signed (terms : List SignedTerm) (faces : List Int) :
    (outcomesOf terms faces).map Outcome.signed = terms := by
  induction terms generalizing faces with
  | nil => rfl
  | cons signed rest ih => simp [outcomesOf, ih]

/-- If there are faces for all terms, the first one has all of its own, and all faces of the
later ones are left. -/
theorem length_own_and_later {signed : SignedTerm} {rest : List SignedTerm} {faces : List Int}
    (hlength : faces.length = (requestsOf (signed :: rest)).length) :
    (faces.take signed.requests.length).length = signed.requests.length ∧
      (faces.drop signed.requests.length).length = (requestsOf rest).length := by
  have hsplit : faces.length = signed.requests.length + (requestsOf rest).length := by
    simpa [requestsOf] using hlength
  rw [List.length_take, List.length_drop]
  omega

/-- As many faces as requests can be dealt out without a remainder. -/
theorem exists_shares {terms : List SignedTerm} {faces : List Int}
    (hlength : faces.length = (requestsOf terms).length) :
    ∃ shares : List (List Int), shares.flatten = faces ∧
      List.Forall₂ Outcome.Accounts (outcomesOf terms faces) shares := by
  induction terms generalizing faces with
  | nil => exact ⟨[], (List.length_eq_zero_iff.mp hlength).symm, .nil⟩
  | cons signed rest ih =>
      obtain ⟨hown, hlater⟩ := length_own_and_later hlength
      obtain ⟨shares, hflatten, haccounts⟩ := ih hlater
      refine ⟨faces.take signed.requests.length :: shares, ?_,
        .cons (signed.accounts_shown hown) haccounts⟩
      rw [List.flatten_cons, hflatten, List.take_append_drop]

/-- If nothing is breached, the sum with the first term is in range, and nothing is breached on
top of it. -/
theorem inRange_and_breach?_later {total : Int} {signed : SignedTerm} {rest : List SignedTerm}
    {faces : List Int} (hlength : faces.length = (requestsOf (signed :: rest)).length)
    (h : breach? total (signed :: rest) faces = none) :
    InRange (total + (signed.shown (faces.take signed.requests.length)).amount) ∧
      breach? (total + (signed.shown (faces.take signed.requests.length)).amount) rest
        (faces.drop signed.requests.length) = none := by
  obtain ⟨hown, _⟩ := length_own_and_later hlength
  simp only [breach?, hown, Nat.lt_irrefl, if_false] at h
  split at h
  · simp at h
  · split at h
    · exact ⟨‹_›, by simpa using h⟩
    · simp at h

/-- A total in range stays there as long as nothing is breached. -/
theorem inRange_exactTotal {total : Int} {terms : List SignedTerm} {faces : List Int}
    (hlength : faces.length = (requestsOf terms).length) (hrange : InRange total)
    (h : breach? total terms faces = none) : InRange (total + exactTotal terms faces) := by
  induction terms generalizing total faces with
  | nil => simpa [exactTotal, outcomesOf] using hrange
  | cons signed rest ih =>
      obtain ⟨_, hlater⟩ := length_own_and_later hlength
      obtain ⟨hsum, hrest⟩ := inRange_and_breach?_later hlength h
      rw [exactTotal_cons, ← Int.add_assoc]
      exact ih hlater hsum hrest

/-- If an expression evaluates, the source has answered one request for every die of every
term that is drawn, in the order of the terms.  The outcomes are those of the terms, each
with its share of the answers, and the total is their exact sum. -/
theorem Expression.evaluate_ok_accounts {σ : Type} (source : Source σ) (e : Expression)
    (feed feed' : Feed σ) (result : Result) (h : e.evaluate source feed = .ok result feed') :
    feed'.requests = feed.requests ++ e.requests.toArray ∧
      result.outcomes.map Outcome.signed = e.terms ∧
      (∃ shares : List (List Int),
        source.replies e.requests feed.state = ⟨shares.flatten, none, feed'.state⟩ ∧
          List.Forall₂ Outcome.Accounts result.outcomes shares) ∧
      result.total = (result.outcomes.map fun outcome => outcome.value.amount).sum ∧
      InRange result.total := by
  rw [evaluate_eq_settle] at h
  cases hbreach : breach? 0 e.terms (source.replies e.requests feed.state).faces with
  | some breach => simp [settle, hbreach] at h
  | none =>
      cases hfailure : (source.replies e.requests feed.state).failure with
      | some failure => simp [hbreach, settle_of_failed hfailure] at h
      | none =>
          rw [hbreach, settle_of_answered hfailure] at h
          injection h with hresult hfeed
          have hlength := Source.failure_eq_none_iff.mp hfailure
          obtain ⟨shares, hshares, haccounts⟩ := exists_shares hlength
          have hrange := inRange_exactTotal hlength (by decide : InRange 0) hbreach
          rw [← hresult, ← hfeed]
          refine ⟨Feed.requests_after_of_answered hfailure, outcomesOf_signed .., ⟨shares, ?_,
            haccounts⟩, rfl, ?_⟩
          · rw [hshares, ← hfailure, Feed.state_after]
          · rwa [Int.zero_add] at hrange

/-- All sorts of terms at once: `-4d1 + 0d6 - 2d8 + 5 + 1d20`. -/
def Expression.mixed : Expression where
  first := ⟨.minus, .dice ⟨⟨4, by decide⟩, .one, by decide⟩⟩
  rest := [
    ⟨.plus, .dice ⟨⟨0, by decide⟩, ⟨6, by decide⟩, by decide⟩⟩,
    ⟨.minus, .dice ⟨⟨2, by decide⟩, ⟨8, by decide⟩, by decide⟩⟩,
    ⟨.plus, .constant ⟨5, by decide⟩⟩,
    ⟨.plus, .dice ⟨.one, ⟨20, by decide⟩, by decide⟩⟩]

theorem Expression.mixed_evaluate_accounts :
    ∃ (result : Result) (feed : Feed Generator),
      mixed.evaluate Generator.source ⟨.script [3, 1, 17, 2], #[]⟩ = .ok result feed ∧
        feed.requests = #[8, 8, 20] ∧
        (∃ shares : List (List Int), shares.flatten = [3, 1, 17] ∧
          List.Forall₂ Outcome.Accounts result.outcomes shares) ∧
        result.total = 14 := by
  have h : mixed.evaluate Generator.source ⟨.script [3, 1, 17, 2], #[]⟩ = .ok _ _ := rfl
  obtain ⟨hrequests, _, ⟨shares, hreplies, haccounts⟩, htotal, _⟩ :=
    evaluate_ok_accounts Generator.source mixed _ _ _ h
  exact ⟨_, _, h, hrequests, ⟨shares, (congrArg Replies.faces hreplies).symm, haccounts⟩,
    htotal⟩

end TabletopDice
