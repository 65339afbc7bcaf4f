/-
Rolls of what is read from tuples.  The terms that the tuple form changes are those for which
nothing is drawn, and their numbers stay; so the faces go to the same dice as before, every
sum is the same, and so is the first one that leaves the range.
-/
import TabletopDice.Proofs.Account
import TabletopDice.Proofs.Admission
import TabletopDice.Proofs.Overflow
import TabletopDice.Proofs.TupleForm

namespace TabletopDice

/-- The two outcomes add the same to the sum, and the same faces were drawn for them. -/
structure Outcome.SameRoll (left right : Outcome) : Prop where
  amount : left.value.amount = right.value.amount
  faces : ∃ faces, left.Accounts faces ∧ right.Accounts faces

theorem amounts_eq_of_sameRoll {left right : List Outcome}
    (h : List.Forall₂ Outcome.SameRoll left right) :
    (left.map fun outcome => outcome.value.amount) =
      right.map fun outcome => outcome.value.amount := by
  induction h with
  | nil => rfl
  | cons hfirst _ ih => rw [List.map_cons, List.map_cons, hfirst.amount, ih]

/-- Two rolls end on the same feed, and with the same total and the same rolls of the terms,
with an error of the same kind, or with the same failure of the source. -/
inductive SameEnding {σ : Type} :
    EStateM.Result Fault (Feed σ) Result → EStateM.Result Fault (Feed σ) Result → Prop where
  | rolled {left right : Result} {last : Feed σ} (total : left.total = right.total)
      (outcomes : List.Forall₂ Outcome.SameRoll left.outcomes right.outcomes) :
      SameEnding (.ok left last) (.ok right last)
  | refused {left right : DiceError} {last : Feed σ} (kind : left.kind = right.kind) :
      SameEnding (.error (.refused left) last) (.error (.refused right) last)
  | failed {failure : SourceFailure} {last : Feed σ} :
      SameEnding (.error (.source failure) last) (.error (.source failure) last)

/-- What a breach is, apart from its wording. -/
def Breach.outline (breach : Breach) : Nat × ErrorKind := (breach.draws, breach.error.kind)

variable {σ : Type}

/-- Verdicts that differ in wording only lead to the same ending. -/
theorem sameEnding_settle {source : Source σ} {feed : Feed σ} {requests : List Nat}
    {breach breach' : Option Breach} {left right : Result}
    (hbreach : breach.map Breach.outline = breach'.map Breach.outline)
    (hresult : (source.replies requests feed.state).failure = none →
      left.total = right.total ∧
        List.Forall₂ Outcome.SameRoll left.outcomes right.outcomes) :
    SameEnding (settle source feed requests breach left)
      (settle source feed requests breach' right) := by
  rcases breach with _ | ⟨draws, error⟩ <;> rcases breach' with _ | ⟨draws', error'⟩
  · rcases hfailure : (source.replies requests feed.state).failure with _ | failure
    · rw [settle_of_answered hfailure, settle_of_answered hfailure]
      obtain ⟨htotal, houtcomes⟩ := hresult hfailure
      exact .rolled htotal houtcomes
    · rw [settle_of_failed hfailure, settle_of_failed hfailure]
      exact .failed
  · simp at hbreach
  · simp at hbreach
  · simp only [Option.map_some, Option.some.injEq, Breach.outline, Prod.mk.injEq] at hbreach
    obtain ⟨rfl, hkind⟩ := hbreach
    exact .refused hkind

theorem DiceError.kind_totalOutOfRange (signed other : SignedTerm) (value : Int) :
    (totalOutOfRange signed value).kind = (totalOutOfRange other value).kind := by
  by_cases hvalue : 0 < value
  · rw [totalOutOfRange, totalOutOfRange, if_pos hvalue, if_pos hvalue]
    rfl
  · rw [totalOutOfRange, totalOutOfRange, if_neg hvalue, if_neg hvalue]
    rfl

theorem Term.requests_of_oneSided {term : Term} (h : term.OneSided) : term.requests = [] := by
  rcases term with pool | value
  · exact if_pos h
  · rfl

theorem Term.requests_settled (term : Term) : term.settled.requests = term.requests := by
  by_cases h : term.OneSided
  · rw [settled_of_oneSided h, requests_of_oneSided h]
    rfl
  · rw [settled_of_several h]

theorem Term.steps_settled (term : Term) : term.settled.steps = term.steps := by
  rcases term with pool | value
  · by_cases hone : pool.OneSided <;> simp [settled, steps, hone]
  · rfl

theorem Term.requests_of_number_eq_zero {term : Term} (h : term.number.val = 0) :
    term.requests = [] := by
  rcases term with pool | value
  · have hcount : pool.count.val = 0 := h
    simp [requests, Dice.requests, hcount]
  · rfl

namespace SignedTerm

variable {signed : SignedTerm} {faces : List Int}

theorem requests_viaTuple (signed : SignedTerm) : signed.viaTuple.requests = signed.requests := by
  rw [requests, term_viaTuple, Term.requests_settled, requests]

/-- Nothing is drawn for a term that the tuple form changes. -/
theorem viaTuple_eq_self_or_requests_eq_nil (signed : SignedTerm) :
    signed.viaTuple = signed ∨ signed.requests = [] := by
  by_cases hone : signed.term.OneSided
  · exact .inr (Term.requests_of_oneSided hone)
  · by_cases hzero : signed.NegativeZero
    · exact .inr (Term.requests_of_number_eq_zero hzero.2)
    · exact .inl (viaTuple_eq_self_iff.mpr ⟨hone, hzero⟩)

/-- A term for which nothing is drawn adds the number in its tuple. -/
theorem amount_shown_nil (h : signed.requests = []) :
    (signed.shown []).amount = signed.toTuple.1 := by
  obtain ⟨sign, term⟩ := signed
  rcases term with pool | value
  · by_cases hone : pool.OneSided
    · simp [shown, toTuple, Value.amount, hone]
    · have hcount : pool.count.val = 0 := by
        simpa [requests, Term.requests, Dice.requests, hone] using h
      simp [shown, toTuple, Value.amount, hone, hcount]
  · rfl

theorem amount_shown_viaTuple (hlength : faces.length ≤ signed.requests.length) :
    (signed.viaTuple.shown faces).amount = (signed.shown faces).amount := by
  rcases signed.viaTuple_eq_self_or_requests_eq_nil with hself | hnil
  · rw [hself]
  · rw [hnil] at hlength
    obtain rfl := List.length_eq_zero_iff.mp (Nat.le_zero.mp hlength)
    rw [amount_shown_nil (signed.requests_viaTuple.trans hnil), amount_shown_nil hnil,
      toTuple_viaTuple]

theorem breach?_viaTuple (hlength : faces.length ≤ signed.requests.length) :
    signed.viaTuple.breach? faces = signed.breach? faces := by
  rcases signed.viaTuple_eq_self_or_requests_eq_nil with hself | hnil
  · rw [hself]
  · rw [hnil] at hlength
    obtain rfl := List.length_eq_zero_iff.mp (Nat.le_zero.mp hlength)
    rw [breach?_eq_none rfl, breach?_eq_none rfl]

theorem sameRoll_viaTuple (hlength : faces.length = signed.requests.length) :
    Outcome.SameRoll ⟨signed.viaTuple, signed.viaTuple.shown faces⟩
      ⟨signed, signed.shown faces⟩ where
  amount := amount_shown_viaTuple hlength.le
  faces := by
    have hlength' : faces.length = signed.viaTuple.requests.length := by
      rw [requests_viaTuple, hlength]
    exact ⟨faces, signed.viaTuple.accounts_shown hlength', signed.accounts_shown hlength⟩

end SignedTerm

section

variable {terms : List SignedTerm} {faces : List Int}

theorem requestsOf_map_viaTuple (terms : List SignedTerm) :
    requestsOf (terms.map SignedTerm.viaTuple) = requestsOf terms := by
  rw [requestsOf, List.flatMap_map, requestsOf]
  exact List.flatMap_congr fun signed _ => signed.requests_viaTuple

theorem stepsOf_map_viaTuple (terms : List SignedTerm) :
    stepsOf (terms.map SignedTerm.viaTuple) = stepsOf terms := by
  rw [stepsOf, List.map_map, stepsOf]
  congr 1
  apply List.map_congr_left
  intro signed _
  rw [Function.comp_apply, SignedTerm.term_viaTuple, Term.steps_settled]

/-- The first overflow is at the same draw and in the same direction. -/
theorem outline_breach?_map_viaTuple (total : Int) (terms : List SignedTerm)
    (faces : List Int) :
    (breach? total (terms.map SignedTerm.viaTuple) faces).map Breach.outline =
      (breach? total terms faces).map Breach.outline := by
  induction terms generalizing total faces with
  | nil => rfl
  | cons signed rest ih =>
      have hown : (faces.take signed.requests.length).length ≤ signed.requests.length :=
        List.length_take_le ..
      simp only [List.map_cons, breach?, SignedTerm.requests_viaTuple,
        SignedTerm.breach?_viaTuple hown, SignedTerm.amount_shown_viaTuple hown]
      split
      · rfl
      · split
        · rfl
        · split
          · have hlater := congrArg
              (Option.map fun outline => (outline.1 + signed.requests.length, outline.2))
              (ih (total + (signed.shown (faces.take signed.requests.length)).amount)
                (faces.drop signed.requests.length))
            rwa [Option.map_map, Option.map_map] at hlater ⊢
          · simp only [Option.map_some, Breach.outline,
              DiceError.kind_totalOutOfRange signed.viaTuple signed]

theorem sameRolls_map_viaTuple (hlength : faces.length = (requestsOf terms).length) :
    List.Forall₂ Outcome.SameRoll (outcomesOf (terms.map SignedTerm.viaTuple) faces)
      (outcomesOf terms faces) := by
  induction terms generalizing faces with
  | nil => exact .nil
  | cons signed rest ih =>
      obtain ⟨hown, hlater⟩ := length_own_and_later hlength
      simp only [List.map_cons, outcomesOf, SignedTerm.requests_viaTuple]
      exact .cons (SignedTerm.sameRoll_viaTuple hown) (ih hlater)

theorem exactTotal_map_viaTuple (hlength : faces.length = (requestsOf terms).length) :
    exactTotal (terms.map SignedTerm.viaTuple) faces = exactTotal terms faces := by
  rw [exactTotal, amounts_eq_of_sameRoll (sameRolls_map_viaTuple hlength), exactTotal]

end

namespace Expression

theorem exceeds_viaTuples (e : Expression) (cap : Int) :
    e.viaTuples.exceeds cap = e.exceeds cap := by
  rw [Bool.eq_iff_iff, exceeds_iff, exceeds_iff, terms_viaTuples, stepsOf_map_viaTuple]

theorem requests_viaTuples (e : Expression) : e.viaTuples.requests = e.requests :=
  requestsOf_map_viaTuple e.terms

theorem sameEnding_viaTuples (e : Expression) (source : Source σ) (feed : Feed σ) :
    SameEnding (e.viaTuples.evaluate source feed) (e.evaluate source feed) := by
  rw [evaluate_eq_settle, evaluate_eq_settle, requests_viaTuples, terms_viaTuples]
  apply sameEnding_settle (outline_breach?_map_viaTuple 0 e.terms _)
  intro hanswered
  have hlength := Source.failure_eq_none_iff.mp hanswered
  exact ⟨exactTotal_map_viaTuple hlength, sameRolls_map_viaTuple hlength⟩

/-- The tuples of an expression are always read, and what is read from them exceeds the same
caps as the expression and rolls like it, on every feed of every source. -/
theorem roll_through_tuples (e : Expression) :
    ∃ e', ofTuples e.toTuples = .ok e' ∧
      (∀ cap, e'.exceeds cap = e.exceeds cap) ∧
      ∀ {σ : Type} (source : Source σ) (feed : Feed σ),
        SameEnding (e'.evaluate source feed) (e.evaluate source feed) := by
  refine ⟨e.viaTuples, e.ofTuples_toTuples, e.exceeds_viaTuples, ?_⟩
  intro σ source feed
  exact e.sameEnding_viaTuples source feed

end Expression

end TabletopDice
