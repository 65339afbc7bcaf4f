/-
What becomes of a roll, told from its terms and from the faces that the source has for them.
The faces decide whether a sum leaves the range and after how many draws; if none does, it
is left to the source whether the roll succeeds.  Rolling agrees with this verdict for
every source and every feed.
-/
import Mathlib.Algebra.Order.Ring.Int
import TabletopDice.Evaluation
import TabletopDice.Proofs.Replies

namespace TabletopDice

/-- One request for each die, unless there is nothing to draw. -/
def Dice.requests (dice : Dice) : List Nat :=
  if dice.OneSided then [] else List.replicate dice.count.val dice.sides.val

def Term.requests : Term → List Nat
  | dice pool => pool.requests
  | constant _ => []

def SignedTerm.requests (signed : SignedTerm) : List Nat := signed.term.requests

def requestsOf (terms : List SignedTerm) : List Nat := terms.flatMap SignedTerm.requests

def Expression.requests (e : Expression) : List Nat := requestsOf e.terms

/-- The value of a term whose dice show the faces. -/
def SignedTerm.shown (signed : SignedTerm) (faces : List Int) : Value :=
  match signed.term with
  | .dice pool =>
    if pool.OneSided then
      .rolled (signed.sign * (pool.count.val : Int)) (.repeated ⟨1, pool.count.val⟩) signed.sign
    else .rolled (signed.sign * faces.sum) (.listed faces) signed.sign
  | .constant value => .constant (signed.sign * (value.val : Int))

/-- The terms with their values when the faces are dealt out to them in order. -/
def outcomesOf : List SignedTerm → List Int → List Outcome
  | [], _ => []
  | signed :: rest, faces =>
    ⟨signed, signed.shown (faces.take signed.requests.length)⟩ ::
      outcomesOf rest (faces.drop signed.requests.length)

/-- The exact sum of the terms, however large it is. -/
def exactTotal (terms : List SignedTerm) (faces : List Int) : Int :=
  ((outcomesOf terms faces).map fun outcome => outcome.value.amount).sum

theorem exactTotal_cons (signed : SignedTerm) (rest : List SignedTerm) (faces : List Int) :
    exactTotal (signed :: rest) faces =
      (signed.shown (faces.take signed.requests.length)).amount +
        exactTotal rest (faces.drop signed.requests.length) := by
  simp [exactTotal, outcomesOf]

theorem requestsOf_append (first second : List SignedTerm) :
    requestsOf (first ++ second) = requestsOf first ++ requestsOf second :=
  List.flatMap_append

theorem take_requestsOf_take (terms : List SignedTerm) (k : Nat) :
    (requestsOf terms).take (requestsOf (terms.take k)).length = requestsOf (terms.take k) := by
  conv_lhs => rw [← List.take_append_drop k terms, requestsOf_append]
  simp

/-- The requests up to a point within the `k`-th term. -/
theorem take_requestsOf {terms : List SignedTerm} {k j : Nat} {signed : SignedTerm}
    (hterm : terms[k]? = some signed) (hj : j ≤ signed.requests.length) :
    (requestsOf terms).take ((requestsOf (terms.take k)).length + j) =
      requestsOf (terms.take k) ++ signed.requests.take j := by
  obtain ⟨hk, hget⟩ := List.getElem?_eq_some_iff.mp hterm
  have hsplit : requestsOf terms =
      requestsOf (terms.take k) ++ (signed.requests ++ requestsOf (terms.drop (k + 1))) := by
    conv_lhs => rw [← List.take_append_drop k terms, List.drop_eq_getElem_cons hk, hget,
      requestsOf_append]
    rfl
  rw [hsplit, List.take_length_add_append, List.take_append_of_le_length hj]

/-- How many of the faces have been added when the sum first leaves the range. -/
def excess? (total : Int) : List Int → Option Nat
  | [] => none
  | face :: faces =>
    if InRange (total + face) then (excess? (total + face) faces).map (· + 1) else some 1

/-- The end of a roll by an overflow, after so many draws. -/
structure Breach where
  draws : Nat
  error : DiceError

/-- The same breach with draws before it. -/
def Breach.later (draws : Nat) (breach : Breach) : Breach := ⟨breach.draws + draws, breach.error⟩

def Term.breach? : Term → List Int → Option Breach
  | dice pool, faces => (excess? 0 faces).map (⟨·, .rollTooHigh pool⟩)
  | constant _, _ => none

/-- Under a minus an overflow is one in the opposite direction. -/
def Sign.adjust : Sign → DiceError → DiceError
  | plus, error => error
  | minus, error => error.opposite

def SignedTerm.breach? (signed : SignedTerm) (faces : List Int) : Option Breach :=
  (signed.term.breach? faces).map fun breach => ⟨breach.draws, signed.sign.adjust breach.error⟩

/-- The first breach on top of a running total.  A term whose faces have not all been drawn
has no value yet. -/
def breach? (total : Int) : List SignedTerm → List Int → Option Breach
  | [], _ => none
  | signed :: rest, faces =>
    let own := faces.take signed.requests.length
    let sum := total + (signed.shown own).amount
    match signed.breach? own with
    | some breach => some breach
    | none =>
      if own.length < signed.requests.length then none
      else if InRange sum then
        (breach? sum rest (faces.drop signed.requests.length)).map
          (Breach.later signed.requests.length)
      else
        some ⟨signed.requests.length, .totalOutOfRange signed (signed.shown own).amount⟩

variable {σ α : Type}

/-- How a roll ends that makes the requests and has the given breach or else the given value:
in the breach, or with the failure of the source, or well. -/
def settle (source : Source σ) (feed : Feed σ) (requests : List Nat) (breach : Option Breach)
    (value : α) : EStateM.Result Fault (Feed σ) α :=
  match breach with
  | some breach =>
    .error (.refused breach.error) (feed.after source (requests.take breach.draws))
  | none =>
    match (source.replies requests feed.state).failure with
    | some failure => .error (.source failure) (feed.after source requests)
    | none => .ok value (feed.after source requests)

section

variable {source : Source σ} {feed : Feed σ} {value : α}

theorem settle_nil (source : Source σ) (feed : Feed σ) (value : α) :
    settle source feed [] none value = .ok value feed := by
  simp [settle, Source.replies, Feed.after_nil]

theorem settle_of_answered {requests : List Nat}
    (h : (source.replies requests feed.state).failure = none) :
    settle source feed requests none value = .ok value (feed.after source requests) := by
  simp [settle, h]

theorem settle_of_failed {requests : List Nat} {failure : SourceFailure}
    (h : (source.replies requests feed.state).failure = some failure) :
    settle source feed requests none value =
      .error (.source failure) (feed.after source requests) := by
  simp [settle, h]

theorem settle_cons_of_ok {sides : Nat} {requests : List Nat} {next : σ} {face : Int}
    (h : source.answer sides feed.state = .ok face next) (breach : Option Breach) :
    settle source feed (sides :: requests) (breach.map (Breach.later 1)) value =
      settle source ⟨next, feed.requests.push sides⟩ requests breach value := by
  cases breach with
  | none => simp [settle, Source.replies_cons_of_ok h, Feed.after_cons_of_ok h]
  | some breach => simp [settle, Breach.later, Feed.after_cons_of_ok h]

theorem settle_append_of_answered {first second : List Nat}
    (h : (source.replies first feed.state).failure = none) (breach : Option Breach) :
    settle source feed (first ++ second) (breach.map (Breach.later first.length)) value =
      settle source (feed.after source first) second breach value := by
  cases breach with
  | none =>
      simp [settle, Source.replies_append_of_answered h, Feed.after_append_of_answered h,
        Feed.state_after]
  | some breach =>
      have htake : (first ++ second).take (breach.draws + first.length) =
          first ++ second.take breach.draws := by
        rw [Nat.add_comm, List.take_length_add_append]
      simp [settle, Breach.later, htake, Feed.after_append_of_answered h]

theorem drawFaces_eq_settle (source : Source σ) (dice : Dice) (n : Nat) (total : Int)
    (drawn : List Int) (feed : Feed σ) :
    dice.drawFaces source n total drawn feed =
      settle source feed (List.replicate n dice.sides.val)
        ((excess? total
          (source.replies (List.replicate n dice.sides.val) feed.state).faces).map
            (⟨·, .rollTooHigh dice⟩))
        (total + (source.replies (List.replicate n dice.sides.val) feed.state).faces.sum,
          drawn.reverse ++
            (source.replies (List.replicate n dice.sides.val) feed.state).faces) := by
  induction n generalizing total drawn feed with
  | zero => simp [Dice.drawFaces, Source.replies, excess?, settle_nil]
  | succ n ih =>
      rw [List.replicate_succ, Dice.drawFaces]
      cases hanswer : source.answer dice.sides.val feed.state with
      | error failure next =>
          simp [Source.draw, hanswer, settle, Source.replies_cons_of_error hanswer, excess?,
            Feed.after_cons_of_error hanswer]
      | ok face next =>
          by_cases hrange : InRange (total + face)
          · have hsum := checkedAdd_eq_some_iff.mpr ⟨rfl, hrange⟩
            simp only [Source.draw, hanswer, hsum, Source.replies_cons_of_ok hanswer]
            rw [ih, ← settle_cons_of_ok hanswer, excess?, if_pos hrange, Option.map_map,
              Option.map_map, List.sum_cons, Int.add_assoc, List.reverse_cons,
              List.append_assoc]
            rfl
          · have hsum := checkedAdd_eq_none_iff.mpr hrange
            simp [Source.draw, hanswer, hsum, settle, Source.replies_cons_of_ok hanswer,
              excess?, hrange, Feed.after_cons_of_ok hanswer, Feed.after_nil]

theorem Dice.roll_eq_settle (source : Source σ) (dice : Dice) (feed : Feed σ) :
    dice.roll source feed =
      settle source feed dice.requests
        ((Term.dice dice).breach? (source.replies dice.requests feed.state).faces)
        (SignedTerm.shown ⟨.plus, .dice dice⟩
          (source.replies dice.requests feed.state).faces) := by
  by_cases hone : dice.OneSided
  · simp [Dice.roll, hone, Dice.requests, SignedTerm.shown, Term.breach?, excess?,
      Source.replies, settle_nil]
  · simp only [Dice.roll, Dice.drawAll, drawFaces_eq_settle, Dice.requests, Term.breach?,
      SignedTerm.shown, if_neg hone, List.reverse_nil, List.nil_append, Int.zero_add]
    let replies := source.replies (List.replicate dice.count.val dice.sides.val) feed.state
    unfold settle
    cases excess? 0 replies.faces with
    | some draws => rfl
    | none => cases replies.failure <;> rfl

/-- The sign leaves the parts of a value alone. -/
theorem SignedTerm.shown_eq_mul (sign : Sign) (term : Term) (faces : List Int) :
    SignedTerm.shown ⟨sign, term⟩ faces = sign * SignedTerm.shown ⟨.plus, term⟩ faces := by
  cases sign with
  | plus => rfl
  | minus =>
      cases term with
      | dice pool =>
          simp only [shown]
          split <;> rfl
      | constant value => rfl

theorem SignedTerm.roll_eq_settle (source : Source σ) (signed : SignedTerm) (feed : Feed σ) :
    signed.roll source feed =
      settle source feed signed.requests
        (signed.breach? (source.replies signed.requests feed.state).faces)
        (signed.shown (source.replies signed.requests feed.state).faces) := by
  obtain ⟨sign, term⟩ := signed
  have hterm : term.roll source feed =
      settle source feed term.requests
        (term.breach? (source.replies term.requests feed.state).faces)
        (SignedTerm.shown ⟨.plus, term⟩ (source.replies term.requests feed.state).faces) := by
    cases term with
    | dice pool => exact Dice.roll_eq_settle source pool feed
    | constant value => exact (settle_nil source feed _).symm
  rw [SignedTerm.roll_eq, hterm]
  simp only [settle, SignedTerm.breach?, SignedTerm.requests, SignedTerm.shown_eq_mul sign]
  cases term.breach? (source.replies term.requests feed.state).faces with
  | some breach => cases sign <;> rfl
  | none =>
      cases (source.replies term.requests feed.state).failure with
      | some failure => cases sign <;> rfl
      | none => rfl

theorem excess?_le_length {total : Int} {faces : List Int} {draws : Nat}
    (h : excess? total faces = some draws) : draws ≤ faces.length := by
  induction faces generalizing total draws with
  | nil => simp [excess?] at h
  | cons face faces ih =>
      rw [excess?] at h
      split at h
      · obtain ⟨draws, hdraws, rfl⟩ := Option.map_eq_some_iff.mp h
        simpa using ih hdraws
      · obtain rfl := Option.some.inj h
        simp

theorem SignedTerm.breach?_draws_le {signed : SignedTerm} {faces : List Int} {breach : Breach}
    (h : signed.breach? faces = some breach) : breach.draws ≤ faces.length := by
  obtain ⟨breach, hbreach, rfl⟩ := Option.map_eq_some_iff.mp h
  unfold Term.breach? at hbreach
  split at hbreach
  · obtain ⟨draws, hdraws, rfl⟩ := Option.map_eq_some_iff.mp hbreach
    exact excess?_le_length hdraws
  · simp at hbreach

/-- Rolling terms one by one comes to the verdict on all of them. -/
theorem rollTerms_eq_settle (source : Source σ) (total : Int) (terms : List SignedTerm)
    (feed : Feed σ) :
    rollTerms source total terms feed =
      settle source feed (requestsOf terms)
        (breach? total terms (source.replies (requestsOf terms) feed.state).faces)
        ⟨outcomesOf terms (source.replies (requestsOf terms) feed.state).faces,
          total + exactTotal terms (source.replies (requestsOf terms) feed.state).faces⟩ := by
  induction terms generalizing total feed with
  | nil => simp [rollTerms_nil, requestsOf, breach?, outcomesOf, exactTotal, settle_nil]
  | cons signed rest ih =>
      have hrequests : requestsOf (signed :: rest) = signed.requests ++ requestsOf rest := rfl
      rw [hrequests, rollTerms_cons, signed.roll_eq_settle]
      simp only [breach?, outcomesOf, Source.take_faces_append]
      cases hbreach : signed.breach? (source.replies signed.requests feed.state).faces with
      | some breach =>
          have hdraws : breach.draws ≤ signed.requests.length :=
            Nat.le_trans (SignedTerm.breach?_draws_le hbreach) (Source.length_faces_le ..)
          simp [settle, List.take_append_of_le_length hdraws]
      | none =>
          cases hfailure : (source.replies signed.requests feed.state).failure with
          | some failure =>
              simp only [Source.length_faces_lt hfailure, if_true]
              rw [settle_of_failed hfailure, settle_of_failed
                ((congrArg Replies.failure (Source.replies_append_of_failed hfailure)).trans
                  hfailure), Feed.after_append_of_failed hfailure]
          | none =>
              have hlength := Source.failure_eq_none_iff.mp hfailure
              rw [settle_of_answered hfailure, hlength, if_neg (Nat.lt_irrefl _),
                Source.drop_faces_append hfailure]
              by_cases hrange : InRange (total +
                  (signed.shown (source.replies signed.requests feed.state).faces).amount)
              · have hsum := checkedAdd_eq_some_iff.mpr ⟨rfl, hrange⟩
                simp only [hsum, if_pos hrange]
                rw [settle_append_of_answered hfailure, ih, exactTotal_cons,
                  Source.take_faces_append, Source.drop_faces_append hfailure,
                  ← Int.add_assoc]
                simp only [settle, Feed.state_after]
                generalize source.replies (requestsOf rest)
                  (source.replies signed.requests feed.state).state = later
                cases breach? (total + (signed.shown (source.replies signed.requests
                  feed.state).faces).amount) rest later.faces with
                | some breach => rfl
                | none => cases later.failure <;> rfl
              · have hsum := checkedAdd_eq_none_iff.mpr hrange
                simp [hsum, hrange, settle]

theorem Expression.evaluate_eq_settle (source : Source σ) (e : Expression) (feed : Feed σ) :
    e.evaluate source feed =
      settle source feed e.requests
        (breach? 0 e.terms (source.replies e.requests feed.state).faces)
        ⟨outcomesOf e.terms (source.replies e.requests feed.state).faces,
          exactTotal e.terms (source.replies e.requests feed.state).faces⟩ := by
  have h := rollTerms_eq_settle source 0 e.terms feed
  rw [Int.zero_add] at h
  exact h

theorem settle_eq_ok_iff {requests : List Nat} {breach : Option Breach} {result : α}
    {last : Feed σ} :
    settle source feed requests breach value = .ok result last ↔
      breach = none ∧ (source.replies requests feed.state).failure = none ∧ value = result ∧
        feed.after source requests = last := by
  cases breach with
  | some breach => simp [settle]
  | none =>
      cases hfailure : (source.replies requests feed.state).failure with
      | some failure => simp [settle_of_failed hfailure]
      | none => simp [settle_of_answered hfailure]

/-- An evaluation succeeds when the source answers all requests and no sum leaves the range;
the result is told from the faces, and all requests have been made. -/
theorem Expression.evaluate_eq_ok_iff {e : Expression} {result : Result} {last : Feed σ} :
    e.evaluate source feed = .ok result last ↔
      breach? 0 e.terms (source.replies e.requests feed.state).faces = none ∧
        (source.replies e.requests feed.state).failure = none ∧
        ⟨outcomesOf e.terms (source.replies e.requests feed.state).faces,
          exactTotal e.terms (source.replies e.requests feed.state).faces⟩ = result ∧
        feed.after source e.requests = last := by
  rw [evaluate_eq_settle, settle_eq_ok_iff]

end

end TabletopDice
