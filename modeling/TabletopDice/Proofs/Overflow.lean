/-
Where a roll overflows, told in exact arithmetic and in terms of the faces alone.  A term
overflows when its own faces add up to too much, or when the exact sum of the terms up to it
is out of range; a roll stops at the first term that does.
-/
import Mathlib.Data.Nat.Find
import TabletopDice.Proofs.Verdict
import TabletopDice.Source.Generator

namespace TabletopDice

/-- The faces drawn for the `k`-th term, as far as there are any. -/
def facesAt : List SignedTerm → List Int → Nat → List Int
  | [], _, _ => []
  | signed :: _, faces, 0 => faces.take signed.requests.length
  | signed :: rest, faces, k + 1 => facesAt rest (faces.drop signed.requests.length) k

/-- The first `j` faces of the `k`-th term add up to more than 64 bits hold. -/
def RollExceeds (terms : List SignedTerm) (faces : List Int) (k j : Nat) : Prop :=
  0x7fffffffffffffff < ((facesAt terms faces k).take j).sum

/-- All faces of the terms up to the `k`-th are there, and on top of the total the exact sum
of these terms is out of range. -/
def SumLeaves (total : Int) (terms : List SignedTerm) (faces : List Int) (k : Nat) : Prop :=
  k < terms.length ∧ (requestsOf (terms.take (k + 1))).length ≤ faces.length ∧
    ¬ InRange (total + exactTotal (terms.take (k + 1)) faces)

def Overflows (total : Int) (terms : List SignedTerm) (faces : List Int) (k : Nat) : Prop :=
  (∃ j, RollExceeds terms faces k j) ∨ SumLeaves total terms faces k

/-- The `k`-th term overflows and no earlier one does. -/
def OverflowsFirst (terms : List SignedTerm) (faces : List Int) (k : Nat) : Prop :=
  Overflows 0 terms faces k ∧ ∀ i < k, ¬ Overflows 0 terms faces i

/-- The kind of overflow of dice under a sign. -/
def Sign.overflow : Sign → ErrorKind
  | plus => .overflowPositive
  | minus => .overflowNegative

theorem Sign.overflow_eq_or (sign : Sign) :
    sign.overflow = .overflowPositive ∨ sign.overflow = .overflowNegative := by
  cases sign <;> simp [overflow]

theorem exists_first {p : Nat → Prop} (h : ∃ k, p k) : ∃ k, p k ∧ ∀ i < k, ¬ p i := by
  classical exact ⟨Nat.find h, Nat.find_spec h, fun _ => Nat.find_min h⟩

/-- The breach is where the faces first add up to too much, if none of them is negative. -/
theorem excess?_of_first {total : Int} {faces : List Int} {j : Nat}
    (hfaces : ∀ face ∈ faces, 0 ≤ face) (htotal : InRange total)
    (hexceeds : 0x7fffffffffffffff < total + (faces.take j).sum)
    (hfirst : ∀ i < j, ¬ 0x7fffffffffffffff < total + (faces.take i).sum) :
    excess? total faces = some j := by
  induction faces generalizing total j with
  | nil =>
      simp only [List.take_nil, List.sum_nil] at hexceeds
      have hle := htotal.2
      omega
  | cons face faces ih =>
      have hface := hfaces face List.mem_cons_self
      cases j with
      | zero =>
          simp only [List.take_zero, List.sum_nil] at hexceeds
          have hle := htotal.2
          omega
      | succ j =>
          simp only [List.take_succ_cons, List.sum_cons, ← Int.add_assoc] at hexceeds
          by_cases hrange : InRange (total + face)
          · have hrest : excess? (total + face) faces = some j := by
              apply ih (fun other hother => hfaces other (List.mem_cons_of_mem face hother))
                hrange hexceeds
              intro i hi
              simpa [Int.add_assoc] using hfirst (i + 1) (Nat.succ_lt_succ hi)
            simp [excess?, hrange, hrest]
          · have hzero : j = 0 := by
              by_contra hne
              have hone := hfirst 1 (by omega)
              simp only [List.take_succ_cons, List.take_zero, List.sum_cons, List.sum_nil] at hone
              have hge := htotal.1
              apply hrange
              constructor <;> omega
            simp [excess?, hrange, hzero]

theorem excess?_eq_none {total : Int} {faces : List Int}
    (hfaces : ∀ face ∈ faces, 0 ≤ face) (htotal : InRange total)
    (h : ∀ j, ¬ 0x7fffffffffffffff < total + (faces.take j).sum) :
    excess? total faces = none := by
  induction faces generalizing total with
  | nil => rfl
  | cons face faces ih =>
      have hface := hfaces face List.mem_cons_self
      have hone := h 1
      simp only [List.take_succ_cons, List.take_zero, List.sum_cons, List.sum_nil] at hone
      have hrange : InRange (total + face) := by
        have hge := htotal.1
        constructor <;> omega
      have hrest : excess? (total + face) faces = none := by
        apply ih (fun other hother => hfaces other (List.mem_cons_of_mem face hother)) hrange
        intro j
        simpa [Int.add_assoc] using h (j + 1)
      simp [excess?, hrange, hrest]

namespace SignedTerm

variable {signed : SignedTerm} {faces : List Int}

theorem breach?_of_excess {j : Nat} (hlength : faces.length ≤ signed.requests.length)
    (h : excess? 0 faces = some j) :
    ∃ error, signed.breach? faces = some ⟨j, error⟩ ∧ error.kind = signed.sign.overflow := by
  obtain ⟨sign, term⟩ := signed
  cases term with
  | constant value =>
      have hnil : faces = [] := List.length_eq_zero_iff.mp (Nat.le_zero.mp hlength)
      simp [hnil, excess?] at h
  | dice pool =>
      refine ⟨sign.adjust (.rollTooHigh pool), ?_, ?_⟩
      · simp [breach?, Term.breach?, h]
      · cases sign <;> rfl

theorem breach?_eq_none (h : excess? 0 faces = none) : signed.breach? faces = none := by
  obtain ⟨sign, term⟩ := signed
  cases term with
  | constant value => rfl
  | dice pool => simp [breach?, Term.breach?, h]

end SignedTerm

theorem facesAt_nil (terms : List SignedTerm) (k : Nat) : facesAt terms [] k = [] := by
  induction terms generalizing k with
  | nil => simp [facesAt]
  | cons signed rest ih => cases k <;> simp [facesAt, ih]

theorem RollExceeds.lt_length {terms : List SignedTerm} {faces : List Int} {k j : Nat}
    (h : RollExceeds terms faces k j) : k < terms.length := by
  induction terms generalizing faces k with
  | nil => simp [RollExceeds, facesAt] at h
  | cons signed rest ih =>
      cases k with
      | zero => simp
      | succ k => simpa using ih h

theorem Overflows.lt_length {total : Int} {terms : List SignedTerm} {faces : List Int}
    {k : Nat} (h : Overflows total terms faces k) : k < terms.length := by
  rcases h with ⟨j, hexceeds⟩ | hleaves
  · exact hexceeds.lt_length
  · exact hleaves.1

section

variable {total : Int} {signed : SignedTerm} {rest : List SignedTerm} {faces : List Int}
  {k : Nat}

theorem sumLeaves_zero_iff :
    SumLeaves total (signed :: rest) faces 0 ↔
      signed.requests.length ≤ faces.length ∧
        ¬ InRange (total + (signed.shown (faces.take signed.requests.length)).amount) := by
  simp [SumLeaves, requestsOf, exactTotal, outcomesOf]

theorem sumLeaves_succ_iff (hlength : signed.requests.length ≤ faces.length) :
    SumLeaves total (signed :: rest) faces (k + 1) ↔
      SumLeaves (total + (signed.shown (faces.take signed.requests.length)).amount) rest
        (faces.drop signed.requests.length) k := by
  have hrequests : (requestsOf ((signed :: rest).take (k + 1 + 1))).length =
      signed.requests.length + (requestsOf (rest.take (k + 1))).length := by
    simp [requestsOf]
  rw [SumLeaves, SumLeaves, hrequests, List.take_succ_cons, exactTotal_cons, Int.add_assoc,
    List.length_drop, List.length_cons]
  constructor
  · rintro ⟨hk, hle, hout⟩
    exact ⟨by omega, by omega, hout⟩
  · rintro ⟨hk, hle, hout⟩
    exact ⟨by omega, by omega, hout⟩

theorem overflows_succ_iff (hlength : signed.requests.length ≤ faces.length) :
    Overflows total (signed :: rest) faces (k + 1) ↔
      Overflows (total + (signed.shown (faces.take signed.requests.length)).amount) rest
        (faces.drop signed.requests.length) k := by
  rw [Overflows, sumLeaves_succ_iff hlength]
  rfl

theorem not_overflows_rest (hlength : signed.requests.length ≤ faces.length)
    (h : ∀ i < k + 1, ¬ Overflows total (signed :: rest) faces i) :
    ∀ i < k, ¬ Overflows
      (total + (signed.shown (faces.take signed.requests.length)).amount) rest
      (faces.drop signed.requests.length) i := by
  intro i hi hover
  exact h (i + 1) (by omega) ((overflows_succ_iff hlength).mpr hover)

/-- Behind a term without all of its faces nothing overflows. -/
theorem Overflows.length_le (h : Overflows total (signed :: rest) faces (k + 1)) :
    signed.requests.length ≤ faces.length := by
  rcases h with ⟨j, hexceeds⟩ | ⟨_, hle, _⟩
  · by_contra hlt
    have hdrop : faces.drop signed.requests.length = [] :=
      List.drop_eq_nil_of_le (by omega)
    simp [RollExceeds, facesAt, hdrop, facesAt_nil] at hexceeds
  · simp only [List.take_succ_cons, requestsOf, List.flatMap_cons, List.length_append] at hle
    omega

theorem breach?_own_eq_none (hfaces : ∀ face ∈ faces, 0 ≤ face)
    (h : ¬ Overflows total (signed :: rest) faces 0) :
    signed.breach? (faces.take signed.requests.length) = none := by
  apply SignedTerm.breach?_eq_none
  apply excess?_eq_none (fun face hface => hfaces face (List.mem_of_mem_take hface)) (by decide)
  intro j hexceeds
  rw [Int.zero_add] at hexceeds
  exact h (.inl ⟨j, hexceeds⟩)

theorem inRange_of_not_overflows (hlength : signed.requests.length ≤ faces.length)
    (h : ¬ Overflows total (signed :: rest) faces 0) :
    InRange (total + (signed.shown (faces.take signed.requests.length)).amount) := by
  by_contra hout
  exact h (.inr (sumLeaves_zero_iff.mpr ⟨hlength, hout⟩))

/-- A term that does not overflow leaves the verdict to the later ones. -/
theorem breach?_cons_of_not_overflows (hfaces : ∀ face ∈ faces, 0 ≤ face)
    (hlength : signed.requests.length ≤ faces.length)
    (h : ¬ Overflows total (signed :: rest) faces 0) :
    breach? total (signed :: rest) faces =
      (breach? (total + (signed.shown (faces.take signed.requests.length)).amount) rest
        (faces.drop signed.requests.length)).map (Breach.later signed.requests.length) := by
  have hown : ¬ (faces.take signed.requests.length).length < signed.requests.length := by
    rw [List.length_take_of_le hlength]
    omega
  simp only [breach?, breach?_own_eq_none hfaces h, if_neg hown,
    if_pos (inRange_of_not_overflows hlength h)]

end

section

variable {total : Int} {terms : List SignedTerm} {faces : List Int} {k : Nat}

/-- The first excess lies within the term and within the faces. -/
theorem RollExceeds.first_le {signed : SignedTerm} {j : Nat} (hterm : terms[k]? = some signed)
    (hexceeds : RollExceeds terms faces k j) (hfirst : ∀ i < j, ¬ RollExceeds terms faces k i) :
    j ≤ signed.requests.length ∧
      (requestsOf (terms.take k)).length + j ≤ faces.length := by
  induction terms generalizing faces k with
  | nil => simp at hterm
  | cons first rest ih =>
      cases k with
      | zero =>
          obtain rfl : first = signed := by simpa using hterm
          have hle : j ≤ (faces.take first.requests.length).length := by
            by_contra hlt
            apply hfirst _ (Nat.lt_of_not_le hlt)
            rw [RollExceeds, facesAt, List.take_of_length_le (by omega)] at hexceeds
            rwa [RollExceeds, facesAt, List.take_length]
          rw [List.length_take] at hle
          constructor
          · omega
          · simp only [List.take_zero, requestsOf, List.flatMap_nil, List.length_nil]
            omega
      | succ k =>
          have hlength : first.requests.length ≤ faces.length :=
            Overflows.length_le (.inl ⟨j, hexceeds⟩ : Overflows 0 (first :: rest) faces (k + 1))
          obtain ⟨hown, hall⟩ := ih hterm hexceeds hfirst
          rw [List.length_drop] at hall
          refine ⟨hown, ?_⟩
          simp only [List.take_succ_cons, requestsOf, List.flatMap_cons, List.length_append]
            at hall ⊢
          omega

/-- The first term that overflows does so in its own roll: the breach is at the face with
which the roll is too much. -/
theorem breach?_of_rollExceeds {signed : SignedTerm} {j : Nat}
    (hfaces : ∀ face ∈ faces, 0 ≤ face) (hterm : terms[k]? = some signed)
    (hearlier : ∀ i < k, ¬ Overflows total terms faces i)
    (hexceeds : RollExceeds terms faces k j) (hfirst : ∀ i < j, ¬ RollExceeds terms faces k i) :
    ∃ error, breach? total terms faces =
        some ⟨(requestsOf (terms.take k)).length + j, error⟩ ∧
      error.kind = signed.sign.overflow := by
  induction terms generalizing total faces k with
  | nil => simp at hterm
  | cons first rest ih =>
      cases k with
      | zero =>
          obtain rfl : first = signed := by simpa using hterm
          have hexcess : excess? 0 (faces.take first.requests.length) = some j := by
            apply excess?_of_first
              (fun face hface => hfaces face (List.mem_of_mem_take hface)) (by decide)
            · simpa [RollExceeds, facesAt] using hexceeds
            · simpa [RollExceeds, facesAt] using hfirst
          obtain ⟨error, hbreach, hkind⟩ :=
            SignedTerm.breach?_of_excess (List.length_take_le ..) hexcess
          refine ⟨error, ?_, hkind⟩
          simp [breach?, hbreach, requestsOf]
      | succ k =>
          have hlength : first.requests.length ≤ faces.length :=
            Overflows.length_le (.inl ⟨j, hexceeds⟩ : Overflows total _ faces (k + 1))
          obtain ⟨error, hbreach, hkind⟩ :=
            ih (fun face hface => hfaces face (List.mem_of_mem_drop hface)) hterm
              (not_overflows_rest hlength hearlier) hexceeds hfirst
          refine ⟨error, ?_, hkind⟩
          rw [breach?_cons_of_not_overflows hfaces hlength (hearlier 0 (by omega)), hbreach]
          simp [Breach.later, requestsOf]
          omega

/-- The kind of the error follows from the value that was added, and from it the side on
which the range is left. -/
theorem totalOutOfRange_kind {signed : SignedTerm} {value : Int} (htotal : InRange total) :
    (0x7fffffffffffffff < total + value →
        (DiceError.totalOutOfRange signed value).kind = .overflowPositive) ∧
      (total + value < -0x8000000000000000 →
        (DiceError.totalOutOfRange signed value).kind = .overflowNegative) := by
  obtain ⟨hge, hle⟩ := htotal
  by_cases hvalue : 0 < value
  · rw [DiceError.totalOutOfRange, if_pos hvalue]
    refine ⟨fun _ => rfl, ?_⟩
    omega
  · rw [DiceError.totalOutOfRange, if_neg hvalue]
    refine ⟨?_, fun _ => rfl⟩
    omega

/-- The first term that overflows does so in the sum: the breach is behind all its faces. -/
theorem breach?_of_sumLeaves (hfaces : ∀ face ∈ faces, 0 ≤ face) (htotal : InRange total)
    (hearlier : ∀ i < k, ¬ Overflows total terms faces i)
    (hrolls : ∀ j, ¬ RollExceeds terms faces k j) (hleaves : SumLeaves total terms faces k) :
    ∃ error, breach? total terms faces =
        some ⟨(requestsOf (terms.take (k + 1))).length, error⟩ ∧
      (0x7fffffffffffffff < total + exactTotal (terms.take (k + 1)) faces →
        error.kind = .overflowPositive) ∧
      (total + exactTotal (terms.take (k + 1)) faces < -0x8000000000000000 →
        error.kind = .overflowNegative) := by
  induction terms generalizing total faces k with
  | nil => simp [SumLeaves] at hleaves
  | cons first rest ih =>
      cases k with
      | zero =>
          obtain ⟨hlength, hout⟩ := sumLeaves_zero_iff.mp hleaves
          have hexcess : excess? 0 (faces.take first.requests.length) = none := by
            apply excess?_eq_none
              (fun face hface => hfaces face (List.mem_of_mem_take hface)) (by decide)
            simpa [RollExceeds, facesAt] using hrolls
          have hown : ¬ (faces.take first.requests.length).length < first.requests.length := by
            rw [List.length_take_of_le hlength]
            omega
          refine ⟨.totalOutOfRange first
            (first.shown (faces.take first.requests.length)).amount, ?_, ?_⟩
          · simp only [breach?, SignedTerm.breach?_eq_none hexcess, if_neg hown, if_neg hout]
            simp [requestsOf]
          · simpa [exactTotal, outcomesOf] using totalOutOfRange_kind htotal
      | succ k =>
          have hlength : first.requests.length ≤ faces.length :=
            Overflows.length_le (.inr hleaves)
          have hzero := hearlier 0 (by omega)
          obtain ⟨error, hbreach, hkind⟩ :=
            ih (fun face hface => hfaces face (List.mem_of_mem_drop hface))
              (inRange_of_not_overflows hlength hzero) (not_overflows_rest hlength hearlier)
              hrolls ((sumLeaves_succ_iff hlength).mp hleaves)
          refine ⟨error, ?_, ?_⟩
          · rw [breach?_cons_of_not_overflows hfaces hlength hzero, hbreach]
            simp [Breach.later, requestsOf]
            omega
          · rwa [List.take_succ_cons, exactTotal_cons, ← Int.add_assoc]

theorem breach?_eq_none (hfaces : ∀ face ∈ faces, 0 ≤ face)
    (h : ∀ k, ¬ Overflows total terms faces k) : breach? total terms faces = none := by
  induction terms generalizing total faces with
  | nil => rfl
  | cons first rest ih =>
      by_cases hlength : first.requests.length ≤ faces.length
      · have hrest := ih (fun face hface => hfaces face (List.mem_of_mem_drop hface))
          (fun k hover => h (k + 1) ((overflows_succ_iff hlength).mpr hover))
        rw [breach?_cons_of_not_overflows hfaces hlength (h 0), hrest]
        rfl
      · have hown : (faces.take first.requests.length).length < first.requests.length := by
          rw [List.length_take]
          omega
        simp only [breach?, breach?_own_eq_none hfaces (h 0), if_pos hown]

end

namespace Expression

variable {σ : Type} {source : Source σ} {e : Expression} {feed : Feed σ}

/-- The faces that the source has for the dice of the expression. -/
def faces (e : Expression) (source : Source σ) (feed : Feed σ) : List Int :=
  (source.replies e.requests feed.state).faces

/-- The evaluation ends with an error of the kind, after the requests. -/
def RefusedAfter (e : Expression) (source : Source σ) (feed : Feed σ) (kind : ErrorKind)
    (requests : List Nat) : Prop :=
  ∃ error feed', e.evaluate source feed = .error (.refused error) feed' ∧ error.kind = kind ∧
    feed'.requests = feed.requests ++ requests.toArray

theorem faces_nonneg (hfair : source.FairOn e.requests feed.state) :
    ∀ face ∈ e.faces source feed, 0 ≤ face := by
  intro face hface
  have hone := Source.one_le_of_fairOn hfair hface
  omega

theorem refusedAfter_of_breach {draws : Nat} {error : DiceError}
    (hdraws : draws ≤ (e.faces source feed).length)
    (h : breach? 0 e.terms (e.faces source feed) = some ⟨draws, error⟩) :
    e.RefusedAfter source feed error.kind (e.requests.take draws) := by
  refine ⟨error, feed.after source (e.requests.take draws), ?_, rfl,
    Feed.requests_after_take hdraws⟩
  rw [faces] at h
  rw [evaluate_eq_settle, h]
  rfl

theorem refusedAfter_of_rollExceeds {k j : Nat} {signed : SignedTerm}
    (hfair : source.FairOn e.requests feed.state)
    (hfirst : OverflowsFirst e.terms (e.faces source feed) k)
    (hterm : e.terms[k]? = some signed)
    (hexceeds : RollExceeds e.terms (e.faces source feed) k j)
    (hleast : ∀ i < j, ¬ RollExceeds e.terms (e.faces source feed) k i) :
    e.RefusedAfter source feed signed.sign.overflow
      (requestsOf (e.terms.take k) ++ signed.requests.take j) := by
  obtain ⟨error, hbreach, hkind⟩ :=
    breach?_of_rollExceeds (faces_nonneg hfair) hterm hfirst.2 hexceeds hleast
  obtain ⟨hown, hall⟩ := hexceeds.first_le hterm hleast
  rw [← hkind, ← take_requestsOf hterm hown]
  exact refusedAfter_of_breach hall hbreach

theorem refusedAfter_of_sumLeaves {k : Nat} (hfair : source.FairOn e.requests feed.state)
    (hfirst : OverflowsFirst e.terms (e.faces source feed) k)
    (hrolls : ∀ j, ¬ RollExceeds e.terms (e.faces source feed) k j) :
    (0x7fffffffffffffff < exactTotal (e.terms.take (k + 1)) (e.faces source feed) ∧
      e.RefusedAfter source feed .overflowPositive (requestsOf (e.terms.take (k + 1)))) ∨
    (exactTotal (e.terms.take (k + 1)) (e.faces source feed) < -0x8000000000000000 ∧
      e.RefusedAfter source feed .overflowNegative (requestsOf (e.terms.take (k + 1)))) := by
  have hleaves : SumLeaves 0 e.terms (e.faces source feed) k := by
    rcases hfirst.1 with ⟨j, hexceeds⟩ | hleaves
    · exact absurd hexceeds (hrolls j)
    · exact hleaves
  obtain ⟨error, hbreach, hhigh, hlow⟩ :=
    breach?_of_sumLeaves (faces_nonneg hfair) (by decide) hfirst.2 hrolls hleaves
  have hrefused := refusedAfter_of_breach hleaves.2.1 hbreach
  rw [requests, take_requestsOf_take] at hrefused
  have hout := hleaves.2.2
  rw [Int.zero_add] at hhigh hlow hout
  by_cases hpositive : 0x7fffffffffffffff < exactTotal (e.terms.take (k + 1)) (e.faces source feed)
  · rw [hhigh hpositive] at hrefused
    exact .inl ⟨hpositive, hrefused⟩
  · have hnegative : exactTotal (e.terms.take (k + 1)) (e.faces source feed) <
        -0x8000000000000000 := by
      by_contra hge
      apply hout
      constructor <;> omega
    rw [hlow hnegative] at hrefused
    exact .inr ⟨hnegative, hrefused⟩

/-- If no term overflows, all that can go wrong is that the source fails. -/
theorem evaluate_eq_of_not_overflows (hfair : source.FairOn e.requests feed.state)
    (h : ∀ k, ¬ Overflows 0 e.terms (e.faces source feed) k) :
    e.evaluate source feed =
      settle source feed e.requests none
        ⟨outcomesOf e.terms (e.faces source feed), exactTotal e.terms (e.faces source feed)⟩ := by
  rw [evaluate_eq_settle, ← faces, breach?_eq_none (faces_nonneg hfair) h]

/-- A roll with fair faces overflows exactly if some term does.  The first such term decides:
if its own faces add up to too much, the roll ends with the face at which they do, and its
sign gives the direction; otherwise the roll ends behind all its faces, and the direction is
that of the exact sum.  If no term overflows, either the source fails, and the roll ends with
the request at which it does, or there is a result. -/
theorem evaluate_overflow {σ : Type} (source : Source σ) (e : Expression) (feed : Feed σ)
    (hfair : source.FairOn e.requests feed.state) :
    ((∃ error feed', e.evaluate source feed = .error (.refused error) feed' ∧
        (error.kind = .overflowPositive ∨ error.kind = .overflowNegative)) ↔
      ∃ k, OverflowsFirst e.terms (e.faces source feed) k) ∧
    (∀ k, OverflowsFirst e.terms (e.faces source feed) k →
      ∃ signed, e.terms[k]? = some signed ∧
        (∀ j, RollExceeds e.terms (e.faces source feed) k j →
          (∀ i < j, ¬ RollExceeds e.terms (e.faces source feed) k i) →
          e.RefusedAfter source feed signed.sign.overflow
            (requestsOf (e.terms.take k) ++ signed.requests.take j)) ∧
        ((∀ j, ¬ RollExceeds e.terms (e.faces source feed) k j) →
          (0x7fffffffffffffff < exactTotal (e.terms.take (k + 1)) (e.faces source feed) ∧
            e.RefusedAfter source feed .overflowPositive (requestsOf (e.terms.take (k + 1)))) ∨
          (exactTotal (e.terms.take (k + 1)) (e.faces source feed) < -0x8000000000000000 ∧
            e.RefusedAfter source feed .overflowNegative
              (requestsOf (e.terms.take (k + 1)))))) ∧
    ((∀ k, ¬ Overflows 0 e.terms (e.faces source feed) k) →
      (∀ failure, (source.replies e.requests feed.state).failure = some failure →
        ∃ feed', e.evaluate source feed = .error (.source failure) feed' ∧
          feed'.requests = feed.requests ++
            (e.requests.take ((e.faces source feed).length + 1)).toArray) ∧
      ((source.replies e.requests feed.state).failure = none →
        ∃ result feed', e.evaluate source feed = .ok result feed')) := by
  refine ⟨⟨?_, ?_⟩, ?_, ?_⟩
  · rintro ⟨error, feed', hrefused, _⟩
    apply exists_first
    by_contra hnone
    rw [evaluate_eq_of_not_overflows hfair (not_exists.mp hnone)] at hrefused
    cases hfailure : (source.replies e.requests feed.state).failure with
    | some failure => simp [settle_of_failed hfailure] at hrefused
    | none => simp [settle_of_answered hfailure] at hrefused
  · rintro ⟨k, hfirst⟩
    by_cases hrolls : ∃ j, RollExceeds e.terms (e.faces source feed) k j
    · obtain ⟨j, hexceeds, hleast⟩ := exists_first hrolls
      have hterm := List.getElem?_eq_getElem hexceeds.lt_length
      obtain ⟨error, feed', hrefused, hkind, _⟩ :=
        refusedAfter_of_rollExceeds hfair hfirst hterm hexceeds hleast
      refine ⟨error, feed', hrefused, ?_⟩
      rw [hkind]
      exact Sign.overflow_eq_or _
    · rcases refusedAfter_of_sumLeaves hfair hfirst (not_exists.mp hrolls) with
        ⟨_, error, feed', hrefused, hkind, _⟩ | ⟨_, error, feed', hrefused, hkind, _⟩
      · exact ⟨error, feed', hrefused, .inl hkind⟩
      · exact ⟨error, feed', hrefused, .inr hkind⟩
  · intro k hfirst
    have hterm := List.getElem?_eq_getElem hfirst.1.lt_length
    refine ⟨_, hterm, ?_, refusedAfter_of_sumLeaves hfair hfirst⟩
    intro j hexceeds hleast
    exact refusedAfter_of_rollExceeds hfair hfirst hterm hexceeds hleast
  · intro hnone
    rw [evaluate_eq_of_not_overflows hfair hnone]
    constructor
    · intro failure hfailure
      exact ⟨_, settle_of_failed hfailure, rfl⟩
    · intro hfailure
      exact ⟨_, _, settle_of_answered hfailure⟩

/-- Dice of the largest size under a minus, behind a constant. -/
def steep : Expression where
  first := ⟨.plus, .constant ⟨9, by decide⟩⟩
  rest := [⟨.minus, .dice ⟨⟨3, by decide⟩, ⟨maxMagnitude, by decide⟩, by decide⟩⟩]

/-- The second of three faces is the last one drawn. -/
theorem steep_evaluate_overflow :
    Source.FairOn Generator.source steep.requests .highest ∧
      steep.RefusedAfter Generator.source ⟨.highest, #[]⟩ .overflowNegative
        [maxMagnitude, maxMagnitude] := by
  have hfaces : steep.faces Generator.source ⟨.highest, #[]⟩ =
      [(maxMagnitude : Int), maxMagnitude, maxMagnitude] := rfl
  have hfair : Source.FairOn Generator.source steep.requests .highest := by
    unfold Source.FairOn
    decide
  have hexceeds : RollExceeds steep.terms (steep.faces Generator.source ⟨.highest, #[]⟩) 1 2 := by
    rw [hfaces, RollExceeds]
    decide
  have hleast : ∀ i < 2,
      ¬ RollExceeds steep.terms (steep.faces Generator.source ⟨.highest, #[]⟩) 1 i := by
    rw [hfaces]
    unfold RollExceeds
    decide
  have hearlier : ∀ i < 1,
      ¬ Overflows 0 steep.terms (steep.faces Generator.source ⟨.highest, #[]⟩) i := by
    intro i hi
    obtain rfl : i = 0 := by omega
    rintro (⟨j, hroll⟩ | ⟨_, _, hout⟩)
    · have hnil : facesAt steep.terms
          (steep.faces Generator.source ⟨.highest, #[]⟩) 0 = [] := rfl
      simp [RollExceeds, hnil] at hroll
    · apply hout
      decide
  obtain ⟨signed, hterm, hroll, _⟩ :=
    (evaluate_overflow Generator.source steep ⟨.highest, #[]⟩ hfair).2.1 1
      ⟨.inl ⟨2, hexceeds⟩, hearlier⟩
  obtain rfl := Option.some.inj hterm
  exact ⟨hfair, hroll 2 hexceeds hleast⟩

end Expression

end TabletopDice
