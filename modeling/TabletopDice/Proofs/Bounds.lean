/-
Static bounds.  Without rolling it is known between which numbers each term and each sum of
first terms lies, and the bounds are exact: if all of them keep to the range no fair source
can make the roll overflow, and otherwise there is one that does.
-/
import Mathlib.Algebra.Order.BigOperators.Group.List
import TabletopDice.Proofs.Account
import TabletopDice.Proofs.Overflow

namespace TabletopDice

/-- The least that a term comes to, without its sign: a one for each die. -/
def Term.lowest : Term → Int
  | dice pool => pool.count.val
  | constant value => value.val

/-- The most that a term comes to: for each die as many as it has sides. -/
def Term.highest : Term → Int
  | dice pool =>
    if pool.OneSided then pool.count.val else (pool.count.val : Int) * (pool.sides.val : Int)
  | constant value => value.val

namespace SignedTerm

def lower (signed : SignedTerm) : Int :=
  match signed.sign with
  | .plus => signed.term.lowest
  | .minus => -signed.term.highest

def upper (signed : SignedTerm) : Int :=
  match signed.sign with
  | .plus => signed.term.highest
  | .minus => -signed.term.lowest

end SignedTerm

def lowerSum (terms : List SignedTerm) : Int := (terms.map SignedTerm.lower).sum

def upperSum (terms : List SignedTerm) : Int := (terms.map SignedTerm.upper).sum

/-- No dice can come to more than 64 bits hold, and no sum of first terms can leave the
range. -/
structure Expression.Bounded (e : Expression) : Prop where
  terms : ∀ signed ∈ e.terms, signed.term.highest ≤ 0x7fffffffffffffff
  sums : ∀ k, -0x8000000000000000 ≤ lowerSum (e.terms.take k) ∧
    upperSum (e.terms.take k) ≤ 0x7fffffffffffffff

/-- There are no more sums than terms to look at. -/
theorem Expression.bounded_iff {e : Expression} :
    e.Bounded ↔ (∀ signed ∈ e.terms, signed.term.highest ≤ 0x7fffffffffffffff) ∧
      ∀ k < e.terms.length + 1, -0x8000000000000000 ≤ lowerSum (e.terms.take k) ∧
        upperSum (e.terms.take k) ≤ 0x7fffffffffffffff := by
  constructor
  · rintro ⟨hterms, hsums⟩
    exact ⟨hterms, fun k _ => hsums k⟩
  · rintro ⟨hterms, hsums⟩
    refine ⟨hterms, ?_⟩
    intro k
    rw [List.take_eq_take_min]
    exact hsums _ (by omega)

instance (e : Expression) : Decidable e.Bounded :=
  decidable_of_iff' _ Expression.bounded_iff

/-- Each face is one of the die for which it is given. -/
def FairFaces (requests : List Nat) (faces : List Int) : Prop :=
  ∀ reply ∈ requests.zip faces, 1 ≤ reply.2 ∧ reply.2 ≤ (reply.1 : Int)

section

variable {first second requests : List Nat} {faces faces' : List Int} {sides : Nat}

theorem fairFaces_iff :
    FairFaces requests faces ↔
      ∀ (i sides : Nat) (face : Int), requests[i]? = some sides → faces[i]? = some face →
        1 ≤ face ∧ face ≤ (sides : Int) := by
  constructor
  · intro h i sides face hsides hface
    apply h (sides, face)
    exact List.mem_iff_getElem?.mpr ⟨i, List.getElem?_zip_eq_some.mpr ⟨hsides, hface⟩⟩
  · rintro h ⟨sides, face⟩ hreply
    obtain ⟨i, hi⟩ := List.mem_iff_getElem?.mp hreply
    obtain ⟨hsides, hface⟩ := List.getElem?_zip_eq_some.mp hi
    exact h i sides face hsides hface

/-- The faces of the first requests are fair. -/
theorem FairFaces.own (h : FairFaces (first ++ second) faces) :
    FairFaces first (faces.take first.length) := by
  rw [fairFaces_iff] at h ⊢
  intro i sides face hsides hface
  have hi : i < first.length := (List.getElem?_eq_some_iff.mp hsides).1
  rw [List.getElem?_take_of_lt hi] at hface
  exact h i sides face (by rwa [List.getElem?_append_left hi]) hface

/-- So are those that are left for the later ones. -/
theorem FairFaces.later (h : FairFaces (first ++ second) faces) :
    FairFaces second (faces.drop first.length) := by
  rw [fairFaces_iff] at h ⊢
  intro i sides face hsides hface
  rw [List.getElem?_drop] at hface
  refine h (first.length + i) sides face ?_ hface
  rw [List.getElem?_append_right (Nat.le_add_right _ _), Nat.add_sub_cancel_left, hsides]

/-- Faces that are left over do not matter. -/
theorem FairFaces.of_append (h : FairFaces (first ++ second) faces) : FairFaces first faces := by
  rw [fairFaces_iff] at h ⊢
  intro i sides face hsides hface
  have hi : i < first.length := (List.getElem?_eq_some_iff.mp hsides).1
  exact h i sides face (by rwa [List.getElem?_append_left hi]) hface

theorem FairFaces.take (h : FairFaces requests faces) (j : Nat) :
    FairFaces requests (faces.take j) := by
  rw [fairFaces_iff] at h ⊢
  intro i sides face hsides hface
  rw [List.getElem?_take] at hface
  split at hface
  · exact h i sides face hsides hface
  · simp at hface

theorem FairFaces.append (hfirst : FairFaces first faces) (hsecond : FairFaces second faces')
    (hlength : first.length = faces.length) : FairFaces (first ++ second) (faces ++ faces') := by
  intro reply hreply
  rw [List.zip_append hlength] at hreply
  exact (List.mem_append.mp hreply).elim (hfirst reply) (hsecond reply)

/-- The sum of faces of equal dice lies between their number and the sides for each. -/
theorem FairFaces.sum_bounds {count : Nat} (h : FairFaces (List.replicate count sides) faces)
    (hlength : faces.length ≤ count) :
    (faces.length : Int) ≤ faces.sum ∧ faces.sum ≤ (faces.length : Int) * (sides : Int) := by
  have hfaces : ∀ face ∈ faces, 1 ≤ face ∧ face ≤ (sides : Int) := by
    intro face hface
    obtain ⟨i, hi⟩ := List.mem_iff_getElem?.mp hface
    have hlt : i < count := Nat.lt_of_lt_of_le (List.getElem?_eq_some_iff.mp hi).1 hlength
    exact fairFaces_iff.mp h i sides face (by simp [hlt]) hi
  have hlow := List.card_nsmul_le_sum faces 1 fun face hface => (hfaces face hface).1
  have hhigh := List.sum_le_card_nsmul faces sides fun face hface => (hfaces face hface).2
  rw [nsmul_eq_mul] at hlow hhigh
  exact ⟨by simpa using hlow, hhigh⟩

end

namespace Term

theorem requests_of_drawn {pool : Dice} (h : ¬ pool.OneSided) :
    (dice pool).requests = List.replicate pool.count.val pool.sides.val :=
  if_neg h

theorem highest_of_drawn {pool : Dice} (h : ¬ pool.OneSided) :
    (dice pool).highest = (pool.count.val : Int) * (pool.sides.val : Int) :=
  if_neg h

/-- A term is drawn in equal dice, or it is settled without a draw. -/
theorem drawn_or_requests_eq_nil (term : Term) :
    (∃ pool : Dice, term = dice pool ∧ ¬ pool.OneSided) ∨ term.requests = [] := by
  rcases term with pool | value
  · by_cases hone : pool.OneSided
    · exact .inr (if_pos hone)
    · exact .inl ⟨pool, rfl, hone⟩
  · exact .inr rfl

theorem highest_nonneg (term : Term) : 0 ≤ term.highest := by
  rcases term with pool | value
  · rw [highest]
    split
    · exact Int.natCast_nonneg _
    · exact Int.mul_nonneg (Int.natCast_nonneg _) (Int.natCast_nonneg _)
  · exact Int.natCast_nonneg _

/-- No faces of a term, all of them or the first ones, add up to more than its bound. -/
theorem sum_le_highest {term : Term} {own : List Int} (hfair : FairFaces term.requests own)
    (hlength : own.length ≤ term.requests.length) : own.sum ≤ term.highest := by
  rcases term.drawn_or_requests_eq_nil with ⟨pool, rfl, hseveral⟩ | hnil
  · rw [requests_of_drawn hseveral] at hfair hlength
    rw [List.length_replicate] at hlength
    rw [highest_of_drawn hseveral]
    have hcount : (own.length : Int) ≤ (pool.count.val : Int) := Int.ofNat_le.mpr hlength
    exact Int.le_trans (hfair.sum_bounds hlength).2
      (Int.mul_le_mul_of_nonneg_right hcount (Int.natCast_nonneg _))
  · rw [hnil] at hlength
    rw [List.length_eq_zero_iff.mp (Nat.le_zero.mp hlength)]
    exact term.highest_nonneg

/-- Without its sign a term comes to no less and no more than its bounds say. -/
theorem amount_bounds {term : Term} {own : List Int} (hfair : FairFaces term.requests own)
    (hlength : own.length = term.requests.length) :
    term.lowest ≤ (SignedTerm.shown ⟨.plus, term⟩ own).amount ∧
      (SignedTerm.shown ⟨.plus, term⟩ own).amount ≤ term.highest := by
  rcases term with pool | value
  · by_cases hone : pool.OneSided
    · simp [SignedTerm.shown, lowest, highest, hone, Value.amount]
    · rw [requests_of_drawn hone] at hfair hlength
      rw [List.length_replicate] at hlength
      obtain ⟨hlow, hhigh⟩ := hfair.sum_bounds hlength.le
      rw [hlength] at hlow hhigh
      rw [highest_of_drawn hone]
      simpa [SignedTerm.shown, lowest, hone, Value.amount] using ⟨hlow, hhigh⟩
  · simp [SignedTerm.shown, lowest, highest, Value.amount]

end Term

namespace SignedTerm

theorem amount_eq (signed : SignedTerm) (own : List Int) :
    (signed.shown own).amount = signed.sign * (shown ⟨.plus, signed.term⟩ own).amount := by
  rw [← Value.amount_mul, ← shown_eq_mul]

theorem amount_bounds {signed : SignedTerm} {own : List Int}
    (hfair : FairFaces signed.requests own) (hlength : own.length = signed.requests.length) :
    signed.lower ≤ (signed.shown own).amount ∧ (signed.shown own).amount ≤ signed.upper := by
  obtain ⟨hlow, hhigh⟩ := Term.amount_bounds hfair hlength
  rw [amount_eq, lower, upper]
  rcases signed.sign
  · exact ⟨hlow, hhigh⟩
  · exact ⟨Int.neg_le_neg hhigh, Int.neg_le_neg hlow⟩

end SignedTerm

theorem lowerSum_cons (signed : SignedTerm) (rest : List SignedTerm) :
    lowerSum (signed :: rest) = signed.lower + lowerSum rest := by
  simp [lowerSum]

theorem upperSum_cons (signed : SignedTerm) (rest : List SignedTerm) :
    upperSum (signed :: rest) = signed.upper + upperSum rest := by
  simp [upperSum]

section

variable {terms : List SignedTerm} {faces : List Int} {k j : Nat}

theorem fairFaces_take (h : FairFaces (requestsOf terms) faces) (k : Nat) :
    FairFaces (requestsOf (terms.take k)) faces := by
  rw [← List.take_append_drop k terms, requestsOf_append] at h
  exact h.of_append

/-- The sum of fair faces lies between the sums of the bounds. -/
theorem exactTotal_bounds (hfair : FairFaces (requestsOf terms) faces)
    (hlength : (requestsOf terms).length ≤ faces.length) :
    lowerSum terms ≤ exactTotal terms faces ∧ exactTotal terms faces ≤ upperSum terms := by
  induction terms generalizing faces with
  | nil => simp [lowerSum, upperSum, exactTotal, outcomesOf]
  | cons signed rest ih =>
      have hsplit : signed.requests.length + (requestsOf rest).length ≤ faces.length := by
        simpa [requestsOf] using hlength
      have hown : (faces.take signed.requests.length).length = signed.requests.length :=
        List.length_take_of_le (by omega)
      have hlater : (requestsOf rest).length ≤ (faces.drop signed.requests.length).length := by
        rw [List.length_drop]
        omega
      obtain ⟨hlow, hhigh⟩ := SignedTerm.amount_bounds hfair.own hown
      obtain ⟨hlow', hhigh'⟩ := ih hfair.later hlater
      rw [exactTotal_cons, lowerSum_cons, upperSum_cons]
      exact ⟨Int.add_le_add hlow hlow', Int.add_le_add hhigh hhigh'⟩

/-- Fair faces of one term add up to too much only if the bound of the term is too high. -/
theorem RollExceeds.exists_highest (hfair : FairFaces (requestsOf terms) faces)
    (h : RollExceeds terms faces k j) :
    ∃ signed ∈ terms, 0x7fffffffffffffff < signed.term.highest := by
  induction terms generalizing faces k with
  | nil => simp [RollExceeds, facesAt] at h
  | cons signed rest ih =>
      cases k with
      | zero =>
          have hlength : ((faces.take signed.requests.length).take j).length ≤
              signed.requests.length :=
            Nat.le_trans (List.length_take_le' ..) (List.length_take_le ..)
          have hsum := Term.sum_le_highest (hfair.own.take j) hlength
          exact ⟨signed, List.mem_cons_self, Int.lt_of_lt_of_le h hsum⟩
      | succ k =>
          obtain ⟨other, hother, hhighest⟩ := ih hfair.later h
          exact ⟨other, List.mem_cons_of_mem signed hother, hhighest⟩

theorem Expression.Bounded.not_overflows {e : Expression} (h : e.Bounded)
    (hfair : FairFaces e.requests faces) : ¬ Overflows 0 e.terms faces k := by
  rintro (⟨j, hexceeds⟩ | ⟨_, hlength, hout⟩)
  · obtain ⟨signed, hsigned, hhighest⟩ := hexceeds.exists_highest hfair
    exact absurd (h.terms signed hsigned) (Int.not_le.mpr hhighest)
  · obtain ⟨hlow, hhigh⟩ := exactTotal_bounds (fairFaces_take hfair (k + 1)) hlength
    obtain ⟨hlower, hupper⟩ := h.sums (k + 1)
    rw [Int.zero_add] at hout
    exact hout ⟨Int.le_trans hlower hlow, Int.le_trans hhigh hupper⟩

end

-- What follows makes the faces that reach the bounds.

namespace SignedTerm

/-- Faces that push the sum towards one side as far as the dice of the term can: all of their
sides where the term has this sign, and ones where it has the other one. -/
def extremes (toward : Sign) (signed : SignedTerm) : List Int :=
  signed.requests.map fun sides : Nat => if signed.sign = toward then (sides : Int) else 1

variable {signed : SignedTerm} {toward : Sign}

theorem length_extremes (toward : Sign) (signed : SignedTerm) :
    (signed.extremes toward).length = signed.requests.length :=
  List.length_map _

/-- Only dice with several sides are asked for. -/
theorem exists_dice_of_mem_requests {sides : Nat} (h : sides ∈ signed.requests) :
    ∃ pool : Dice, ¬ pool.OneSided ∧ pool.sides.val = sides := by
  rcases signed.term.drawn_or_requests_eq_nil with ⟨pool, hterm, hseveral⟩ | hnil
  · rw [requests, hterm, Term.requests_of_drawn hseveral] at h
    exact ⟨pool, hseveral, (List.eq_of_mem_replicate h).symm⟩
  · rw [requests, hnil] at h
    simp at h

theorem one_le_of_mem_requests {sides : Nat} (h : sides ∈ signed.requests) : 1 ≤ sides := by
  obtain ⟨pool, _, rfl⟩ := exists_dice_of_mem_requests h
  exact pool.one_le_sides

theorem fairFaces_extremes (toward : Sign) (signed : SignedTerm) :
    FairFaces signed.requests (signed.extremes toward) := by
  rw [fairFaces_iff]
  intro i sides face hsides hface
  have hone := one_le_of_mem_requests (List.mem_of_getElem? hsides)
  rw [extremes, List.getElem?_map, hsides] at hface
  obtain rfl := Option.some.inj hface
  dsimp only
  split
  · exact ⟨by omega, Int.le_refl _⟩
  · exact ⟨Int.le_refl 1, by omega⟩

theorem amount_extremes_of_drawn {pool : Dice} (hterm : signed.term = .dice pool)
    (hseveral : ¬ pool.OneSided) (toward : Sign) :
    (signed.shown (signed.extremes toward)).amount =
      signed.sign * ((pool.count.val : Int) *
        (if signed.sign = toward then (pool.sides.val : Int) else 1)) := by
  simp [shown, hterm, hseveral, extremes, requests, Term.requests_of_drawn, Value.amount]

/-- Towards a plus a term reaches its upper bound. -/
theorem amount_extremes_plus (signed : SignedTerm) :
    (signed.shown (signed.extremes .plus)).amount = signed.upper := by
  obtain ⟨sign, pool | value⟩ := signed
  · by_cases hone : pool.OneSided
    · cases sign <;> simp [shown, upper, Term.highest, Term.lowest, hone, Value.amount]
    · rw [amount_extremes_of_drawn rfl hone]
      cases sign <;> simp [upper, Term.highest, Term.lowest, hone]
  · cases sign <;> simp [shown, upper, Term.highest, Term.lowest, Value.amount]

/-- Towards a minus it reaches its lower bound. -/
theorem amount_extremes_minus (signed : SignedTerm) :
    (signed.shown (signed.extremes .minus)).amount = signed.lower := by
  obtain ⟨sign, pool | value⟩ := signed
  · by_cases hone : pool.OneSided
    · cases sign <;> simp [shown, lower, Term.highest, Term.lowest, hone, Value.amount]
    · rw [amount_extremes_of_drawn rfl hone]
      cases sign <;> simp [lower, Term.highest, Term.lowest, hone]
  · cases sign <;> simp [shown, lower, Term.highest, Term.lowest, Value.amount]

/-- Towards its own sign it shows as much as it can, which is more than a constant or a
number of one-sided dice can ever be. -/
theorem sum_extremes_sign (h : 0x7fffffffffffffff < signed.term.highest) :
    (signed.extremes signed.sign).sum = signed.term.highest := by
  obtain ⟨sign, pool | value⟩ := signed
  · by_cases hone : pool.OneSided
    · have hcount := pool.count.val_le
      simp only [Term.highest, if_pos hone] at h
      unfold maxMagnitude at hcount
      omega
    · simp [extremes, requests, Term.requests_of_drawn hone, Term.highest_of_drawn hone]
  · have hvalue := value.val_le
    simp only [Term.highest] at h
    unfold maxMagnitude at hvalue
    omega

end SignedTerm

section

variable {terms : List SignedTerm} {toward : Sign} {k : Nat}

theorem length_flatMap_extremes (toward : Sign) (terms : List SignedTerm) :
    (terms.flatMap (SignedTerm.extremes toward)).length = (requestsOf terms).length := by
  simp [requestsOf, List.length_flatMap, SignedTerm.length_extremes]

theorem fairFaces_flatMap_extremes (toward : Sign) (terms : List SignedTerm) :
    FairFaces (requestsOf terms) (terms.flatMap (SignedTerm.extremes toward)) := by
  induction terms with
  | nil => simp [FairFaces, requestsOf]
  | cons signed rest ih =>
      exact (signed.fairFaces_extremes toward).append ih (signed.length_extremes toward).symm

/-- The sum of first terms is that of what each of them reaches. -/
theorem exactTotal_flatMap_extremes (toward : Sign) (terms : List SignedTerm)
    (more : List Int) :
    exactTotal terms (terms.flatMap (SignedTerm.extremes toward) ++ more) =
      (terms.map fun signed => (signed.shown (signed.extremes toward)).amount).sum := by
  induction terms with
  | nil => rfl
  | cons signed rest ih =>
      rw [exactTotal_cons, List.flatMap_cons, List.append_assoc, List.map_cons, List.sum_cons,
        ← signed.length_extremes toward, List.take_left, List.drop_left, ih]

theorem exactTotal_take_flatMap_extremes (toward : Sign) (terms : List SignedTerm) (k : Nat) :
    exactTotal (terms.take k) (terms.flatMap (SignedTerm.extremes toward)) =
      ((terms.take k).map fun signed => (signed.shown (signed.extremes toward)).amount).sum := by
  conv_lhs => rw [← List.take_append_drop k terms, List.flatMap_append]
  rw [List.take_append_drop]
  exact exactTotal_flatMap_extremes ..

theorem facesAt_flatMap_extremes {signed : SignedTerm} (h : terms[k]? = some signed) :
    facesAt terms (terms.flatMap (SignedTerm.extremes toward)) k = signed.extremes toward := by
  induction terms generalizing k with
  | nil => simp at h
  | cons first rest ih =>
      cases k with
      | zero =>
          obtain rfl : first = signed := by simpa using h
          rw [facesAt, List.flatMap_cons, ← first.length_extremes toward, List.take_left]
      | succ k =>
          rw [facesAt, List.flatMap_cons, ← first.length_extremes toward, List.drop_left]
          exact ih h

/-- A sum of first terms that is out of range is the sum up to some term. -/
theorem exists_sumLeaves {faces : List Int} (hlength : (requestsOf terms).length ≤ faces.length)
    (hout : ¬ InRange (exactTotal (terms.take k) faces)) : ∃ i, SumLeaves 0 terms faces i := by
  have hmin : terms.take (min k terms.length) = terms.take k := List.take_eq_take_min.symm
  rw [← hmin] at hout
  cases h : min k terms.length with
  | zero =>
      rw [h] at hout
      exact absurd (by decide : InRange 0) hout
  | succ i =>
      rw [h] at hout
      have hprefix : (requestsOf (terms.take (i + 1))).length ≤ (requestsOf terms).length := by
        rw [← take_requestsOf_take, List.length_take]
        exact Nat.min_le_right ..
      refine ⟨i, by omega, Nat.le_trans hprefix hlength, ?_⟩
      rwa [Int.zero_add]

/-- A term whose bound is too high overflows when it shows as much as it can. -/
theorem exists_overflows_of_highest {signed : SignedTerm} (hsigned : signed ∈ terms)
    (hhighest : 0x7fffffffffffffff < signed.term.highest) :
    ∃ k, Overflows 0 terms (terms.flatMap (SignedTerm.extremes signed.sign)) k := by
  obtain ⟨k, hk⟩ := List.mem_iff_getElem?.mp hsigned
  refine ⟨k, .inl ⟨(signed.extremes signed.sign).length, ?_⟩⟩
  rw [RollExceeds, facesAt_flatMap_extremes hk, List.take_length,
    SignedTerm.sum_extremes_sign hhighest]
  exact hhighest

/-- Sums that can leave the range do so when all faces push to one side. -/
theorem exists_overflows_of_sums (hout : ¬ (-0x8000000000000000 ≤ lowerSum (terms.take k) ∧
    upperSum (terms.take k) ≤ 0x7fffffffffffffff)) :
    ∃ toward i, Overflows 0 terms (terms.flatMap (SignedTerm.extremes toward)) i := by
  suffices hpushed : ∃ toward, ¬ InRange
      (exactTotal (terms.take k) (terms.flatMap (SignedTerm.extremes toward))) by
    obtain ⟨toward, hpushed⟩ := hpushed
    obtain ⟨i, hleaves⟩ := exists_sumLeaves (length_flatMap_extremes toward terms).ge hpushed
    exact ⟨toward, i, .inr hleaves⟩
  by_cases hlower : -0x8000000000000000 ≤ lowerSum (terms.take k)
  · refine ⟨.plus, ?_⟩
    rw [exactTotal_take_flatMap_extremes]
    simp only [SignedTerm.amount_extremes_plus]
    exact fun hrange => hout ⟨hlower, hrange.2⟩
  · refine ⟨.minus, ?_⟩
    rw [exactTotal_take_flatMap_extremes]
    simp only [SignedTerm.amount_extremes_minus]
    exact fun hrange => hlower hrange.1

/-- Some faces make an expression overflow that is not bounded. -/
theorem Expression.exists_overflows {e : Expression} (h : ¬ e.Bounded) :
    ∃ faces k, FairFaces e.requests faces ∧ e.requests.length = faces.length ∧
      Overflows 0 e.terms faces k := by
  suffices hover : ∃ toward k,
      Overflows 0 e.terms (e.terms.flatMap (SignedTerm.extremes toward)) k by
    obtain ⟨toward, k, hover⟩ := hover
    exact ⟨_, k, fairFaces_flatMap_extremes toward e.terms,
      (length_flatMap_extremes toward e.terms).symm, hover⟩
  by_cases hterms : ∀ signed ∈ e.terms, signed.term.highest ≤ 0x7fffffffffffffff
  · obtain ⟨k, hout⟩ : ∃ k, ¬ (-0x8000000000000000 ≤ lowerSum (e.terms.take k) ∧
        upperSum (e.terms.take k) ≤ 0x7fffffffffffffff) := by
      by_contra hall
      exact h ⟨hterms, fun k => not_not.mp (not_exists.mp hall k)⟩
    exact exists_overflows_of_sums hout
  · obtain ⟨signed, hsigned, hhighest⟩ : ∃ signed ∈ e.terms,
        0x7fffffffffffffff < signed.term.highest := by
      simpa using hterms
    exact ⟨signed.sign, exists_overflows_of_highest hsigned hhighest⟩

end

/-- A source that always answers, and with a face of the die that is asked for. -/
def Source.AlwaysFair {σ : Type} (source : Source σ) : Prop :=
  ∀ (sides : Nat) (state : σ), 1 ≤ sides → ∃ face next,
    source.answer sides state = .ok face next ∧ 1 ≤ face ∧ face ≤ (sides : Int)

/-- A source with faces in stock.  Where the die does not have the next one, or none is left,
it shows a one. -/
def Source.stocked : Source (List Int) where
  answer
    | _, [] => .ok 1 []
    | sides, face :: faces =>
        .ok (if 1 ≤ face ∧ face ≤ (sides : Int) then face else 1) faces

namespace Source

theorem AlwaysFair.fairFaces {σ : Type} {source : Source σ} (h : source.AlwaysFair)
    {requests : List Nat} (hsides : ∀ sides ∈ requests, 1 ≤ sides) (state : σ) :
    FairFaces requests (source.replies requests state).faces := by
  induction requests generalizing state with
  | nil => simp [FairFaces]
  | cons sides requests ih =>
      obtain ⟨hfirst, hrest⟩ := List.forall_mem_cons.mp hsides
      obtain ⟨face, next, hanswer, hface⟩ := h sides state hfirst
      rw [replies_cons_of_ok hanswer]
      exact List.forall_mem_cons.mpr ⟨hface, ih hrest next⟩

theorem stocked_alwaysFair : stocked.AlwaysFair := by
  intro sides state hsides
  rcases state with _ | ⟨face, faces⟩
  · exact ⟨1, [], rfl, Int.le_refl 1, by omega⟩
  · refine ⟨_, faces, rfl, ?_⟩
    split
    · assumption
    · exact ⟨Int.le_refl 1, by omega⟩

theorem faces_stocked {requests : List Nat} {faces : List Int}
    (hfair : FairFaces requests faces) (hlength : requests.length = faces.length) :
    (stocked.replies requests faces).faces = faces := by
  induction requests generalizing faces with
  | nil => exact (List.length_eq_zero_iff.mp hlength.symm).symm
  | cons sides requests ih =>
      obtain ⟨face, faces, rfl⟩ := List.exists_cons_of_length_eq_add_one hlength.symm
      obtain ⟨hface, hlater⟩ := List.forall_mem_cons.mp hfair
      have hanswer : stocked.answer sides (face :: faces) = .ok face faces := by
        simp [stocked, hface]
      rw [replies_cons_of_ok hanswer, ih hlater (Nat.succ.inj hlength)]

end Source

namespace Expression

variable {σ : Type} {source : Source σ} {e : Expression} {feed : Feed σ}

/-- The evaluation ends in an overflow, in one direction or the other. -/
def OverflowsOn (e : Expression) (source : Source σ) (feed : Feed σ) : Prop :=
  ∃ error last, e.evaluate source feed = .error (.refused error) last ∧
    (error.kind = .overflowPositive ∨ error.kind = .overflowNegative)

theorem RefusedAfter.overflowsOn {kind : ErrorKind} {requests : List Nat}
    (h : e.RefusedAfter source feed kind requests)
    (hkind : kind = .overflowPositive ∨ kind = .overflowNegative) :
    e.OverflowsOn source feed := by
  obtain ⟨error, last, hrefused, herror, _⟩ := h
  exact ⟨error, last, hrefused, by rwa [herror]⟩

theorem overflowsOn_of_overflows {k : Nat} (hfair : source.FairOn e.requests feed.state)
    (h : Overflows 0 e.terms (e.faces source feed) k) : e.OverflowsOn source feed := by
  obtain ⟨k, hfirst⟩ := exists_first ⟨k, h⟩
  by_cases hrolls : ∃ j, RollExceeds e.terms (e.faces source feed) k j
  · obtain ⟨j, hexceeds, hleast⟩ := exists_first hrolls
    have hterm := List.getElem?_eq_getElem hexceeds.lt_length
    exact (refusedAfter_of_rollExceeds hfair hfirst hterm hexceeds hleast).overflowsOn
      (Sign.overflow_eq_or _)
  · rcases refusedAfter_of_sumLeaves hfair hfirst (not_exists.mp hrolls) with
      ⟨_, hrefused⟩ | ⟨_, hrefused⟩
    · exact hrefused.overflowsOn (.inl rfl)
    · exact hrefused.overflowsOn (.inr rfl)

/-- Rolls with fair faces end well or with a failure of the source if no term overflows. -/
theorem not_overflowsOn_of_not_overflows (hfair : source.FairOn e.requests feed.state)
    (h : ∀ k, ¬ Overflows 0 e.terms (e.faces source feed) k) :
    ¬ e.OverflowsOn source feed := by
  rintro ⟨error, last, hrefused, _⟩
  rw [evaluate_eq_of_not_overflows hfair h] at hrefused
  cases hfailure : (source.replies e.requests feed.state).failure with
  | some failure => simp [settle_of_failed hfailure] at hrefused
  | none => simp [settle_of_answered hfailure] at hrefused

theorem one_le_of_mem_requests {sides : Nat} (h : sides ∈ e.requests) : 1 ≤ sides := by
  obtain ⟨signed, _, hsides⟩ := List.mem_flatMap.mp h
  exact SignedTerm.one_le_of_mem_requests hsides

/-- An expression is bounded exactly if it overflows with no fair source; if it is not, there
is a source that always answers fairly and with which it does.  Whether it is bounded or not,
the total of a roll with fair faces lies between the sums of the bounds. -/
theorem bounded_iff_never_overflows (e : Expression) :
    (e.Bounded ↔ ∀ (σ : Type) (source : Source σ) (feed : Feed σ), source.AlwaysFair →
      ¬ e.OverflowsOn source feed) ∧
    (¬ e.Bounded → ∃ (source : Source (List Int)) (feed : Feed (List Int)),
      source.AlwaysFair ∧ e.OverflowsOn source feed) ∧
    (∀ (σ : Type) (source : Source σ) (feed : Feed σ), source.FairOn e.requests feed.state →
      (e.Bounded → ¬ e.OverflowsOn source feed) ∧
      ∀ result last, e.evaluate source feed = .ok result last →
        lowerSum e.terms ≤ result.total ∧ result.total ≤ upperSum e.terms) := by
  have hnever : ∀ (σ : Type) (source : Source σ) (feed : Feed σ),
      source.FairOn e.requests feed.state → e.Bounded → ¬ e.OverflowsOn source feed := by
    intro σ source feed hfair hbounded
    exact not_overflowsOn_of_not_overflows hfair fun k => hbounded.not_overflows hfair
  have hsome : ¬ e.Bounded → ∃ (source : Source (List Int)) (feed : Feed (List Int)),
      source.AlwaysFair ∧ e.OverflowsOn source feed := by
    intro hbounded
    obtain ⟨faces, k, hfair, hlength, hover⟩ := exists_overflows hbounded
    have hfaces : (Source.stocked.replies e.requests faces).faces = faces :=
      Source.faces_stocked hfair hlength
    refine ⟨.stocked, ⟨faces, #[]⟩, Source.stocked_alwaysFair, ?_⟩
    apply overflowsOn_of_overflows (k := k)
    · rwa [Source.FairOn, hfaces]
    · rwa [Expression.faces, hfaces]
  refine ⟨⟨?_, ?_⟩, hsome, ?_⟩
  · intro hbounded σ source feed hfair
    exact hnever σ source feed
      (hfair.fairFaces (fun _ => one_le_of_mem_requests) feed.state) hbounded
  · intro hall
    by_contra hbounded
    obtain ⟨source, feed, hfair, hover⟩ := hsome hbounded
    exact hall _ source feed hfair hover
  · intro σ source feed hfair
    refine ⟨hnever σ source feed hfair, ?_⟩
    intro result last hroll
    obtain ⟨_, hanswered, rfl, _⟩ := evaluate_eq_ok_iff.mp hroll
    exact exactTotal_bounds hfair (Source.failure_eq_none_iff.mp hanswered).ge

/-- Boundedness is checked without rolling. -/
example : mixed.Bounded ∧ ¬ steep.Bounded := by decide

end Expression

end TabletopDice
