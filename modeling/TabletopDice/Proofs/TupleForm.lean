/-
The tuple form, written and read back.  A tuple tells neither one-sided dice from a constant
nor a zero under a minus from one under a plus, and it tells everything else.  So reading the
tuples of an expression settles its one-sided dice and its negative zeros, and it is exact
for an expression that has none of them.
-/
import TabletopDice.Expression.Tuples
import TabletopDice.Proofs.Checks

namespace TabletopDice

namespace Term

def OneSided : Term → Prop
  | dice pool => pool.OneSided
  | constant _ => False

/-- The number to which the sign of a term applies. -/
def number : Term → Magnitude
  | dice pool => pool.count
  | constant value => value

/-- The sides in the tuple of a term. -/
def sides : Term → Nat
  | dice pool => pool.sides.val
  | constant _ => 1

/-- One-sided dice as the constant that they come to. -/
def settled : Term → Term
  | dice pool => if pool.OneSided then constant pool.count else dice pool
  | constant value => constant value

theorem settled_of_oneSided {term : Term} (h : term.OneSided) :
    term.settled = constant term.number := by
  rcases term with pool | value
  · exact if_pos h
  · exact h.elim

theorem settled_of_several {term : Term} (h : ¬ term.OneSided) : term.settled = term := by
  rcases term with pool | value
  · exact if_neg h
  · rfl

theorem sides_of_oneSided {term : Term} (h : term.OneSided) : term.sides = 1 := by
  rcases term with pool | value
  · exact h
  · rfl

theorem not_oneSided_settled (term : Term) : ¬ term.settled.OneSided := by
  by_cases h : term.OneSided
  · rw [settled_of_oneSided h]
    exact id
  · rwa [settled_of_several h]

theorem number_settled (term : Term) : term.settled.number = term.number := by
  by_cases h : term.OneSided
  · rw [settled_of_oneSided h]
    rfl
  · rw [settled_of_several h]

theorem sides_settled (term : Term) : term.settled.sides = term.sides := by
  by_cases h : term.OneSided
  · rw [settled_of_oneSided h, sides_of_oneSided h]
    rfl
  · rw [settled_of_several h]

end Term

namespace SignedTerm

variable {signed : SignedTerm}

theorem toTuple_eq (signed : SignedTerm) :
    signed.toTuple = (signed.sign * (signed.term.number.val : Int), (signed.term.sides : Int)) := by
  obtain ⟨sign, term⟩ := signed
  rcases term with pool | value <;> rfl

def NegativeZero (signed : SignedTerm) : Prop :=
  signed.sign = .minus ∧ signed.term.number.val = 0

instance (signed : SignedTerm) : Decidable signed.NegativeZero :=
  inferInstanceAs (Decidable (_ ∧ _))

/-- A negative zero is put under a plus. -/
def upright (signed : SignedTerm) : SignedTerm :=
  if signed.NegativeZero then ⟨.plus, signed.term⟩ else signed

/-- The term with its dice settled if they have one side, and then upright. -/
def viaTuple (signed : SignedTerm) : SignedTerm := upright ⟨signed.sign, signed.term.settled⟩

/-- The term is one that a tuple is read as. -/
structure Canonical (signed : SignedTerm) : Prop where
  several : ¬ signed.term.OneSided
  upright : ¬ signed.NegativeZero

theorem upright_of_not_negativeZero (h : ¬ signed.NegativeZero) : signed.upright = signed :=
  if_neg h

theorem not_negativeZero_upright (signed : SignedTerm) : ¬ signed.upright.NegativeZero := by
  by_cases h : signed.NegativeZero
  · rw [upright, if_pos h]
    rintro ⟨hsign, _⟩
    cases hsign
  · rwa [upright_of_not_negativeZero h]

theorem term_upright (signed : SignedTerm) : signed.upright.term = signed.term := by
  rw [upright]
  split <;> rfl

theorem toTuple_upright (signed : SignedTerm) : signed.upright.toTuple = signed.toTuple := by
  by_cases h : signed.NegativeZero
  · obtain ⟨hsign, hzero⟩ := h
    rw [upright, if_pos ⟨hsign, hzero⟩, toTuple_eq, toTuple_eq, hzero, hsign]
    rfl
  · rw [upright_of_not_negativeZero h]

theorem term_viaTuple (signed : SignedTerm) : signed.viaTuple.term = signed.term.settled :=
  term_upright _

theorem toTuple_viaTuple (signed : SignedTerm) : signed.viaTuple.toTuple = signed.toTuple := by
  rw [viaTuple, toTuple_upright, toTuple_eq, toTuple_eq, Term.number_settled,
    Term.sides_settled]

theorem canonical_viaTuple (signed : SignedTerm) : signed.viaTuple.Canonical := by
  refine ⟨?_, not_negativeZero_upright _⟩
  rw [term_viaTuple]
  exact signed.term.not_oneSided_settled

theorem viaTuple_eq_self_iff : signed.viaTuple = signed ↔ signed.Canonical := by
  constructor
  · intro h
    rw [← h]
    exact signed.canonical_viaTuple
  · rintro ⟨hseveral, hupright⟩
    rw [viaTuple, Term.settled_of_several hseveral]
    exact upright_of_not_negativeZero hupright

/-- A tuple is read as the term that has its sign, its size and its sides, where one side
makes a constant. -/
theorem ofTuple_eq_ok_iff_parts {number sides : Int} :
    ofTuple (number, sides) = .ok signed ↔
      (Sign.ofInt number = signed.sign ∧ number.natAbs = signed.term.number.val) ∧
        (signed.term.sides : Int) = sides ∧ ¬ signed.term.OneSided := by
  constructor
  · intro h
    simp only [ofTuple] at h
    split at h
    · cases h
    · split at h
      · obtain ⟨term, hterm, rfl⟩ := Check.map_eq_ok_iff.mp h
        obtain ⟨value, hvalue, rfl⟩ := Term.ofInt_eq_ok_iff.mp hterm
        exact ⟨⟨rfl, (Int.ofNat.inj hvalue).symm⟩, Eq.symm ‹sides = 1›, id⟩
      · rename_i hsides
        obtain ⟨term, hterm, rfl⟩ := Check.map_eq_ok_iff.mp h
        obtain ⟨pool, hpool, rfl⟩ := Check.map_eq_ok_iff.mp hterm
        obtain ⟨hcount, rfl⟩ := Dice.ofInts_eq_ok_iff.mp hpool
        exact ⟨⟨rfl, (Int.ofNat.inj hcount).symm⟩, rfl, fun hone => hsides (congrArg _ hone)⟩
  · obtain ⟨sign, term⟩ := signed
    rintro ⟨⟨rfl, hnumber⟩, rfl, hseveral⟩
    rcases term with pool | value
    · have hone : ¬ (pool.sides.val : Int) = 1 := fun h => hseveral (Int.ofNat.inj h)
      have hsides : ¬ (pool.sides.val : Int) < 1 := by
        have hle := pool.one_le_sides
        omega
      have hdice : Dice.ofInts number.natAbs pool.sides.val = .ok pool :=
        Dice.ofInts_eq_ok_iff.mpr ⟨congrArg _ hnumber.symm, rfl⟩
      simp only [ofTuple, Term.sides, if_neg hsides, if_neg hone, Term.ofInts, hdice]
      rfl
    · have hvalue : Term.ofInt number.natAbs = .ok (.constant value) :=
        Term.ofInt_eq_ok_iff.mpr ⟨value, congrArg _ hnumber.symm, rfl⟩
      simp only [ofTuple, Term.sides, Int.natCast_one, if_true, hvalue]
      rfl

/-- Reading a tuple and writing it are inverse to each other on what a tuple can tell. -/
theorem ofTuple_eq_ok_iff {tuple : Int × Int} :
    ofTuple tuple = .ok signed ↔ signed.toTuple = tuple ∧ signed.Canonical := by
  obtain ⟨number, sides⟩ := tuple
  rw [ofTuple_eq_ok_iff_parts, Sign.ofInt_eq_and_natAbs_eq_iff, toTuple_eq, Prod.mk.injEq]
  constructor
  · rintro ⟨⟨hnumber, hzero⟩, hsides, hseveral⟩
    exact ⟨⟨hnumber, hsides⟩, hseveral, hzero⟩
  · rintro ⟨⟨hnumber, hsides⟩, hseveral, hzero⟩
    exact ⟨⟨hnumber, hzero⟩, hsides, hseveral⟩

theorem ofTuple_toTuple (signed : SignedTerm) :
    ofTuple signed.toTuple = .ok signed.viaTuple :=
  ofTuple_eq_ok_iff.mpr ⟨signed.toTuple_viaTuple, signed.canonical_viaTuple⟩

end SignedTerm

/-- A tuple as an entry. -/
def tupleEntry (tuple : Int × Int) : List Int := [tuple.1, tuple.2]

theorem SignedTerm.ofEntry_eq_ok_iff {entry : List Int} {signed : SignedTerm} :
    ofEntry entry = .ok signed ↔ tupleEntry signed.toTuple = entry ∧ signed.Canonical := by
  constructor
  · intro h
    unfold ofEntry at h
    split at h
    · obtain ⟨htuple, hcanonical⟩ := ofTuple_eq_ok_iff.mp (Check.mapError_eq_ok_iff.mp h)
      rw [htuple]
      exact ⟨rfl, hcanonical⟩
    · cases h
  · rintro ⟨rfl, hcanonical⟩
    exact Check.mapError_eq_ok_iff.mpr (ofTuple_eq_ok_iff.mpr ⟨rfl, hcanonical⟩)

namespace Expression

variable {e : Expression}

/-- The tuple form as a list of entries. -/
def toEntries (e : Expression) : List (List Int) := e.toTuples.map tupleEntry

/-- The expression with every term changed as its tuple changes it. -/
def viaTuples (e : Expression) : Expression :=
  ⟨e.first.viaTuple, e.rest.map SignedTerm.viaTuple⟩

def Canonical (e : Expression) : Prop := ∀ signed ∈ e.terms, signed.Canonical

theorem terms_viaTuples (e : Expression) :
    e.viaTuples.terms = e.terms.map SignedTerm.viaTuple := rfl

theorem toTuples_viaTuples (e : Expression) : e.viaTuples.toTuples = e.toTuples := by
  rw [toTuples, terms_viaTuples, List.map_map]
  exact List.map_congr_left fun signed _ => signed.toTuple_viaTuple

theorem canonical_viaTuples (e : Expression) : e.viaTuples.Canonical := by
  intro signed hsigned
  rw [terms_viaTuples] at hsigned
  obtain ⟨before, _, rfl⟩ := List.mem_map.mp hsigned
  exact before.canonical_viaTuple

/-- What is read one by one and then summed up is read as the one expression that is written
that way. -/
theorem mapM_bind_sum_eq_ok_iff {ε α : Type} {read : α → Except ε SignedTerm}
    {sum : List SignedTerm → Except ε Expression} {write : SignedTerm → α} {listed : List α}
    (hread : ∀ {a signed}, read a = .ok signed ↔ write signed = a ∧ signed.Canonical)
    (hsum : ∀ {terms e}, sum terms = .ok e ↔ e.terms = terms) :
    listed.mapM read >>= sum = .ok e ↔ e.terms.map write = listed ∧ e.Canonical := by
  rw [Check.bind_eq_ok_iff]
  constructor
  · rintro ⟨terms, hterms, he⟩
    obtain rfl := hsum.mp he
    exact (Check.mapM_eq_ok_iff_written hread).mp hterms
  · intro h
    exact ⟨e.terms, (Check.mapM_eq_ok_iff_written hread).mpr h, hsum.mpr rfl⟩

theorem ofTuples_eq_ok_iff {tuples : List (Int × Int)} :
    ofTuples tuples = .ok e ↔ e.toTuples = tuples ∧ e.Canonical :=
  mapM_bind_sum_eq_ok_iff SignedTerm.ofTuple_eq_ok_iff ofTerms_eq_ok_iff

theorem ofEntries_eq_ok_iff {entries : List (List Int)} :
    ofEntries entries = .ok e ↔ e.toEntries = entries ∧ e.Canonical := by
  rw [toEntries, toTuples, List.map_map]
  exact mapM_bind_sum_eq_ok_iff SignedTerm.ofEntry_eq_ok_iff
    (Check.mapError_eq_ok_iff.trans ofTerms_eq_ok_iff)

theorem ofTuples_toTuples (e : Expression) : ofTuples e.toTuples = .ok e.viaTuples :=
  ofTuples_eq_ok_iff.mpr ⟨e.toTuples_viaTuples, e.canonical_viaTuples⟩

theorem ofEntries_toEntries (e : Expression) : ofEntries e.toEntries = .ok e.viaTuples :=
  ofEntries_eq_ok_iff.mpr
    ⟨congrArg (List.map tupleEntry) e.toTuples_viaTuples, e.canonical_viaTuples⟩

/-- What is read from entries has these entries.  The entries of any expression are read, as
the expression with its one-sided dice settled and its negative zeros put upright; so an
expression comes back just if it has neither, and what comes back once comes back again. -/
theorem entries_decode_and_reencode :
    (∀ (entries : List (List Int)) (e : Expression),
      ofEntries entries = .ok e ↔ e.toEntries = entries ∧ e.Canonical) ∧
    ∀ e : Expression,
      ofTuples e.toTuples = .ok e.viaTuples ∧
      ofEntries e.toEntries = .ok e.viaTuples ∧
      (ofEntries e.toEntries = .ok e ↔
        ∀ signed ∈ e.terms, ¬ signed.term.OneSided ∧ ¬ signed.NegativeZero) ∧
      ofEntries e.viaTuples.toEntries = .ok e.viaTuples := by
  refine ⟨fun entries e => ofEntries_eq_ok_iff, ?_⟩
  intro e
  refine ⟨e.ofTuples_toTuples, e.ofEntries_toEntries, ?_, ?_⟩
  · constructor
    · intro h signed hsigned
      obtain ⟨_, hcanonical⟩ := ofEntries_eq_ok_iff.mp h
      exact ⟨(hcanonical signed hsigned).several, (hcanonical signed hsigned).upright⟩
    · intro h
      exact ofEntries_eq_ok_iff.mpr
        ⟨rfl, fun signed hsigned => ⟨(h signed hsigned).1, (h signed hsigned).2⟩⟩
  · exact ofEntries_eq_ok_iff.mpr ⟨rfl, e.canonical_viaTuples⟩

/-- `-4d1 - 0d6` comes back as `-4 + 0d6`. -/
example :
    viaTuples ⟨⟨.minus, .dice ⟨⟨4, by decide⟩, .one, by decide⟩⟩,
        [⟨.minus, .dice ⟨⟨0, by decide⟩, ⟨6, by decide⟩, by decide⟩⟩]⟩ =
      ⟨⟨.minus, .constant ⟨4, by decide⟩⟩,
        [⟨.plus, .dice ⟨⟨0, by decide⟩, ⟨6, by decide⟩, by decide⟩⟩]⟩ := by
  decide

end Expression

end TabletopDice
