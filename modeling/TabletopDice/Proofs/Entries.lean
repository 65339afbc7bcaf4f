/-
Which entries make an expression.  Every entry is judged on its own, and the first one that is
refused decides the error, so a list is refused just as this entry alone would be.  An entry of
the wrong length is quoted in the error, and one that cannot be quoted is not refused in words
at all.  What has been read is written with the entries it was read from; so rewriting an
expression twice through its tuples is the same as rewriting it once by both functions.
-/
import TabletopDice.Proofs.Account
import TabletopDice.Proofs.Literal
import TabletopDice.Proofs.TupleForm

namespace TabletopDice

/-- Two numbers: a signed one, and the sides of a die that has some, both of a size that
fits. -/
def Representable (entry : List Int) : Prop :=
  ∃ number sides, entry = [number, sides] ∧ 1 ≤ sides ∧ sides ≤ (maxMagnitude : Int) ∧
    number.natAbs ≤ maxMagnitude

/-- The kind of error of an entry that is refused.  Its length counts first, and the sides
count before any size. -/
def refusal : List Int → ErrorKind
  | [_, sides] => if sides < 1 then .invalidDie else .integerTooLarge
  | _ => .invalidExpression

/-- The entry can be refused in words.  One of two numbers is never quoted, and any other can be
quoted if all of its numbers can be written. -/
def Explicable (entry : List Int) : Prop := entry.length = 2 ∨ ∀ n ∈ entry, Writable n

theorem Term.ofInt_natCast_of_le {n : Nat} (h : n ≤ maxMagnitude) :
    Term.ofInt n = .ok (.constant ⟨n, h⟩) :=
  Term.ofInt_eq_ok_iff.mpr ⟨⟨n, h⟩, rfl, rfl⟩

theorem Term.ofInt_natCast_of_lt {n : Nat} (h : maxMagnitude < n) :
    Term.ofInt n = .error (.tooLarge .constant) := by
  have hsize : maxMagnitude < (n : Int).toNat := h
  rw [Term.ofInt, if_neg (by omega), dif_pos hsize]

/-- What can become of a count and of sides that a die may have. -/
theorem Term.ofInts_natCast_cases (n : Nat) {sides : Int} (hsides : 1 ≤ sides) :
    (n ≤ maxMagnitude ∧ sides ≤ (maxMagnitude : Int) ∧
        ∃ pool, Term.ofInts n sides = .ok (.dice pool)) ∨
      (¬ (n ≤ maxMagnitude ∧ sides ≤ (maxMagnitude : Int)) ∧
        ∃ measure, Term.ofInts n sides = .error (.tooLarge measure)) := by
  obtain ⟨m, rfl⟩ := Int.eq_ofNat_of_zero_le (by omega : 0 ≤ sides)
  have hcount : ¬ (n : Int) < 0 := by omega
  by_cases hn : n ≤ maxMagnitude
  · by_cases hm : m ≤ maxMagnitude
    · have hdice : Dice.ofInts n m = .ok ⟨⟨n, hn⟩, ⟨m, hm⟩, Int.ofNat_le.mp hsides⟩ :=
        Dice.ofInts_eq_ok_iff.mpr ⟨rfl, rfl⟩
      exact .inl ⟨hn, by omega, _, Check.map_eq_ok_iff.mpr ⟨_, hdice, rfl⟩⟩
    · have hfits : ¬ maxMagnitude < (n : Int).toNat := Nat.not_lt.mpr hn
      have hlarge : maxMagnitude < (m : Int).toNat := Nat.lt_of_not_le hm
      refine .inr ⟨by omega, .dieSize, Check.map_eq_error_iff.mpr ?_⟩
      rw [Dice.ofInts, dif_neg (by omega), if_neg hcount, dif_neg hfits, dif_pos hlarge]
  · have hlarge : maxMagnitude < (n : Int).toNat := Nat.lt_of_not_le hn
    refine .inr ⟨by omega, .diceCount, Check.map_eq_error_iff.mpr ?_⟩
    rw [Dice.ofInts, dif_neg (by omega), if_neg hcount, dif_pos hlarge]

namespace SignedTerm

/-- What reading a tuple can come to: the sides are refused, or a number is too large, or all
numbers fit and there is a term. -/
theorem ofTuple_cases (number sides : Int) :
    (sides < 1 ∧ ofTuple (number, sides) = .error .noSidesInTuple) ∨
      (1 ≤ sides ∧ ¬ (number.natAbs ≤ maxMagnitude ∧ sides ≤ (maxMagnitude : Int)) ∧
        ∃ measure, ofTuple (number, sides) = .error (.tooLarge measure)) ∨
      (1 ≤ sides ∧ number.natAbs ≤ maxMagnitude ∧ sides ≤ (maxMagnitude : Int) ∧
        ∃ signed, ofTuple (number, sides) = .ok signed) := by
  by_cases hsides : sides < 1
  · exact .inl ⟨hsides, if_pos hsides⟩
  · have hmin : 1 ≤ sides := by omega
    -- With one side the tuple is a constant, and only its number can be too large.
    by_cases hone : sides = 1
    · have hread : ofTuple (number, sides) =
          (Term.ofInt number.natAbs).map (⟨.ofInt number, ·⟩) := by
        rw [ofTuple, if_neg hsides, if_pos hone]
      by_cases hnumber : number.natAbs ≤ maxMagnitude
      · rw [Term.ofInt_natCast_of_le hnumber] at hread
        exact .inr (.inr ⟨hmin, hnumber, by rw [hone]; decide, _, hread⟩)
      · rw [Term.ofInt_natCast_of_lt (Nat.lt_of_not_le hnumber)] at hread
        exact .inr (.inl ⟨hmin, fun h => hnumber h.1, _, hread⟩)
    · have hread : ofTuple (number, sides) =
          (Term.ofInts number.natAbs sides).map (⟨.ofInt number, ·⟩) := by
        rw [ofTuple, if_neg hsides, if_neg hone]
      rcases Term.ofInts_natCast_cases number.natAbs hmin with
        ⟨hnumber, hmax, pool, hpool⟩ | ⟨hlarge, measure, herror⟩
      · rw [hpool] at hread
        exact .inr (.inr ⟨hmin, hnumber, hmax, _, hread⟩)
      · rw [herror] at hread
        exact .inr (.inl ⟨hmin, hlarge, measure, hread⟩)

variable {entry : List Int}

theorem exists_ofEntry_of_representable (h : Representable entry) :
    ∃ signed, ofEntry entry = .ok signed := by
  obtain ⟨number, sides, rfl, hmin, hmax, hnumber⟩ := h
  rcases ofTuple_cases number sides with ⟨hsides, _⟩ | ⟨_, hlarge, _⟩ | ⟨_, _, _, hread⟩
  · omega
  · exact absurd ⟨hnumber, hmax⟩ hlarge
  · exact hread.imp fun _ => Check.mapError_eq_ok_iff.mpr

/-- An entry that is not representable raises an error that says what is wrong with it, and only
one that is not explicable keeps this error from being made. -/
theorem exists_ofEntry_of_not_representable (h : ¬ Representable entry) :
    ∃ error : DiceError, ofEntry entry = .error error.raised ∧ error.kind = refusal entry ∧
      (error.Wordable ↔ Explicable entry) := by
  by_cases hpair : ∃ number sides, entry = [number, sides]
  · obtain ⟨number, sides, rfl⟩ := hpair
    have hexplicable : Explicable [number, sides] := .inl rfl
    have hrefused : ∃ error, ofTuple (number, sides) = .error error ∧
        error.kind = refusal [number, sides] ∧ error.quoted = [] := by
      rcases ofTuple_cases number sides with
        ⟨hsides, hread⟩ | ⟨hsides, _, measure, hread⟩ | ⟨hmin, hnumber, hmax, _⟩
      · exact ⟨_, hread, (if_pos hsides).symm, rfl⟩
      · exact ⟨_, hread, (if_neg (Int.not_lt.mpr hsides)).symm, rfl⟩
      · exact absurd ⟨number, sides, rfl, hmin, hmax, hnumber⟩ h
    obtain ⟨error, hread, hkind, hquoted⟩ := hrefused
    have hwordable : error.Wordable := DiceError.wordable_of_quoted_eq_nil hquoted
    refine ⟨error, ?_, hkind, iff_of_true hwordable hexplicable⟩
    rw [DiceError.raised_of_wordable hwordable]
    exact Check.mapError_eq_error_iff.mpr ⟨error, hread, rfl⟩
  · have hlength : entry.length ≠ 2 := by
      intro hlength
      obtain ⟨number, sides, hentry⟩ := List.length_eq_two.mp hlength
      exact hpair ⟨number, sides, hentry⟩
    refine ⟨.wrongArity entry, ?_, ?_, (or_iff_right hlength).symm⟩
    · unfold ofEntry
      split
      · exact absurd ⟨_, _, rfl⟩ hpair
      · rfl
    · unfold refusal
      split
      · exact absurd ⟨_, _, rfl⟩ hpair
      · rfl

theorem exists_ofEntry_eq_ok_iff : (∃ signed, ofEntry entry = .ok signed) ↔
    Representable entry := by
  constructor
  · rintro ⟨signed, hread⟩
    by_contra h
    obtain ⟨error, herror, _⟩ := exists_ofEntry_of_not_representable h
    rw [hread] at herror
    simp at herror
  · exact exists_ofEntry_of_representable

end SignedTerm

namespace Expression

variable {entries before after : List (List Int)} {bad : List Int} {fault : Fault}

/-- What stands behind the first refused entry makes no difference. -/
theorem ofEntries_of_first (hbefore : ∀ entry ∈ before, Representable entry)
    (hbad : SignedTerm.ofEntry bad = .error fault) :
    ofEntries (before ++ bad :: after) = .error fault := by
  apply Check.bind_eq_error_iff.mpr
  refine .inl (Check.mapM_eq_error_iff.mpr ⟨before, bad, after, rfl, ?_, hbad⟩)
  exact fun entry hentry => SignedTerm.exists_ofEntry_of_representable (hbefore entry hentry)

theorem ofEntries_singleton (hbad : SignedTerm.ofEntry bad = .error fault) :
    ofEntries [bad] = .error fault :=
  @ofEntries_of_first [] [] bad fault (by simp) hbad

theorem exists_ofEntries_eq_ok_iff : (∃ e, ofEntries entries = .ok e) ↔
    entries ≠ [] ∧ ∀ entry ∈ entries, Representable entry := by
  constructor
  · rintro ⟨e, hread⟩
    obtain ⟨terms, hterms, _⟩ := Check.bind_eq_ok_iff.mp hread
    refine ⟨?_, fun entry hentry => SignedTerm.exists_ofEntry_eq_ok_iff.mp
      (Check.forall_of_mapM_eq_ok hterms entry hentry)⟩
    rintro rfl
    cases hread
  · rintro ⟨hne, hall⟩
    cases hterms : entries.mapM SignedTerm.ofEntry with
    | error fault =>
        obtain ⟨bad, hmem, fault, hbad⟩ :=
          Check.exists_mapM_eq_error_iff.mp ⟨fault, hterms⟩
        obtain ⟨signed, hread⟩ := SignedTerm.exists_ofEntry_of_representable (hall bad hmem)
        rw [hread] at hbad
        simp at hbad
    | ok terms =>
        have hlength := (Check.mapM_eq_ok_iff_forall₂.mp hterms).length_eq
        rcases terms with _ | ⟨first, rest⟩
        · exact absurd (List.length_eq_zero_iff.mp hlength) hne
        · exact ⟨⟨first, rest⟩, Check.bind_eq_ok_iff.mpr ⟨_, hterms, rfl⟩⟩

/-- An expression is read from one or more entries that are representable, and from nothing
else.  Without entries there is no valid expression.  Otherwise the first entry that is not
representable is to blame: the list fares as this entry alone, and it is refused with the kind
of the first fault of the entry exactly if this is explicable.  If it is not, a number that is
too long to be written stops the reading without an error of the dice. -/
theorem ofEntries_accepts_or_blames_first (entries : List (List Int)) :
    ((∃ e, ofEntries entries = .ok e) ↔
      entries ≠ [] ∧ ∀ entry ∈ entries, Representable entry) ∧
    (entries = [] → ∃ error, ofEntries entries = .error (.refused error) ∧
      error.kind = .invalidExpression) ∧
    ((∃ entry ∈ entries, ¬ Representable entry) →
      ∃ before bad after, entries = before ++ bad :: after ∧
        (∀ entry ∈ before, Representable entry) ∧ ¬ Representable bad ∧
        ofEntries entries = ofEntries [bad] ∧
        ((∃ error, ofEntries entries = .error (.refused error) ∧ error.kind = refusal bad) ↔
          Explicable bad) ∧
        (¬ Explicable bad → ofEntries entries = .error .overlong)) := by
  refine ⟨exists_ofEntries_eq_ok_iff, ?_, ?_⟩
  · rintro rfl
    exact ⟨.noTerms, rfl, rfl⟩
  · intro h
    obtain ⟨before, bad, after, rfl, hbefore, hbad⟩ := Check.exists_first_not h
    obtain ⟨error, hread, hkind, hwordable⟩ := SignedTerm.exists_ofEntry_of_not_representable hbad
    have hall : ofEntries (before ++ bad :: after) = .error error.raised :=
      ofEntries_of_first hbefore hread
    have halone : ofEntries [bad] = .error error.raised := ofEntries_singleton hread
    refine ⟨before, bad, after, rfl, hbefore, hbad, hall.trans halone.symm, ?_, ?_⟩
    · rw [← hwordable, hall]
      constructor
      · rintro ⟨error', hraised, _⟩
        exact (DiceError.raised_eq_refused_iff.mp (Except.error.inj hraised)).1
      · intro h
        exact ⟨error, by rw [DiceError.raised_of_wordable h], hkind⟩
    · intro hinexplicable
      rw [hall, DiceError.raised_of_not_wordable (hwordable.not.mpr hinexplicable)]

/-- The second entry has no sides; its number is too large as well, and the third one is no
tuple. -/
example : ofEntries [[2, 6], [0x8000000000000000, 0], [1]] = .error (.refused .noSidesInTuple) :=
  rfl

/-- One number is no tuple, but the least number that is too long to be written is not refused
for that. -/
theorem overlong_entry_not_refused :
    refusal [10 ^ maxWrittenDigits] = .invalidExpression ∧
      ofEntries [[10 ^ maxWrittenDigits]] = .error .overlong ∧
      ¬ ∃ error, ofEntries [[10 ^ maxWrittenDigits]] = .error (.refused error) := by
  have hinexplicable : ¬ Explicable [10 ^ maxWrittenDigits] := by
    rintro (hlength | hwritable)
    · simp at hlength
    · exact not_writable_ten_pow (hwritable _ (List.mem_singleton.mpr rfl))
  have hread : ofEntries [[10 ^ maxWrittenDigits]] = .error .overlong := by
    apply ofEntries_singleton
    exact congrArg Except.error (if_neg fun h => hinexplicable (.inr h))
  refine ⟨rfl, hread, ?_⟩
  rintro ⟨error, hrefused⟩
  rw [hread] at hrefused
  simp at hrefused

/-- What an expression is rewritten to has the rewritten tuples.  Rewriting it further is
rewriting the expression by both functions at once, with the same outcome or the same error. -/
theorem mapTuples_mapTuples {e e' : Expression} {f : Int × Int → Int × Int}
    (h : e.mapTuples f = .ok e') :
    e'.toTuples = e.toTuples.map f ∧
      ∀ g : Int × Int → Int × Int, e'.mapTuples g = e.mapTuples (g ∘ f) := by
  obtain ⟨htuples, _⟩ := ofTuples_eq_ok_iff.mp h
  refine ⟨htuples, ?_⟩
  intro g
  rw [mapTuples, htuples, List.map_map, mapTuples]

/-- Turns the number around, and makes constants of six-sided dice and the other way round. -/
def exchange (tuple : Int × Int) : Int × Int :=
  (-tuple.1, if tuple.2 = 1 then 6 else if tuple.2 = 6 then 1 else tuple.2)

/-- The result is `4d6 + 0 + 2d8 - 5d6 - 1d20`, in which the second term is the first one without
enough sides to take three away. -/
theorem mixed_mapTuples_mapTuples :
    ∃ e' : Expression, mixed.mapTuples exchange = .ok e' ∧
      e'.toTuples = [(4, 6), (0, 1), (2, 8), (-5, 6), (-1, 20)] ∧
      e'.mapTuples (fun tuple => (tuple.1, tuple.2 - 3)) = .error .noSidesInTuple ∧
      mixed.mapTuples ((fun tuple => (tuple.1, tuple.2 - 3)) ∘ exchange) =
        .error .noSidesInTuple := by
  have h : mixed.mapTuples exchange = .ok _ := rfl
  obtain ⟨htuples, hfurther⟩ := mapTuples_mapTuples h
  refine ⟨_, h, htuples, rfl, ?_⟩
  rw [← hfurther]
  rfl

end Expression

end TabletopDice
