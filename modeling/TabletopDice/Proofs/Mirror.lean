/-
Mirror images.  An expression in which all signs are turned around makes the same requests
and comes to the opposite result, or it ends at the same term, in the opposite overflow.
Only the one number of the range whose opposite lies outside of it breaks the symmetry.
-/
import TabletopDice.Proofs.Account
import TabletopDice.Proofs.Overflow

namespace TabletopDice

instance : Neg SignedTerm where
  neg signed := ⟨-signed.sign, signed.term⟩

/-- The sign of every term is turned around. -/
instance : Neg Expression where
  neg e := ⟨-e.first, e.rest.map (- ·)⟩

instance : Neg Outcome where
  neg outcome := ⟨-outcome.signed, -outcome.value⟩

/-- The opposite total, made of opposite values with the same parts. -/
instance : Neg Result where
  neg result := ⟨result.outcomes.map (- ·), -result.total⟩

variable {σ : Type} {source : Source σ} {feed next last : Feed σ} {total : Int}
  {signed : SignedTerm} {rest terms : List SignedTerm} {value : Value} {sign : Sign} {k : Nat}

/-- The sums that are made while the terms are rolled, each as it is before it is checked. -/
def runningTotals (source : Source σ) (total : Int) : List SignedTerm → Feed σ → List Int
  | [], _ => []
  | signed :: rest, feed =>
    match signed.roll source feed with
    | .error _ _ => []
    | .ok value feed =>
      (total + value.amount) ::
        if InRange (total + value.amount) then
          runningTotals source (total + value.amount) rest feed
        else []

def Expression.runningTotals (e : Expression) (source : Source σ) (feed : Feed σ) : List Int :=
  TabletopDice.runningTotals source 0 e.terms feed

/-- The terms before the `k`-th one are rolled, and with that term the roll ends in an overflow
to the side of the sign. -/
structure OverflowsAt (source : Source σ) (total : Int) (terms : List SignedTerm)
    (feed : Feed σ) (k : Nat) (sign : Sign) (last : Feed σ) : Prop where
  before : ∃ result next, rollTerms source total (terms.take k) feed = .ok result next
  ends : ∃ error, error.kind = sign.overflow ∧
    rollTerms source total (terms.take (k + 1)) feed = .error (.refused error) last ∧
    rollTerms source total terms feed = .error (.refused error) last

/-- Either both lists of terms come to opposite results, or they overflow at the same term to
opposite sides, or the source fails in the same way. -/
def Mirrored (source : Source σ) (total : Int) (terms : List SignedTerm) (feed : Feed σ) :
    Prop :=
  (∃ result last, rollTerms source total terms feed = .ok result last ∧
      rollTerms source (-total) (terms.map (- ·)) feed = .ok (-result) last) ∨
    (∃ k sign last, OverflowsAt source total terms feed k sign last ∧
      OverflowsAt source (-total) (terms.map (- ·)) feed k (-sign) last) ∨
    ∃ failure last, rollTerms source total terms feed = .error (.source failure) last ∧
      rollTerms source (-total) (terms.map (- ·)) feed = .error (.source failure) last

theorem Value.neg_neg (value : Value) : - -value = value := by
  cases value with
  | rolled total parts sign =>
      change rolled (- -total) parts (- -sign) = rolled total parts sign
      rw [Int.neg_neg, Sign.neg_neg]
  | constant value => exact congrArg constant (Int.neg_neg value)

theorem Sign.neg_mul (sign : Sign) (value : Value) : -sign * value = -(sign * value) := by
  cases sign with
  | plus => rfl
  | minus => exact value.neg_neg.symm

theorem Value.neg_add_amount (total : Int) (value : Value) :
    -(total + value.amount) = -total + (-value).amount := by
  rw [amount_neg, Int.neg_add]

theorem inRange_neg_iff {n : Int} (hhigh : n ≠ 0x8000000000000000)
    (hlow : n ≠ -0x8000000000000000) : InRange (-n) ↔ InRange n := by
  unfold InRange
  omega

namespace SignedTerm

theorem shown_neg (signed : SignedTerm) (faces : List Int) :
    (-signed).shown faces = -signed.shown faces := by
  obtain ⟨sign, term⟩ := signed
  change shown ⟨-sign, term⟩ faces = -shown ⟨sign, term⟩ faces
  rw [shown_eq_mul, shown_eq_mul sign, Sign.neg_mul]

/-- What a term can do under the opposite sign: it takes the opposite value or overflows to the
opposite side with the same draws, or the source fails as before. -/
theorem roll_neg (source : Source σ) (signed : SignedTerm) (feed : Feed σ) :
    (∃ value next, signed.roll source feed = .ok value next ∧
        (-signed).roll source feed = .ok (-value) next) ∨
      (∃ (error error' : DiceError) (sign : Sign) (next : Feed σ),
        signed.roll source feed = .error (.refused error) next ∧
          (-signed).roll source feed = .error (.refused error') next ∧
          error.kind = sign.overflow ∧ error'.kind = (-sign).overflow) ∨
      ∃ failure next, signed.roll source feed = .error (.source failure) next ∧
        (-signed).roll source feed = .error (.source failure) next := by
  have hrequests : (-signed).requests = signed.requests := rfl
  rw [roll_eq_settle, roll_eq_settle, shown_neg, hrequests]
  cases hexcess : excess? 0 (source.replies signed.requests feed.state).faces with
  | some draws =>
      have hlength := Source.length_faces_le source signed.requests feed.state
      obtain ⟨error, hbreach, hkind⟩ := breach?_of_excess hlength hexcess
      obtain ⟨error', hbreach', hkind'⟩ := @breach?_of_excess (-signed) _ _ hlength hexcess
      rw [hbreach, hbreach']
      exact .inr (.inl ⟨error, error', signed.sign, _, rfl, rfl, hkind, hkind'⟩)
  | none =>
      rw [breach?_eq_none hexcess, breach?_eq_none hexcess]
      cases hfailure : (source.replies signed.requests feed.state).failure with
      | some failure =>
          exact .inr (.inr ⟨failure, _, settle_of_failed hfailure, settle_of_failed hfailure⟩)
      | none => exact .inl ⟨_, _, settle_of_answered hfailure, settle_of_answered hfailure⟩

end SignedTerm

section

variable {fault : Fault}

theorem rollTerms_cons_of_error (h : signed.roll source feed = .error fault next) :
    rollTerms source total (signed :: rest) feed = .error fault next := by
  rw [rollTerms_cons, h]

theorem rollTerms_cons_of_not_inRange (h : signed.roll source feed = .ok value next)
    (hrange : ¬ InRange (total + value.amount)) :
    rollTerms source total (signed :: rest) feed =
      .error (.refused (.totalOutOfRange signed value.amount)) next := by
  simp only [rollTerms_cons, h, checkedAdd_eq_none_iff.mpr hrange]

/-- A term with a sum in range leaves the roll to the later terms. -/
theorem rollTerms_cons_of_ok {result : Result} (h : signed.roll source feed = .ok value next)
    (hrange : InRange (total + value.amount))
    (hlater : rollTerms source (total + value.amount) rest next = .ok result last) :
    rollTerms source total (signed :: rest) feed =
      .ok ⟨⟨signed, value⟩ :: result.outcomes, result.total⟩ last := by
  simp only [rollTerms_cons, h, checkedAdd_eq_some_iff.mpr ⟨rfl, hrange⟩, hlater]

theorem rollTerms_cons_of_later_error (h : signed.roll source feed = .ok value next)
    (hrange : InRange (total + value.amount))
    (hlater : rollTerms source (total + value.amount) rest next = .error fault last) :
    rollTerms source total (signed :: rest) feed = .error fault last := by
  simp only [rollTerms_cons, h, checkedAdd_eq_some_iff.mpr ⟨rfl, hrange⟩, hlater]

end

namespace OverflowsAt

/-- The first term itself overflows. -/
theorem head {error : DiceError} (hkind : error.kind = sign.overflow)
    (h : ∀ rest, rollTerms source total (signed :: rest) feed = .error (.refused error) last)
    (rest : List SignedTerm) : OverflowsAt source total (signed :: rest) feed 0 sign last where
  before := ⟨_, _, rfl⟩
  ends := ⟨error, hkind, h _, h rest⟩

theorem cons (h : signed.roll source feed = .ok value next)
    (hrange : InRange (total + value.amount))
    (hlater : OverflowsAt source (total + value.amount) rest next k sign last) :
    OverflowsAt source total (signed :: rest) feed (k + 1) sign last := by
  obtain ⟨⟨result, feed', hbefore⟩, ⟨error, hkind, hends, hall⟩⟩ := hlater
  exact ⟨⟨_, feed', rollTerms_cons_of_ok h hrange hbefore⟩, error, hkind,
    rollTerms_cons_of_later_error h hrange hends, rollTerms_cons_of_later_error h hrange hall⟩

end OverflowsAt

/-- A sum out of range overflows to the side of the value that was added, and so does its
opposite. -/
theorem exists_totalOutOfRange_kind (signed : SignedTerm) {n : Int} (htotal : InRange total)
    (hrange : ¬ InRange (total + n)) (htotal' : InRange (-total))
    (hrange' : ¬ InRange (-total + -n)) :
    ∃ sign : Sign, (DiceError.totalOutOfRange signed n).kind = sign.overflow ∧
      (DiceError.totalOutOfRange (-signed) (-n)).kind = (-sign).overflow := by
  obtain ⟨hhigh, hlow⟩ := @totalOutOfRange_kind _ signed n htotal
  obtain ⟨hhigh', hlow'⟩ := @totalOutOfRange_kind _ (-signed) (-n) htotal'
  unfold InRange at hrange hrange'
  by_cases hpositive : 0x7fffffffffffffff < total + n
  · exact ⟨.plus, hhigh hpositive, hlow' (by omega)⟩
  · exact ⟨.minus, hlow (by omega), hhigh' (by omega)⟩

/-- The step of the induction: with the first term behind them, later terms that mirror each
other go on doing so. -/
theorem Mirrored.cons (hroll : signed.roll source feed = .ok value next)
    (hroll' : (-signed).roll source feed = .ok (-value) next)
    (hrange : InRange (total + value.amount))
    (hrange' : InRange (-total + (-value).amount))
    (h : Mirrored source (total + value.amount) rest next) :
    Mirrored source total (signed :: rest) feed := by
  unfold Mirrored at h ⊢
  rw [Value.neg_add_amount] at h
  rw [List.map_cons]
  rcases h with ⟨result, last, hok, hok'⟩ | ⟨k, sign, last, hover, hover'⟩ |
    ⟨failure, last, herror, herror'⟩
  · exact .inl ⟨_, last, rollTerms_cons_of_ok hroll hrange hok,
      rollTerms_cons_of_ok hroll' hrange' hok'⟩
  · exact .inr (.inl ⟨k + 1, sign, last, hover.cons hroll hrange, hover'.cons hroll' hrange'⟩)
  · exact .inr (.inr ⟨failure, last, rollTerms_cons_of_later_error hroll hrange herror,
      rollTerms_cons_of_later_error hroll' hrange' herror'⟩)

theorem rollTerms_mirrored (hrange : InRange total) (hrange' : InRange (-total))
    (h : ∀ n ∈ runningTotals source total terms feed,
      n ≠ 0x8000000000000000 ∧ n ≠ -0x8000000000000000) :
    Mirrored source total terms feed := by
  induction terms generalizing total feed with
  | nil => exact .inl ⟨_, feed, rfl, rfl⟩
  | cons signed rest ih =>
      rcases signed.roll_neg source feed with ⟨value, next, hroll, hroll'⟩ |
        ⟨error, error', sign, next, hroll, hroll', hkind, hkind'⟩ |
        ⟨failure, next, hroll, hroll'⟩
      · simp only [runningTotals, hroll] at h
        obtain ⟨⟨hhigh, hlow⟩, hlater⟩ := List.forall_mem_cons.mp h
        have hneg := inRange_neg_iff hhigh hlow
        rw [Value.neg_add_amount] at hneg
        by_cases hnext : InRange (total + value.amount)
        · rw [if_pos hnext] at hlater
          have hnext' := hneg.mpr hnext
          apply Mirrored.cons hroll hroll' hnext hnext'
          rw [← Value.neg_add_amount] at hnext'
          exact ih hnext hnext' hlater
        · have hnext' : ¬ InRange (-total + (-value).amount) := fun hin => hnext (hneg.mp hin)
          have hout := hnext'
          rw [Value.amount_neg] at hout
          obtain ⟨sign, hkind, hkind'⟩ :=
            exists_totalOutOfRange_kind signed hrange hnext hrange' hout
          rw [← Value.amount_neg] at hkind'
          exact .inr (.inl ⟨0, sign, next,
            .head hkind (fun _ => rollTerms_cons_of_not_inRange hroll hnext) rest,
            .head hkind' (fun _ => rollTerms_cons_of_not_inRange hroll' hnext') _⟩)
      · exact .inr (.inl ⟨0, sign, next,
          .head hkind (fun _ => rollTerms_cons_of_error hroll) rest,
          .head hkind' (fun _ => rollTerms_cons_of_error hroll') _⟩)
      · exact .inr (.inr ⟨failure, next, rollTerms_cons_of_error hroll,
          rollTerms_cons_of_error hroll'⟩)

namespace Expression

/-- The evaluation ends at the `k`-th term, in an overflow to the side of the sign. -/
def OverflowsAt (e : Expression) (source : Source σ) (feed : Feed σ) (k : Nat) (sign : Sign)
    (last : Feed σ) : Prop :=
  TabletopDice.OverflowsAt source 0 e.terms feed k sign last

/-- Whatever the source answers, as long as no sum is just one beyond the range or its
opposite is, an expression and its mirror image end with the same feed, and so after the same
requests: with opposite results, at the same term in overflows to opposite sides, or with the
same failure of the source. -/
theorem evaluate_neg (source : Source σ) (e : Expression) (feed : Feed σ)
    (h : ∀ n ∈ e.runningTotals source feed, n ≠ 0x8000000000000000 ∧ n ≠ -0x8000000000000000) :
    (∃ result last, e.evaluate source feed = .ok result last ∧
        (-e).evaluate source feed = .ok (-result) last) ∨
      (∃ k sign last, e.OverflowsAt source feed k sign last ∧
        (-e).OverflowsAt source feed k (-sign) last) ∨
      ∃ failure last, e.evaluate source feed = .error (.source failure) last ∧
        (-e).evaluate source feed = .error (.source failure) last :=
  rollTerms_mirrored (by decide) (by decide) h

/-- The mirror image `4d1 - 0d6 + 2d8 - 5 - 1d20` comes to -14 with the same three faces. -/
theorem mixed_evaluate_neg :
    (∀ n ∈ mixed.runningTotals Generator.source ⟨.script [3, 1, 17, 2], #[]⟩,
      n ≠ 0x8000000000000000 ∧ n ≠ -0x8000000000000000) ∧
    ∃ result : Result, result.total = 14 ∧
      mixed.evaluate Generator.source ⟨.script [3, 1, 17, 2], #[]⟩ =
        .ok result ⟨.script [2], #[8, 8, 20]⟩ ∧
      (-mixed).evaluate Generator.source ⟨.script [3, 1, 17, 2], #[]⟩ =
        .ok (-result) ⟨.script [2], #[8, 8, 20]⟩ := by
  have htotals : mixed.runningTotals Generator.source ⟨.script [3, 1, 17, 2], #[]⟩ =
      [-4, -4, -8, -3, 14] := rfl
  have hroll : mixed.evaluate Generator.source ⟨.script [3, 1, 17, 2], #[]⟩ = .ok _ _ := rfl
  have hsums : ∀ n ∈ mixed.runningTotals Generator.source ⟨.script [3, 1, 17, 2], #[]⟩,
      n ≠ 0x8000000000000000 ∧ n ≠ -0x8000000000000000 := by
    rw [htotals]
    decide
  refine ⟨hsums, _, ?_, hroll, ?_⟩
  · rfl
  · rcases evaluate_neg Generator.source mixed _ hsums with ⟨result, last, hok, hok'⟩ |
      ⟨k, sign, last, ⟨_, ⟨error, _, _, herror⟩⟩, _⟩ | ⟨failure, last, herror, _⟩
    · rw [hroll] at hok
      obtain ⟨rfl, rfl⟩ := EStateM.Result.ok.inj hok
      exact hok'
    · exact absurd (hroll.symm.trans herror) (by simp)
    · exact absurd (hroll.symm.trans herror) (by simp)

/-- The opposite of the lowest total is out of range. -/
example :
    let e : Expression := ⟨⟨.minus, .constant ⟨maxMagnitude, by decide⟩⟩,
      [⟨.minus, .constant .one⟩]⟩
    let feed : Feed Generator := ⟨.lowest, #[]⟩
    (∃ result last, e.evaluate Generator.source feed = .ok result last) ∧
      ∃ error last, (-e).evaluate Generator.source feed = .error (.refused error) last :=
  ⟨⟨_, _, rfl⟩, ⟨_, _, rfl⟩⟩

end Expression

end TabletopDice
