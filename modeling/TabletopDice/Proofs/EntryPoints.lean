/-
Ways to roll a text.  Each of them reads the text first, then looks at the cap if there is
one, and then evaluates, so they refuse the same texts and otherwise end alike.  Where the cap
is too long to be written they do not refuse what exceeds it, since they cannot say so; they
stop all the same.
-/
import TabletopDice.Audit
import TabletopDice.Builder
import TabletopDice.Proofs.Admission
import TabletopDice.Proofs.Overflow
import TabletopDice.Proofs.RoundTrip

namespace TabletopDice

variable {σ α : Type}

section

variable {β : Type} {feed last : Feed σ} {roll : Rolling σ α} {check : Except Fault α} {a : α}
  {fault : Fault}

theorem bind_of_ok (h : roll feed = .ok a last) (next : α → Rolling σ β) :
    (roll >>= next) feed = next a last := by
  simp only [bind, EStateM.bind, h]

theorem bind_of_error (h : roll feed = .error fault last) (next : α → Rolling σ β) :
    (roll >>= next) feed = .error fault last := by
  simp only [bind, EStateM.bind, h]

theorem map_of_ok (h : roll feed = .ok a last) (f : α → β) :
    (f <$> roll) feed = .ok (f a) last := by
  simp only [Functor.map, EStateM.map, h]

theorem map_of_error (h : roll feed = .error fault last) (f : α → β) :
    (f <$> roll) feed = .error fault last := by
  simp only [Functor.map, EStateM.map, h]

theorem ofExcept_of_ok (h : check = .ok a) : Rolling.ofExcept check feed = .ok a feed := by
  rw [h]
  rfl

theorem ofExcept_of_error (h : check = .error fault) :
    Rolling.ofExcept check feed = .error fault feed := by
  rw [h]
  rfl

theorem ofExcept_bind_of_ok (h : check = .ok a) (next : α → Rolling σ β) :
    (Rolling.ofExcept check >>= next) feed = next a feed :=
  bind_of_ok (ofExcept_of_ok h) next

theorem ofExcept_bind_of_error (h : check = .error fault) (next : α → Rolling σ β) :
    (Rolling.ofExcept check >>= next) feed = .error fault feed :=
  bind_of_error (ofExcept_of_error h) next

end

section

variable {source : Source σ} {feed : Feed σ} {e : Expression} {cap : Int} {origin : Origin}
  {style : Style} {input : String}

namespace Expression

theorem rollCapped_of_exceeds (h : e.exceeds cap = true) :
    e.rollCapped source cap feed = .error (DiceError.exceededCap e cap).raised feed := by
  rw [rollCapped, if_pos h]
  rfl

theorem rollCapped_of_overlong (h : e.exceeds cap = true) (hlong : ¬ Writable cap) :
    e.rollCapped source cap feed = .error .overlong feed := by
  rw [rollCapped_of_exceeds h, DiceError.raised_exceededCap_of_not_writable hlong]

theorem rollCapped_of_admitted (h : e.exceeds cap = false) :
    e.rollCapped source cap feed = e.evaluate source feed := by
  rw [rollCapped, h]
  rfl

theorem audit_of_exceeds (h : e.exceeds cap = true) :
    e.audit source origin style cap input feed =
      .error (DiceError.exceededCap e cap).raised feed :=
  bind_of_error (rollCapped_of_exceeds h) _

/-- The audit of an admitted expression ends as its evaluation does, with the record of the
result. -/
theorem audit_of_ok {result : Result} {last : Feed σ} (h : e.exceeds cap = false)
    (hroll : e.evaluate source feed = .ok result last) :
    e.audit source origin style cap input feed =
      .ok (.ofResult origin style input e result) last :=
  bind_of_ok ((rollCapped_of_admitted h).trans hroll) _

theorem audit_of_error {fault : Fault} {last : Feed σ} (h : e.exceeds cap = false)
    (hroll : e.evaluate source feed = .error fault last) :
    e.audit source origin style cap input feed = .error fault last :=
  bind_of_error ((rollCapped_of_admitted h).trans hroll) _

theorem audit_eq_ok_iff {record : AuditRecord} {last : Feed σ} :
    e.audit source origin style cap input feed = .ok record last ↔
      e.exceeds cap = false ∧ ∃ result, e.evaluate source feed = .ok result last ∧
        AuditRecord.ofResult origin style input e result = record := by
  by_cases hcap : e.exceeds cap
  · simp [audit_of_exceeds hcap, hcap]
  · have hadmitted := Bool.eq_false_of_not_eq_true hcap
    rcases hroll : e.evaluate source feed with ⟨result, last'⟩ | ⟨fault, last'⟩
    · rw [audit_of_ok hadmitted hroll]
      simp [hadmitted, and_comm]
    · rw [audit_of_error hadmitted hroll]
      simp

end Expression

namespace ExpressionForm

variable {form : ExpressionForm} {text : String} {error : DiceError} {fault : Fault}

theorem read_text_eq_ok_iff :
    (ExpressionForm.text text).read = .ok e ↔ Expression.parse text = .ok e :=
  Check.mapError_eq_ok_iff

theorem read_text_eq_error_iff :
    (ExpressionForm.text text).read = .error fault ↔
      ∃ error, Expression.parse text = .error error ∧ .refused error = fault :=
  Check.mapError_eq_error_iff

theorem read_text_of_ok (h : Expression.parse text = .ok e) :
    (ExpressionForm.text text).read = .ok e :=
  read_text_eq_ok_iff.mpr h

theorem read_text_of_error (h : Expression.parse text = .error error) :
    (ExpressionForm.text text).read = .error (.refused error) :=
  read_text_eq_error_iff.mpr ⟨error, h, rfl⟩

/-- A builder with one expression has read it, and no more than that. -/
theorem withForm_bind_finalize (form : ExpressionForm) :
    (Builder.withForm { source := () } form >>= Builder.finalize) =
      form.read.map fun e => ⟨e, ()⟩ := by
  rcases hread : form.read with fault | e <;> simp [Builder.withForm, hread] <;> rfl

theorem roll_of_error (h : form.read = .error fault) :
    form.roll source feed = .error fault feed := by
  rw [roll, withForm_bind_finalize, h]
  rfl

theorem roll_of_ok (h : form.read = .ok e) :
    form.roll source feed = e.evaluate source feed := by
  rw [roll, withForm_bind_finalize, h]
  rfl

theorem rollCapped_of_error (h : form.read = .error fault) :
    form.rollCapped source cap feed = .error fault feed :=
  ofExcept_bind_of_error h _

theorem rollCapped_of_ok (h : form.read = .ok e) :
    form.rollCapped source cap feed = e.rollCapped source cap feed :=
  ofExcept_bind_of_ok h _

end ExpressionForm

theorem Expression.auditText_eq_ok_iff {record : AuditRecord} {last : Feed σ} :
    auditText source origin style cap input feed = .ok record last ↔
      ∃ e, parse input = .ok e ∧ e.audit source origin style cap input feed =
        .ok record last := by
  rcases hparse : parse input with error | e
  · rw [auditText, ofExcept_bind_of_error (ExpressionForm.read_text_of_error hparse)]
    simp
  · rw [auditText, ofExcept_bind_of_ok (ExpressionForm.read_text_of_ok hparse)]
    simp

end

/-- The record states the total of the result and the signed value of each outcome. -/
def AuditRecord.Reports (record : AuditRecord) (result : Result) : Prop :=
  record.total = result.total ∧
    record.entries.map AuditEntry.subtotal = result.outcomes.map fun outcome =>
      outcome.value.amount

theorem Outcome.subtotal_entry (outcome : Outcome) :
    outcome.entry.subtotal = outcome.value.amount := by
  rcases hterm : outcome.signed.term with pool | value <;> simp [entry, hterm, AuditEntry.subtotal]

theorem AuditRecord.reports_ofResult (origin : Origin) (style : Style) (input : String)
    (e : Expression) (result : Result) : (ofResult origin style input e result).Reports result := by
  refine ⟨rfl, ?_⟩
  rw [ofResult, List.map_map]
  exact List.map_congr_left fun outcome _ => outcome.subtotal_entry

namespace Expression

/-- All ways to roll a text refuse one that cannot be read with the same error, and those
with a cap stop in one way at an expression that exceeds it; nothing is drawn then.  They
refuse it for its size exactly if the cap can be written, and otherwise fail to write the cap.
An expression within the cap lets all of them end in the same feed, with the values of the
evaluation or with its fault, and there are no more requests than the cap allows. -/
theorem entryPoints_agree (source : Source σ) (origin : Origin) (style : Style)
    (text : String) (cap : Int) (feed : Feed σ) :
    (∀ error, parse text = .error error →
      (ExpressionForm.text text).roll source feed = .error (.refused error) feed ∧
      (ExpressionForm.text text).rollCapped source cap feed = .error (.refused error) feed ∧
      auditText source origin style cap text feed = .error (.refused error) feed) ∧
    (∀ e, parse text = .ok e → e.exceeds cap = true → ∃ fault,
      (ExpressionForm.text text).rollCapped source cap feed = .error fault feed ∧
      e.rollCapped source cap feed = .error fault feed ∧
      auditText source origin style cap text feed = .error fault feed ∧
      (fault = .refused (.exceededCap e cap) ↔ Writable cap) ∧
      (¬ Writable cap → fault = .overlong)) ∧
    (∀ e, parse text = .ok e → e.exceeds cap = false →
      (ExpressionForm.text text).roll source feed = e.evaluate source feed ∧
      (ExpressionForm.text text).rollCapped source cap feed = e.evaluate source feed ∧
      e.rollCapped source cap feed = e.evaluate source feed ∧
      (∀ result last, e.evaluate source feed = .ok result last →
        ∃ record, auditText source origin style cap text feed = .ok record last ∧
          record.Reports result) ∧
      (∀ fault last, e.evaluate source feed = .error fault last →
        auditText source origin style cap text feed = .error fault last) ∧
      feed.WithinRequests (finalFeed (e.evaluate source feed)) cap) := by
  refine ⟨?_, ?_, ?_⟩
  · intro error hparse
    have hread := ExpressionForm.read_text_of_error hparse
    exact ⟨ExpressionForm.roll_of_error hread, ExpressionForm.rollCapped_of_error hread,
      ofExcept_bind_of_error hread _⟩
  · intro e hparse hcap
    have hread := ExpressionForm.read_text_of_ok hparse
    have hcapped : e.rollCapped source cap feed =
      .error (DiceError.exceededCap e cap).raised feed := rollCapped_of_exceeds hcap
    refine ⟨_, (ExpressionForm.rollCapped_of_ok hread).trans hcapped, hcapped, ?_, ?_, ?_⟩
    · rw [auditText, ofExcept_bind_of_ok hread, audit_of_exceeds hcap]
    · rw [DiceError.raised_eq_refused_iff, DiceError.wordable_exceededCap_iff]
      exact and_iff_left rfl
    · intro hlong
      exact DiceError.raised_exceededCap_of_not_writable hlong
  · intro e hparse hcap
    have hread := ExpressionForm.read_text_of_ok hparse
    have hcapped : e.rollCapped source cap feed = e.evaluate source feed :=
      rollCapped_of_admitted hcap
    refine ⟨ExpressionForm.roll_of_ok hread,
      (ExpressionForm.rollCapped_of_ok hread).trans hcapped, hcapped, ?_, ?_,
      withinRequests_evaluate hcap source feed⟩
    · intro result last hroll
      refine ⟨_, ?_, AuditRecord.reports_ofResult origin style text e result⟩
      rw [auditText, ofExcept_bind_of_ok hread, audit_of_ok hcap hroll]
    · intro fault last hroll
      rw [auditText, ofExcept_bind_of_ok hread, audit_of_error hcap hroll]

/-- One more step than allowed is refused without a draw; with a step more the roll ends at
its second draw, whether it is audited or not. -/
theorem steep_entryPoints_agree :
    parse (toString steep) = .ok steep ∧ steep.exceeds 3 = true ∧ steep.exceeds 4 = false ∧
      auditText Generator.source .supplied {} 3 (toString steep) ⟨.highest, #[]⟩ =
        .error (.refused (.exceededCap steep 3)) ⟨.highest, #[]⟩ ∧
      (ExpressionForm.text (toString steep)).roll Generator.source ⟨.highest, #[]⟩ =
        .error (.refused (.stated .overflowNegative none))
          ⟨.highest, #[maxMagnitude, maxMagnitude]⟩ ∧
      auditText Generator.source .supplied {} 4 (toString steep) ⟨.highest, #[]⟩ =
        .error (.refused (.stated .overflowNegative none))
          ⟨.highest, #[maxMagnitude, maxMagnitude]⟩ := by
  have hparse := steep.parse_toString
  have hroll : steep.evaluate Generator.source ⟨.highest, #[]⟩ =
      .error (.refused (.stated .overflowNegative none))
        ⟨.highest, #[maxMagnitude, maxMagnitude]⟩ := rfl
  obtain ⟨_, hrefused, _⟩ :=
    entryPoints_agree Generator.source .supplied {} (toString steep) 3 ⟨.highest, #[]⟩
  obtain ⟨_, _, hadmitted⟩ :=
    entryPoints_agree Generator.source .supplied {} (toString steep) 4 ⟨.highest, #[]⟩
  obtain ⟨htext, _, _, _, haudit, _⟩ := hadmitted steep hparse (by decide)
  obtain ⟨fault, _, _, hstopped, hworded, _⟩ := hrefused steep hparse (by decide)
  have hfault : fault = .refused (.exceededCap steep 3) := hworded.mpr (by decide)
  rw [hfault] at hstopped
  refine ⟨hparse, by decide, by decide, hstopped, ?_, haudit _ _ hroll⟩
  rw [htext, hroll]

/-- A constant exceeds every negative cap, but is not refused for that where the cap is the
first one that is too long to be written. -/
theorem overlong_cap_not_refused :
    ∃ five, parse "5" = .ok five ∧ five.exceeds (-10 ^ maxWrittenDigits) = true ∧
      (ExpressionForm.text "5").rollCapped Generator.source (-10 ^ maxWrittenDigits)
          ⟨.highest, #[]⟩ = .error .overlong ⟨.highest, #[]⟩ := by
  have hlong : ¬ Writable (-10 ^ maxWrittenDigits) := by
    rw [writable_neg_iff]
    exact not_writable_ten_pow
  have hnegative : -10 ^ maxWrittenDigits < (0 : Int) :=
    Int.neg_neg_of_pos (Int.pow_pos (by decide))
  have hparse : parse "5" = .ok ⟨⟨.plus, .constant ⟨5, by decide⟩⟩, []⟩ := by decide +kernel
  refine ⟨_, hparse, exceeds_of_neg hnegative, ?_⟩
  rw [ExpressionForm.rollCapped_of_ok (ExpressionForm.read_text_of_ok hparse)]
  exact rollCapped_of_overlong (exceeds_of_neg hnegative) hlong

end Expression

end TabletopDice
