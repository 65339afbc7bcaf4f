/-
The tool for texts and the tool for tuples.  Tuples that are accepted are answered like the
normal spelling of what they are read as, word for word; a text is answered like the tuples
that the reading tool gives for it, as far as totals and kinds of error go.
-/
import TabletopDice.Proofs.Isolation
import TabletopDice.Proofs.TupleRolls

namespace TabletopDice.Service

variable {σ : Type} {setup : Setup σ} {feed : Feed σ} {request other : Call} {e e' : Expression}

/-- Two calls for a roll have the same answer if they read the same and have the same
input. -/
theorem call_congr (hrolls : request.Rolls) (hrolls' : other.Rolls)
    (hread : request.form.read = .ok e) (hread' : other.form.read = .ok e)
    (hinput : request.input e = other.input e) :
    call setup request feed = call setup other feed := by
  have hperform : perform setup request feed = perform setup other feed := by
    rw [hrolls.perform_eq, hrolls'.perform_eq, ofExcept_bind_of_ok hread,
      ofExcept_bind_of_ok hread', hinput]
  simp only [call, hperform]

/-- The two answers give the same total and the same subtotals, an error of the same kind, the
same failure of the source, or both fail to write a number. -/
inductive SameAnswer : Except CallFailure Reply → Except CallFailure Reply → Prop where
  | rolled {left right : AuditRecord} (total : left.total = right.total)
      (subtotals : left.entries.map AuditEntry.subtotal = right.entries.map AuditEntry.subtotal) :
      SameAnswer (.ok (.rolled left)) (.ok (.rolled right))
  | invalid {left right : DiceError} (kind : left.kind = right.kind) :
      SameAnswer (.error (.invalid left.text)) (.error (.invalid right.text))
  | failed {failure : SourceFailure} :
      SameAnswer (.error (.source failure)) (.error (.source failure))
  | overlong : SameAnswer (.error .overlong) (.error .overlong)

/-- What exceeds a cap is answered alike, since only the cap decides whether the error can be put
into words. -/
theorem sameAnswer_exceededCap (e e' : Expression) (cap : Int) :
    SameAnswer (.error (.ofFault (DiceError.exceededCap e cap).raised))
      (.error (.ofFault (DiceError.exceededCap e' cap).raised)) := by
  by_cases hcap : Writable cap
  · rw [DiceError.raised_exceededCap_of_writable hcap,
      DiceError.raised_exceededCap_of_writable hcap]
    exact .invalid rfl
  · rw [DiceError.raised_exceededCap_of_not_writable hcap,
      DiceError.raised_exceededCap_of_not_writable hcap]
    exact .overlong

/-- Calls whose expressions exceed the same caps and roll alike are answered alike. -/
theorem sameAnswer_of_sameEnding (hrolls : request.Rolls) (hrolls' : other.Rolls)
    (hread : request.form.read = .ok e) (hread' : other.form.read = .ok e')
    (hexceeds : e.exceeds setup.cap = e'.exceeds setup.cap)
    (hending : SameEnding (e.evaluate setup.source feed) (e'.evaluate setup.source feed)) :
    SameAnswer (call setup request feed).1 (call setup other feed).1 ∧
      (call setup request feed).2 = (call setup other feed).2 := by
  rcases hcap : e.exceeds setup.cap with _ | _
  · have hadmitted : request.Admitted setup.cap e := ⟨hrolls, hread, hcap⟩
    have hadmitted' : other.Admitted setup.cap e' := ⟨hrolls', hread', hexceeds ▸ hcap⟩
    generalize hroll : e.evaluate setup.source feed = ending at hending
    generalize hroll' : e'.evaluate setup.source feed = ending' at hending
    rcases hending with @⟨left, right, last, htotal, houtcomes⟩ | hkind | _
    · have hleft := AuditRecord.reports_ofResult setup.origin explanationStyle
        (request.input e) e left
      have hright := AuditRecord.reports_ofResult setup.origin explanationStyle
        (other.input e') e' right
      rw [hadmitted.call_of_ok hroll, hadmitted'.call_of_ok hroll']
      refine ⟨.rolled htotal ?_, rfl⟩
      rw [hleft.2, hright.2, amounts_eq_of_sameRoll houtcomes]
    · rw [hadmitted.call_of_error hroll, hadmitted'.call_of_error hroll']
      exact ⟨.invalid hkind, rfl⟩
    · rw [hadmitted.call_of_error hroll, hadmitted'.call_of_error hroll']
      exact ⟨.failed, rfl⟩
  · rw [call_of_beyondCap hrolls hread hcap,
      call_of_beyondCap hrolls' hread' (hexceeds ▸ hcap)]
    exact ⟨sameAnswer_exceededCap e e' setup.cap, rfl⟩

theorem exists_failure_parse_iff {text : String} :
    (∃ failure, (call setup (.parse text) feed).1 = .error failure) ↔
      ∃ error, Expression.parse text = .error error := by
  rcases hparse : Expression.parse text with error | e
  · have hcall : call setup (.parse text) feed = (.error (.invalid error.text), feed) :=
      call_of_refused (ExpressionForm.read_text_of_error hparse)
    rw [hcall]
    exact iff_of_true ⟨_, rfl⟩ ⟨error, rfl⟩
  · rw [call_parse_of_ok (ExpressionForm.read_text_of_ok hparse)]
    simp

/-- The tuples of a reading, as a call takes them. -/
def Reading.entries (reading : Reading) : List (List Int) := reading.tuples.map tupleEntry

/-- Tuples that are accepted and the normal spelling of what they are read as get one answer,
with the same requests.  The reading tool fails just for a text that cannot be read, in the
words of the tool that rolls it; otherwise rolling the tuples that it gives makes the same
requests as rolling the text, and ends with the same total and subtotals, with an error of
the same kind, or with the same failure of the source. -/
theorem tools_agree (setup : Setup σ) (feed : Feed σ) :
    (∀ entries e, Expression.ofEntries entries = .ok e →
      call setup (.rollTuples entries) feed = call setup (.roll (toString e)) feed) ∧
    (∀ text, (∃ failure, (call setup (.parse text) feed).1 = .error failure) ↔
      ∃ error, Expression.parse text = .error error) ∧
    (∀ text error, Expression.parse text = .error error →
      call setup (.parse text) feed = (.error (.invalid error.text), feed) ∧
      call setup (.roll text) feed = (.error (.invalid error.text), feed)) ∧
    (∀ text e, Expression.parse text = .ok e →
      call setup (.parse text) feed = (.ok (.parsed (readingOf text e)), feed) ∧
      SameAnswer (call setup (.rollTuples (readingOf text e).entries) feed).1
        (call setup (.roll text) feed).1 ∧
      (call setup (.rollTuples (readingOf text e).entries) feed).2 =
        (call setup (.roll text) feed).2) := by
  refine ⟨?_, ?_, ?_, ?_⟩
  · intro entries e hentries
    exact call_congr trivial trivial hentries (ExpressionForm.read_text_of_ok e.parse_toString) rfl
  · intro text
    exact exists_failure_parse_iff
  · intro text error hparse
    have hread := ExpressionForm.read_text_of_error hparse
    exact ⟨call_of_refused hread, call_of_refused hread⟩
  · intro text e hparse
    have hread := ExpressionForm.read_text_of_ok hparse
    refine ⟨call_parse_of_ok hread, ?_⟩
    exact sameAnswer_of_sameEnding trivial trivial e.ofEntries_toEntries hread
      (e.exceeds_viaTuples _) (e.sameEnding_viaTuples _ _)

/-- Of `-2d1 - 0d6 + 1d20` the tuples leave `-2 + 0d6 + 1d20`.  With a face of 17 both roll to
15, by the same subtotals. -/
theorem lossy_tools_agree :
    call ⟨Generator.source, .supplied, 2⟩ (.parse "-2d1-0d6+d20") ⟨.script [17], #[]⟩ =
        (.ok (.parsed {
          input := "-2d1-0d6+d20"
          normalized := "-2d1 - 0d6 + 1d20"
          tuples := [(-2, 1), (0, 6), (1, 20)] }), ⟨.script [17], #[]⟩) ∧
      call ⟨Generator.source, .supplied, 2⟩ (.roll "-2d1-0d6+d20") ⟨.script [17], #[]⟩ =
        (.ok (.rolled {
          input := "-2d1-0d6+d20"
          normalized := "-2d1 - 0d6 + 1d20"
          entries := [
            .dice .minus ⟨⟨2, by decide⟩, .one, by decide⟩ [] (-2),
            .dice .minus ⟨⟨0, by decide⟩, ⟨6, by decide⟩, by decide⟩ [] 0,
            .dice .plus ⟨.one, ⟨20, by decide⟩, by decide⟩ [17] 17]
          total := 15
          explanation := "-(2d1 → 2) - (0d6 → 0) + (1d20 → 17) = 15"
          origin := .supplied }), ⟨.script [], #[20]⟩) ∧
      call ⟨Generator.source, .supplied, 2⟩ (.rollTuples [[-2, 1], [0, 6], [1, 20]])
          ⟨.script [17], #[]⟩ =
        (.ok (.rolled {
          input := "-2 + 0d6 + 1d20"
          normalized := "-2 + 0d6 + 1d20"
          entries := [
            .constant .minus (-2),
            .dice .plus ⟨⟨0, by decide⟩, ⟨6, by decide⟩, by decide⟩ [] 0,
            .dice .plus ⟨.one, ⟨20, by decide⟩, by decide⟩ [17] 17]
          total := 15
          explanation := "-2 + (0d6 → 0) + (1d20 → 17) = 15"
          origin := .supplied }), ⟨.script [], #[20]⟩) ∧
      SameAnswer
        (call ⟨Generator.source, .supplied, 2⟩ (.rollTuples [[-2, 1], [0, 6], [1, 20]])
          ⟨.script [17], #[]⟩).1
        (call ⟨Generator.source, .supplied, 2⟩ (.roll "-2d1-0d6+d20") ⟨.script [17], #[]⟩).1 ∧
      call ⟨Generator.source, .supplied, 2⟩ (.rollTuples [[-2, 1], [0, 6], [1, 20]])
          ⟨.script [17], #[]⟩ =
        call ⟨Generator.source, .supplied, 2⟩ (.roll "-2 + 0d6 + 1d20") ⟨.script [17], #[]⟩ ∧
      call ⟨Generator.source, .supplied, 2⟩ (.parse "zz") ⟨.script [17], #[]⟩ =
        (.error (.invalid
          "[INVALID_EXPRESSION] Expected a term at position 0 in 'zz'. Example: '2d6 + 3'."),
          ⟨.script [17], #[]⟩) := by
  obtain ⟨e, hparse, hreading⟩ := Check.map_eq_ok_iff.mp
    (show (Expression.parse "-2d1-0d6+d20").map (readingOf "-2d1-0d6+d20") =
      .ok ⟨"-2d1-0d6+d20", "-2d1 - 0d6 + 1d20", [(-2, 1), (0, 6), (1, 20)]⟩ by decide +kernel)
  obtain ⟨e', hentries, hspelling⟩ := Check.map_eq_ok_iff.mp
    (show (Expression.ofEntries [[-2, 1], [0, 6], [1, 20]]).map toString =
      .ok "-2 + 0d6 + 1d20" by decide +kernel)
  have hunreadable : Expression.parse "zz" = .error (.expectedTerm 0 "zz") := rfl
  have htext : (DiceError.expectedTerm 0 "zz").text =
      "[INVALID_EXPRESSION] Expected a term at position 0 in 'zz'. Example: '2d6 + 3'." := by
    decide +kernel
  obtain ⟨hspelled, _, hrefused, hread⟩ :=
    tools_agree ⟨Generator.source, .supplied, 2⟩ ⟨.script [17], #[]⟩
  obtain ⟨hparsed, hanswer, _⟩ := hread _ _ hparse
  have htuples := hspelled _ _ hentries
  have herror := (hrefused _ _ hunreadable).1
  rw [hreading] at hparsed hanswer
  rw [hspelling] at htuples
  rw [htext] at herror
  exact ⟨hparsed, by decide +kernel, by decide +kernel, hanswer, htuples, herror⟩

end TabletopDice.Service
