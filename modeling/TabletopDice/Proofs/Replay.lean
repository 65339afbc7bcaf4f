/-
Replay of an audit.  A record lists exactly the faces that were drawn for it, and its normal
spelling reads as the expression that was rolled, so that both together determine the roll.
-/
import TabletopDice.Proofs.EntryPoints
import TabletopDice.Proofs.Fairness

namespace TabletopDice

variable {σ τ : Type}

/-- From this state on the source answers with the faces in order, whatever dice it is asked
for, and is then in a state in which they are `spent`. -/
def Source.HandsOut (source : Source σ) (spent : σ → Prop) : List Int → σ → Prop
  | [], state => spent state
  | face :: faces, state => ∀ sides, ∃ next,
      source.answer sides state = .ok face next ∧ source.HandsOut spent faces next

/-- As many requests as there are faces are answered with all of them. -/
theorem Source.HandsOut.replies {source : Source σ} {spent : σ → Prop} {faces : List Int}
    {requests : List Nat} {state : σ} (h : source.HandsOut spent faces state)
    (hlength : requests.length = faces.length) :
    ∃ final, source.replies requests state = ⟨faces, none, final⟩ ∧ spent final := by
  induction requests generalizing faces state with
  | nil =>
      obtain rfl := List.length_eq_zero_iff.mp hlength.symm
      exact ⟨state, rfl, h⟩
  | cons sides requests ih =>
      rcases faces with _ | ⟨face, faces⟩
      · simp at hlength
      · obtain ⟨next, hanswer, hnext⟩ := h sides
        obtain ⟨final, hreplies, hfinal⟩ := ih hnext (Nat.succ.inj hlength)
        refine ⟨final, ?_, hfinal⟩
        rw [replies_cons_of_ok hanswer, hreplies]

theorem Generator.handsOut_script (faces more : List Int) :
    source.HandsOut (· = .script more) faces (.script (faces ++ more)) := by
  induction faces with
  | nil => rfl
  | cons face faces ih =>
      intro sides
      exact ⟨_, rfl, ih⟩

/-- The faces that an account of a term lists. -/
def AuditEntry.rolls : AuditEntry → List Int
  | constant _ _ => []
  | dice _ _ rolls _ => rolls

/-- All faces that the record lists, in the order of its terms. -/
def AuditRecord.faces (record : AuditRecord) : List Int :=
  record.entries.flatMap AuditEntry.rolls

/-- The account of a term lists what was drawn for it. -/
theorem Outcome.Accounts.rolls_entry {outcome : Outcome} {faces : List Int}
    (h : outcome.Accounts faces) : outcome.entry.rolls = faces := by
  rcases h with ⟨sign, pool, faces, several, hlength⟩ | ⟨sign, pool, hone⟩ | ⟨sign, value⟩
  · simp [entry, AuditEntry.rolls, several, Value.parts, Parts.toList]
  · simp [entry, AuditEntry.rolls, hone]
  · rfl

theorem flatMap_rolls_entry {outcomes : List Outcome} {shares : List (List Int)}
    (h : List.Forall₂ Outcome.Accounts outcomes shares) :
    (outcomes.map Outcome.entry).flatMap AuditEntry.rolls = shares.flatten := by
  induction h with
  | nil => rfl
  | cons hfirst _ ih =>
      rw [List.map_cons, List.flatMap_cons, hfirst.rolls_entry, ih, List.flatten_cons]

namespace Expression

variable {source : Source σ} {source' : Source τ} {e : Expression} {feed last : Feed σ}
  {feed' : Feed τ} {spent : τ → Prop} {result : Result}

/-- The record of a roll lists the faces with which the source has answered. -/
theorem faces_ofResult (h : e.evaluate source feed = .ok result last) (origin : Origin)
    (style : Style) (input : String) :
    (AuditRecord.ofResult origin style input e result).faces =
      (source.replies e.requests feed.state).faces := by
  obtain ⟨shares, hshares, haccounts⟩ := exists_shares_of_evaluate h
  rw [hshares]
  exact flatMap_rolls_entry haccounts

/-- A second source that hands out the faces of the first one leads to the same result. -/
theorem evaluate_of_handsOut (h : e.evaluate source feed = .ok result last)
    (hfaces : source'.HandsOut spent (source.replies e.requests feed.state).faces
      feed'.state) :
    ∃ final, e.evaluate source' feed' =
        .ok result ⟨final, feed'.requests ++ e.requests.toArray⟩ ∧ spent final := by
  obtain ⟨hbreach, hanswered, hresult, _⟩ := evaluate_eq_ok_iff.mp h
  have hlength := Source.failure_eq_none_iff.mp hanswered
  obtain ⟨final, hreplies, hfinal⟩ := hfaces.replies hlength.symm
  have hlast : feed'.after source' e.requests =
      ⟨final, feed'.requests ++ e.requests.toArray⟩ := by
    have hfailure : (source'.replies e.requests feed'.state).failure = none := by rw [hreplies]
    have hstate : (source'.replies e.requests feed'.state).state = final := by rw [hreplies]
    rw [← Feed.requests_after_of_answered hfailure, ← hstate, ← Feed.state_after]
  refine ⟨final, ?_, hfinal⟩
  rw [evaluate_eq_ok_iff, hreplies]
  exact ⟨hbreach, rfl, hresult, hlast⟩

/-- A record replays.  If a source hands out the faces that the record lists, the normal
spelling rolls to the same record again, with the same requests; all of the faces are used
and nothing else is drawn. -/
theorem auditText_replays (source : Source σ) (source' : Source τ) (origin origin' : Origin)
    (style : Style) (cap : Int) (text : String) (feed last : Feed σ) (feed' : Feed τ)
    (record : AuditRecord) (spent : τ → Prop)
    (h : auditText source origin style cap text feed = .ok record last)
    (hfaces : source'.HandsOut spent record.faces feed'.state) :
    ∃ (made : List Nat) (final : τ),
      last.requests = feed.requests ++ made.toArray ∧
        made.length = record.faces.length ∧
        auditText source' origin' style cap record.normalized feed' =
          .ok { record with input := record.normalized, origin := origin' }
            ⟨final, feed'.requests ++ made.toArray⟩ ∧
        spent final := by
  obtain ⟨e, hparse, haudit⟩ := auditText_eq_ok_iff.mp h
  obtain ⟨hcap, result, hroll, rfl⟩ := audit_eq_ok_iff.mp haudit
  obtain ⟨_, hanswered, _, hlast⟩ := evaluate_eq_ok_iff.mp hroll
  rw [faces_ofResult hroll] at hfaces ⊢
  obtain ⟨final, hreplay, hfinal⟩ := evaluate_of_handsOut hroll hfaces
  refine ⟨e.requests, final, ?_, (Source.failure_eq_none_iff.mp hanswered).symm, ?_, hfinal⟩
  · rw [← hlast]
    exact Feed.requests_after_of_answered hanswered
  · have hread : parse (toString e) = .ok e := e.parse_toString
    exact auditText_eq_ok_iff.mpr ⟨e, hread, audit_eq_ok_iff.mpr ⟨hcap, result, hreplay, rfl⟩⟩

/-- Three faces of a script are enough to roll the record again, and the face behind them is
left. -/
theorem mixed_auditText_replays :
    let record : AuditRecord := {
      input := " -4d1+0d6-2d8 +5 + d20\t"
      normalized := "-4d1 + 0d6 - 2d8 + 5 + 1d20"
      entries := [
        .dice .minus ⟨⟨4, by decide⟩, .one, by decide⟩ [] (-4),
        .dice .plus ⟨⟨0, by decide⟩, ⟨6, by decide⟩, by decide⟩ [] 0,
        .dice .minus ⟨⟨2, by decide⟩, ⟨8, by decide⟩, by decide⟩ [3, 1] (-4),
        .constant .plus 5,
        .dice .plus ⟨.one, ⟨20, by decide⟩, by decide⟩ [17] 17]
      total := 14
      explanation := "-(4d1 → 4) + (0d6 → 0) - (2d8 → 4) + 5 + (1d20 → 17) = 14"
      origin := .system }
    record.faces = [3, 1, 17] ∧
      auditText Generator.source .system (.ofAdjustments [.totalRight, .concise]) 5
          record.input ⟨.script [3, 1, 17, 2], #[]⟩ =
        .ok record ⟨.script [2], #[8, 8, 20]⟩ ∧
      auditText Generator.source .supplied (.ofAdjustments [.totalRight, .concise]) 5
          record.normalized ⟨.script [3, 1, 17, 9], #[4]⟩ =
        .ok { record with input := record.normalized, origin := .supplied }
          ⟨.script [9], #[4, 8, 8, 20]⟩ := by
  intro record
  have hparse : parse record.input = .ok mixed := by
    unfold record
    decide +kernel
  have haudit : mixed.audit Generator.source .system (.ofAdjustments [.totalRight, .concise]) 5
      record.input ⟨.script [3, 1, 17, 2], #[]⟩ =
        .ok record ⟨.script [2], #[8, 8, 20]⟩ := by
    unfold record
    exact audit_eq_ok_iff.mpr ⟨rfl, _, rfl, by decide +kernel⟩
  have hrecord := auditText_eq_ok_iff.mpr ⟨mixed, hparse, haudit⟩
  obtain ⟨made, final, hrequests, _, hreplay, rfl⟩ :=
    auditText_replays Generator.source Generator.source .system .supplied _ 5 _ _ _
      ⟨.script [3, 1, 17, 9], #[4]⟩ _ (· = .script [9]) hrecord
      (Generator.handsOut_script [3, 1, 17] [9])
  have hmade : made = [8, 8, 20] := by simpa using hrequests.symm
  rw [hmade] at hreplay
  exact ⟨rfl, hrecord, hreplay⟩

end Expression

end TabletopDice
