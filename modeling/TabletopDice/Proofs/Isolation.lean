/-
Calls on a shared source.  A call that reads without rolling, or that is refused before the
first draw, leaves the feed as it is, so the calls after it cannot tell whether it was made.
-/
import TabletopDice.Proofs.EntryPoints
import TabletopDice.Service

namespace TabletopDice.Service

variable {σ : Type} {setup : Setup σ} {feed last : Feed σ} {request : Call} {e : Expression}
  {fault : Fault}

/-- The form in which a call hands over its expression. -/
def Call.form : Call → ExpressionForm
  | roll text => .text text
  | parse text => .text text
  | rollTuples entries => .entries entries

/-- The call asks for a roll. -/
def Call.Rolls : Call → Prop
  | parse _ => False
  | _ => True

/-- The call draws nothing: it only reads, or it is refused for what it hands over or for
the size of that. -/
inductive Call.Idle (cap : Int) : Call → Prop where
  | parse (text : String) : Idle cap (.parse text)
  | unreadable {request : Call} {fault : Fault} (read : request.form.read = .error fault) :
      Idle cap request
  | beyondCap {request : Call} {e : Expression} (rolls : request.Rolls)
      (read : request.form.read = .ok e) (exceeds : e.exceeds cap = true) : Idle cap request

/-- The expression of the call is rolled. -/
structure Call.Admitted (cap : Int) (request : Call) (e : Expression) : Prop where
  rolls : request.Rolls
  read : request.form.read = .ok e
  within : e.exceeds cap = false

/-- What goes wrong inside the call, and the feed on which it does. -/
inductive Call.Raises (setup : Setup σ) (feed : Feed σ) (request : Call) :
    Fault → Feed σ → Prop where
  | unreadable {fault : Fault} (read : request.form.read = .error fault) :
      Raises setup feed request fault feed
  | beyondCap {e : Expression} (rolls : request.Rolls) (read : request.form.read = .ok e)
      (exceeds : e.exceeds setup.cap = true) :
      Raises setup feed request (DiceError.exceededCap e setup.cap).raised feed
  | rolling {e : Expression} {fault : Fault} {last : Feed σ}
      (admitted : request.Admitted setup.cap e)
      (roll : e.evaluate setup.source feed = .error fault last) :
      Raises setup feed request fault last

theorem Call.rolls_or_eq_parse (request : Call) :
    request.Rolls ∨ ∃ text, request = .parse text := by
  rcases request with text | text | entries
  · exact .inl trivial
  · exact .inr ⟨text, rfl⟩
  · exact .inl trivial

theorem Call.idle_or_admitted (cap : Int) (request : Call) :
    request.Idle cap ∨ ∃ e, request.Admitted cap e := by
  rcases request.rolls_or_eq_parse with hrolls | ⟨text, rfl⟩
  · rcases hread : request.form.read with fault | e
    · exact .inl (.unreadable hread)
    · rcases hcap : e.exceeds cap
      · exact .inr ⟨e, hrolls, hread, hcap⟩
      · exact .inl (.beyondCap hrolls hread hcap)
  · exact .inl (.parse text)

theorem call_of_ok {reply : Reply} (h : perform setup request feed = .ok reply last) :
    call setup request feed = (.ok reply, last) := by
  simp only [call, h]

theorem call_of_error (h : perform setup request feed = .error fault last) :
    call setup request feed = (.error (.ofFault fault), last) := by
  simp only [call, h]

theorem call_parse_of_ok {text : String} (h : (ExpressionForm.text text).read = .ok e) :
    call setup (.parse text) feed = (.ok (.parsed (readingOf text e)), feed) :=
  call_of_ok (map_of_ok (ofExcept_of_ok h) _)

/-- What a call for a roll is accounted for under. -/
def Call.input : Call → Expression → String
  | roll text, _ => text
  | parse text, _ => text
  | rollTuples _, e => toString e

/-- A call for a roll reads its expression and then audits it. -/
theorem Call.Rolls.perform_eq (h : request.Rolls) (setup : Setup σ) :
    perform setup request =
      Rolling.ofExcept request.form.read >>= fun e => Reply.rolled <$>
        e.audit setup.source setup.origin explanationStyle setup.cap (request.input e) := by
  rcases request with text | text | entries
  · exact map_bind ..
  · exact h.elim
  · rfl

theorem call_of_unreadable (h : request.form.read = .error fault) :
    call setup request feed = (.error (.ofFault fault), feed) := by
  have hfault : perform setup request feed = .error fault feed := by
    rcases request.rolls_or_eq_parse with hrolls | ⟨text, rfl⟩
    · rw [hrolls.perform_eq, ofExcept_bind_of_error h]
    · exact map_of_error (ofExcept_of_error h) _
  exact call_of_error hfault

theorem call_of_refused {error : DiceError} (h : request.form.read = .error (.refused error)) :
    call setup request feed = (.error (.invalid error.text), feed) :=
  call_of_unreadable h

theorem call_of_beyondCap (hrolls : request.Rolls) (hread : request.form.read = .ok e)
    (hcap : e.exceeds setup.cap = true) :
    call setup request feed =
      (.error (.ofFault (DiceError.exceededCap e setup.cap).raised), feed) := by
  have hfault : perform setup request feed =
      .error (DiceError.exceededCap e setup.cap).raised feed := by
    rw [hrolls.perform_eq, ofExcept_bind_of_ok hread]
    exact map_of_error (Expression.audit_of_exceeds hcap) _
  exact call_of_error hfault

theorem Call.Admitted.call_of_ok {result : Result} (h : request.Admitted setup.cap e)
    (hroll : e.evaluate setup.source feed = .ok result last) :
    call setup request feed = (.ok (.rolled
      (.ofResult setup.origin explanationStyle (request.input e) e result)), last) := by
  have hreply : perform setup request feed = .ok (.rolled
      (.ofResult setup.origin explanationStyle (request.input e) e result)) last := by
    rw [h.rolls.perform_eq, ofExcept_bind_of_ok h.read]
    exact map_of_ok (Expression.audit_of_ok h.within hroll) _
  exact Service.call_of_ok hreply

theorem Call.Admitted.call_of_error (h : request.Admitted setup.cap e)
    (hroll : e.evaluate setup.source feed = .error fault last) :
    call setup request feed = (.error (.ofFault fault), last) := by
  have hfault : perform setup request feed = .error fault last := by
    rw [h.rolls.perform_eq, ofExcept_bind_of_ok h.read]
    exact map_of_error (Expression.audit_of_error h.within hroll) _
  exact Service.call_of_error hfault

/-- An idle call leaves the feed as it is, whatever its answer is. -/
theorem Call.Idle.feed_call (h : request.Idle setup.cap) (feed : Feed σ) :
    (call setup request feed).2 = feed := by
  rcases h with text | hread | ⟨hrolls, hread, hcap⟩
  · rcases hread : (Call.parse text).form.read with fault | e
    · rw [call_of_unreadable hread]
    · rw [call_parse_of_ok hread]
  · rw [call_of_unreadable hread]
  · rw [call_of_beyondCap hrolls hread hcap]

/-- A call ends in the feed in which its roll ends, if there is one. -/
theorem Call.Admitted.feed_call (h : request.Admitted setup.cap e) (feed : Feed σ) :
    (call setup request feed).2 = finalFeed (e.evaluate setup.source feed) := by
  rcases hroll : e.evaluate setup.source feed with ⟨result, last⟩ | ⟨fault, last⟩
  · rw [h.call_of_ok hroll]
    rfl
  · rw [h.call_of_error hroll]
    rfl

/-- A call makes no more requests than the cap allows, whatever becomes of it. -/
theorem withinRequests_call (setup : Setup σ) (request : Call) (feed : Feed σ) :
    feed.WithinRequests (call setup request feed).2 (max setup.cap 0) := by
  rcases request.idle_or_admitted setup.cap with hidle | ⟨e, hadmitted⟩
  · rw [hidle.feed_call]
    exact feed.withinRequests_refl (le_max_right _ _)
  · rw [hadmitted.feed_call]
    exact (Expression.withinRequests_evaluate hadmitted.within _ feed).mono (le_max_left _ _)

theorem Call.Raises.call_eq (h : request.Raises setup feed fault last) :
    call setup request feed = (.error (.ofFault fault), last) := by
  rcases h with hread | ⟨hrolls, hread, hcap⟩ | ⟨hadmitted, hroll⟩
  · exact call_of_unreadable hread
  · exact call_of_beyondCap hrolls hread hcap
  · exact hadmitted.call_of_error hroll

/-- A call has a reply unless something goes wrong inside it. -/
theorem Call.raises_or_replies (setup : Setup σ) (request : Call) (feed : Feed σ) :
    (∃ fault last, request.Raises setup feed fault last) ∨
      ∃ reply, (call setup request feed).1 = .ok reply := by
  rcases request.idle_or_admitted setup.cap with hidle | ⟨e, hadmitted⟩
  · rcases hidle with text | hread | ⟨hrolls, hread, hcap⟩
    · rcases hread : (Call.parse text).form.read with fault | e
      · exact .inl ⟨fault, feed, .unreadable hread⟩
      · exact .inr ⟨_, congrArg Prod.fst (call_parse_of_ok hread)⟩
    · exact .inl ⟨_, feed, .unreadable hread⟩
    · exact .inl ⟨_, feed, .beyondCap hrolls hread hcap⟩
  · rcases hroll : e.evaluate setup.source feed with ⟨result, last⟩ | ⟨fault, last⟩
    · exact .inr ⟨_, congrArg Prod.fst (hadmitted.call_of_ok hroll)⟩
    · exact .inl ⟨fault, last, .rolling hadmitted hroll⟩

/-- A call fails with what goes wrong inside it, and for no other reason. -/
theorem call_eq_error_iff {failure : CallFailure} :
    call setup request feed = (.error failure, last) ↔
      ∃ fault, request.Raises setup feed fault last ∧ .ofFault fault = failure := by
  constructor
  · intro hcall
    rcases request.raises_or_replies setup feed with ⟨fault, last', hraises⟩ | ⟨reply, hreply⟩
    · rw [hraises.call_eq] at hcall
      simp only [Prod.mk.injEq, Except.error.injEq] at hcall
      obtain ⟨hfailure, rfl⟩ := hcall
      exact ⟨fault, hraises, hfailure⟩
    · rw [hcall] at hreply
      simp at hreply
  · rintro ⟨fault, hraises, rfl⟩
    exact hraises.call_eq

theorem CallFailure.ofFault_eq_invalid_iff {message : String} :
    ofFault fault = invalid message ↔ ∃ error, fault = .refused error ∧ error.text = message := by
  cases fault <;> simp [ofFault]

/-- Every dice error inside a call ends it with the text of the error, and a call is invalid
for no other reason. -/
theorem call_eq_invalid_iff {message : String} :
    call setup request feed = (.error (.invalid message), last) ↔
      ∃ error, request.Raises setup feed (.refused error) last ∧ error.text = message := by
  rw [call_eq_error_iff]
  constructor
  · rintro ⟨fault, hraises, hfailure⟩
    obtain ⟨error, rfl, htext⟩ := CallFailure.ofFault_eq_invalid_iff.mp hfailure
    exact ⟨error, hraises, htext⟩
  · rintro ⟨error, hraises, htext⟩
    exact ⟨_, hraises, CallFailure.ofFault_eq_invalid_iff.mpr ⟨error, rfl, htext⟩⟩

/-- What is left of a list when only the marked places stay. -/
def retained {α : Type} : List Bool → List α → List α
  | true :: marks, a :: rest => a :: retained marks rest
  | false :: marks, _ :: rest => retained marks rest
  | _, _ => []

/-- Without some idle calls, the others are answered as before and the feed ends up the
same. -/
theorem run_retained (setup : Setup σ) {calls : List Call} {marks : List Bool}
    (hlength : marks.length = calls.length)
    (hidle : ∀ request, (request, false) ∈ calls.zip marks → request.Idle setup.cap)
    (feed : Feed σ) :
    run setup (retained marks calls) feed =
      (retained marks (run setup calls feed).1, (run setup calls feed).2) := by
  induction calls generalizing marks feed with
  | nil =>
      obtain rfl := List.length_eq_zero_iff.mp hlength
      rfl
  | cons request rest ih =>
      rcases marks with _ | ⟨mark, marks⟩
      · simp at hlength
      · have hlater := ih (Nat.succ.inj hlength) fun request h =>
          hidle request (List.mem_cons_of_mem _ h)
        rcases mark
        · have hfeed := (hidle request List.mem_cons_self).feed_call feed
          simp only [retained, run, hlater, hfeed]
        · simp only [retained, run, hlater]

/-- Calls that draw nothing do not interfere with others: they can be left out, and neither
an answer nor the feed is different.  No call makes more requests than the cap allows, and
what is invalid about a call is the text of a dice error in it. -/
theorem idle_calls_isolated (setup : Setup σ) :
    (∀ (calls : List Call) (marks : List Bool) (feed : Feed σ),
      marks.length = calls.length →
      (∀ request, (request, false) ∈ calls.zip marks → request.Idle setup.cap) →
      run setup (retained marks calls) feed =
        (retained marks (run setup calls feed).1, (run setup calls feed).2)) ∧
    (∀ (request : Call) (feed : Feed σ),
      feed.WithinRequests (call setup request feed).2 (max setup.cap 0)) ∧
    (∀ (request : Call) (feed last : Feed σ) (message : String),
      call setup request feed = (.error (.invalid message), last) ↔
        ∃ error, request.Raises setup feed (.refused error) last ∧ error.text = message) := by
  refine ⟨?_, withinRequests_call setup, ?_⟩
  · intro calls marks feed hlength hidle
    exact run_retained setup hlength hidle feed
  · intro request feed last message
    exact call_eq_invalid_iff

/-- Calls of all sorts.  The third one overflows at its second draw, and the fourth is
refused for its size. -/
def mixedCalls : List Call :=
  [.parse "2d6", .roll "zz", .rollTuples [[9, 1], [-3, maxMagnitude]], .rollTuples [[5, 8]],
    .rollTuples [[2]], .rollTuples [[-1, 20], [2, 1]]]

/-- The overflow and the last roll are answered as if there were no other calls. -/
theorem mixedCalls_isolated :
    retained [false, false, true, false, false, true]
        (run ⟨Generator.source, .supplied, 4⟩ mixedCalls ⟨.highest, #[]⟩).1 =
      [.error (.invalid "[OVERFLOW_NEGATIVE] Sum is too low for a 64-bit integer."),
        .ok (.rolled {
          input := "-1d20 + 2"
          normalized := "-1d20 + 2"
          entries := [
            .dice .minus ⟨.one, ⟨20, by decide⟩, by decide⟩ [20] (-20), .constant .plus 2]
          total := -18
          explanation := "-(1d20 → 20) + 2 = -18"
          origin := .supplied })] ∧
      (run ⟨Generator.source, .supplied, 4⟩ mixedCalls ⟨.highest, #[]⟩).2 =
        ⟨.highest, #[maxMagnitude, maxMagnitude, 20]⟩ := by
  have hidle : ∀ request, (request, false) ∈
      mixedCalls.zip [false, false, true, false, false, true] → request.Idle 4 := by
    intro request hrequest
    simp only [mixedCalls, List.zip_cons_cons, List.zip_nil_left, List.mem_cons,
      List.not_mem_nil, Prod.mk.injEq, reduceCtorEq, and_true, and_false, false_or,
      or_false] at hrequest
    rcases hrequest with rfl | rfl | rfl | rfl
    · exact .parse "2d6"
    · exact @Call.Idle.unreadable 4 _ (.refused (.expectedTerm 0 "zz")) rfl
    · exact .beyondCap trivial rfl rfl
    · exact @Call.Idle.unreadable 4 _ (.refused (.wrongArity [2])) rfl
  have hrun := (idle_calls_isolated ⟨Generator.source, .supplied, 4⟩).1 mixedCalls
    [false, false, true, false, false, true] ⟨.highest, #[]⟩ rfl hidle
  rw [Prod.ext_iff] at hrun
  refine ⟨hrun.1.symm.trans ?_, hrun.2.symm.trans rfl⟩
  decide +kernel

end TabletopDice.Service
