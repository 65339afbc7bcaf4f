/-
A source under a list of requests, made one after another until it fails.  The replies depend
on the state that the source is in and not on what is done with them, so that all a roll
can do is to stop early.
-/
import TabletopDice.Source.Basic

namespace TabletopDice

variable {σ : Type}

/-- The faces that a source answers with, the failure that ends them if there is one, and
the state in which the source is left. -/
structure Replies (σ : Type) where
  faces : List Int
  failure : Option SourceFailure
  state : σ

def Source.replies (source : Source σ) : List Nat → σ → Replies σ
  | [], state => ⟨[], none, state⟩
  | sides :: requests, state =>
    match source.answer sides state with
    | .error failure state => ⟨[], some failure, state⟩
    | .ok face state =>
      let later := source.replies requests state
      ⟨face :: later.faces, later.failure, later.state⟩

/-- Every answer to the requests is a face of the die that is asked for. -/
def Source.FairOn (source : Source σ) (requests : List Nat) (state : σ) : Prop :=
  ∀ reply ∈ requests.zip (source.replies requests state).faces,
    1 ≤ reply.2 ∧ reply.2 ≤ (reply.1 : Int)

/-- The feed on which the requests have been made.  Of requests behind a failure none is
made, so one more is noted than there are faces, if there was one more. -/
def Feed.after (feed : Feed σ) (source : Source σ) (requests : List Nat) : Feed σ where
  state := (source.replies requests feed.state).state
  requests := feed.requests ++
    (requests.take ((source.replies requests feed.state).faces.length + 1)).toArray

namespace Source

variable {source : Source σ} {sides : Nat} {first second requests : List Nat}

theorem replies_cons_of_ok {state next : σ} {face : Int}
    (h : source.answer sides state = .ok face next) :
    source.replies (sides :: requests) state =
      ⟨face :: (source.replies requests next).faces, (source.replies requests next).failure,
        (source.replies requests next).state⟩ := by
  rw [replies, h]

theorem replies_cons_of_error {state next : σ} {failure : SourceFailure}
    (h : source.answer sides state = .error failure next) :
    source.replies (sides :: requests) state = ⟨[], some failure, next⟩ := by
  rw [replies, h]

theorem length_faces_le (source : Source σ) (requests : List Nat) (state : σ) :
    (source.replies requests state).faces.length ≤ requests.length := by
  induction requests generalizing state with
  | nil => simp [replies]
  | cons sides requests ih =>
      cases h : source.answer sides state with
      | ok face next => simpa [replies_cons_of_ok h] using ih next
      | error failure next => simp [replies_cons_of_error h]

/-- There are as many faces as requests unless the source fails. -/
theorem failure_eq_none_iff {state : σ} :
    (source.replies requests state).failure = none ↔
      (source.replies requests state).faces.length = requests.length := by
  induction requests generalizing state with
  | nil => simp [replies]
  | cons sides requests ih =>
      cases h : source.answer sides state with
      | ok face next => simpa [replies_cons_of_ok h] using ih
      | error failure next => simp [replies_cons_of_error h]

theorem length_faces_lt {state : σ} {failure : SourceFailure}
    (h : (source.replies requests state).failure = some failure) :
    (source.replies requests state).faces.length < requests.length := by
  have hne : ¬ (source.replies requests state).faces.length = requests.length := by
    rw [← failure_eq_none_iff, h]
    simp
  exact Nat.lt_of_le_of_ne (length_faces_le source requests state) hne

theorem replies_append_of_answered {state : σ}
    (h : (source.replies first state).failure = none) :
    source.replies (first ++ second) state =
      ⟨(source.replies first state).faces ++
          (source.replies second (source.replies first state).state).faces,
        (source.replies second (source.replies first state).state).failure,
        (source.replies second (source.replies first state).state).state⟩ := by
  induction first generalizing state with
  | nil => rfl
  | cons sides first ih =>
      cases hanswer : source.answer sides state with
      | ok face next =>
          rw [replies_cons_of_ok hanswer] at h ⊢
          rw [List.cons_append, replies_cons_of_ok hanswer, ih h]
          rfl
      | error failure next =>
          rw [replies_cons_of_error hanswer] at h
          simp at h

/-- What would be asked for behind a failure makes no difference. -/
theorem replies_append_of_failed {state : σ} {failure : SourceFailure}
    (h : (source.replies first state).failure = some failure) :
    source.replies (first ++ second) state = source.replies first state := by
  induction first generalizing state with
  | nil => simp [replies] at h
  | cons sides first ih =>
      cases hanswer : source.answer sides state with
      | ok face next =>
          rw [replies_cons_of_ok hanswer] at h
          rw [List.cons_append, replies_cons_of_ok hanswer, replies_cons_of_ok hanswer, ih h]
      | error failure' next =>
          rw [List.cons_append, replies_cons_of_error hanswer,
            replies_cons_of_error hanswer]

/-- The faces for the first requests do not depend on the later ones. -/
theorem take_faces_append (source : Source σ) (first second : List Nat) (state : σ) :
    (source.replies (first ++ second) state).faces.take first.length =
      (source.replies first state).faces := by
  cases h : (source.replies first state).failure with
  | none =>
      rw [replies_append_of_answered h, ← failure_eq_none_iff.mp h, List.take_left]
  | some failure =>
      rw [replies_append_of_failed h, List.take_of_length_le (length_faces_le ..)]

theorem drop_faces_append {state : σ} (h : (source.replies first state).failure = none) :
    (source.replies (first ++ second) state).faces.drop first.length =
      (source.replies second (source.replies first state).state).faces := by
  rw [replies_append_of_answered h, ← failure_eq_none_iff.mp h, List.drop_left]

/-- A fair face is one of a die that was asked for. -/
theorem exists_sides_of_fairOn {state : σ} (h : source.FairOn requests state) {face : Int}
    (hface : face ∈ (source.replies requests state).faces) :
    ∃ sides ∈ requests, 1 ≤ face ∧ face ≤ (sides : Int) := by
  obtain ⟨i, hi, rfl⟩ := List.mem_iff_getElem.mp hface
  have hrequest : i < requests.length :=
    Nat.lt_of_lt_of_le hi (length_faces_le source requests state)
  have hzip : i < (requests.zip (source.replies requests state).faces).length := by
    simp only [List.length_zip]
    omega
  have hreply := h _ (List.getElem_mem hzip)
  rw [List.getElem_zip] at hreply
  exact ⟨requests[i], List.getElem_mem hrequest, hreply⟩

theorem one_le_of_fairOn {state : σ} (h : source.FairOn requests state) {face : Int}
    (hface : face ∈ (source.replies requests state).faces) : 1 ≤ face := by
  obtain ⟨_, _, hone, _⟩ := exists_sides_of_fairOn h hface
  exact hone

end Source

namespace Feed

variable {source : Source σ} {feed : Feed σ} {sides : Nat} {first second requests : List Nat}

theorem after_nil (feed : Feed σ) (source : Source σ) : feed.after source [] = feed := by
  simp [after, Source.replies]

theorem after_cons_of_ok {next : σ} {face : Int}
    (h : source.answer sides feed.state = .ok face next) :
    feed.after source (sides :: requests) =
      (Feed.mk next (feed.requests.push sides)).after source requests := by
  simp [after, Source.replies_cons_of_ok h]

theorem after_cons_of_error {next : σ} {failure : SourceFailure}
    (h : source.answer sides feed.state = .error failure next) :
    feed.after source (sides :: requests) = ⟨next, feed.requests.push sides⟩ := by
  simp [after, Source.replies_cons_of_error h]

theorem after_append_of_answered
    (h : (source.replies first feed.state).failure = none) :
    feed.after source (first ++ second) = (feed.after source first).after source second := by
  induction first generalizing feed with
  | nil => rw [List.nil_append, after_nil]
  | cons sides first ih =>
      cases hanswer : source.answer sides feed.state with
      | ok face next =>
          rw [Source.replies_cons_of_ok hanswer] at h
          rw [List.cons_append, after_cons_of_ok hanswer, after_cons_of_ok hanswer, ih h]
      | error failure next =>
          rw [Source.replies_cons_of_error hanswer] at h
          simp at h

theorem after_append_of_failed {failure : SourceFailure}
    (h : (source.replies first feed.state).failure = some failure) :
    feed.after source (first ++ second) = feed.after source first := by
  rw [after, after, Source.replies_append_of_failed h,
    List.take_append_of_le_length (Source.length_faces_lt h)]

theorem state_after (feed : Feed σ) (source : Source σ) (requests : List Nat) :
    (feed.after source requests).state = (source.replies requests feed.state).state := rfl

/-- All requests are noted when the source has answered them. -/
theorem requests_after_of_answered
    (h : (source.replies requests feed.state).failure = none) :
    (feed.after source requests).requests = feed.requests ++ requests.toArray := by
  have hlength := Source.failure_eq_none_iff.mp h
  rw [after, List.take_of_length_le (by omega)]

/-- So are the first requests as long as there are faces for them. -/
theorem requests_after_take {n : Nat}
    (h : n ≤ (source.replies requests feed.state).faces.length) :
    (feed.after source (requests.take n)).requests =
      feed.requests ++ (requests.take n).toArray := by
  apply requests_after_of_answered
  have hlength := Source.length_faces_le source requests feed.state
  have hfaces := Source.take_faces_append source (requests.take n) (requests.drop n) feed.state
  rw [List.take_append_drop, List.length_take_of_le (by omega)] at hfaces
  rw [Source.failure_eq_none_iff, ← hfaces, List.length_take_of_le h,
    List.length_take_of_le (by omega)]

end Feed

end TabletopDice
