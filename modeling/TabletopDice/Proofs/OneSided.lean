/-
One-sided dice, settled or drawn.  They are settled without a draw, however many there are; if
they were drawn from a source that answers with ones, their value would be the same, with its
parts in a list.  So settling them saves requests and changes nothing else, as long as the
source does not answer the other requests differently for having been asked for ones.
-/
import TabletopDice.Proofs.Account
import TabletopDice.Proofs.Overflow

namespace TabletopDice

/-- The same value with its parts in a list. -/
def Value.writtenOut : Value → Value
  | rolled total parts sign => rolled total (.listed parts.toList) sign
  | constant value => constant value

def Outcome.writtenOut (outcome : Outcome) : Outcome :=
  ⟨outcome.signed, outcome.value.writtenOut⟩

def Result.writtenOut (result : Result) : Result :=
  ⟨result.outcomes.map Outcome.writtenOut, result.total⟩

theorem Value.amount_writtenOut (value : Value) : value.writtenOut.amount = value.amount := by
  cases value <;> rfl

theorem Value.mul_writtenOut (sign : Sign) (value : Value) :
    sign * value.writtenOut = (sign * value).writtenOut := by
  cases sign <;> cases value <;> rfl

variable {σ α β : Type}

theorem Dice.roll_of_several {source : Source σ} {dice : Dice} (h : ¬ dice.OneSided) :
    dice.roll source = dice.drawAll source := by
  funext feed
  rw [roll, if_neg h]

/-- A one for each request of a one-sided die, and for the others the faces in order, as far as
they go. -/
def withOnes : List Nat → List Int → List Int
  | [], _ => []
  | sides :: requests, faces =>
    if sides = 1 then 1 :: withOnes requests faces
    else
      match faces with
      | [] => []
      | face :: faces => face :: withOnes requests faces

/-- The requests for dice with several sides. -/
def severalSided (requests : List Nat) : List Nat := requests.filter (· ≠ 1)

section

variable {requests : List Nat} {sides : Nat}

theorem severalSided_one (requests : List Nat) :
    severalSided (1 :: requests) = severalSided requests := by
  simp [severalSided]

theorem severalSided_cons (h : sides ≠ 1) :
    severalSided (sides :: requests) = sides :: severalSided requests := by
  simp [severalSided, h]

theorem withOnes_one (requests : List Nat) (faces : List Int) :
    withOnes (1 :: requests) faces = 1 :: withOnes requests faces := by
  cases faces <;> rfl

theorem withOnes_cons_nil (h : sides ≠ 1) : withOnes (sides :: requests) [] = [] := by
  simp [withOnes, h]

theorem withOnes_cons_cons (h : sides ≠ 1) (face : Int) (faces : List Int) :
    withOnes (sides :: requests) (face :: faces) = face :: withOnes requests faces := by
  simp [withOnes, h]

end

namespace Source

/-- So many requests for one-sided dice in a row are answered with ones. -/
def GivesOnes (source : Source σ) (n : Nat) (state : σ) : Prop :=
  (source.replies (List.replicate n 1) state).faces = List.replicate n 1

/-- In one state the source answers as in the other, and besides it answers requests for
one-sided dice with ones, as if they were not there. -/
def AnswersAs (source : Source σ) (plain padded : σ) : Prop :=
  ∀ requests, (source.replies requests padded).faces =
      withOnes requests (source.replies (severalSided requests) plain).faces ∧
    (source.replies requests padded).failure =
      (source.replies (severalSided requests) plain).failure

/-- From this state on requests for one-sided dice are answered with ones and do not disturb
the answers to the other requests. -/
def IgnoresOnes (source : Source σ) (state : σ) : Prop := source.AnswersAs state state

variable {source : Source σ} {plain padded : σ} {sides : Nat}

theorem GivesOnes.answered {n : Nat} {state : σ} (h : source.GivesOnes n state) :
    (source.replies (List.replicate n 1) state).failure = none := by
  rw [failure_eq_none_iff, h, List.length_replicate, List.length_replicate]

theorem AnswersAs.answer_one (h : source.AnswersAs plain padded) :
    ∃ next, source.answer 1 padded = .ok 1 next ∧ source.AnswersAs plain next := by
  cases hanswer : source.answer 1 padded with
  | error failure next =>
      have hfailure := (h [1]).2
      rw [replies_cons_of_error hanswer, severalSided_one] at hfailure
      cases hfailure
  | ok face next =>
      -- Longer rows of requests begin with this face, and what follows it is the rest of them.
      have hmore : ∀ requests,
          face :: (source.replies requests next).faces =
              1 :: withOnes requests (source.replies (severalSided requests) plain).faces ∧
            (source.replies requests next).failure =
              (source.replies (severalSided requests) plain).failure := by
        intro requests
        have hrequests := h (1 :: requests)
        rwa [severalSided_one, withOnes_one, replies_cons_of_ok hanswer] at hrequests
      obtain rfl := (List.cons.inj (hmore []).1).1
      exact ⟨next, rfl, fun requests =>
        ⟨(List.cons.inj (hmore requests).1).2, (hmore requests).2⟩⟩

/-- What can become of another request: both states answer alike and stay as they are to each
other, or both fail. -/
theorem AnswersAs.answer (h : source.AnswersAs plain padded) (hsides : sides ≠ 1) :
    (∃ face next next', source.answer sides plain = .ok face next ∧
        source.answer sides padded = .ok face next' ∧ source.AnswersAs next next') ∨
      ∃ failure next next', source.answer sides plain = .error failure next ∧
        source.answer sides padded = .error failure next' := by
  have hfirst := h [sides]
  rw [severalSided_cons hsides] at hfirst
  cases hplain : source.answer sides plain with
  | error failure next =>
      cases hpadded : source.answer sides padded with
      | error failure' next' =>
          rw [replies_cons_of_error hplain, replies_cons_of_error hpadded] at hfirst
          obtain rfl := Option.some.inj hfirst.2
          exact .inr ⟨failure', next, next', rfl, rfl⟩
      | ok face next' =>
          rw [replies_cons_of_error hplain, replies_cons_of_ok hpadded] at hfirst
          simp [replies] at hfirst
  | ok face next =>
      cases hpadded : source.answer sides padded with
      | error failure' next' =>
          rw [replies_cons_of_ok hplain, replies_cons_of_error hpadded] at hfirst
          simp [severalSided, replies] at hfirst
      | ok face' next' =>
          have hmore : ∀ requests,
              face' :: (source.replies requests next').faces =
                  face :: withOnes requests (source.replies (severalSided requests) next).faces ∧
                (source.replies requests next').failure =
                  (source.replies (severalSided requests) next).failure := by
            intro requests
            have hrequests := h (sides :: requests)
            rwa [severalSided_cons hsides, replies_cons_of_ok hplain,
              replies_cons_of_ok hpadded, withOnes_cons_cons hsides] at hrequests
          obtain rfl := (List.cons.inj (hmore []).1).1
          exact .inl ⟨face', next, next', rfl, rfl, fun requests =>
            ⟨(List.cons.inj (hmore requests).1).2, (hmore requests).2⟩⟩

/-- Any number of requests for one-sided dice get ones and change nothing. -/
theorem AnswersAs.givesOnes (h : source.AnswersAs plain padded) (n : Nat) :
    source.GivesOnes n padded ∧
      source.AnswersAs plain (source.replies (List.replicate n 1) padded).state := by
  unfold GivesOnes
  induction n generalizing padded with
  | zero => exact ⟨rfl, h⟩
  | succ n ih =>
      obtain ⟨next, hanswer, hnext⟩ := h.answer_one
      obtain ⟨hfaces, hstate⟩ := ih hnext
      rw [List.replicate_succ, replies_cons_of_ok hanswer, hfaces]
      exact ⟨rfl, hstate⟩

end Source

/-- From the same start the two logs came about by the same requests, apart from some for
one-sided dice that only the second one has. -/
def OnesAdded (start plain padded : Array Nat) : Prop :=
  ∃ made : List Nat, padded = start ++ made.toArray ∧ plain = start ++ (severalSided made).toArray

/-- Two feeds of one source under way from the same start: what has been asked of them and
what they will answer differs in requests for one-sided dice only. -/
structure Alongside (source : Source σ) (start plain padded : Feed σ) : Prop where
  answers : source.AnswersAs plain.state padded.state
  requests : OnesAdded start.requests plain.requests padded.requests

/-- Two rolls end alike: with a value and what it is turned into, and feeds that are still
alongside each other, or in the same fault after the same requests but for one-sided dice. -/
inductive EndsAs (source : Source σ) (start : Feed σ) (turn : α → β) :
    EStateM.Result Fault (Feed σ) α → EStateM.Result Fault (Feed σ) β → Prop where
  | ok {a : α} {plain padded : Feed σ} (feeds : Alongside source start plain padded) :
      EndsAs source start turn (.ok a plain) (.ok (turn a) padded)
  | error {fault : Fault} {plain padded : Feed σ}
      (requests : OnesAdded start.requests plain.requests padded.requests) :
      EndsAs source start turn (.error fault plain) (.error fault padded)

theorem EndsAs.of_ok {source : Source σ} {start plain : Feed σ} {turn : α → β} {a : α}
    {right : EStateM.Result Fault (Feed σ) β}
    (h : EndsAs source start turn (.ok a plain) right) :
    ∃ padded, right = .ok (turn a) padded ∧ Alongside source start plain padded := by
  cases h with
  | ok feeds => exact ⟨_, rfl, feeds⟩

theorem OnesAdded.push {start plain padded : Array Nat} {sides : Nat}
    (h : OnesAdded start plain padded) (hsides : sides ≠ 1) :
    OnesAdded start (plain.push sides) (padded.push sides) := by
  obtain ⟨made, rfl, rfl⟩ := h
  exact ⟨made ++ [sides], by simp, by simp [severalSided, hsides]⟩

theorem OnesAdded.append_ones {start plain padded : Array Nat}
    (h : OnesAdded start plain padded) (n : Nat) :
    OnesAdded start plain (padded ++ (List.replicate n 1).toArray) := by
  obtain ⟨made, rfl, rfl⟩ := h
  exact ⟨made ++ List.replicate n 1, Array.ext' (by simp), by simp [severalSided]⟩

section

variable {source : Source σ} {start plain padded : Feed σ} {dice : Dice}

/-- Dice with several sides are drawn alike on feeds alongside each other. -/
theorem drawFaces_endsAs (hsides : dice.sides.val ≠ 1) (h : Alongside source start plain padded)
    (n : Nat) (total : Int) (drawn : List Int) :
    EndsAs source start id (dice.drawFaces source n total drawn plain)
      (dice.drawFaces source n total drawn padded) := by
  induction n generalizing total drawn plain padded with
  | zero => exact .ok h
  | succ n ih =>
      have hrequests := h.requests.push hsides
      rcases h.answers.answer hsides with ⟨face, next, next', hplain, hpadded, hnext⟩ |
        ⟨failure, next, next', hplain, hpadded⟩
      · simp only [Dice.drawFaces, Source.draw, hplain, hpadded]
        cases hsum : checkedAdd total face with
        | none => exact .error hrequests
        | some sum => exact ih ⟨hnext, hrequests⟩ sum (face :: drawn)
      · simp only [Dice.drawFaces, Source.draw, hplain, hpadded]
        exact .error hrequests

/-- Ones never add up to more than there are of them, and their number fits. -/
theorem excess?_ones {n : Nat} (h : n ≤ maxMagnitude) :
    excess? 0 (List.replicate n (1 : Int)) = none := by
  apply excess?_eq_none
  · intro face hface
    rw [List.eq_of_mem_replicate hface]
    decide
  · decide
  · intro j
    have hle : n ≤ 0x7fffffffffffffff := h
    simp [List.take_replicate]
    omega

/-- Drawn from a source that gives ones, one-sided dice come to their number. -/
theorem Dice.drawAll_of_ones (hone : dice.OneSided)
    (hones : source.GivesOnes dice.count.val plain.state) :
    dice.drawAll source plain =
      .ok (.rolled dice.count.val (.listed (List.replicate dice.count.val 1)) .plus)
        (plain.after source (List.replicate dice.count.val 1)) := by
  have hsides : dice.sides.val = 1 := hone
  rw [drawAll, drawFaces_eq_settle, hsides, hones, excess?_ones dice.count.val_le,
    Option.map_none, settle_of_answered hones.answered]
  simp

theorem Alongside.after_ones (h : Alongside source start plain padded) (n : Nat) :
    Alongside source start plain (padded.after source (List.replicate n 1)) where
  answers := (h.answers.givesOnes n).2
  requests := by
    rw [Feed.requests_after_of_answered (h.answers.givesOnes n).1.answered]
    exact h.requests.append_ones n

/-- Dice are settled, or drawn without exception: they come to the same value. -/
theorem Dice.roll_endsAs (dice : Dice) (h : Alongside source start plain padded) :
    EndsAs source start Value.writtenOut (dice.roll source plain)
      (dice.drawAll source padded) := by
  by_cases hone : dice.OneSided
  · rw [roll, if_pos hone, drawAll_of_ones hone (h.answers.givesOnes _).1]
    exact .ok (h.after_ones dice.count.val)
  · have hdraws := drawFaces_endsAs hone h dice.count.val 0 []
    rw [roll_of_several hone, drawAll, drawAll]
    generalize dice.drawFaces source dice.count.val 0 [] plain = left at hdraws ⊢
    generalize dice.drawFaces source dice.count.val 0 [] padded = right at hdraws ⊢
    cases hdraws with
    | ok feeds => exact .ok feeds
    | error requests => exact .error requests

theorem SignedTerm.rollBy_endsAs (signed : SignedTerm)
    (h : Alongside source start plain padded) :
    EndsAs source start Value.writtenOut (signed.rollBy (Dice.roll source) plain)
      (signed.rollBy (Dice.drawAll source) padded) := by
  have hterm : EndsAs source start Value.writtenOut
      (signed.term.rollBy (Dice.roll source) plain)
      (signed.term.rollBy (Dice.drawAll source) padded) := by
    cases signed.term with
    | dice pool => exact pool.roll_endsAs h
    | constant value => exact .ok h
  rw [rollBy, rollBy]
  generalize signed.term.rollBy (Dice.roll source) plain = left at hterm ⊢
  generalize signed.term.rollBy (Dice.drawAll source) padded = right at hterm ⊢
  cases hterm with
  | ok feeds =>
      simp only [Value.mul_writtenOut]
      exact .ok feeds
  | error requests => cases signed.sign <;> exact .error requests

theorem rollTermsBy_endsAs (terms : List SignedTerm) (total : Int)
    (h : Alongside source start plain padded) :
    EndsAs source start Result.writtenOut (rollTermsBy (Dice.roll source) total terms plain)
      (rollTermsBy (Dice.drawAll source) total terms padded) := by
  -- On the terms, for any two feeds alongside each other: those behind the first term are too.
  induction terms generalizing total plain padded with
  | nil => exact .ok h
  | cons signed rest ih =>
      have hfirst := signed.rollBy_endsAs h
      rw [rollTermsBy, rollTermsBy]
      generalize signed.rollBy (Dice.roll source) plain = left at hfirst ⊢
      generalize signed.rollBy (Dice.drawAll source) padded = right at hfirst ⊢
      cases hfirst with
      | error requests => exact .error requests
      | @ok value next next' feeds =>
          simp only [Value.amount_writtenOut]
          cases checkedAdd total value.amount with
          | none => exact .error feeds.requests
          | some sum =>
              have hlater := ih sum feeds
              simp only
              generalize rollTermsBy (Dice.roll source) sum rest next = left at hlater ⊢
              generalize rollTermsBy (Dice.drawAll source) sum rest next' = right at hlater ⊢
              cases hlater with
              | error requests => exact .error requests
              | ok feeds => exact .ok feeds

/-- Under either sign settled dice and drawn ones have the same value, and the draws are one
request for each of them. -/
theorem Dice.exists_value_of_ones (hone : dice.OneSided)
    (hones : source.GivesOnes dice.count.val plain.state) :
    ∃ value last, dice.roll source plain = .ok value plain ∧
      dice.drawAll source plain = .ok value.writtenOut last ∧
      last.requests = plain.requests ++ (List.replicate dice.count.val 1).toArray ∧
      ∀ sign : Sign,
        (SignedTerm.mk sign (.dice dice)).roll source plain = .ok (sign * value) plain ∧
          (SignedTerm.mk sign (.dice dice)).rollBy (Dice.drawAll source) plain =
            .ok (sign * value).writtenOut last := by
  have hroll : dice.roll source plain =
      .ok (.rolled dice.count.val (.repeated ⟨1, dice.count.val⟩) .plus) plain := if_pos hone
  have hdraw := drawAll_of_ones hone hones
  refine ⟨_, _, hroll, hdraw, Feed.requests_after_of_answered hones.answered, ?_⟩
  intro sign
  constructor
  · simp only [SignedTerm.roll, SignedTerm.rollBy, Term.rollBy, hroll]
  · simp only [SignedTerm.rollBy, Term.rollBy, hdraw, ← Value.mul_writtenOut]
    rfl

end

/-- One-sided dice are settled with the value that they have when they are drawn one by one from
a source that gives ones, which never overflows.  If from its state on the source ignores
requests for ones, drawing all dice makes no difference to an evaluation: it ends with the same
total and the same outcomes, their parts in lists, or in the same fault, and apart from requests
for one-sided dice the same requests are made. -/
theorem Expression.evaluate_endsAs_drawAll {σ : Type} (source : Source σ) (feed : Feed σ) :
    (∀ dice : Dice, dice.OneSided → source.GivesOnes dice.count.val feed.state →
      ∃ value last, dice.roll source feed = .ok value feed ∧
        dice.drawAll source feed = .ok value.writtenOut last ∧
        last.requests = feed.requests ++ (List.replicate dice.count.val 1).toArray ∧
        ∀ sign : Sign,
          (SignedTerm.mk sign (.dice dice)).roll source feed = .ok (sign * value) feed ∧
            (SignedTerm.mk sign (.dice dice)).rollBy (Dice.drawAll source) feed =
              .ok (sign * value).writtenOut last) ∧
    (source.IgnoresOnes feed.state → ∀ e : Expression,
      EndsAs source feed Result.writtenOut (e.evaluate source feed)
        (e.evaluateBy (Dice.drawAll source) feed)) := by
  refine ⟨fun dice hone hones => Dice.exists_value_of_ones hone hones, ?_⟩
  intro hignores e
  have hstart : Alongside source feed feed feed := ⟨hignores, [], by simp, by simp [severalSided]⟩
  exact rollTermsBy_endsAs e.terms 0 hstart

/-- Answers requests for one-sided dice with ones by itself and passes all others on. -/
def Source.sparing (source : Source σ) : Source σ where
  answer sides state := if sides = 1 then .ok 1 state else source.answer sides state

theorem Source.ignoresOnes_sparing (source : Source σ) (state : σ) :
    source.sparing.IgnoresOnes state := by
  intro requests
  induction requests generalizing state with
  | nil => exact ⟨rfl, rfl⟩
  | cons sides requests ih =>
      by_cases hone : sides = 1
      · subst hone
        have hanswer : source.sparing.answer 1 state = .ok 1 state := rfl
        obtain ⟨hfaces, hfailure⟩ := ih state
        rw [replies_cons_of_ok hanswer, severalSided_one, withOnes_one, ← hfaces]
        exact ⟨rfl, hfailure⟩
      · rw [severalSided_cons hone]
        cases hanswer : source.sparing.answer sides state with
        | error failure next =>
            rw [replies_cons_of_error hanswer, replies_cons_of_error hanswer,
              withOnes_cons_nil hone]
            exact ⟨rfl, rfl⟩
        | ok face next =>
            obtain ⟨hfaces, hfailure⟩ := ih next
            rw [replies_cons_of_ok hanswer, replies_cons_of_ok hanswer,
              withOnes_cons_cons hone, hfaces]
            exact ⟨rfl, hfailure⟩

/-- For `-4d1 + 0d6 - 2d8 + 5 + 1d20` four ones are drawn before the three other faces. -/
theorem Expression.mixed_evaluate_endsAs_drawAll :
    let source := Generator.source.sparing
    let feed : Feed Generator := ⟨.script [3, 1, 17, 2], #[]⟩
    source.IgnoresOnes feed.state ∧
      ∃ result, mixed.evaluate source feed = .ok result ⟨.script [2], #[8, 8, 20]⟩ ∧
        result.total = 14 ∧
        mixed.evaluateBy (Dice.drawAll source) feed =
          .ok result.writtenOut ⟨.script [2], #[1, 1, 1, 1, 8, 8, 20]⟩ := by
  intro source feed
  have hignores : source.IgnoresOnes feed.state := Generator.source.ignoresOnes_sparing _
  obtain ⟨result, hroll, htotal⟩ : ∃ result,
      mixed.evaluate source feed = .ok result ⟨.script [2], #[8, 8, 20]⟩ ∧ result.total = 14 :=
    ⟨_, rfl, rfl⟩
  obtain ⟨drawn, hdrawn⟩ : ∃ drawn, mixed.evaluateBy (Dice.drawAll source) feed =
      .ok drawn ⟨.script [2], #[1, 1, 1, 1, 8, 8, 20]⟩ := ⟨_, rfl⟩
  have hends := (evaluate_endsAs_drawAll source feed).2 hignores mixed
  rw [hroll, hdrawn] at hends
  obtain ⟨padded, hpadded, _⟩ := hends.of_ok
  obtain ⟨rfl, _⟩ := EStateM.Result.ok.inj hpadded
  exact ⟨hignores, result, hroll, htotal, hdrawn⟩

end TabletopDice
