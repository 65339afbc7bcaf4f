/-
Renderings of constants.  Between plus signs, and with nothing around it, the rendering of an
expression of constants is the normal spelling of what its tuples are read as.  So it is read
back, with the same tuples and the same total.
-/
import TabletopDice.Proofs.OutcomeText
import TabletopDice.Proofs.TupleRolls

namespace TabletopDice

theorem Style.forTerms_ignoreSign_of_plusSign {style : Style}
    (hplus : style.separator = .plusSign) : style.forTerms.ignoreSign = true := by
  rw [forTerms, hplus]
  rfl

namespace SignedTerm

/-- The number in the tuple of a term, taken apart, is told by the term it is read as. -/
theorem ofInt_and_natAbs_number (signed : SignedTerm) :
    Sign.ofInt signed.toTuple.1 = signed.viaTuple.sign ∧
      signed.toTuple.1.natAbs = signed.viaTuple.term.number.val :=
  (ofTuple_eq_ok_iff_parts.mp signed.ofTuple_toTuple).1

/-- The outcome of a term for which nothing is drawn. -/
def undrawn (signed : SignedTerm) : Outcome := ⟨signed, signed.shown []⟩

variable {signed : SignedTerm} {value : Magnitude} {style : Style}

/-- A constant takes the value of its tuple. -/
theorem value_undrawn_of_constant (h : signed.term = .constant value) :
    signed.undrawn.value = .constant signed.toTuple.1 := by
  obtain ⟨sign, term⟩ := signed
  cases h
  rfl

theorem sign_undrawn_of_constant (h : signed.term = .constant value) :
    signed.undrawn.value.sign = signed.viaTuple.sign := by
  rw [value_undrawn_of_constant h]
  exact signed.ofInt_and_natAbs_number.1

theorem term_viaTuple_of_constant (h : signed.term = .constant value) :
    signed.viaTuple.term = .constant value := by
  rw [term_viaTuple, h]
  rfl

/-- Without its sign a constant is rendered as its term is spelled. -/
theorem render_undrawn_of_constant (h : signed.term = .constant value)
    (hignore : style.ignoreSign = true) :
    signed.undrawn.render style = toString signed.viaTuple.term := by
  have hnumber : signed.toTuple.1.natAbs = value.val := by
    rw [signed.ofInt_and_natAbs_number.2, term_viaTuple_of_constant h]
    rfl
  have hterm : signed.undrawn.signed.term = .constant value := h
  rw [Outcome.render, hterm, value_undrawn_of_constant h]
  change style.number signed.toTuple.1 = _
  rw [Style.number, if_pos hignore, hnumber, term_viaTuple_of_constant h]
  rfl

theorem first_undrawn_of_constant (h : signed.term = .constant value)
    (hplus : style.separator = .plusSign) :
    signed.undrawn.opening style ++ signed.undrawn.render style.forTerms =
      toString signed.viaTuple := by
  have hignore := Style.forTerms_ignoreSign_of_plusSign hplus
  rw [Outcome.opening, hplus, sign_undrawn_of_constant h, render_undrawn_of_constant h hignore]
  rfl

theorem later_undrawn_of_constant (h : signed.term = .constant value)
    (hplus : style.separator = .plusSign) :
    signed.undrawn.separation style ++ signed.undrawn.render style.forTerms =
      signed.viaTuple.continuation := by
  have hignore := Style.forTerms_ignoreSign_of_plusSign hplus
  rw [Outcome.separation, hplus, sign_undrawn_of_constant h,
    render_undrawn_of_constant h hignore]
  rfl

end SignedTerm

theorem outcomesOf_nil (terms : List SignedTerm) :
    outcomesOf terms [] = terms.map SignedTerm.undrawn := by
  induction terms with
  | nil => rfl
  | cons signed rest ih =>
      rw [outcomesOf, List.take_nil, List.drop_nil, ih, List.map_cons, SignedTerm.undrawn]

namespace Expression

variable {σ τ : Type} {source : Source σ} {e : Expression} {feed last : Feed σ}
  {result : Result}

/-- An expression that draws nothing comes to the same on every feed of every source. -/
theorem evaluate_of_requests_eq_nil (hnone : e.requests = [])
    (hroll : e.evaluate source feed = .ok result last) (source' : Source τ) (feed' : Feed τ) :
    e.evaluate source' feed' = .ok result feed' := by
  obtain ⟨hbreach, _, hresult, _⟩ := evaluate_eq_ok_iff.mp hroll
  rw [hnone] at hbreach hresult
  rw [evaluate_eq_ok_iff, hnone]
  exact ⟨hbreach, rfl, hresult, feed'.after_nil source'⟩

theorem outcomes_of_requests_eq_nil (hnone : e.requests = [])
    (hroll : e.evaluate source feed = .ok result last) :
    result.outcomes = e.terms.map SignedTerm.undrawn := by
  obtain ⟨_, _, hresult, _⟩ := evaluate_eq_ok_iff.mp hroll
  rw [hnone] at hresult
  rw [← hresult]
  exact outcomesOf_nil e.terms

/-- All terms are constants. -/
def Constant (e : Expression) : Prop :=
  ∀ signed ∈ e.terms, ∃ value : Magnitude, signed.term = .constant value

theorem Constant.requests_eq_nil (h : e.Constant) : e.requests = [] := by
  rw [requests, requestsOf, List.flatMap_eq_nil_iff]
  intro signed hsigned
  obtain ⟨value, hvalue⟩ := h signed hsigned
  rw [SignedTerm.requests, hvalue, Term.requests]

variable {style : Style}

theorem Constant.renderAll_undrawn (h : e.Constant) (hplus : style.separator = .plusSign) :
    Outcome.renderAll style (e.terms.map SignedTerm.undrawn) = toString e.viaTuples := by
  obtain ⟨value, hfirst⟩ := h e.first List.mem_cons_self
  have hrest : (e.rest.map fun signed =>
      signed.undrawn.separation style ++ signed.undrawn.render style.forTerms) =
        e.rest.map fun signed => signed.viaTuple.continuation := by
    apply List.map_congr_left
    intro signed hsigned
    obtain ⟨value, hvalue⟩ := h signed (List.mem_cons_of_mem e.first hsigned)
    exact SignedTerm.later_undrawn_of_constant hvalue hplus
  rw [terms, List.map_cons, Outcome.renderAll, SignedTerm.first_undrawn_of_constant hfirst hplus,
    List.map_map]
  change toString e.first.viaTuple ++ String.join (e.rest.map fun signed =>
    signed.undrawn.separation style ++ signed.undrawn.render style.forTerms) =
      toString e.first.viaTuple ++
        String.join ((e.rest.map SignedTerm.viaTuple).map SignedTerm.continuation)
  rw [hrest, List.map_map]
  rfl

/-- The value of a constant is printed as the constant is spelled. -/
theorem toString_value_of_constant {signed : SignedTerm} {value : Magnitude}
    (h : signed.term = .constant value) :
    toString signed.toTuple.1 = toString signed.viaTuple := by
  obtain ⟨hsign, hnumber⟩ := signed.ofInt_and_natAbs_number
  have hterm := SignedTerm.term_viaTuple_of_constant h
  have hspelling : (toString signed.viaTuple).toList =
      signed.viaTuple.sign.leading.toList ++ (toString signed.viaTuple.term).toList :=
    String.toList_append
  rw [hterm] at hnumber
  rw [← String.toList_inj, toList_toString_int, hsign, hnumber, hspelling, hterm]
  rfl

/-- Between plus signs and with nothing around it, a rendering of constants is the spelling of
what their tuples are read as. -/
theorem Constant.render_eq (h : e.Constant) (hplus : style.separator = .plusSign)
    (hplace : style.totalPlace = .suppressed) (hlist : style.listParentheses = false)
    (hroll : e.evaluate source feed = .ok result last) :
    result.render style = toString e.viaTuples := by
  have houtcomes := outcomes_of_requests_eq_nil h.requests_eq_nil hroll
  have htotal := total_of_evaluate hroll
  obtain ⟨value, hfirst⟩ := h e.first List.mem_cons_self
  rcases hrest : e.rest with _ | ⟨second, later⟩
  · rw [terms, hrest, List.map_singleton] at houtcomes
    have hbare : result.IsBare := by
      rw [Result.IsBare, houtcomes]
      change e.first.undrawn.value.parts.length ≤ 1
      rw [SignedTerm.value_undrawn_of_constant hfirst]
      exact Nat.le_refl 1
    rw [houtcomes, List.map_singleton, List.sum_singleton,
      SignedTerm.value_undrawn_of_constant hfirst] at htotal
    have hspelling : toString e.viaTuples =
        toString e.first.viaTuple ++ String.join (e.viaTuples.rest.map SignedTerm.continuation) :=
      rfl
    rw [Result.render, if_pos hbare, htotal, Value.amount, toString_value_of_constant hfirst,
      hspelling, viaTuples, hrest]
    exact String.append_empty.symm
  · have hbare : ¬ result.IsBare := by
      rw [Result.IsBare, houtcomes, terms, hrest]
      exact id
    rw [Result.render, if_neg hbare, houtcomes, h.renderAll_undrawn hplus, hplace, hlist]
    rfl

/-- Between plus signs, with neither a total nor parentheses around the list, the rendering of a
roll of constants can be read.  What is read has the same tuples, although a zero may have lost
its minus, and comes to the same total on every feed of every source. -/
theorem parse_render_of_constants (style : Style) (hplus : style.separator = .plusSign)
    (hplace : style.totalPlace = .suppressed) (hlist : style.listParentheses = false)
    (source : Source σ) (e : Expression) (hconstant : e.Constant) (feed last : Feed σ)
    (result : Result) (hroll : e.evaluate source feed = .ok result last) :
    ∃ e', parse (result.render style) = .ok e' ∧ e'.toTuples = e.toTuples ∧
      ∀ {τ : Type} (source' : Source τ) (feed' : Feed τ), ∃ again,
        e'.evaluate source' feed' = .ok again feed' ∧ again.total = result.total := by
  refine ⟨e.viaTuples, ?_, e.toTuples_viaTuples, ?_⟩
  · rw [hconstant.render_eq hplus hplace hlist hroll]
    exact e.viaTuples.parse_toString
  · intro τ source' feed'
    have hending := e.sameEnding_viaTuples source' feed'
    rw [evaluate_of_requests_eq_nil hconstant.requests_eq_nil hroll] at hending
    generalize e.viaTuples.evaluate source' feed' = ending at hending ⊢
    cases hending with
    | rolled htotal _ => exact ⟨_, rfl, htotal⟩

/-- A zero under a minus, and then the smallest number in range: `-0 - 9223372036854775807 - 1`. -/
def lowestConstants : Expression where
  first := ⟨.minus, .constant ⟨0, Nat.zero_le _⟩⟩
  rest := [⟨.minus, .constant ⟨maxMagnitude, Nat.le_refl _⟩⟩, ⟨.minus, .constant .one⟩]

theorem lowestConstants_parse_render :
    ∃ result, lowestConstants.evaluate Generator.source ⟨.lowest, #[]⟩ = .ok result ⟨.lowest, #[]⟩ ∧
      result.render (.ofAdjustments [.concise, .excludeSign]) = "0 - 9223372036854775807 - 1" ∧
      ∃ e', parse (result.render (.ofAdjustments [.concise, .excludeSign])) = .ok e' ∧
        e'.toTuples = [(0, 1), (-9223372036854775807, 1), (-1, 1)] ∧
        ∃ again, e'.evaluate Generator.source ⟨.highest, #[]⟩ = .ok again ⟨.highest, #[]⟩ ∧
          again.total = -9223372036854775808 := by
  have hroll : lowestConstants.evaluate Generator.source ⟨.lowest, #[]⟩ =
      .ok _ ⟨.lowest, #[]⟩ := rfl
  have hconstant : lowestConstants.Constant := by
    simp [Constant, terms, lowestConstants]
  obtain ⟨e', hparse, htuples, hagain⟩ := parse_render_of_constants
    (.ofAdjustments [.concise, .excludeSign]) rfl rfl rfl Generator.source lowestConstants
    hconstant _ _ _ hroll
  obtain ⟨again, hreroll, htotal⟩ := hagain Generator.source ⟨.highest, #[]⟩
  exact ⟨_, hroll, by decide +kernel, e', hparse, htuples, again, hreroll, htotal⟩

end Expression

end TabletopDice
