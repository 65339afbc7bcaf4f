/-
Checks made one after another.  A list of checks succeeds when all of them do, and a view
under which each of them keeps its subject is kept by the whole list.
-/
import Mathlib.Data.List.Forall2

namespace TabletopDice.Check

variable {ε α β γ : Type}

theorem bind_eq_ok_iff {check : Except ε α} {next : α → Except ε β} {b : β} :
    check >>= next = .ok b ↔ ∃ a, check = .ok a ∧ next a = .ok b := by
  cases check with
  | error err =>
      constructor
      · intro h
        cases h
      · rintro ⟨a, h, _⟩
        simp at h
  | ok a =>
      constructor
      · intro h
        exact ⟨a, rfl, h⟩
      · rintro ⟨_, ⟨⟩, h⟩
        exact h

theorem map_eq_ok_iff {check : Except ε α} {f : α → β} {b : β} :
    check.map f = .ok b ↔ ∃ a, check = .ok a ∧ f a = b := by
  cases check <;> simp [Except.map]

theorem bind_eq_error_iff {check : Except ε α} {next : α → Except ε β} {error : ε} :
    check >>= next = .error error ↔
      check = .error error ∨ ∃ a, check = .ok a ∧ next a = .error error := by
  cases check <;> simp [bind, Except.bind]

theorem map_eq_error_iff {check : Except ε α} {f : α → β} {error : ε} :
    check.map f = .error error ↔ check = .error error := by
  cases check <;> simp [Except.map]

/-- Giving an error another form changes no success. -/
theorem mapError_eq_ok_iff {ε' : Type} {check : Except ε α} {f : ε → ε'} {a : α} :
    check.mapError f = .ok a ↔ check = .ok a := by
  cases check <;> simp [Except.mapError]

theorem mapError_eq_error_iff {ε' : Type} {check : Except ε α} {f : ε → ε'} {error : ε'} :
    check.mapError f = .error error ↔ ∃ cause, check = .error cause ∧ f cause = error := by
  cases check <;> simp [Except.mapError]

/-- A list of checks succeeds with the list of what the single checks succeed with. -/
theorem mapM_eq_ok_iff_forall₂ {check : α → Except ε β} {subjects : List α}
    {results : List β} :
    subjects.mapM check = .ok results ↔
      List.Forall₂ (fun a b => check a = .ok b) subjects results := by
  induction subjects generalizing results with
  | nil =>
      rw [List.mapM_nil, List.forall₂_nil_left_iff]
      constructor
      · intro h
        cases h
        rfl
      · rintro rfl
        rfl
  | cons a subjects ih =>
      rw [List.mapM_cons, bind_eq_ok_iff, List.forall₂_cons_left_iff]
      constructor
      · rintro ⟨b, hb, h⟩
        obtain ⟨others, hothers, h⟩ := bind_eq_ok_iff.mp h
        cases h
        exact ⟨b, others, hb, ih.mp hothers, rfl⟩
      · rintro ⟨b, others, hb, hothers, rfl⟩
        exact ⟨b, hb, bind_eq_ok_iff.mpr ⟨others, ih.mpr hothers, rfl⟩⟩

theorem forall_of_mapM_eq_ok {check : α → Except ε β} {subjects : List α} {results : List β}
    (h : subjects.mapM check = .ok results) : ∀ a ∈ subjects, ∃ b, check a = .ok b := by
  rw [mapM_eq_ok_iff_forall₂] at h
  induction h with
  | nil => simp
  | cons hfirst _ ih => exact List.forall_mem_cons.mpr ⟨⟨_, hfirst⟩, ih⟩

/-- A list of checks fails with the first check that fails; those before it succeed. -/
theorem mapM_eq_error_iff {check : α → Except ε β} {subjects : List α} {error : ε} :
    subjects.mapM check = .error error ↔
      ∃ before a after, subjects = before ++ a :: after ∧
        (∀ earlier ∈ before, ∃ b, check earlier = .ok b) ∧ check a = .error error := by
  induction subjects with
  | nil =>
      rw [List.mapM_nil]
      constructor
      · intro h
        cases h
      · rintro ⟨before, a, after, h, _⟩
        simp at h
  | cons first subjects ih =>
      rw [List.mapM_cons, bind_eq_error_iff]
      constructor
      · rintro (hfirst | ⟨b, hfirst, hlater⟩)
        · exact ⟨[], first, subjects, rfl, by simp, hfirst⟩
        · rcases bind_eq_error_iff.mp hlater with hlater | ⟨others, _, hdone⟩
          · obtain ⟨before, a, after, rfl, hbefore, ha⟩ := ih.mp hlater
            exact ⟨first :: before, a, after, rfl,
              List.forall_mem_cons.mpr ⟨⟨b, hfirst⟩, hbefore⟩, ha⟩
          · cases hdone
      · rintro ⟨before, a, after, h, hbefore, ha⟩
        rcases before with _ | ⟨head, before⟩
        · cases h
          exact .inl ha
        · cases h
          obtain ⟨⟨b, hfirst⟩, hbefore⟩ := List.forall_mem_cons.mp hbefore
          exact .inr ⟨b, hfirst, bind_eq_error_iff.mpr
            (.inl (ih.mpr ⟨before, a, after, rfl, hbefore, ha⟩))⟩

theorem exists_mapM_eq_error_iff {check : α → Except ε β} {subjects : List α} :
    (∃ error, subjects.mapM check = .error error) ↔
      ∃ a ∈ subjects, ∃ error, check a = .error error := by
  constructor
  · rintro ⟨error, h⟩
    obtain ⟨before, a, after, rfl, _, ha⟩ := mapM_eq_error_iff.mp h
    exact ⟨a, by simp, error, ha⟩
  · rintro ⟨a, hmem, error, ha⟩
    cases h : subjects.mapM check with
    | error fault => exact ⟨fault, rfl⟩
    | ok results =>
        obtain ⟨b, hb⟩ := forall_of_mapM_eq_ok h a hmem
        rw [ha] at hb
        simp at hb

theorem exists_first_not {p : α → Prop} {subjects : List α} (h : ∃ a ∈ subjects, ¬ p a) :
    ∃ before a after, subjects = before ++ a :: after ∧ (∀ b ∈ before, p b) ∧ ¬ p a := by
  induction subjects with
  | nil => simp at h
  | cons first subjects ih =>
      by_cases hfirst : p first
      · obtain ⟨a, hmem, ha⟩ := h
        rcases List.mem_cons.mp hmem with rfl | hlater
        · exact absurd hfirst ha
        · obtain ⟨before, found, after, rfl, hbefore, hfound⟩ := ih ⟨a, hlater, ha⟩
          exact ⟨first :: before, found, after, rfl,
            List.forall_mem_cons.mpr ⟨hfirst, hbefore⟩, hfound⟩
      · exact ⟨[], first, subjects, rfl, by simp, hfirst⟩

/-- If checks read what is written for good results, a list is read just as the good results
for which it is written. -/
theorem mapM_eq_ok_iff_written {check : α → Except ε β} {write : β → α} {Good : β → Prop}
    (hcheck : ∀ {a b}, check a = .ok b ↔ write b = a ∧ Good b) {subjects : List α}
    {results : List β} :
    subjects.mapM check = .ok results ↔
      results.map write = subjects ∧ ∀ b ∈ results, Good b := by
  simp only [mapM_eq_ok_iff_forall₂, hcheck]
  constructor
  · intro h
    induction h with
    | nil => exact ⟨rfl, by simp⟩
    | cons hfirst _ ih =>
        obtain ⟨hwrite, hgood⟩ := ih
        rw [List.map_cons, hfirst.1, hwrite, List.forall_mem_cons]
        exact ⟨rfl, hfirst.2, hgood⟩
  · rintro ⟨rfl, hgood⟩
    rw [List.forall₂_map_left_iff, List.forall₂_same]
    exact fun b hb => ⟨rfl, hgood b hb⟩

/-- If each check succeeds just with what looks like its subject, so does the list. -/
theorem mapM_eq_ok_iff {check : α → Except ε β} {before : α → γ} {after : β → γ}
    {subjects : List α} {results : List β}
    (hcheck : ∀ a ∈ subjects, ∀ b, check a = .ok b ↔ before a = after b) :
    subjects.mapM check = .ok results ↔ subjects.map before = results.map after := by
  rw [mapM_eq_ok_iff_forall₂]
  induction subjects generalizing results with
  | nil => cases results <;> simp
  | cons a subjects ih =>
      cases results with
      | nil => simp
      | cons b results =>
          have htail : List.Forall₂ (fun a b => check a = .ok b) subjects results ↔
              subjects.map before = results.map after :=
            ih fun a' ha' => hcheck a' (List.mem_cons_of_mem a ha')
          rw [List.forall₂_cons, hcheck a List.mem_cons_self b, htail, List.map_cons,
            List.map_cons, List.cons.injEq]

end TabletopDice.Check
