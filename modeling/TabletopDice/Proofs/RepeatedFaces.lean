/-
Runs of equal parts, held against the lists that they denote.  A list is indexed, sliced and
compared element by element; a run answers from its face and its count alone.  The answers are
the same, also about what is left after any number of slices.
-/
import Mathlib.Data.List.Basic
import TabletopDice.Proofs.Checks
import TabletopDice.Value.Parts

namespace TabletopDice

variable {α : Type}

/-- The element at an index; a negative index counts from the end. -/
def element? (elements : List α) : Int → Option α
  | .ofNat n => elements[n]?
  | .negSucc n => elements.reverse[n]?

/-- Passes over some elements and then keeps single ones, with a gap behind each. -/
def spaced (gap : Nat) : Nat → List α → List α
  | _, [] => []
  | 0, a :: rest => a :: spaced gap gap rest
  | wait + 1, _ :: rest => spaced gap wait rest

namespace Slice

/-- A negative bound counts from the end. -/
def fromFront (length : Nat) (bound : Int) : Int :=
  if bound < 0 then bound + length else bound

/-- One place comes before the other in the direction of the step. -/
def Before (slice : Slice) (place other : Int) : Prop :=
  if 0 < slice.stride then place < other else other < place

instance (slice : Slice) (place other : Int) : Decidable (slice.Before place other) :=
  inferInstanceAs (Decidable (if 0 < slice.stride then place < other else other < place))

/-- The place is not before the start, and it is before the stop; an open bound excludes
nothing. -/
def Covers (slice : Slice) (length place : Nat) : Prop :=
  (∀ start ∈ slice.start, ¬ slice.Before place (fromFront length start)) ∧
    ∀ stop ∈ slice.stop, slice.Before place (fromFront length stop)

instance (slice : Slice) (length place : Nat) : Decidable (slice.Covers length place) :=
  inferInstanceAs (Decidable (_ ∧ _))

/-- The places of a list between the bounds, in the order in which the slice comes to them. -/
def window (slice : Slice) (length : Nat) : List Nat :=
  let covered := (List.range length).filter fun place => slice.Covers length place
  if 0 < slice.stride then covered else covered.reverse

/-- The first place of the window, and from there on one place for each step. -/
def places (slice : Slice) (length : Nat) : List Nat :=
  spaced (slice.stride.natAbs - 1) 0 (slice.window length)

/-- The slice of a list. -/
def pick (slice : Slice) (elements : List α) : List α :=
  (slice.places elements.length).filterMap (elements[·]?)

/-- From the last but one element backwards in steps of three. -/
example : pick ⟨some (-2), none, some (-3)⟩ [10, 11, 12, 13, 14, 15, 16, 17] = [16, 13, 10] := by
  decide

end Slice

theorem length_spaced {gap wait : Nat} (elements : List α) (h : wait ≤ gap) :
    (spaced gap wait elements).length = (elements.length + gap - wait) / (gap + 1) := by
  induction elements generalizing wait with
  | nil =>
      rw [spaced, List.length_nil, Nat.zero_add, Nat.div_eq_of_lt (by omega)]
  | cons a rest ih =>
      cases wait with
      | zero =>
          rw [spaced, List.length_cons, ih (Nat.le_refl gap), List.length_cons, Nat.sub_zero,
            Nat.add_sub_cancel, Nat.add_assoc, Nat.add_comm 1 gap,
            Nat.add_div_right _ (Nat.succ_pos gap)]
      | succ wait =>
          rw [spaced, ih (by omega), List.length_cons]
          congr 1
          omega

theorem spaced_sublist (gap wait : Nat) (elements : List α) :
    (spaced gap wait elements).Sublist elements := by
  induction elements generalizing wait with
  | nil => exact .slnil
  | cons a rest ih =>
      cases wait with
      | zero => exact (ih gap).cons_cons a
      | succ wait => exact (ih wait).cons a

/-- How many numbers below a limit lie between two bounds. -/
theorem length_filter_range (n : Nat) {low high : Int} (hlow : 0 ≤ low) :
    ((List.range n).filter fun place : Nat => low ≤ (place : Int) ∧ (place : Int) < high).length =
      (min high n - low).toNat := by
  induction n with
  | zero =>
      simp
      omega
  | succ n ih =>
      rw [List.range_succ, List.filter_append, List.length_append, ih]
      by_cases hbetween : low ≤ (n : Int) ∧ (n : Int) < high
      · simp [hbetween]
        omega
      · simp [hbetween]
        omega

namespace Slice

variable {slice : Slice} {length place : Nat}

theorem covers_iff_of_ascending (h : 0 < slice.stride) (hplace : place < length) :
    slice.Covers length place ↔
      slice.first length ≤ (place : Int) ∧ (place : Int) < slice.last length := by
  unfold Covers Before first last Slice.place limits fromFront
  simp only [if_pos h]
  cases slice.start <;> cases slice.stop <;> simp <;> omega

theorem covers_iff_of_descending (h : ¬ 0 < slice.stride) (hplace : place < length) :
    slice.Covers length place ↔
      slice.last length < (place : Int) ∧ (place : Int) ≤ slice.first length := by
  unfold Covers Before first last Slice.place limits fromFront
  simp only [if_neg h]
  cases slice.start <;> cases slice.stop <;> simp <;> omega

theorem first_last_of_ascending (h : 0 < slice.stride) (length : Nat) :
    0 ≤ slice.first length ∧ slice.last length ≤ length := by
  unfold first last Slice.place limits
  simp only [if_pos h]
  cases slice.start <;> cases slice.stop <;> dsimp only <;> omega

theorem first_last_of_descending (h : ¬ 0 < slice.stride) (length : Nat) :
    -1 ≤ slice.last length ∧ slice.first length < length := by
  unfold first last Slice.place limits
  simp only [if_neg h]
  cases slice.start <;> cases slice.stop <;> dsimp only <;> omega

/-- The window is as wide as the distance of the bounds, once they have been moved into their
limits. -/
theorem length_window (slice : Slice) (length : Nat) :
    (slice.window length).length =
      (if 0 < slice.stride then slice.last length - slice.first length
        else slice.first length - slice.last length).toNat := by
  by_cases h : 0 < slice.stride
  · obtain ⟨hfirst, hlast⟩ := first_last_of_ascending h length
    have hcovered : (List.range length).filter (fun place => slice.Covers length place) =
        (List.range length).filter fun place : Nat =>
          slice.first length ≤ (place : Int) ∧ (place : Int) < slice.last length := by
      apply List.filter_congr
      intro place hplace
      exact decide_eq_decide.mpr (covers_iff_of_ascending h (List.mem_range.mp hplace))
    rw [window, if_pos h, if_pos h, hcovered, length_filter_range length hfirst,
      Int.min_eq_left hlast]
  · obtain ⟨hlast, hfirst⟩ := first_last_of_descending h length
    -- Going down it is the start that is included, so both bounds are taken one place higher.
    have hcovered : (List.range length).filter (fun place => slice.Covers length place) =
        (List.range length).filter fun place : Nat =>
          slice.last length + 1 ≤ (place : Int) ∧ (place : Int) < slice.first length + 1 := by
      apply List.filter_congr
      intro place hplace
      exact decide_eq_decide.mpr (covers_iff_of_descending h (List.mem_range.mp hplace)
        |>.trans (and_congr Int.add_one_le_iff.symm Int.lt_add_one_iff.symm))
    rw [window, if_neg h, if_neg h, List.length_reverse, hcovered,
      length_filter_range length (by omega), Int.min_eq_left (by omega)]
    omega

/-- Steps of a size that cover a distance, by rounding the quotient down and by rounding it
up. -/
theorem steps_eq {stride : Nat} (hstride : 0 < stride) (distance : Int) :
    (if 0 < distance then ((distance - 1) / (stride : Int) + 1).toNat else 0) =
      (distance.toNat + (stride - 1)) / stride := by
  by_cases hdistance : 0 < distance
  · obtain ⟨m, rfl⟩ : ∃ m : Nat, distance = m + 1 := ⟨(distance - 1).toNat, by omega⟩
    have hsum : ((m : Int) + 1).toNat + (stride - 1) = m + stride := by omega
    rw [if_pos hdistance, hsum, Nat.add_div_right m hstride, Int.add_sub_cancel,
      ← Int.natCast_ediv]
    rfl
  · rw [if_neg hdistance, Nat.div_eq_of_lt (by omega)]

/-- The size of a slice is the number of places that it visits. -/
theorem size_eq_length_places (h : slice.stride ≠ 0) (length : Nat) :
    slice.size length = (slice.places length).length := by
  have hstride : 0 < slice.stride.natAbs := Int.natAbs_pos.mpr h
  rw [places, length_spaced _ (Nat.zero_le _), Nat.sub_zero, Nat.sub_add_cancel hstride,
    length_window, ← steps_eq hstride]
  rfl

theorem length_places_le (slice : Slice) (length : Nat) :
    (slice.places length).length ≤ length := by
  have hcovered : ((List.range length).filter fun place => slice.Covers length place).length ≤
      length := by
    simpa using List.length_filter_le (fun place => slice.Covers length place) (List.range length)
  have hwindow : (slice.window length).length ≤ length := by
    rw [window]
    split
    · exact hcovered
    · rwa [List.length_reverse]
  exact Nat.le_trans (spaced_sublist _ _ _).length_le hwindow

theorem lt_of_mem_places (h : place ∈ slice.places length) : place < length := by
  have hwindow := (spaced_sublist _ _ _).subset h
  rw [window] at hwindow
  split at hwindow
  · exact List.mem_range.mp (List.mem_filter.mp hwindow).1
  · exact List.mem_range.mp (List.mem_filter.mp (List.mem_reverse.mp hwindow)).1

theorem pick_replicate (slice : Slice) (n : Nat) (a : α) :
    slice.pick (List.replicate n a) = List.replicate (slice.places n).length a := by
  have hsome : ∀ place ∈ slice.places n, (List.replicate n a)[place]? = some a := by
    intro place hplace
    rw [List.getElem?_replicate, if_pos (lt_of_mem_places hplace)]
  rw [pick, List.length_replicate, List.filterMap_congr hsome, List.filterMap_eq_map',
    List.map_const']

end Slice

/-- The run answers as the list does. -/
structure RepeatedFace.BehavesAs (run : RepeatedFace) (faces : List Int) : Prop where
  length : run.length = .ok faces.length
  list : run.list = .ok faces
  get (index : Int) : run.get index = (element? faces index).elim (.error .indexOutOfRange) .ok
  equals_list (other : List Int) : run.equals (.list other) = .ok (decide (faces = other))
  equals_run (other : RepeatedFace) (others : List Int) (h : other.list = .ok others) :
    run.equals (.run other) = .ok (decide (faces = others))

theorem element?_replicate (n : Nat) (face index : Int) :
    element? (List.replicate n face) index =
      if -(n : Int) ≤ index ∧ index < n then some face else none := by
  cases index with
  | ofNat i =>
      rw [element?, List.getElem?_replicate]
      congr 1
      simp
  | negSucc i =>
      rw [element?, List.reverse_replicate, List.getElem?_replicate]
      congr 1
      simp
      omega

namespace RepeatedFace

variable {run : RepeatedFace} {faces : List Int} {slice : Slice}

theorem length_eq_of_magnitude (face : Int) (count : Magnitude) :
    length ⟨face, count.val⟩ = .ok count.val :=
  length_eq_ok_iff.mpr ⟨rfl, count.val_le⟩

theorem list_eq_ok_iff : run.list = .ok faces ↔
    ∃ count : Magnitude, run.count = count.val ∧ faces = List.replicate count.val run.face := by
  rw [list, Check.map_eq_ok_iff]
  constructor
  · rintro ⟨n, hlength, rfl⟩
    obtain ⟨hcount, hle⟩ := length_eq_ok_iff.mp hlength
    refine ⟨⟨n, hle⟩, hcount, ?_⟩
    rw [toList, hcount]
    rfl
  · rintro ⟨count, hcount, rfl⟩
    refine ⟨count.val, length_eq_ok_iff.mpr ⟨hcount, count.val_le⟩, ?_⟩
    rw [toList, hcount]
    rfl

theorem behavesAs_replicate (face : Int) (count : Magnitude) :
    BehavesAs ⟨face, count.val⟩ (List.replicate count.val face) where
  length := by
    rw [List.length_replicate]
    exact length_eq_of_magnitude face count
  list := list_eq_ok_iff.mpr ⟨count, rfl, rfl⟩
  get index := by
    rw [element?_replicate, RepeatedFace.get]
    split <;> rfl
  equals_list other := by
    have heq : List.replicate count.val face = other ↔
        count.val = other.length ∧ ∀ b ∈ other, b = face := by
      rw [eq_comm, List.eq_replicate_iff, eq_comm]
    have hall : (other.all fun b => decide (b = face)) = decide (∀ b ∈ other, b = face) := by
      rw [Bool.eq_iff_iff]
      simp
    rw [equals, length_eq_of_magnitude]
    change Except.ok _ = _
    simp only [heq, Bool.decide_and, hall]
  equals_run other others h := by
    obtain ⟨count', hcount, rfl⟩ := list_eq_ok_iff.mp h
    have hlength : other.length = .ok count'.val :=
      length_eq_ok_iff.mpr ⟨hcount, count'.val_le⟩
    rw [equals, length_eq_of_magnitude, hlength]
    change Except.ok _ = _
    simp only [List.replicate_inj, Bool.decide_and]
    simp

/-- One slice of a run is a run of the same face, and it denotes the slice of the list. -/
theorem slice_of_stride_ne_zero (face : Int) (count : Magnitude) (h : slice.stride ≠ 0) :
    ∃ size : Magnitude, RepeatedFace.slice ⟨face, count.val⟩ slice = .ok ⟨face, size.val⟩ ∧
      slice.pick (List.replicate count.val face) = List.replicate size.val face := by
  have hsize : slice.size count.val ≤ maxMagnitude := by
    rw [Slice.size_eq_length_places h]
    exact Nat.le_trans (slice.length_places_le count.val) count.val_le
  refine ⟨⟨slice.size count.val, hsize⟩, ?_, ?_⟩
  · have hcount : ¬ (count.val : Int) < 0 := Int.not_lt.mpr (Int.natCast_nonneg count.val)
    rw [RepeatedFace.slice, if_neg hcount, if_neg h]
    exact if_pos hsize
  · rw [Slice.pick_replicate, ← Slice.size_eq_length_places h]

theorem slice_of_stride_eq_zero (face : Int) (count : Magnitude) (h : slice.stride = 0) :
    RepeatedFace.slice ⟨face, count.val⟩ slice = .error .zeroStep := by
  have hcount : ¬ (count.val : Int) < 0 := Int.not_lt.mpr (Int.natCast_nonneg count.val)
  rw [RepeatedFace.slice, if_neg hcount, if_pos h]

theorem slices_of_stride_ne_zero (face : Int) (count : Magnitude) (slices : List Slice)
    (h : ∀ slice ∈ slices, slice.stride ≠ 0) :
    ∃ size : Magnitude,
      slices.foldlM RepeatedFace.slice ⟨face, count.val⟩ = .ok ⟨face, size.val⟩ ∧
      slices.foldl (fun faces slice => slice.pick faces) (List.replicate count.val face) =
        List.replicate size.val face := by
  -- On the slices, for all counts, as each slice leaves a run of another length.
  induction slices generalizing count with
  | nil => exact ⟨count, rfl, rfl⟩
  | cons slice slices ih =>
      obtain ⟨hslice, hslices⟩ := List.forall_mem_cons.mp h
      obtain ⟨left, hrun, hlist⟩ := slice_of_stride_ne_zero face count hslice
      obtain ⟨size, hruns, hlists⟩ := ih left hslices
      refine ⟨size, ?_, ?_⟩
      · rw [List.foldlM_cons, hrun]
        exact hruns
      · rw [List.foldl_cons, hlist]
        exact hlists

/-- The first step of zero ends a chain of slices. -/
theorem slices_of_stride_eq_zero (face : Int) (count : Magnitude) (slices : List Slice)
    (h : ∃ slice ∈ slices, slice.stride = 0) :
    slices.foldlM RepeatedFace.slice ⟨face, count.val⟩ = .error .zeroStep := by
  induction slices generalizing count with
  | nil => simp at h
  | cons slice slices ih =>
      by_cases hslice : slice.stride = 0
      · rw [List.foldlM_cons, slice_of_stride_eq_zero face count hslice]
        rfl
      · obtain ⟨left, hrun, _⟩ := slice_of_stride_ne_zero face count hslice
        rw [List.foldlM_cons, hrun]
        apply ih left
        simpa [hslice] using h

/-- A run of any face behaves as the list of its copies, as long as their number is a length.
After any slices with steps other than zero there is still a run, and it behaves as what these
slices leave of the list; but if one of the steps is zero, there is an error. -/
theorem run_behavesAs_list (face : Int) (count : Magnitude) (slices : List Slice) :
    ((∀ slice ∈ slices, slice.stride ≠ 0) →
      ∃ run, slices.foldlM RepeatedFace.slice ⟨face, count.val⟩ = .ok run ∧
        run.BehavesAs (slices.foldl (fun faces slice => slice.pick faces)
          (List.replicate count.val face))) ∧
    ((∃ slice ∈ slices, slice.stride = 0) →
      slices.foldlM RepeatedFace.slice ⟨face, count.val⟩ = .error .zeroStep) := by
  refine ⟨?_, slices_of_stride_eq_zero face count slices⟩
  intro h
  obtain ⟨size, hrun, hlist⟩ := slices_of_stride_ne_zero face count slices h
  refine ⟨_, hrun, ?_⟩
  rw [hlist]
  exact behavesAs_replicate face size

end RepeatedFace

end TabletopDice
