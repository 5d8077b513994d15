/-
When a write returns.

Indices and updates are flattened into rows, and the number of rows is
left open both times. The size of a row of indices is the depth of a
tuple and never zero, so the indices can always be flattened, also where
there are no tuples. The size of a row of updates is that of a slice. If
a slice is empty, any number of rows would do, the flattening does not
choose one, and the write fails on updates of the right shape
(`scatter_refuses_emptySlices`); a dimension of size zero that is
addressed, or no tuples at all, does no harm.

What is asked of the tuples is only that they are in range. A dimension
of size zero then has tuples over it only if there are none, which is
what the bound on the addressed dimensions comes down to (`Fits.room`).
-/
import OnnxLowering.Proofs.Tensor.Scatter

namespace OnnxLowering

namespace Shape

variable {rest : Shape}

theorem size_eq_zero (h : 0 ∈ rest) : size rest = 0 := by
  induction rest with
  | nil => exact nomatch h
  | cons d rest ih =>
      rw [size]
      rcases List.mem_cons.1 h with hfirst | hrest
      · rw [← hfirst, Nat.zero_mul]
      · rw [ih hrest, Nat.mul_zero]

end Shape

namespace Tensor

/-- Into empty rows nothing can be flattened. -/
theorem reshape_rows_eq_error {t : Tensor} {rest : Shape} (h : 0 ∈ rest) :
    t.reshape (none :: rest.map some) = .error .sizeMismatch := by
  rw [reshape, Shape.infer?_open, if_pos (by rw [Shape.size_eq_zero h]; rfl)]
  rfl

/-- Index tuples of `depth` components at the positions of `lead`, all in
range, and a slice for each of them. Any dimension may have size zero,
and tuples may be of one place. -/
structure Fits (data indices updates : Tensor) (lead : Shape) (depth : Nat) : Prop where
  depth_pos : 0 < depth
  depth_le : depth ≤ data.rank
  shape_indices : indices.shape = lead ++ [depth]
  inRange : ∀ js, lead.InBounds js → ∀ column < depth,
    -(data.shape.getD column 0 : Int) ≤ indices.component (js ++ [column])
      ∧ indices.component (js ++ [column]) < data.shape.getD column 0
  dtype_updates : updates.dtype = data.dtype
  shape_updates : updates.shape = lead ++ data.shape.drop depth

variable {data indices updates : Tensor} {lead : Shape} {depth : Nat}

namespace Fits

/-- There are no tuples over a dimension without positions. -/
theorem room (h : Fits data indices updates lead depth) (hsome : 0 < lead.size) :
    0 ∉ data.shape.take depth := by
  intro hzero
  obtain ⟨column, hcolumn, hsize⟩ := List.getElem_of_mem hzero
  have hdepth : column < depth :=
    Nat.lt_of_lt_of_le hcolumn (List.length_take_le depth data.shape)
  have hlength : column < data.shape.length :=
    Nat.lt_of_lt_of_le hcolumn (List.length_take_le' depth data.shape)
  have hgetD : data.shape.getD column 0 = 0 := by
    rw [List.getElem_take] at hsize
    rw [List.getD_eq_getElem?_getD, List.getElem?_eq_getElem hlength, hsize, Option.getD_some]
  obtain ⟨hlow, hhigh⟩ := h.inRange _ (Shape.inBounds_index hsome) column hdepth
  rw [hgetD] at hlow hhigh
  omega

theorem exists_rows (h : Fits data indices updates lead depth) :
    ∃ rows, indices.reshape [none, some depth] = .ok rows ∧ rows.shape = [lead.size, depth]
      ∧ places data.shape rows lead.size depth
        = .ok ((List.range lead.size).map fun row =>
            addressed data.shape indices depth (lead.index row)) := by
  obtain ⟨rows, hrows, hdtype, hshape, hget⟩ :=
    exists_reshape_rows h.shape_indices (by simpa [Shape.size] using h.depth_pos)
  exact ⟨rows, hrows, hshape, places_eq_ok h.inRange hdtype hget⟩

/-- Empty slices stop a write, whatever else there is. -/
theorem scatter_of_emptySlices (h : Fits data indices updates lead depth)
    (hempty : 0 ∈ data.shape.drop depth) : scatter data indices updates = .error .sizeMismatch := by
  obtain ⟨rows, hrows, -, -⟩ := h.exists_rows
  unfold scatter
  rw [sizeAlong_last h.shape_indices, Except.ok_bind, hrows, Except.ok_bind,
    reshape_rows_eq_error hempty, Except.error_bind]

/-- Without empty slices it is the type alone that decides. -/
theorem exists_scatter_eq (h : Fits data indices updates lead depth)
    (hslices : 0 ∉ data.shape.drop depth) :
    ∃ element, scatter data indices updates
      = if data.dtype.isStorageOnly then .error .noArithmetic
        else .ok (ofFn data.dtype data.shape element) := by
  have hpositive : ∀ size ∈ data.shape.drop depth, 0 < size := fun size hsize =>
    Nat.pos_of_ne_zero fun hzero => hslices (hzero ▸ hsize)
  obtain ⟨rows, hrows, hrowsShape, hplaces⟩ := h.exists_rows
  obtain ⟨slots, hslots, hslotsType, hslotsShape, -⟩ :=
    exists_reshape_rows h.shape_updates (Shape.size_pos hpositive)
  have hroom : ¬ ((decide (0 < lead.size) && (data.shape.take depth).contains 0) = true) := by
    rw [Bool.and_eq_true, decide_eq_true_eq, List.contains_iff_mem]
    exact fun ⟨hsome, hzero⟩ => h.room hsome hzero
  unfold scatter
  rw [sizeAlong_last h.shape_indices, Except.ok_bind, hrows, Except.ok_bind, hslots,
    Except.ok_bind, if_neg (Nat.not_lt.2 h.depth_le)]
  simp only [hrowsShape, hslotsShape, List.getD_cons_zero, if_neg hroom, hslotsType,
    h.dtype_updates, decide_true, Bool.true_or, if_true, hplaces, Except.ok_bind]
  split
  · exact ⟨fun _ => 0, rfl⟩
  · exact ⟨_, rfl⟩

end Fits

/-- **When a write returns.** With index tuples in range and a slice for
each, the result is a tensor of the data's type and shape if and only if
no dimension of a slice has size zero and the type is not one that is
only stored. Otherwise the flattening of the updates fails, or the write
itself does. -/
theorem scatter_returns_iff (h : Fits data indices updates lead depth) :
    ((∃ written, scatter data indices updates = .ok written ∧ written.dtype = data.dtype
        ∧ written.shape = data.shape)
      ↔ 0 ∉ data.shape.drop depth ∧ data.dtype.isStorageOnly = false)
    ∧ ∀ e, scatter data indices updates = .error e
      ↔ e = .sizeMismatch ∧ 0 ∈ data.shape.drop depth
        ∨ e = .noArithmetic ∧ 0 ∉ data.shape.drop depth ∧ data.dtype.isStorageOnly = true := by
  by_cases hempty : 0 ∈ data.shape.drop depth
  · rw [h.scatter_of_emptySlices hempty]
    refine ⟨⟨fun ⟨_, hok, _⟩ => (nomatch hok), fun ⟨hslices, _⟩ => absurd hempty hslices⟩,
      fun e => ⟨fun he => Or.inl ⟨(Except.error.inj he).symm, hempty⟩, ?_⟩⟩
    rintro (⟨rfl, -⟩ | ⟨-, hslices, -⟩)
    · rfl
    · exact absurd hempty hslices
  · obtain ⟨element, hscatter⟩ := h.exists_scatter_eq hempty
    rw [hscatter]
    cases hstored : data.dtype.isStorageOnly with
    | true =>
        rw [if_pos rfl]
        refine ⟨⟨fun ⟨_, hok, _⟩ => (nomatch hok), fun ⟨_, hwritable⟩ => (nomatch hwritable)⟩,
          fun e => ⟨fun he => Or.inr ⟨(Except.error.inj he).symm, hempty, rfl⟩, ?_⟩⟩
        rintro (⟨-, hslices⟩ | ⟨rfl, -⟩)
        · exact absurd hslices hempty
        · rfl
    | false =>
        rw [if_neg Bool.false_ne_true]
        refine ⟨⟨fun _ => ⟨hempty, rfl⟩, fun _ => ⟨_, rfl, rfl, rfl⟩⟩,
          fun e => ⟨fun he => (nomatch he), ?_⟩⟩
        rintro (⟨-, hslices⟩ | ⟨-, -, hstorage⟩)
        · exact absurd hslices hempty
        · exact nomatch hstorage

/-- Two tuples of one place, and then none at all over a dimension without
positions. -/
theorem scatter_returns_repeated :
    let data : Tensor := ⟨.int64, [2, 3], #[1, 2, 3, 4, 5, 6], rfl⟩
    let indices : Tensor := ⟨.int64, [2, 1], #[1, 0xffffffffffffffff], rfl⟩
    let updates : Tensor := ⟨.int64, [2, 3], #[10, 20, 30, 40, 50, 60], rfl⟩
    let bare : Tensor := ⟨.float32, [3, 0, 2], #[], rfl⟩
    let nowhere : Tensor := ⟨.int64, [0, 2], #[], rfl⟩
    let nothing : Tensor := ⟨.float32, [0, 2], #[], rfl⟩
    Fits data indices updates [2] 1 ∧ Fits bare nowhere nothing [0] 2
      ∧ (∃ written, scatter data indices updates = .ok written ∧ written.dtype = .int64
        ∧ written.shape = [2, 3])
      ∧ ∃ written, scatter bare nowhere nothing = .ok written ∧ written.dtype = .float32
        ∧ written.shape = [3, 0, 2] := by
  intro data indices updates bare nowhere nothing
  have hfits : Fits data indices updates [2] 1 := by
    refine ⟨by decide, by decide, rfl, fun js hjs => ?_, rfl, rfl⟩
    obtain ⟨i, hi, rfl⟩ := inBounds_singleton.1 hjs
    clear hjs
    revert i
    decide
  have hbare : Fits bare nowhere nothing [0] 2 := by
    refine ⟨by decide, by decide, rfl, fun js hjs => ?_, rfl, rfl⟩
    obtain ⟨i, hi, rfl⟩ := inBounds_singleton.1 hjs
    exact absurd hi (Nat.not_lt_zero i)
  exact ⟨hfits, hbare, (scatter_returns_iff hfits).1.2 (by decide),
    (scatter_returns_iff hbare).1.2 (by decide)⟩

/-- An empty slice is not written, though there is one for the tuple. -/
theorem scatter_refuses_emptySlices :
    let data : Tensor := ⟨.float32, [2, 0], #[], rfl⟩
    let indices : Tensor := ⟨.int64, [1, 1], #[0], rfl⟩
    let updates : Tensor := ⟨.float32, [1, 0], #[], rfl⟩
    Fits data indices updates [1] 1 ∧ scatter data indices updates = .error .sizeMismatch := by
  intro data indices updates
  refine ⟨⟨by decide, by decide, rfl, fun js hjs => ?_, rfl, rfl⟩, by decide⟩
  obtain ⟨i, hi, rfl⟩ := inBounds_singleton.1 hjs
  clear hjs
  revert i
  decide

end Tensor

end OnnxLowering
