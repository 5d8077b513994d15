/-
Writing slices at the places that an index tensor lists.

The dimensions before the last one of the indices number the tuples, and
those before a slice's own number the updates. Both are flattened into
rows before they are paired, so a tuple and its update meet in one row if
flattening numbers the leading positions of both alike: the row of a
leading position is its place in row-major order, whatever the dimensions
are that follow it (`exists_reshape_rows`). From there on a write is a
look-up of rows (`lastRow?`), and with one tuple for each place the last
row is the only one.

Nothing is written into the unsigned types wider than a byte, and the
theorem leaves them out (`scatter_refuses_wideUnsigned`).
-/
import OnnxLowering.Proofs.Except
import OnnxLowering.Proofs.Tensor.Slices

namespace OnnxLowering

-- ========================================================= row-major order

namespace Shape

variable {lead rest : Shape} {js is : List Nat}

theorem size_append (lead rest : Shape) : size (lead ++ rest) = size lead * size rest := by
  induction lead with
  | nil => rw [List.nil_append, size, Nat.one_mul]
  | cons d lead ih => rw [List.cons_append, size, size, ih, Nat.mul_assoc]

theorem size_pos (h : ∀ d ∈ rest, 0 < d) : 0 < size rest := by
  induction rest with
  | nil => exact Nat.one_pos
  | cons d rest ih =>
      rw [List.forall_mem_cons] at h
      exact Nat.mul_pos h.1 (ih h.2)

theorem InBounds.append (hjs : lead.InBounds js) (his : rest.InBounds is) :
    InBounds (lead ++ rest) (js ++ is) := by
  induction lead generalizing js with
  | nil =>
      cases js with
      | nil => exact his
      | cons j js => exact hjs.elim
  | cons d lead ih =>
      cases js with
      | nil => exact hjs.elim
      | cons j js => exact ⟨hjs.1, ih hjs.2⟩

instance decidableInBounds : (shape : Shape) → (is : List Nat) → Decidable (shape.InBounds is)
  | [], [] => isTrue trivial
  | [], _ :: _ => isFalse id
  | _ :: _, [] => isFalse id
  | d :: ds, i :: is =>
      have := decidableInBounds ds is
      inferInstanceAs (Decidable (i < d ∧ InBounds ds is))

/-- The leading dimensions number the runs of the size of what follows. -/
theorem offset_append (hjs : js.length = lead.length) :
    offset (lead ++ rest) (js ++ is) = offset lead js * size rest + offset rest is := by
  induction lead generalizing js with
  | nil =>
      cases js with
      | nil =>
          rw [List.nil_append, List.nil_append, show offset [] [] = 0 from rfl, Nat.zero_mul,
            Nat.zero_add]
      | cons j js => exact nomatch hjs
  | cons d lead ih =>
      cases js with
      | nil => exact nomatch hjs
      | cons j js =>
          rw [List.cons_append, List.cons_append, offset, offset, ih (Nat.succ.inj hjs),
            size_append, Nat.add_mul, Nat.mul_assoc, Nat.add_assoc]

/-- An open first dimension takes what the others leave, which they have
to determine. -/
theorem infer?_open {count : Nat} :
    infer? count (none :: rest.map some)
      = if size rest = 0 || count % size rest ≠ 0 then none
        else some (count / size rest :: rest) := by
  have hknown : (none :: rest.map some).filterMap id = rest := by
    rw [List.filterMap_cons_none rfl, List.filterMap_map, Function.id_comp, List.filterMap_some]
  have hopen : ((none :: rest.map some).filter Option.isNone).length = 1 := by
    rw [List.filter_cons_of_pos rfl, List.filter_map]
    simp
  have hdims (first : Nat) : (none :: rest.map some).map (·.getD first) = first :: rest := by
    rw [List.map_cons, List.map_map]
    exact congrArg (first :: ·) (List.map_id rest)
  rw [infer?, hknown, hopen]
  show (if _ then none else some _) = _
  rw [hdims]

theorem infer?_rows {count : Nat} (hrest : 0 < size rest) :
    infer? (count * size rest) (none :: rest.map some) = some (count :: rest) := by
  have hfits : ¬ (decide (size rest = 0) || decide (count * size rest % size rest ≠ 0)) = true := by
    rw [Nat.mul_mod_left]
    simpa using Nat.ne_of_gt hrest
  rw [infer?_open, if_neg hfits, Nat.mul_div_cancel _ hrest]

end Shape

namespace Tensor

/-- A tensor whose leading dimensions are flattened has one row for each
leading position, in row-major order. -/
theorem exists_reshape_rows {t : Tensor} {lead rest : Shape} (hshape : t.shape = lead ++ rest)
    (hrest : 0 < rest.size) :
    ∃ rows, t.reshape (none :: rest.map some) = .ok rows ∧ rows.dtype = t.dtype
      ∧ rows.shape = lead.size :: rest
      ∧ ∀ js is, lead.InBounds js → rows.get (lead.offset js :: is) = t.get (js ++ is) := by
  have hsize : t.data.size = lead.size * rest.size := by
    rw [t.size_data, hshape, Shape.size_append]
  refine ⟨⟨t.dtype, lead.size :: rest, t.data, hsize⟩, ?_, rfl, rfl, fun js is hjs => ?_⟩
  · rw [reshape, hsize, Shape.infer?_rows hrest, Option.bind_some, withShape?,
      dif_pos (show t.data.size = Shape.size (lead.size :: rest) from hsize)]
  · rw [get, get, hshape, Shape.offset_append hjs.length_eq]
    rfl

-- ================================================================== tuples

/-- The integer that an element is as a component of an index: all of
them are signed and of 64 bits. -/
def component (indices : Tensor) (is : List Nat) : Int :=
  Int.bmod (Element.toInt indices.dtype (indices.get is)) 0x10000000000000000

/-- The position in a dimension that a component means; a negative one
counts from the end. -/
def wrapped (size : Nat) (i : Int) : Nat := (if i < 0 then i + size else i).toNat

/-- The place in a tensor of the given shape that the tuple at a leading
position of the indices addresses. -/
def addressed (shape : Shape) (indices : Tensor) (depth : Nat) (js : List Nat) : List Nat :=
  (List.range depth).map fun column =>
    wrapped (shape.getD column 0) (indices.component (js ++ [column]))

/-- Index tuples of `depth` components at the positions of `lead`, all in
range and no two of the same place, and a slice for each of them. -/
structure Addresses (data indices updates : Tensor) (lead : Shape) (depth : Nat) : Prop where
  positive : ∀ size ∈ data.shape, 0 < size
  depth_pos : 0 < depth
  depth_le : depth ≤ data.rank
  shape_indices : indices.shape = lead ++ [depth]
  inRange : ∀ js, lead.InBounds js → ∀ column < depth,
    -(data.shape.getD column 0 : Int) ≤ indices.component (js ++ [column])
      ∧ indices.component (js ++ [column]) < data.shape.getD column 0
  distinct : ∀ js js', lead.InBounds js → lead.InBounds js' →
    addressed data.shape indices depth js = addressed data.shape indices depth js' → js = js'
  dtype_updates : updates.dtype = data.dtype
  shape_updates : updates.shape = lead ++ data.shape.drop depth

theorem resolveIndex_eq_ok {size : Nat} {i : Int} (hlow : -(size : Int) ≤ i) (hhigh : i < size) :
    resolveIndex size i = .ok (wrapped size i) := by
  rw [resolveIndex, if_pos (by simp [hlow, hhigh])]
  rfl

/-- A place that only one row has is found at that row. -/
theorem lastRow?_eq_some {places : List (List Nat)} {place : List Nat} {row : Nat}
    (hrow : places[row]? = some place)
    (hunique : ∀ row', places[row']? = some place → row' = row) :
    lastRow? places place = some row := by
  unfold lastRow?
  cases hfind : (List.range places.length).reverse.find? fun row => places[row]? = some place with
  | some found => rw [hunique found (of_decide_eq_true (List.find?_some hfind :))]
  | none =>
      have hlt : row < places.length := (List.getElem?_eq_some_iff.1 hrow).1
      have := List.find?_eq_none.1 hfind row (List.mem_reverse.2 (List.mem_range.2 hlt))
      exact absurd (decide_eq_true hrow) this

theorem lastRow?_eq_none {places : List (List Nat)} {place : List Nat}
    (h : place ∉ places) : lastRow? places place = none := by
  refine List.find?_eq_none.2 fun row _ hrow => h ?_
  exact List.mem_of_getElem? (of_decide_eq_true hrow)

/-- The rows of the flattened indices address what the tuples do. -/
theorem places_eq_ok {shape : Shape} {indices rows : Tensor} {lead : Shape} {depth : Nat}
    (hrange : ∀ js, lead.InBounds js → ∀ column < depth,
      -(shape.getD column 0 : Int) ≤ indices.component (js ++ [column])
        ∧ indices.component (js ++ [column]) < shape.getD column 0)
    (hdtype : rows.dtype = indices.dtype)
    (hget : ∀ js is, lead.InBounds js → rows.get (lead.offset js :: is) = indices.get (js ++ is)) :
    places shape rows lead.size depth
      = .ok ((List.range lead.size).map fun row =>
          addressed shape indices depth (lead.index row)) := by
  refine Except.mapM_eq_ok.2 (List.forall₂_map_right_iff.2 (List.forall₂_same.2 fun row hrow => ?_))
  have hin := Shape.inBounds_index (List.mem_range.1 hrow)
  refine Except.mapM_eq_ok.2
    (List.forall₂_map_right_iff.2 (List.forall₂_same.2 fun column hcolumn => ?_))
  have hcomponent : Int.bmod (Element.toInt rows.dtype (rows.get [row, column]))
      0x10000000000000000 = indices.component (lead.index row ++ [column]) := by
    rw [component, ← hget _ _ hin, Shape.offset_index (List.mem_range.1 hrow), hdtype]
  obtain ⟨hlow, hhigh⟩ := hrange _ hin column (List.mem_range.1 hcolumn)
  rw [hcomponent]
  exact resolveIndex_eq_ok hlow hhigh

namespace Addresses

variable {data indices updates rows : Tensor} {lead : Shape} {depth : Nat}

theorem places_eq_ok (h : Addresses data indices updates lead depth)
    (hdtype : rows.dtype = indices.dtype)
    (hget : ∀ js is, lead.InBounds js → rows.get (lead.offset js :: is) = indices.get (js ++ is)) :
    places data.shape rows lead.size depth
      = .ok ((List.range lead.size).map fun row =>
          addressed data.shape indices depth (lead.index row)) :=
  Tensor.places_eq_ok h.inRange hdtype hget

/-- A place is found at the row of the tuple that addresses it. -/
theorem lastRow?_addressed (h : Addresses data indices updates lead depth) {js : List Nat}
    (hjs : lead.InBounds js) :
    lastRow? ((List.range lead.size).map fun row =>
        addressed data.shape indices depth (lead.index row))
      (addressed data.shape indices depth js) = some (lead.offset js) := by
  have hat (row : Nat) (hrow : row < lead.size) :
      ((List.range lead.size).map fun row =>
        addressed data.shape indices depth (lead.index row))[row]?
        = some (addressed data.shape indices depth (lead.index row)) := by
    rw [List.getElem?_map, List.getElem?_range hrow]
    rfl
  refine lastRow?_eq_some ?_ fun row hrow => ?_
  · rw [hat _ (Shape.offset_lt_size hjs), Shape.index_offset hjs]
  · have hlt : row < lead.size := by
      have := (List.getElem?_eq_some_iff.1 hrow).1
      rwa [List.length_map, List.length_range] at this
    rw [hat row hlt, Option.some.injEq] at hrow
    rw [← h.distinct _ _ (Shape.inBounds_index hlt) hjs hrow, Shape.offset_index hlt]

/-- A place that no tuple addresses is not found. -/
theorem lastRow?_of_not_addressed {place : List Nat}
    (h : ∀ js, lead.InBounds js → addressed data.shape indices depth js ≠ place) :
    lastRow? ((List.range lead.size).map fun row =>
      addressed data.shape indices depth (lead.index row)) place = none := by
  refine lastRow?_eq_none fun hmem => ?_
  obtain ⟨row, hrow, heq⟩ := List.mem_map.1 hmem
  exact h _ (Shape.inBounds_index (List.mem_range.1 hrow)) heq

end Addresses

/-- The size along the last dimension. -/
theorem sizeAlong_last {t : Tensor} {lead : Shape} {size : Nat} (h : t.shape = lead ++ [size]) :
    t.sizeAlong (-1) = .ok size := by
  have hrank : t.rank = lead.length + 1 := by
    rw [rank, h, List.length_append, List.length_singleton]
  have haxis : resolveAxis t.rank (-1) = .ok lead.length := by
    have hwithin : (-((lead.length + 1 : Nat) : Int) ≤ -1 && (-1 : Int) < (lead.length + 1 : Nat))
        = true := by
      rw [Bool.and_eq_true, decide_eq_true_eq, decide_eq_true_eq]
      omega
    rw [resolveAxis, hrank, if_pos hwithin, if_pos (by omega)]
    congr 1
    omega
  rw [sizeAlong, haxis, h]
  show Except.ok ((lead ++ [size]).getD lead.length 0) = _
  rw [List.getD_eq_getElem?_getD, List.getElem?_concat_length]
  rfl

-- ================================================================= writing

variable {data indices updates : Tensor} {lead : Shape} {depth : Nat}

/-- **Exactly the addressed slices are written.** With index tuples in
range, no two of one place, and a slice for each, the result has the type
and the shape of the data. It holds the slice of a tuple at the place that
the tuple addresses, and the data where no tuple does. -/
theorem scatter_writes_addressed (h : Addresses data indices updates lead depth)
    (hdtype : data.dtype.isStorageOnly = false) :
    ∃ written, scatter data indices updates = .ok written ∧ written.dtype = data.dtype
      ∧ written.shape = data.shape
      ∧ (∀ p js, data.shape.InBounds p → lead.InBounds js →
          addressed data.shape indices depth js = p.take depth →
          written.get p = updates.get (js ++ p.drop depth))
      ∧ ∀ p, data.shape.InBounds p →
          (∀ js, lead.InBounds js → addressed data.shape indices depth js ≠ p.take depth) →
          written.get p = data.get p := by
  have hpositive : ∀ size ∈ data.shape.drop depth, 0 < size :=
    fun size hsize => h.positive size (List.mem_of_mem_drop hsize)
  obtain ⟨rows, hrows, hrowsType, hrowsShape, hrowsGet⟩ :=
    exists_reshape_rows h.shape_indices (by simpa [Shape.size] using h.depth_pos)
  obtain ⟨slots, hslots, hslotsType, hslotsShape, hslotsGet⟩ :=
    exists_reshape_rows h.shape_updates (Shape.size_pos hpositive)
  have hplaces := h.places_eq_ok hrowsType hrowsGet
  have hroom : (data.shape.take depth).contains 0 = false := by
    refine Bool.eq_false_iff.2 fun hzero => ?_
    exact Nat.lt_irrefl 0 (h.positive 0 (List.mem_of_mem_take (List.contains_iff_mem.1 hzero)))
  have hscatter : scatter data indices updates = .ok (ofFn data.dtype data.shape fun is =>
      (lastRow? ((List.range lead.size).map fun row =>
          addressed data.shape indices depth (lead.index row)) (is.take depth)).elim (data.get is)
        fun row => slots.get ((if lead.size = 1 then 0 else row) :: is.drop depth)) := by
    unfold scatter
    rw [sizeAlong_last h.shape_indices, Except.ok_bind,
      show indices.reshape [none, some depth] = .ok rows from hrows, Except.ok_bind, hslots,
      Except.ok_bind]
    rw [if_neg (Nat.not_lt.2 h.depth_le)]
    simp only [hrowsShape, hslotsShape, hslotsType, h.dtype_updates, hroom, hdtype,
      List.getD_cons_zero, Bool.and_false, Bool.false_eq_true, decide_true, Bool.true_or, if_true,
      if_false, hplaces, Except.ok_bind]
    refine congrArg (fun f => Except.ok (ofFn data.dtype data.shape f)) (funext fun is => ?_)
    generalize lastRow? _ _ = row?
    cases row? <;> rfl
  refine ⟨_, hscatter, rfl, rfl, fun p js hp hjs hplace => ?_, fun p hp hnone => ?_⟩
  · have hrow : (if lead.size = 1 then 0 else lead.offset js) = lead.offset js := by
      have := Shape.offset_lt_size hjs
      split <;> omega
    rw [get_ofFn hp, ← hplace, h.lastRow?_addressed hjs, Option.elim_some, hrow, hslotsGet _ _ hjs]
  · rw [get_ofFn hp, Addresses.lastRow?_of_not_addressed hnone, Option.elim_none]

theorem inBounds_singleton {size : Nat} {js : List Nat} :
    Shape.InBounds [size] js ↔ ∃ i < size, js = [i] := by
  constructor
  · intro h
    match js, h with
    | [i], h => exact ⟨i, h.1, rfl⟩
  · rintro ⟨i, hi, rfl⟩
    exact ⟨hi, trivial⟩

/-- Two rows of three are written, one of them counted from the end. -/
theorem scatter_writes_twoRows :
    let data : Tensor := ⟨.int64, [3, 2], #[1, 2, 3, 4, 5, 6], rfl⟩
    let indices : Tensor := ⟨.int64, [2, 1], #[1, 0xfffffffffffffffd], rfl⟩
    let updates : Tensor := ⟨.int64, [2, 2], #[10, 20, 30, 40], rfl⟩
    Addresses data indices updates [2] 1
      ∧ ∃ written, scatter data indices updates = .ok written
        ∧ written.get [1, 1] = 20 ∧ written.get [0, 0] = 30 ∧ written.get [2, 1] = 6 := by
  intro data indices updates
  have haddressed : ∀ i < 2, addressed data.shape indices 1 [i] = [1 - i] := by decide
  have haddresses : Addresses data indices updates [2] 1 := by
    refine ⟨by decide, by decide, by decide, rfl, ?_, ?_, rfl, rfl⟩
    · intro js hjs
      obtain ⟨i, hi, rfl⟩ := inBounds_singleton.1 hjs
      clear hjs
      revert i
      decide
    · intro js js' hjs hjs' hsame
      obtain ⟨i, hi, rfl⟩ := inBounds_singleton.1 hjs
      obtain ⟨i', hi', rfl⟩ := inBounds_singleton.1 hjs'
      rw [haddressed i hi, haddressed i' hi', List.cons.injEq] at hsame
      congr 1
      omega
  obtain ⟨written, hwritten, -, -, hupdate, hkeep⟩ := scatter_writes_addressed haddresses rfl
  refine ⟨haddresses, written, hwritten, ?_, ?_, ?_⟩
  · exact hupdate [1, 1] [0] (by decide) (by decide) (by decide)
  · exact hupdate [0, 0] [1] (by decide) (by decide) (by decide)
  · refine hkeep [2, 1] (by decide) fun js hjs => ?_
    obtain ⟨i, hi, rfl⟩ := inBounds_singleton.1 hjs
    rw [haddressed i hi]
    exact fun hplace => absurd (List.cons.inj hplace).1 (by show 1 - i ≠ 2; omega)

/-- Unsigned integers of more than a byte are not written at all. -/
theorem scatter_refuses_wideUnsigned :
    let data := vector .uint16 [1, 2, 3]
    let indices := vector .int64 [1]
    let updates := scalar .uint16 9
    Addresses data indices updates [] 1
      ∧ scatter data indices updates = .error .noArithmetic := by
  intro data indices updates
  have hempty : ∀ js, Shape.InBounds [] js → js = [] := fun js hjs => by
    match js, hjs with
    | [], _ => rfl
  refine ⟨⟨by decide, by decide, by decide, rfl, fun js hjs => ?_, fun js js' hjs hjs' _ => ?_,
    rfl, rfl⟩, by decide⟩
  · rw [hempty js hjs]
    decide
  · rw [hempty js hjs, hempty js' hjs']

end Tensor

end OnnxLowering
