/-
Chunks of a tensor: slices of one size along a dimension, joined there.
`cut` is the slice from a position on, and `chunks` is what the slices
make that begin at the positions `place` names. Cutting and joining is
looking positions up: element `i` of the joined dimension stands in
chunk `i / size`, at its position `i % size` (`join_cuts`). Slices that
follow each other make one slice (`chunks_consecutive`).
-/
import OnnxLowering.Proofs.Tensor.Slices

namespace OnnxLowering

/-- An index tuple in bounds of a shape with another size somewhere,
taken apart there. -/
theorem Shape.InBounds.exists_insertIdx {shape : Shape} {is : List Nat} {k d : Nat}
    (hk : k < shape.length) (h : InBounds (shape.set k d) is) :
    ∃ others i, is = others.insertIdx k i ∧ k ≤ others.length ∧ i < d
      ∧ InBounds (shape.eraseIdx k) others := by
  have hle : k ≤ (shape.eraseIdx k).length := by
    rw [List.length_eraseIdx_of_lt hk]
    omega
  rw [set_eq_insertIdx hk] at h
  obtain ⟨hlt, hothers, hback⟩ := h.eraseIdx hle
  refine ⟨is.eraseIdx k, is.getD k 0, hback.symm, ?_, hlt, hothers⟩
  rw [hothers.length_eq]
  exact hle

theorem Shape.inBounds_set {shape : Shape} {others : List Nat} {k d i : Nat}
    (hk : k < shape.length) (hothers : InBounds (shape.eraseIdx k) others) (hi : i < d) :
    InBounds (shape.set k d) (others.insertIdx k i) := by
  have hle : k ≤ (shape.eraseIdx k).length := by
    rw [List.length_eraseIdx_of_lt hk]
    omega
  rw [set_eq_insertIdx hk]
  exact (inBounds_insertIdx hle (by rw [hothers.length_eq]; exact hle)).2 ⟨hi, hothers⟩

namespace Tensor

/-- The number of dimensions and their sizes are integers of 64 bits. -/
def Countable (t : Tensor) : Prop := t.rank < 2 ^ 63 ∧ ∀ size ∈ t.shape, size < 2 ^ 63

instance (t : Tensor) : Decidable t.Countable := inferInstanceAs (Decidable (_ ∧ _))

variable {t : Tensor} {k count size : Nat} {axis : Int} {place : Nat → Nat}

theorem Countable.isWord_of_le (h : t.Countable) {n : Nat} (hn : n ≤ t.shape.getD k 0) :
    Shape.isWord n = true := by
  have hsize : t.shape.getD k 0 < 2 ^ 63 := by
    rw [List.getD_eq_getElem?_getD]
    cases hk : t.shape[k]? with
    | none => exact Nat.two_pow_pos 63
    | some size => exact h.2 size (List.mem_of_getElem? hk)
  simp only [Shape.isWord, Bool.and_eq_true, decide_eq_true_eq]
  omega

/-- Every slice that a dimension has room for can be cut out. -/
theorem Countable.narrow_eq_cut (h : t.Countable) {first : Nat}
    (hk : resolveAxis t.rank axis = .ok k) (hroom : first + size ≤ t.shape.getD k 0) :
    t.narrow axis first size = .ok (t.cut k first size) :=
  Tensor.narrow_eq_cut (isWord_of_resolveAxis h.1 hk)
    (h.isWord_of_le (Nat.le_trans (Nat.le_add_right _ _) hroom))
    (h.isWord_of_le (Nat.le_trans (Nat.le_add_left _ _) hroom)) hk hroom

theorem get_cut {others : List Nat} {first i : Nat} (hk : k < t.rank)
    (hothers : Shape.InBounds (t.shape.eraseIdx k) others) (hi : i < size) :
    (t.cut k first size).get (others.insertIdx k i) = t.get (others.insertIdx k (first + i)) := by
  have hle : k ≤ others.length := by
    rw [hothers.length_eq, List.length_eraseIdx_of_lt hk]
    exact Nat.le_sub_one_of_lt hk
  rw [cut, get_ofFn (Shape.inBounds_set hk hothers hi), modify_insertIdx_self _ _ _ _ hle]

-- ================================================================ chunks

/-- The slices of one size from the positions on that `place` names, one
after the other. -/
def chunks (t : Tensor) (k count size : Nat) (place : Nat → Nat) : Tensor :=
  ofFn t.dtype (t.shape.set k (count * size)) fun is =>
    t.get (is.modify k fun i => place (i / size) + i % size)

theorem chunks_congr {place' : Nat → Nat} (hk : k < t.rank)
    (h : ∀ c < count, place c = place' c) :
    t.chunks k count size place = t.chunks k count size place' := by
  refine ofFn_congr rfl fun is his => congrArg t.get ?_
  obtain ⟨others, i, rfl, hle, hi, -⟩ := his.exists_insertIdx hk
  have hsize : 0 < size := Nat.pos_of_mul_pos_left (Nat.zero_lt_of_lt hi)
  rw [modify_insertIdx_self _ _ _ _ hle, modify_insertIdx_self _ _ _ _ hle,
    h _ ((Nat.div_lt_iff_lt_mul hsize).2 hi)]

/-- Slices that follow each other make one slice. -/
theorem chunks_consecutive {first : Nat} (hk : k < t.rank) :
    (t.chunks k count size fun c => first + c * size) = t.cut k first (count * size) := by
  refine ofFn_congr rfl fun is his => congrArg t.get ?_
  obtain ⟨others, i, rfl, hle, -, -⟩ := his.exists_insertIdx hk
  rw [modify_insertIdx_self _ _ _ _ hle, modify_insertIdx_self _ _ _ _ hle, Nat.add_assoc,
    Nat.mul_comm, Nat.div_add_mod]

/-- Among parts of one size a position falls into the part that its
quotient numbers. -/
theorem pickPart_of_size {parts : List Tensor} (hsize : 0 < size)
    (h : ∀ part ∈ parts, part.shape.getD k 0 = size) (i : Nat) :
    pickPart k parts i = parts[i / size]?.map fun part => (part, i % size) := by
  induction parts generalizing i with
  | nil => rfl
  | cons part rest ih =>
      rw [List.forall_mem_cons] at h
      rw [pickPart, h.1]
      by_cases hi : i < size
      · rw [if_pos hi, Nat.div_eq_of_lt hi, Nat.mod_eq_of_lt hi]
        rfl
      · obtain ⟨j, rfl⟩ := Nat.exists_eq_add_of_le (Nat.le_of_not_lt hi)
        rw [if_neg hi, Nat.add_sub_cancel_left, ih h.2, Nat.add_div_left _ hsize,
          Nat.add_mod_left, List.getElem?_cons_succ]

/-- Tensors of one type have that type in common. -/
theorem joinType_of_dtype {first : Tensor} {rest : List Tensor}
    (h : ∀ part ∈ rest, part.dtype = first.dtype) : joinType first rest = .ok first.dtype := by
  unfold joinType
  induction rest with
  | nil => rfl
  | cons part rest ih =>
      rw [List.forall_mem_cons] at h
      rw [List.foldlM_cons, h.1, DType.promote, if_pos rfl]
      exact ih h.2

/-- The slices of one size from the positions on that `place` names. -/
def cuts (t : Tensor) (k count size : Nat) (place : Nat → Nat) : List Tensor :=
  (List.range count).map fun c => t.cut k (place c) size

theorem getElem?_cuts {c : Nat} (hc : c < count) :
    (t.cuts k count size place)[c]? = some (t.cut k (place c) size) := by
  rw [cuts, List.getElem?_map, List.getElem?_range hc]
  rfl

theorem forall_mem_cuts {P : Tensor → Prop} (h : ∀ c < count, P (t.cut k (place c) size)) :
    ∀ part ∈ t.cuts k count size place, P part := by
  intro part hpart
  obtain ⟨c, hc, rfl⟩ := List.mem_map.1 hpart
  exact h c (List.mem_range.1 hc)

/-- Slices of one tensor, joined along the dimension they are cut
along. -/
theorem joinAligned_cuts {first : Nat} (hk : k < t.rank) (hsize : 0 < size) :
    joinAligned t.dtype (t.cut k first size).shape k
        ((t.cuts k count size place).map (·.cast t.dtype)) = t.chunks k count size place := by
  have hsizes : ∀ part ∈ (t.cuts k count size place).map (·.cast t.dtype),
      part.shape.getD k 0 = size := by
    intro part hpart
    obtain ⟨u, hu, rfl⟩ := List.mem_map.1 hpart
    refine forall_mem_cuts (P := fun u => (u.cast t.dtype).shape.getD k 0 = size) (fun c _ => ?_)
      u hu
    show (t.shape.set k size).getD k 0 = size
    rw [List.getD_eq_getElem?_getD, List.getElem?_set_self hk]
    rfl
  have htotal : (((t.cuts k count size place).map (·.cast t.dtype)).map
      fun part => part.shape.getD k 0).foldr (· + ·) 0 = count * size := by
    rw [List.map_congr_left hsizes, List.map_const', ← List.sum, List.sum_replicate_nat,
      List.length_map, cuts, List.length_map, List.length_range]
  unfold joinAligned
  rw [htotal]
  have hshape : (t.cut k first size).shape.set k (count * size)
      = t.shape.set k (count * size) := List.set_set _
  refine ofFn_congr hshape fun is his => ?_
  rw [hshape] at his
  obtain ⟨others, i, rfl, hle, hi, hothers⟩ := his.exists_insertIdx hk
  have hat : (others.insertIdx k i).getD k 0 = i := by
    rw [List.getD_eq_getElem?_getD, List.getElem?_insertIdx_self, if_pos hle]
    rfl
  rw [hat, pickPart_of_size hsize hsizes, List.getElem?_map,
    getElem?_cuts ((Nat.div_lt_iff_lt_mul hsize).2 hi), modify_insertIdx_self _ _ _ _ hle]
  have hlt : i % size < size := Nat.mod_lt _ hsize
  show ((t.cut k (place (i / size)) size).cast t.dtype).get
    ((others.insertIdx k i).set k (i % size)) = _
  rw [set_insertIdx_self _ _ _ _ hle, ← get_cut hk hothers hlt]
  exact get_cast_self (t.cut k (place (i / size)) size) (Shape.inBounds_set hk hothers hlt)

/-- Slices of one tensor can be joined along the dimension they are cut
along. -/
theorem join_cuts (ht : t.Countable) (hk : resolveAxis t.rank axis = .ok k) (hsize : 0 < size)
    (hcount : 0 < count) :
    join (t.cuts k count size place) axis = .ok (t.chunks k count size place) := by
  have hlt : k < t.rank := resolveAxis_lt hk
  have hrank (first : Nat) : (t.cut k first size).rank = t.rank := List.length_set
  have hsized : ∀ part ∈ t.cuts k count size place, part.rank ≠ 0 ∧ part.shape ≠ [0] := by
    refine forall_mem_cuts fun c _ => ⟨?_, fun hempty => ?_⟩
    · rw [hrank]
      exact Nat.ne_zero_of_lt hlt
    · have hmem : size ∈ (t.cut k (place c) size).shape := List.mem_set hlt _
      rw [hempty, List.mem_singleton] at hmem
      exact Nat.ne_of_gt hsize hmem
  obtain ⟨count, rfl⟩ := Nat.exists_eq_succ_of_ne_zero (Nat.ne_of_gt hcount)
  obtain ⟨rest, hrest⟩ : ∃ rest, t.cuts k (count + 1) size place
      = t.cut k (place 0) size :: rest := by
    rw [cuts, List.range_succ_eq_map]
    exact ⟨_, rfl⟩
  have hfits : rest.all (fun part => part.rank = t.rank
      && part.shape.set k 0 = (t.cut k (place 0) size).shape.set k 0) = true := by
    refine List.all_eq_true.2 fun part hpart => ?_
    refine @forall_mem_cuts t k (count + 1) size place
      (fun part => (decide (part.rank = t.rank)
        && decide (part.shape.set k 0 = (t.cut k (place 0) size).shape.set k 0)) = true)
      (fun c _ => ?_) part (hrest ▸ List.mem_cons_of_mem _ hpart)
    rw [hrank, Bool.and_eq_true, decide_eq_true_eq, decide_eq_true_eq]
    exact ⟨rfl, rfl⟩
  have hdtype : joinType (t.cut k (place 0) size) rest = .ok t.dtype := by
    refine joinType_of_dtype fun part hpart => ?_
    exact forall_mem_cuts (P := fun part => part.dtype = t.dtype) (fun _ _ => rfl) part
      (hrest ▸ List.mem_cons_of_mem _ hpart)
  rw [hrest] at hsized
  rw [hrest, join_cons (isWord_of_resolveAxis ht.1 hk) hsized, hrank, hk, hdtype]
  simp only [bind, Except.bind, pure, Except.pure]
  rw [if_pos hfits, ← hrest, joinAligned_cuts hlt hsize]

end Tensor

end OnnxLowering
