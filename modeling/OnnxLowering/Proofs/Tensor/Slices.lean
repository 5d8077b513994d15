/-
Slices of tensors, and tensors put together from slices.

`select` is the tensor at one position of a dimension, and `stack` puts
tensors of one shape along a new dimension. A loop has neither: it cuts
out a slice of size one and drops the dimension, or adds a dimension of
size one and joins. `squeeze_narrow` and `join_unsqueeze` say that this
comes to the same.
-/
import Mathlib.Algebra.Group.Nat.Defs
import Mathlib.Data.List.InsertIdx
import OnnxLowering.Proofs.Outcome
import OnnxLowering.Tensor.Layout

namespace OnnxLowering

-- ========================================================== index tuples

namespace Shape

/-- An index tuple is in bounds of a shape with one more dimension if it
is in bounds there, and everywhere else. -/
theorem inBounds_insertIdx {shape : Shape} {is : List Nat} {k d i : Nat}
    (hshape : k ≤ shape.length) (his : k ≤ is.length) :
    InBounds (shape.insertIdx k d) (is.insertIdx k i) ↔ i < d ∧ shape.InBounds is := by
  induction k generalizing shape is with
  | zero => exact Iff.rfl
  | succ k ih =>
      cases shape with
      | nil => exact absurd hshape (Nat.not_succ_le_zero k)
      | cons e shape =>
          cases is with
          | nil => exact absurd his (Nat.not_succ_le_zero k)
          | cons j is =>
              simp only [List.insertIdx_succ_cons, InBounds,
                ih (Nat.le_of_succ_le_succ hshape) (Nat.le_of_succ_le_succ his)]
              exact and_left_comm

theorem InBounds.length_eq {shape : Shape} {is : List Nat} (h : shape.InBounds is) :
    is.length = shape.length := by
  induction shape generalizing is with
  | nil =>
      cases is with
      | nil => rfl
      | cons i is => exact h.elim
  | cons d shape ih =>
      cases is with
      | nil => exact h.elim
      | cons i is => rw [List.length_cons, List.length_cons, ih h.2]

/-- An index tuple in bounds of a shape with one more dimension, taken
apart there. -/
theorem InBounds.eraseIdx {shape : Shape} {is : List Nat} {k d : Nat}
    (hk : k ≤ shape.length) (h : InBounds (shape.insertIdx k d) is) :
    is.getD k 0 < d ∧ shape.InBounds (is.eraseIdx k)
      ∧ (is.eraseIdx k).insertIdx k (is.getD k 0) = is := by
  have hlength : k < is.length := by
    rw [h.length_eq, List.length_insertIdx_of_le_length hk]
    exact Nat.lt_succ_of_le hk
  have hback : (is.eraseIdx k).insertIdx k (is.getD k 0) = is := by
    rw [List.getD_eq_getElem?_getD, List.getElem?_eq_getElem hlength, Option.getD_some,
      List.insertIdx_eraseIdx_getElem hlength]
  have herase : k ≤ (is.eraseIdx k).length := by
    rw [List.length_eraseIdx_of_lt hlength]
    omega
  rw [← hback, inBounds_insertIdx hk herase] at h
  exact ⟨h.1, h.2, hback⟩

end Shape

/-- Replacing an element that has been inserted. -/
theorem set_insertIdx_self {α : Type} (xs : List α) (k : Nat) (x y : α)
    (hk : k ≤ xs.length) : (xs.insertIdx k x).set k y = xs.insertIdx k y := by
  induction k generalizing xs with
  | zero => rfl
  | succ k ih =>
      cases xs with
      | nil => exact absurd hk (Nat.not_succ_le_zero k)
      | cons z xs =>
          rw [List.insertIdx_succ_cons, List.insertIdx_succ_cons, List.set_cons_succ,
            ih xs (Nat.le_of_succ_le_succ hk)]

/-- Replacing an element is taking it out and putting another one in. -/
theorem set_eq_insertIdx {α : Type} {xs : List α} {k : Nat} {x : α} (hk : k < xs.length) :
    xs.set k x = (xs.eraseIdx k).insertIdx k x := by
  have hback := List.insertIdx_eraseIdx_getElem (l := xs.set k x)
    (by rw [List.length_set]; exact hk)
  rw [List.getElem_set_self, List.eraseIdx_set_eq] at hback
  exact hback.symm

theorem modify_insertIdx_self {α : Type} (xs : List α) (k : Nat) (x : α) (f : α → α)
    (hk : k ≤ xs.length) : (xs.insertIdx k x).modify k f = xs.insertIdx k (f x) := by
  induction k generalizing xs with
  | zero => rfl
  | succ k ih =>
      cases xs with
      | nil => exact absurd hk (Nat.not_succ_le_zero k)
      | cons z xs =>
          rw [List.insertIdx_succ_cons, List.insertIdx_succ_cons, List.modify_succ_cons,
            ih xs (Nat.le_of_succ_le_succ hk)]

namespace Tensor

-- ================================================================ values

/-- Tensors are equal that are built from elements equal in bounds. -/
theorem ofFn_congr {dtype : DType} {shape shape' : Shape} {f g : List Nat → Nat}
    (hshape : shape = shape') (h : ∀ is, shape.InBounds is → f is = g is) :
    ofFn dtype shape f = ofFn dtype shape' g := by
  subst hshape
  refine ext_get rfl rfl fun is his => ?_
  rw [shape_ofFn] at his
  rw [get_ofFn his, get_ofFn his, h is his]

theorem get_cast {t : Tensor} {dtype : DType} {is : List Nat} (h : t.shape.InBounds is) :
    (t.cast dtype).get is = Element.cast t.dtype dtype (t.get is) := get_ofFn h

/-- Tensors cast to their own type are as they were. -/
theorem get_cast_self (t : Tensor) {is : List Nat} (his : t.shape.InBounds is) :
    (t.cast t.dtype).get is = t.get is :=
  (get_cast his).trans (if_pos rfl)

theorem isWord_of_resolveAxis {rank k : Nat} {axis : Int} (hrank : rank < 2 ^ 63)
    (h : resolveAxis rank axis = .ok k) : Shape.isWord axis = true := by
  unfold resolveAxis at h
  split at h
  · next hrange =>
      simp only [Bool.and_eq_true, decide_eq_true_eq] at hrange
      simp only [Shape.isWord, Bool.and_eq_true, decide_eq_true_eq]
      omega
  · cases h

theorem resolveAxis_lt {rank k : Nat} {axis : Int} (h : resolveAxis rank axis = .ok k) :
    k < rank := by
  unfold resolveAxis at h
  split at h
  · next hrange =>
      simp only [Bool.and_eq_true, decide_eq_true_eq] at hrange
      cases h
      split <;> omega
  · cases h

-- ================================================================ slices

/-- The slice of `length` positions of a dimension from `first` on. -/
def cut (t : Tensor) (k first length : Nat) : Tensor :=
  ofFn t.dtype (t.shape.set k length) fun is => t.get (is.modify k (first + ·))

theorem narrow_eq_cut {t : Tensor} {axis : Int} {k first length : Nat}
    (haxis : Shape.isWord axis = true) (hfirst : Shape.isWord first = true)
    (hlength : Shape.isWord length = true) (hk : resolveAxis t.rank axis = .ok k)
    (h : first + length ≤ t.shape.getD k 0) :
    t.narrow axis first length = .ok (t.cut k first length) := by
  have hstart : (-(t.shape.getD k 0 : Int) ≤ first && (first : Int) ≤ t.shape.getD k 0) = true := by
    rw [Bool.and_eq_true, decide_eq_true_eq, decide_eq_true_eq]
    omega
  have hnonneg : ¬ (first : Int) < 0 := by omega
  simp only [narrow, haxis, hfirst, hlength, hk, hstart, hnonneg, if_false, Int.toNat_natCast, h,
    Bool.and_self, if_true, bind, Except.bind, pure, Except.pure]
  rfl

/-- The tensor at a position of a dimension. -/
def select (t : Tensor) (k i : Nat) : Tensor :=
  ofFn t.dtype (t.shape.eraseIdx k) fun is => t.get (is.insertIdx k i)

/-- The slice of size one at a position, without its dimension, is what
stands at that position. -/
theorem squeeze_narrow {t : Tensor} {axis : Int} {k i : Nat}
    (haxis : Shape.isWord axis = true) (hword : Shape.isWord i = true)
    (hk : resolveAxis t.rank axis = .ok k) (hi : i < t.shape.getD k 0) :
    (t.narrow axis i 1 >>= fun part => part.squeeze axis) = .ok (t.select k i) := by
  have hlt : k < t.shape.length := resolveAxis_lt hk
  have hrank : max (t.shape.set k 1).length 1 = t.rank := by
    rw [List.length_set, rank]
    omega
  have hone : (t.shape.set k 1)[k]? = some 1 := by
    rw [List.getElem?_set_self hlt]
  have herase : (t.shape.set k 1).eraseIdx k = t.shape.eraseIdx k := List.eraseIdx_set_eq
  rw [narrow_eq_cut haxis hword (show Shape.isWord (1 : Nat) = true from rfl) hk
    (Nat.succ_le_of_lt hi)]
  show squeeze (ofFn _ _ _) axis = _
  simp only [squeeze, haxis, rank, shape_ofFn, if_true]
  rw [hrank]
  simp only [hk, hone, if_true, bind, Except.bind, pure, Except.pure, dtype_ofFn]
  refine congrArg Except.ok (ofFn_congr herase fun is his => ?_)
  rw [herase] at his
  have hle : k ≤ is.length := by
    rw [his.length_eq, List.length_eraseIdx_of_lt hlt]
    omega
  have hle' : k ≤ (t.shape.eraseIdx k).length := by
    rw [List.length_eraseIdx_of_lt hlt]
    omega
  rw [get_ofFn, modify_insertIdx_self _ _ _ _ hle, Nat.add_zero]
  rw [set_eq_insertIdx hlt]
  exact (Shape.inBounds_insertIdx hle' hle).2 ⟨Nat.one_pos, his⟩

-- ================================================================ stacks

/-- The tensor with a new dimension of size one. -/
def expand (t : Tensor) (k : Nat) : Tensor :=
  ofFn t.dtype (t.shape.insertIdx k 1) fun is => t.get (is.eraseIdx k)

/-- Tensors of one shape, cast to their common type, one after the other
along a new dimension. -/
def stack (axis : Int) : List Tensor → Outcome Tensor
  | [] => .failed
  | first :: rest => do
      let k ← .ofExcept (resolveAxis (first.rank + 1) axis)
      let dtype ← .ofExcept (joinType first rest)
      Outcome.demand (∀ part ∈ rest, part.shape = first.shape)
      return ofFn dtype (first.shape.insertIdx k (rest.length + 1)) fun is =>
        (((first :: rest)[is.getD k 0]?).map fun part =>
          (part.cast dtype).get (is.eraseIdx k)).getD 0

/-- Parts have one shape and a common type, and the axis is one of the
tensor that they make. -/
def Stackable (axis : Int) (parts : List Tensor) : Prop :=
  ∀ first rest, parts = first :: rest →
    (∃ k, resolveAxis (first.rank + 1) axis = .ok k) ∧ (∃ dtype, joinType first rest = .ok dtype)
      ∧ ∀ part ∈ rest, part.shape = first.shape

theorem Stackable.resolve {axis : Int} {parts : List Tensor} (h : Stackable axis parts)
    {part : Tensor} (hpart : part ∈ parts) : ∃ k, resolveAxis (part.rank + 1) axis = .ok k := by
  obtain ⟨first, rest, rfl⟩ := List.exists_cons_of_ne_nil (List.ne_nil_of_mem hpart)
  obtain ⟨hk, -, hshapes⟩ := h first rest rfl
  rcases List.mem_cons.1 hpart with rfl | hrest
  · exact hk
  · rw [rank, hshapes part hrest]
    exact hk

theorem exists_stack {axis : Int} {parts : List Tensor} (hne : parts ≠ [])
    (h : Stackable axis parts) : ∃ t, stack axis parts = .ok t := by
  obtain ⟨first, rest, rfl⟩ := List.exists_cons_of_ne_nil hne
  obtain ⟨⟨k, hk⟩, ⟨dtype, hdtype⟩, hshapes⟩ := h first rest rfl
  rw [stack, hk, hdtype, Outcome.demand, if_pos hshapes]
  exact ⟨_, rfl⟩

theorem unsqueeze_eq_ok {t u : Tensor} {axis : Int} :
    t.unsqueeze axis = .ok u ↔
      Shape.isWord axis = true ∧ ∃ k, resolveAxis (t.rank + 1) axis = .ok k ∧ u = t.expand k := by
  unfold unsqueeze
  cases haxis : Shape.isWord axis with
  | false =>
      simp only [Bool.false_eq_true, if_false, false_and, iff_false]
      exact fun h => nomatch h
  | true =>
      simp only [if_true, true_and]
      cases hk : resolveAxis (t.rank + 1) axis with
      | error e => exact ⟨fun h => (nomatch h), fun ⟨_, h, _⟩ => (nomatch h)⟩
      | ok k =>
          constructor
          · intro h
            exact ⟨k, rfl, (Except.ok.inj h).symm⟩
          · rintro ⟨_, ⟨⟩, rfl⟩
            rfl

theorem shape_expand_ne (t : Tensor) {k : Nat} (hk : k ≤ t.rank) :
    (t.expand k).shape ≠ [0] := by
  intro h
  have hmem : 1 ∈ t.shape.insertIdx k 1 := (List.mem_insertIdx hk).2 (Or.inl rfl)
  rw [show t.shape.insertIdx k 1 = [0] from h, List.mem_singleton] at hmem
  exact Nat.one_ne_zero hmem

/-- The elements of a tensor with a new dimension. -/
theorem get_cast_expand {t : Tensor} {dtype : DType} {k : Nat} {is : List Nat}
    (hk : k ≤ t.rank) (h : t.shape.InBounds is) :
    ((t.expand k).cast dtype).get (is.insertIdx k 0) = (t.cast dtype).get is := by
  have hle : k ≤ is.length := by
    rw [h.length_eq]
    exact hk
  have hin : (t.expand k).shape.InBounds (is.insertIdx k 0) :=
    (Shape.inBounds_insertIdx hk hle).2 ⟨Nat.one_pos, h⟩
  have hget : (t.expand k).get (is.insertIdx k 0) = t.get ((is.insertIdx k 0).eraseIdx k) :=
    get_ofFn hin
  rw [List.eraseIdx_insertIdx_self] at hget
  rw [get_cast hin, get_cast h, hget]
  rfl

/-- Among parts of size one the parts are numbered by position. -/
theorem pickPart_of_ones {k : Nat} {parts : List Tensor}
    (h : ∀ part ∈ parts, part.shape.getD k 0 = 1) (i : Nat) :
    pickPart k parts i = parts[i]?.map fun part => (part, 0) := by
  induction parts generalizing i with
  | nil => rfl
  | cons part rest ih =>
      rw [List.forall_mem_cons] at h
      rw [pickPart, h.1]
      cases i with
      | zero => rfl
      | succ i => exact (if_neg (by omega)).trans (ih h.2 i)

/-- Parts of one shape, each with a new dimension, joined there. -/
theorem joinAligned_expand {dtype : DType} {shape : Shape} {k : Nat} {parts : List Tensor}
    (hk : k ≤ shape.length) (hshape : ∀ part ∈ parts, part.shape = shape) :
    joinAligned dtype (shape.insertIdx k 1) k ((parts.map (·.expand k)).map (·.cast dtype))
      = ofFn dtype (shape.insertIdx k parts.length) fun is =>
          ((parts[is.getD k 0]?).map fun part => (part.cast dtype).get (is.eraseIdx k)).getD 0 := by
  have hone : ∀ part ∈ (parts.map (·.expand k)).map (·.cast dtype), part.shape.getD k 0 = 1 := by
    intro part hpart
    obtain ⟨u, hu, rfl⟩ := List.mem_map.1 hpart
    obtain ⟨t, ht, rfl⟩ := List.mem_map.1 hu
    show (t.shape.insertIdx k 1).getD k 0 = 1
    rw [hshape t ht, List.getD_eq_getElem?_getD, List.getElem?_insertIdx_self, if_pos hk]
    rfl
  have hsize : (((parts.map (·.expand k)).map (·.cast dtype)).map
      fun part => part.shape.getD k 0).foldr (· + ·) 0 = parts.length := by
    rw [List.map_congr_left hone, List.map_const', ← List.sum, List.sum_replicate_nat, Nat.mul_one,
      List.length_map, List.length_map]
  unfold joinAligned
  refine ofFn_congr ?_ fun is his => ?_
  · rw [hsize, set_insertIdx_self _ _ _ _ hk]
  · rw [hsize, set_insertIdx_self _ _ _ _ hk] at his
    obtain ⟨-, herase, hback⟩ := his.eraseIdx hk
    rw [pickPart_of_ones hone, List.getElem?_map, List.getElem?_map]
    cases hpart : parts[is.getD k 0]? with
    | none => rfl
    | some part =>
        have hmem : part ∈ parts := List.mem_of_getElem? hpart
        have hle : k ≤ (is.eraseIdx k).length := by
          rw [herase.length_eq]
          exact hk
        have hset : is.set k 0 = (is.eraseIdx k).insertIdx k 0 := by
          conv_lhs => rw [← hback]
          exact set_insertIdx_self _ _ _ _ hle
        have hin : part.shape.InBounds (is.eraseIdx k) := by
          rwa [hshape part hmem]
        show ((part.expand k).cast dtype).get (is.set k 0) = _
        rw [hset]
        exact get_cast_expand (by rw [rank, hshape part hmem]; exact hk) hin

/-- How parts are joined that all have a say in the shape. -/
theorem join_cons {axis : Int} {first : Tensor} {rest : List Tensor}
    (haxis : Shape.isWord axis = true)
    (h : ∀ part ∈ first :: rest, part.rank ≠ 0 ∧ part.shape ≠ [0]) :
    join (first :: rest) axis = (do
      let k ← resolveAxis first.rank axis
      let dtype ← joinType first rest
      unless rest.all (fun part =>
          part.rank = first.rank && part.shape.set k 0 = first.shape.set k 0) do
        throw .sizeMismatch
      return joinAligned dtype first.shape k ((first :: rest).map (·.cast dtype))) := by
  have hranks : (first :: rest).all (·.rank ≠ 0) = true :=
    List.all_eq_true.2 fun part hpart => decide_eq_true (h part hpart).1
  have hfilter : (first :: rest).filter (·.shape ≠ [0]) = first :: rest :=
    List.filter_eq_self.2 fun part hpart => decide_eq_true (h part hpart).2
  unfold join
  simp only [haxis, hranks, hfilter, if_true]

/-- Tensors with a new dimension agree in their other dimensions if and
only if they had the same shape before. -/
theorem fits_unsqueeze {t u part : Tensor} {axis : Int} {k : Nat}
    (hk : resolveAxis (t.rank + 1) axis = .ok k) (hu : part.unsqueeze axis = .ok u) :
    (u.rank = (t.expand k).rank ∧ u.shape.set k 0 = (t.expand k).shape.set k 0)
      ↔ part.shape = t.shape := by
  obtain ⟨-, l, hl, rfl⟩ := unsqueeze_eq_ok.1 hu
  have hk' : k ≤ t.shape.length := Nat.le_of_lt_succ (resolveAxis_lt hk)
  have hl' : l ≤ part.shape.length := Nat.le_of_lt_succ (resolveAxis_lt hl)
  have hsame (hrank : part.rank = t.rank) : l = k := by
    rw [hrank, hk] at hl
    exact (Except.ok.inj hl).symm
  constructor
  · rintro ⟨hrank, hset⟩
    have hlengths : (part.shape.insertIdx l 1).length = (t.shape.insertIdx k 1).length := hrank
    rw [List.length_insertIdx_of_le_length hl', List.length_insertIdx_of_le_length hk'] at hlengths
    obtain rfl := hsame (Nat.succ.inj hlengths)
    have hinsert : part.shape.insertIdx l 0 = t.shape.insertIdx l 0 := by
      rw [← set_insertIdx_self part.shape l 1 0 hl', ← set_insertIdx_self t.shape l 1 0 hk']
      exact hset
    have herase := congrArg (·.eraseIdx l) hinsert
    simpa only [List.eraseIdx_insertIdx_self] using herase
  · intro hshape
    obtain rfl := hsame (congrArg List.length hshape)
    have hexpand : (part.expand l).shape = (t.expand l).shape := by
      show part.shape.insertIdx l 1 = t.shape.insertIdx l 1
      rw [hshape]
    rw [rank, rank, hexpand]
    exact ⟨rfl, rfl⟩

section

variable {axis : Int} {rest us : List Tensor}

theorem joinType_unsqueeze {first : Tensor} {k : Nat}
    (h : List.Forall₂ (fun part u => part.unsqueeze axis = .ok u) rest us) :
    joinType (first.expand k) us = joinType first rest := by
  unfold joinType
  show us.foldlM _ first.dtype = _
  generalize first.dtype = dtype
  induction h generalizing dtype with
  | nil => rfl
  | @cons part u rest us hu hrest ih =>
      obtain ⟨-, l, -, rfl⟩ := unsqueeze_eq_ok.1 hu
      rw [List.foldlM_cons, List.foldlM_cons]
      exact congrArg _ (funext ih)

/-- The parts all fit the first one if and only if they have its shape. -/
theorem all_fits_unsqueeze {first : Tensor} {k : Nat}
    (hk : resolveAxis (first.rank + 1) axis = .ok k)
    (h : List.Forall₂ (fun part u => part.unsqueeze axis = .ok u) rest us) :
    us.all (fun u => u.rank = (first.expand k).rank
        && u.shape.set k 0 = (first.expand k).shape.set k 0) = true
      ↔ ∀ part ∈ rest, part.shape = first.shape := by
  induction h with
  | nil => simp
  | @cons part u rest us hu hrest ih =>
      rw [List.all_cons, Bool.and_eq_true, ih, List.forall_mem_cons, Bool.and_eq_true,
        decide_eq_true_eq, decide_eq_true_eq, fits_unsqueeze hk hu]

theorem eq_map_expand {first : Tensor} {k : Nat}
    (hk : resolveAxis (first.rank + 1) axis = .ok k)
    (h : List.Forall₂ (fun part u => part.unsqueeze axis = .ok u) rest us)
    (hshapes : ∀ part ∈ rest, part.shape = first.shape) : us = rest.map (·.expand k) := by
  induction h with
  | nil => rfl
  | @cons part u rest us hu hrest ih =>
      rw [List.forall_mem_cons] at hshapes
      obtain ⟨-, l, hl, rfl⟩ := unsqueeze_eq_ok.1 hu
      rw [rank, hshapes.1, ← rank, hk] at hl
      cases hl
      rw [List.map_cons, ← ih hshapes.2]

/-- Parts with a new dimension each, joined there, are a stack. -/
theorem join_unsqueeze {parts : List Tensor}
    (h : List.Forall₂ (fun part u => part.unsqueeze axis = .ok u) parts us) :
    Realises (fun a b => a = b) (join us axis) (stack axis parts) := by
  cases h with
  | nil =>
      unfold join
      cases Shape.isWord axis <;> exact ⟨_, rfl⟩
  | @cons first u rest us hfirst hrest =>
      obtain ⟨haxis, k, hk, rfl⟩ := unsqueeze_eq_ok.1 hfirst
      have hle : k ≤ first.shape.length := Nat.le_of_lt_succ (resolveAxis_lt hk)
      have hsized : ∀ u ∈ first.expand k :: us, u.rank ≠ 0 ∧ u.shape ≠ [0] := by
        intro u hu
        obtain ⟨part, l, hl, rfl⟩ : ∃ part l, resolveAxis (part.rank + 1) axis = .ok l
            ∧ u = expand part l := by
          rcases List.mem_cons.1 hu with rfl | hrest'
          · exact ⟨first, k, hk, rfl⟩
          · obtain ⟨i, hi, rfl⟩ := List.mem_iff_getElem.1 hrest'
            have hunsqueeze := hrest.get (by rw [hrest.length_eq]; exact hi) hi
            obtain ⟨-, l, hl, hu⟩ := unsqueeze_eq_ok.1 hunsqueeze
            exact ⟨_, l, hl, hu⟩
        have hl' : l ≤ part.rank := Nat.le_of_lt_succ (resolveAxis_lt hl)
        refine ⟨?_, shape_expand_ne part hl'⟩
        show (part.shape.insertIdx l 1).length ≠ 0
        rw [List.length_insertIdx_of_le_length hl']
        exact Nat.succ_ne_zero _
      have hrank : (first.expand k).rank = first.rank + 1 :=
        List.length_insertIdx_of_le_length hle 1
      rw [join_cons haxis hsized, stack, joinType_unsqueeze hrest, hrank]
      refine (Realises.ofExcept _).bind fun k' _ hk' hsame => ?_
      subst hsame
      rw [hk] at hk'
      cases hk'
      refine (Realises.ofExcept _).bind fun dtype _ _ hsame => ?_
      subst hsame
      have hfits := all_fits_unsqueeze hk hrest
      rw [hrank] at hfits
      by_cases hshapes : ∀ part ∈ rest, part.shape = first.shape
      · rw [if_pos (hfits.2 hshapes), Outcome.demand, if_pos hshapes, eq_map_expand hk hrest hshapes]
        refine Realises.ok ?_
        exact joinAligned_expand hle (List.forall_mem_cons.2 ⟨rfl, hshapes⟩)
      · rw [if_neg (mt hfits.1 hshapes), Outcome.demand, if_neg hshapes]
        exact Realises.error

end

end Tensor

end OnnxLowering
