/-
Sums and products whose right operand is put at dimensions of the left one.

The right operand gets dimensions of size one before and after its own
(`around`). That keeps its elements in their order, since such dimensions
have no say in row-major order (`get_around`), and it makes the ranks the
same, so that dimensions are stretched one by one. If each dimension fits,
the result has the shape of the left operand, and an index tuple reads the
right one by the part of it that belongs to its dimensions
(`Arithmetic.on_around`).
-/
import OnnxLowering.Proofs.Lists
import OnnxLowering.Proofs.Signal.Frames
import OnnxLowering.Proofs.Tensor.Scatter

namespace OnnxLowering

namespace Shape

variable {shape lhs rhs : Shape} {is js : List Nat} {start before after : Nat}

-- ================================================== dimensions of size one

theorem size_ones (n : Nat) : size (List.replicate n 1) = 1 := by
  induction n with
  | zero => rfl
  | succ n ih => rw [List.replicate_succ, size, ih]

theorem size_around (shape : Shape) (before after : Nat) :
    size (List.replicate before 1 ++ shape ++ List.replicate after 1) = size shape := by
  rw [size_append, size_append, size_ones, size_ones, Nat.one_mul, Nat.mul_one]

theorem offset_zeros (n : Nat) : offset (List.replicate n 1) (List.replicate n 0) = 0 := by
  induction n with
  | zero => rfl
  | succ n ih => rw [List.replicate_succ, List.replicate_succ, offset, ih, Nat.zero_mul]

/-- Positions in dimensions of size one have no say in the order. -/
theorem offset_around (hjs : js.length = shape.length) :
    offset (List.replicate before 1 ++ shape ++ List.replicate after 1)
      (List.replicate before 0 ++ js ++ List.replicate after 0) = offset shape js := by
  rw [offset_append (by simp [hjs]), offset_append (by simp), offset_zeros, offset_zeros, size_ones,
    Nat.zero_mul, Nat.zero_add, Nat.mul_one, Nat.add_zero]

/-- Where a shape at the dimensions from `start` on is read: at the positions
in these dimensions, and at zero where a dimension is stretched. -/
def readFrom (start : Nat) (shape : Shape) (is : List Nat) : List Nat :=
  List.zipWith (fun d i => if d = 1 then 0 else i) shape (is.drop start)

theorem length_readFrom (h : start + shape.length ≤ is.length) :
    (readFrom start shape is).length = shape.length := by
  rw [readFrom, List.length_zipWith, List.length_drop]
  omega

theorem zipWith_ones : List.zipWith (fun d i => if d = 1 then 0 else i)
    (List.replicate is.length 1) is = List.replicate is.length 0 := by
  induction is with
  | nil => rfl
  | cons i is ih =>
      rw [List.length_cons, List.replicate_succ, List.zipWith_cons_cons, if_pos rfl, ih]
      rfl

theorem project_around (h : is.length = before + shape.length + after) :
    project (List.replicate before 1 ++ shape ++ List.replicate after 1) is
      = List.replicate before 0 ++ readFrom before shape is ++ List.replicate after 0 := by
  -- The positions before, within and behind the dimensions of the shape itself.
  obtain ⟨front, middle, back, rfl, rfl, hmiddle, rfl⟩ : ∃ front middle back,
      front ++ middle ++ back = is ∧ front.length = before ∧ shape.length = middle.length
        ∧ back.length = after := by
    refine ⟨is.take before, (is.drop before).take shape.length, (is.drop before).drop shape.length,
      by rw [List.append_assoc, List.take_append_drop, List.take_append_drop], ?_, ?_, ?_⟩ <;>
    · simp only [List.length_take, List.length_drop]
      omega
  have hread : readFrom front.length shape (front ++ middle ++ back)
      = List.zipWith (fun d i => if d = 1 then 0 else i) shape middle := by
    rw [readFrom, List.append_assoc, List.drop_left, ← List.append_nil shape,
      List.zipWith_append hmiddle, List.zipWith_nil_left, List.append_nil, List.append_nil]
  have hdrop : (front ++ middle ++ back).length
      - (List.replicate front.length 1 ++ shape ++ List.replicate back.length 1).length = 0 := by
    simp only [List.length_append, List.length_replicate, hmiddle, Nat.sub_self]
  rw [hread, project, hdrop, List.drop_zero, List.zipWith_append (by simp [hmiddle]),
    List.zipWith_append (by simp), zipWith_ones, zipWith_ones]

-- ================================================================= fitting

/-- Every dimension of a shape is one, or the dimension of the other shape at
which it is put. -/
def FitsAt (start : Nat) (lhs rhs : Shape) : Prop :=
  ∀ (j d : Nat), rhs[j]? = some d → d = 1 ∨ lhs[start + j]? = some d

theorem stretch?_eq_left {a b : Nat} (h : b = 1 ∨ b = a) : stretch? a b = some a := by
  unfold stretch?
  grind

theorem stretchAll?_eq_left (h : List.Forall₂ (fun a b => b = 1 ∨ b = a) lhs rhs) :
    stretchAll? lhs rhs = some lhs := by
  induction h with
  | nil => rfl
  | cons hdim _ ih =>
      rw [stretchAll?, stretch?_eq_left hdim, ih]
      rfl

/-- What fits into the left shape is stretched to it. -/
theorem broadcast?_around (h : FitsAt before lhs rhs) (hrank : lhs.length = before + rhs.length + after) :
    broadcast? lhs (List.replicate before 1 ++ rhs ++ List.replicate after 1) = some lhs := by
  have hlength : lhs.length = (List.replicate before 1 ++ rhs ++ List.replicate after 1).length := by
    simp [hrank, Nat.add_assoc]
  rw [broadcast?_of_length_eq hlength]
  refine stretchAll?_eq_left (OnnxLowering.forall₂_of_getElem? hlength fun i a b ha hb => ?_)
  by_cases hbefore : i < before
  · rw [List.append_assoc, List.getElem?_append_left (by simpa using hbefore)] at hb
    exact .inl (List.eq_of_mem_replicate (List.mem_of_getElem? hb))
  · by_cases hown : i < before + rhs.length
    · rw [List.getElem?_append_left (by simpa using hown),
        List.getElem?_append_right (by simpa using hbefore), List.length_replicate] at hb
      have hdim := h _ _ hb
      rw [Nat.add_sub_cancel' (Nat.not_lt.1 hbefore), ha] at hdim
      exact hdim.imp_right fun hsame => (Option.some.inj hsame).symm
    · rw [List.getElem?_append_right (by simpa using Nat.not_lt.1 hown)] at hb
      exact .inl (List.eq_of_mem_replicate (List.mem_of_getElem? hb))

theorem infer?_known (shape : Shape) : infer? (size shape) (shape.map some) = some shape := by
  have hknown : (shape.map some).filterMap id = shape := by
    rw [List.filterMap_map, Function.id_comp, List.filterMap_some]
  have hopen : ((shape.map some).filter Option.isNone).length = 0 := by
    rw [List.filter_map]
    simp
  rw [infer?, hknown, hopen]
  exact if_pos rfl

end Shape

namespace Tensor

variable {lhs rhs t : Tensor}

-- =============================================================== alignment

/-- The tensor with dimensions of size one before and after its own. -/
def around (t : Tensor) (before after : Nat) : Tensor where
  dtype := t.dtype
  shape := List.replicate before 1 ++ t.shape ++ List.replicate after 1
  data := t.data
  size_data := t.size_data.trans (Shape.size_around t.shape before after).symm

theorem get_around {before after : Nat} {js : List Nat} (hjs : js.length = t.shape.length) :
    (t.around before after).get (List.replicate before 0 ++ js ++ List.replicate after 0) = t.get js := by
  rw [get, get, around, Shape.offset_around hjs]

/-- The dimension of the left operand at which the right one is put. -/
def alignStart (lhsRank rhsRank : Nat) : Option Int → Int
  | none => lhsRank - rhsRank
  | some axis => if axis < 0 then axis + lhsRank else axis

theorem reshape_around (t : Tensor) (before after : Nat) :
    t.reshape ((List.replicate before 1 ++ t.shape ++ List.replicate after 1).map some)
      = .ok (t.around before after) := by
  have hsize : t.data.size = Shape.size (List.replicate before 1 ++ t.shape ++ List.replicate after 1) :=
    (t.around before after).size_data
  rw [reshape, hsize, Shape.infer?_known, Option.bind_some, withShape?, dif_pos hsize]
  rfl

/-- A tensor can be put at dimensions of another one if there are enough of
them. -/
theorem align_eq_ok {axis : Option Int} :
    lhs.align rhs axis = .ok t ↔ ∃ before after : Nat,
      alignStart lhs.rank rhs.rank axis = before ∧ lhs.rank = before + rhs.rank + after
        ∧ t = rhs.around before after := by
  have halign : lhs.align rhs axis =
      (let start := alignStart lhs.rank rhs.rank axis
      let trailing : Int := lhs.rank - start - rhs.rank
      if start < 0 || trailing < 0 then throw (.misaligned rhs.rank lhs.rank start)
      else rhs.reshape ((List.replicate start.toNat 1 ++ rhs.shape
        ++ List.replicate trailing.toNat 1).map some)) := by cases axis <;> rfl
  rw [halign]
  generalize alignStart lhs.rank rhs.rank axis = start
  simp only [reshape_around, Bool.or_eq_true, decide_eq_true_eq]
  by_cases hout : start < 0 ∨ (lhs.rank : Int) - start - rhs.rank < 0
  · rw [if_pos hout]
    exact ⟨fun h => (nomatch h), fun ⟨_, _, hstart, hrank, _⟩ => by omega⟩
  · rw [if_neg hout]
    constructor
    · intro h
      exact ⟨_, _, by omega, by omega, (Except.ok.inj h).symm⟩
    · rintro ⟨before, after, rfl, hrank, rfl⟩
      rw [Int.toNat_natCast, show ((lhs.rank : Int) - before - rhs.rank).toNat = after by omega]

end Tensor

-- =============================================================== operations

/-- The elementwise operations whose right operand may be aligned. -/
inductive Arithmetic where
  | sum
  | product
deriving DecidableEq, Repr

namespace Arithmetic

/-- The operation on two tensors. -/
def on : Arithmetic → Tensor → Tensor → Except RunError Tensor
  | sum => Tensor.add
  | product => Tensor.multiply

/-- The type of the result for operands of one rank. There are no sums of
storage-only types. -/
def type? (arithmetic : Arithmetic) (a b : DType) : Option DType :=
  (a.promote b).filter fun dtype => arithmetic = product || !dtype.isStorageOnly

/-- The element of the result, of type `dtype`, for two elements of the
operands. -/
def element (arithmetic : Arithmetic) (dtype : DType) (lhs rhs : Tensor) (x y : Nat) : Nat :=
  match arithmetic with
  | sum => Element.add dtype (Element.cast lhs.dtype dtype x) (Element.cast rhs.dtype dtype y)
  | product =>
      Tensor.multiplyElement dtype (Tensor.factorType dtype rhs) (Element.cast lhs.dtype dtype x)
        (Element.cast rhs.dtype (Tensor.factorType dtype rhs) y)

variable {arithmetic : Arithmetic} {lhs rhs t : Tensor}

/-- Operands of one rank have a common type that depends on their types
only. -/
theorem commonType_eq_ok (hrank : lhs.rank = rhs.rank) {dtype : DType} :
    Tensor.commonType lhs rhs = .ok dtype ↔ lhs.dtype.promote rhs.dtype = some dtype := by
  have hcommon : Tensor.commonType lhs rhs
      = (lhs.dtype.promote rhs.dtype).elim (.error .typeMismatch) .ok := by
    unfold Tensor.rank at hrank
    unfold Tensor.commonType
    revert hrank
    cases lhs.shape <;> cases rhs.shape <;> intro hrank
    · cases lhs.dtype.promote rhs.dtype <;> rfl
    · cases hrank
    · cases hrank
    · cases lhs.dtype.promote rhs.dtype <;> rfl
  rw [hcommon]
  cases lhs.dtype.promote rhs.dtype with
  | none => exact ⟨fun h => (nomatch h), fun h => (nomatch h)⟩
  | some found => exact ⟨fun h => congrArg some (Except.ok.inj h), fun h => congrArg _ (Option.some.inj h)⟩

theorem type?_eq_some {a b dtype : DType} : arithmetic.type? a b = some dtype
    ↔ a.promote b = some dtype ∧ (arithmetic = product ∨ dtype.isStorageOnly = false) := by
  unfold type?
  rw [Option.filter_eq_some_iff, Bool.or_eq_true, decide_eq_true_eq, Bool.not_eq_true']

/-- Operands of one rank are combined element by element. -/
theorem on_eq_ok (hrank : lhs.rank = rhs.rank) :
    arithmetic.on lhs rhs = .ok t ↔ ∃ dtype, arithmetic.type? lhs.dtype rhs.dtype = some dtype
      ∧ Tensor.zipWith dtype (arithmetic.element dtype lhs rhs) lhs rhs = .ok t := by
  simp only [type?_eq_some, ← commonType_eq_ok hrank]
  cases arithmetic with
  | sum =>
      show lhs.add rhs = .ok t ↔ _
      rw [Tensor.add_eq_ok]
      refine exists_congr fun dtype => ?_
      constructor
      · rintro ⟨hdtype, hsum, hstorage⟩
        exact ⟨⟨hdtype, .inr hstorage⟩, hsum⟩
      · rintro ⟨⟨hdtype, hstorage⟩, hsum⟩
        exact ⟨hdtype, hsum, hstorage.resolve_left nofun⟩
  | product =>
      show lhs.multiply rhs = .ok t ↔ _
      unfold Tensor.multiply
      rw [Except.bind_eq_ok]
      exact exists_congr fun dtype => and_congr_left fun _ => (and_iff_left (.inl rfl)).symm

/-- A right operand that fits is read at the positions in its own
dimensions. -/
theorem on_around {before after : Nat} (hfits : Shape.FitsAt before lhs.shape rhs.shape)
    (hrank : lhs.rank = before + rhs.rank + after) :
    arithmetic.on lhs (rhs.around before after) = .ok t
      ↔ ∃ dtype, arithmetic.type? lhs.dtype rhs.dtype = some dtype
        ∧ t = .ofFn dtype lhs.shape fun is => arithmetic.element dtype lhs rhs (lhs.get is)
            (rhs.get (Shape.readFrom before rhs.shape is)) := by
  have hsame : lhs.rank = (rhs.around before after).rank := by
    show _ = (List.replicate before 1 ++ rhs.shape ++ List.replicate after 1).length
    rw [List.length_append, List.length_append, List.length_replicate, List.length_replicate]
    exact hrank
  rw [on_eq_ok hsame]
  refine exists_congr fun dtype => and_congr_right fun _ => ?_
  have hcombined : Tensor.zipWith dtype (arithmetic.element dtype lhs (rhs.around before after)) lhs
        (rhs.around before after)
      = .ok (.ofFn dtype lhs.shape fun is => arithmetic.element dtype lhs rhs (lhs.get is)
          (rhs.get (Shape.readFrom before rhs.shape is))) := by
    unfold Tensor.zipWith
    rw [show Shape.broadcast? lhs.shape (rhs.around before after).shape = some lhs.shape from
      Shape.broadcast?_around hfits hrank]
    refine congrArg Except.ok (Tensor.ofFn_congr rfl fun is his => ?_)
    have hlength : is.length = before + rhs.shape.length + after := his.length_eq.trans hrank
    rw [Shape.project_self his, show Shape.project (rhs.around before after).shape is = _ from
      Shape.project_around hlength, Tensor.get_around (Shape.length_readFrom (by omega))]
    rfl
  rw [hcombined, Except.ok.injEq, eq_comm]

end Arithmetic

end OnnxLowering
