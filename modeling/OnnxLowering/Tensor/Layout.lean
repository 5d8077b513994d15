/-
Operations that move elements without computing on them: reshaping,
adding and dropping dimensions of size one, taking a slice, joining
slices, writing at positions given by another tensor, and aligning a
tensor with some of another one's dimensions.
-/
import OnnxLowering.Tensor.Basic

namespace OnnxLowering.Tensor

-- ============================================================== dimensions

/-- The same elements in another shape, one dimension of which may be
left open. -/
def reshape (t : Tensor) (dims : List (Option Nat)) : Except RunError Tensor :=
  match (Shape.infer? t.data.size dims).bind t.withShape? with
  | some t => .ok t
  | none => .error .sizeMismatch

/-- A new dimension of size one, so that it becomes the one at
`axis`. -/
def unsqueeze (t : Tensor) (axis : Int) : Except RunError Tensor := do
  unless Shape.isWord axis do throw .hugeInteger
  let axis ← resolveAxis (t.rank + 1) axis
  return ofFn t.dtype (t.shape.insertIdx axis 1) fun is => t.get (is.eraseIdx axis)

/-- The dimension at `axis` dropped, if its size is one. A tensor without
dimensions has nothing to drop at either of the axes next to it. -/
def squeeze (t : Tensor) (axis : Int) : Except RunError Tensor := do
  unless Shape.isWord axis do throw .hugeInteger
  let axis ← resolveAxis (max t.rank 1) axis
  if t.shape[axis]? = some 1 then
    return ofFn t.dtype (t.shape.eraseIdx axis) fun is => t.get (is.insertIdx axis 0)
  else return t

-- ================================================================== slices

/-- The slice of `length` consecutive positions from `start` on. A
negative start counts from the end, and the end itself is a start too,
of the empty slice. -/
def narrow (t : Tensor) (axis start : Int) (length : Nat) : Except RunError Tensor := do
  unless Shape.isWord axis && Shape.isWord start && Shape.isWord length do
    throw .hugeInteger
  let axis ← resolveAxis t.rank axis
  let size := t.shape.getD axis 0
  unless -size ≤ start && start ≤ size do throw .indexOutOfRange
  let start := (if start < 0 then start + size else start).toNat
  unless start + length ≤ size do throw .sizeMismatch
  return ofFn t.dtype (t.shape.set axis length) fun is => t.get (is.modify axis (start + ·))

/-- The part that position `i` of a row of parts falls into, and its
position there. -/
def pickPart (axis : Nat) : List Tensor → Nat → Option (Tensor × Nat)
  | [], _ => none
  | part :: rest, i =>
      let size := part.shape.getD axis 0
      if i < size then some (part, i) else pickPart axis rest (i - size)

/-- The parts one after the other along an existing dimension; they
agree in type and in all other dimensions. -/
def joinAligned (dtype : DType) (shape : Shape) (axis : Nat) (parts : List Tensor) :
    Tensor :=
  let size := (parts.map fun part => part.shape.getD axis 0).foldr (· + ·) 0
  ofFn dtype (shape.set axis size) fun is =>
    match pickPart axis parts (is.getD axis 0) with
    | some (part, i) => part.get (is.set axis i)
    | none => 0

/-- The type that the parts of a join have in common. -/
def joinType (first : Tensor) (rest : List Tensor) : Except RunError DType :=
  rest.foldlM
    (fun dtype part =>
      match dtype.promote part.dtype with
      | some dtype => .ok dtype
      | none => .error .typeMismatch)
    first.dtype

/-- The parts one after the other along an axis, cast to their common
type. Empty vectors have no say in the shape; the other parts agree in
all dimensions but the joined one. -/
def join (parts : List Tensor) (axis : Int) : Except RunError Tensor := do
  unless Shape.isWord axis do throw .hugeInteger
  match parts with
  | [] => throw .sizeMismatch
  | first :: rest =>
      unless parts.all (·.rank ≠ 0) do throw .sizeMismatch
      match parts.filter (·.shape ≠ [0]) with
      | [] => return ofFn (← joinType first rest) [0] fun _ => 0
      | leading :: others =>
          let axis ← resolveAxis leading.rank axis
          let dtype ← joinType first rest
          unless others.all (fun part =>
              part.rank = leading.rank && part.shape.set axis 0 = leading.shape.set axis 0) do
            throw .sizeMismatch
          return joinAligned dtype leading.shape axis ((leading :: others).map (·.cast dtype))

-- ================================================================= writing

/-- The position that an index element means in a dimension; a negative
one counts from the end. -/
def resolveIndex (size : Nat) (i : Int) : Except RunError Nat :=
  if -size ≤ i && i < size then .ok (if i < 0 then i + size else i).toNat
  else .error .indexOutOfRange

/-- The last row of `places` that equals `place`. -/
def lastRow? (places : List (List Nat)) (place : List Nat) : Option Nat :=
  (List.range places.length).reverse.find? fun row => places[row]? = some place

/-- The positions that the rows of an index matrix of `depth` columns
address in a tensor of the given shape. Indices are integers of 64
bits. -/
def places (shape : Shape) (rows : Tensor) (count depth : Nat) :
    Except RunError (List (List Nat)) :=
  (List.range count).mapM fun row =>
    (List.range depth).mapM fun column =>
      resolveIndex (shape.getD column 0)
        (Int.bmod (Element.toInt rows.dtype (rows.get [row, column])) 0x10000000000000000)

/-- `data` with the slices that the rows of `indices` address replaced
by those of `updates`. The last dimension of `indices` holds the
components of an index, all dimensions before it number the rows, and
the updates have one slice per row, or a single one for all. A later row
wins over an earlier one. Nothing is written into storage-only
types. -/
def scatter (data indices updates : Tensor) : Except RunError Tensor := do
  let depth ← indices.sizeAlong (-1)
  let rows ← indices.reshape [none, some depth]
  let slots ← updates.reshape (none :: (data.shape.drop depth).map some)
  if data.rank < depth then throw .indexOutOfRange
  let count := rows.shape.getD 0 0
  if 0 < count && (data.shape.take depth).contains 0 then throw .indexOutOfRange
  let slotCount := slots.shape.getD 0 0
  unless slotCount = count || slotCount = 1 do throw .sizeMismatch
  unless slots.dtype = data.dtype do throw .typeMismatch
  if data.dtype.isStorageOnly then throw .noArithmetic
  let places ← places data.shape rows count depth
  return ofFn data.dtype data.shape fun is =>
    match lastRow? places (is.take depth) with
    | some row => slots.get ((if slotCount = 1 then 0 else row) :: is.drop depth)
    | none => data.get is

-- =============================================================== alignment

/-- `rhs` with dimensions of size one put around its own, so that they
stand at the dimensions of `lhs` from `axis` on; without an axis, at the
last ones. -/
def align (lhs rhs : Tensor) (axis : Option Int) : Except RunError Tensor := do
  let start : Int :=
    match axis with
    | none => lhs.rank - rhs.rank
    | some axis => if axis < 0 then axis + lhs.rank else axis
  let trailing : Int := lhs.rank - start - rhs.rank
  if start < 0 || trailing < 0 then throw (.misaligned rhs.rank lhs.rank start)
  rhs.reshape ((List.replicate start.toNat 1 ++ rhs.shape
    ++ List.replicate trailing.toNat 1).map some)

end OnnxLowering.Tensor
