/-
Tensors. A tensor has an element type, a shape, and the bit patterns of
its elements in row-major order. All operations read it through one
view, `get`, and build it through one constructor, `ofFn`; `get_ofFn`
says that these fit together, and `ext_get` that a tensor is determined
by its type, its shape and its elements.
-/
import OnnxLowering.Element
import OnnxLowering.RunError
import OnnxLowering.Shape

namespace OnnxLowering

structure Tensor where
  dtype : DType
  shape : Shape
  data : Array Nat
  size_data : data.size = shape.size
deriving DecidableEq, Repr

namespace Tensor

/-- The number of dimensions. -/
def rank (t : Tensor) : Nat := t.shape.length

/-- The tensor with the given element at every index tuple. -/
def ofFn (dtype : DType) (shape : Shape) (element : List Nat → Nat) : Tensor where
  dtype := dtype
  shape := shape
  data := ((List.range shape.size).map fun n => element (shape.index n)).toArray
  size_data := by simp

/-- The element at an index tuple; zero outside the bounds. -/
def get (t : Tensor) (is : List Nat) : Nat := t.data[t.shape.offset is]?.getD 0

instance : Inhabited Tensor := ⟨ofFn .float32 [] fun _ => 0⟩

@[simp] theorem dtype_ofFn (dtype : DType) (shape : Shape) (element : List Nat → Nat) :
    (ofFn dtype shape element).dtype = dtype := rfl

@[simp] theorem shape_ofFn (dtype : DType) (shape : Shape) (element : List Nat → Nat) :
    (ofFn dtype shape element).shape = shape := rfl

/-- A tensor holds in bounds what it was built from. -/
theorem get_ofFn {dtype : DType} {shape : Shape} {element : List Nat → Nat}
    {is : List Nat} (h : shape.InBounds is) :
    (ofFn dtype shape element).get is = element is := by
  have hlt := Shape.offset_lt_size h
  simp [get, ofFn, List.getElem?_range hlt, Shape.index_offset h]

/-- Tensors of one type and shape with the same elements are equal. -/
theorem ext_get {a b : Tensor} (hdtype : a.dtype = b.dtype) (hshape : a.shape = b.shape)
    (hget : ∀ is, a.shape.InBounds is → a.get is = b.get is) : a = b := by
  obtain ⟨dtype, shape, data, hdata⟩ := a
  obtain ⟨dtype', shape', data', hdata'⟩ := b
  simp only at hdtype hshape hget
  subst hdtype hshape
  congr 1
  refine Array.ext (hdata.trans hdata'.symm) fun n hn hn' => ?_
  have hsize : n < Shape.size shape := hdata ▸ hn
  have := hget _ (Shape.inBounds_index hsize)
  simpa [get, Shape.offset_index hsize, hn, hn'] using this

-- ============================================================ construction

/-- The same elements in a shape of the same size. -/
def withShape? (t : Tensor) (shape : Shape) : Option Tensor :=
  if h : t.data.size = shape.size then some ⟨t.dtype, shape, t.data, h⟩ else none

/-- A tensor from its elements in row-major order. -/
def ofData? (dtype : DType) (shape : Shape) (data : List Nat) : Option Tensor :=
  if h : data.toArray.size = shape.size then some ⟨dtype, shape, data.toArray, h⟩ else none

/-- A tensor without dimensions. -/
def scalar (dtype : DType) (element : Nat) : Tensor := ⟨dtype, [], #[element], rfl⟩

/-- A tensor of one dimension. -/
def vector (dtype : DType) (data : List Nat) : Tensor :=
  ⟨dtype, [data.length], data.toArray, by simp [Shape.size]⟩

/-- The tensor with every element cast to another type. -/
def cast (t : Tensor) (dtype : DType) : Tensor :=
  ofFn dtype t.shape fun is => Element.cast t.dtype dtype (t.get is)

/-- The dimension that a possibly negative axis of a tensor of the given
rank means. -/
def resolveAxis (rank : Nat) (axis : Int) : Except RunError Nat :=
  if -rank ≤ axis && axis < rank then
    .ok (if axis < 0 then axis + rank else axis).toNat
  else .error .axisOutOfRange

/-- The size along a possibly negative axis. -/
def sizeAlong (t : Tensor) (axis : Int) : Except RunError Nat :=
  (resolveAxis t.rank axis).map (t.shape.getD · 0)

end Tensor

end OnnxLowering
