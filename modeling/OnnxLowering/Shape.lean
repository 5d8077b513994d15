/-
Shapes and index tuples. A shape lists the sizes of a tensor's
dimensions, and its elements stand in row-major order: `offset` is the
place of an index tuple in that order, `index` the tuple at a place.
The two are inverse to each other between the tuples in bounds and the
places below `size`.
-/
namespace OnnxLowering

abbrev Shape := List Nat

namespace Shape

/-- The number of elements. -/
def size : Shape → Nat
  | [] => 1
  | d :: ds => d * size ds

/-- An index for every dimension, each below its size. -/
def InBounds : Shape → List Nat → Prop
  | [], [] => True
  | d :: ds, i :: is => i < d ∧ InBounds ds is
  | _, _ => False

/-- The place of an index tuple in row-major order. -/
def offset : Shape → List Nat → Nat
  | _ :: ds, i :: is => i * size ds + offset ds is
  | _, _ => 0

/-- The index tuple at a place in row-major order. -/
def index : Shape → Nat → List Nat
  | [], _ => []
  | _ :: ds, n => n / size ds :: index ds (n % size ds)

theorem offset_lt_size {shape : Shape} {is : List Nat} (h : shape.InBounds is) :
    shape.offset is < shape.size := by
  induction shape generalizing is with
  | nil => simp [offset, size]
  | cons d ds ih =>
      cases is with
      | nil => exact h.elim
      | cons i is =>
          have hrest := ih h.2
          have hstep : (i + 1) * size ds ≤ d * size ds := Nat.mul_le_mul_right _ h.1
          rw [Nat.add_mul, Nat.one_mul] at hstep
          simp only [offset, size]
          omega

theorem index_offset {shape : Shape} {is : List Nat} (h : shape.InBounds is) :
    shape.index (shape.offset is) = is := by
  induction shape generalizing is with
  | nil => cases is with
      | nil => rfl
      | cons _ _ => exact h.elim
  | cons d ds ih =>
      cases is with
      | nil => exact h.elim
      | cons i is =>
          have hlt := offset_lt_size h.2
          have hpos : 0 < size ds := Nat.lt_of_le_of_lt (Nat.zero_le _) hlt
          simp only [offset, index]
          rw [Nat.add_comm, Nat.add_mul_div_right _ _ hpos, Nat.div_eq_of_lt hlt,
            Nat.zero_add, Nat.add_mul_mod_self_right, Nat.mod_eq_of_lt hlt, ih h.2]

theorem inBounds_index {shape : Shape} {n : Nat} (h : n < shape.size) :
    shape.InBounds (shape.index n) := by
  induction shape generalizing n with
  | nil => trivial
  | cons d ds ih =>
      have hpos : 0 < size ds := by
        refine Nat.pos_of_ne_zero fun hzero => ?_
        rw [size, hzero, Nat.mul_zero] at h
        exact Nat.not_lt_zero _ h
      exact ⟨(Nat.div_lt_iff_lt_mul hpos).2 h, ih (Nat.mod_lt _ hpos)⟩

theorem offset_index {shape : Shape} {n : Nat} (h : n < shape.size) :
    shape.offset (shape.index n) = n := by
  induction shape generalizing n with
  | nil =>
      simp only [size] at h
      simp only [offset]
      omega
  | cons d ds ih =>
      have hpos : 0 < size ds := by
        refine Nat.pos_of_ne_zero fun hzero => ?_
        rw [size, hzero, Nat.mul_zero] at h
        exact Nat.not_lt_zero _ h
      rw [index, offset, ih (Nat.mod_lt _ hpos), Nat.mul_comm, Nat.div_add_mod]

-- =========================================================== broadcasting

/-- The common size of two dimensions: equal sizes agree, and size one
stretches to any other. -/
def stretch? (a b : Nat) : Option Nat :=
  if a = b then some a
  else if a = 1 then some b
  else if b = 1 then some a
  else none

/-- Common sizes, first dimensions paired with first. -/
def stretchAll? : List Nat → List Nat → Option (List Nat)
  | [], bs => some bs
  | as, [] => some as
  | a :: as, b :: bs => do return (← stretch? a b) :: (← stretchAll? as bs)

/-- The common shape of two operands, whose last dimensions are paired;
the missing dimensions of the shorter shape count as size one. -/
def broadcast? (a b : Shape) : Option Shape :=
  (stretchAll? a.reverse b.reverse).map List.reverse

/-- Where an operand of the given shape is read for an index tuple of
the common shape: leading indices that it has no dimension for are
dropped, and a stretched dimension is read at zero. -/
def project (shape : Shape) (is : List Nat) : List Nat :=
  List.zipWith (fun d i => if d = 1 then 0 else i) shape
    (is.drop (is.length - shape.length))

-- ============================================================== reshaping

/-- The shape with the given dimensions and number of elements. At most
one dimension may be left open, and then only if the others determine
it. -/
def infer? (count : Nat) (dims : List (Option Nat)) : Option Shape :=
  let known := size (dims.filterMap id)
  match (dims.filter Option.isNone).length with
  | 0 => if known = count then some (dims.filterMap id) else none
  | 1 =>
      if known = 0 || count % known ≠ 0 then none
      else some (dims.map (·.getD (count / known)))
  | _ => none

-- ================================================================= limits

/-- Whether an integer has 64 bits, as all sizes and positions do. -/
def isWord (i : Int) : Bool := -0x8000000000000000 ≤ i && i < 0x8000000000000000

/-- The bytes that no tensor reaches. -/
def storageLimit : Nat := 0x400000000

/-- Whether the sizes, multiplied one after the other onto `size`, stay
below `2 ^ 64` all the way. -/
def multiplies (size : Nat) : Shape → Bool
  | [] => size < 0x10000000000000000
  | d :: ds => size < 0x10000000000000000 && multiplies (size * d) ds

/-- Whether there can be a tensor of a shape, with elements of a number of
bytes. A size of zero does not make up for one before it that is too
large. -/
def isStorable (shape : Shape) (bytes : Nat) : Bool :=
  multiplies 1 shape && shape.size * bytes < storageLimit

end Shape

end OnnxLowering
