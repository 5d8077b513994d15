/-
Tensor types. Of a value in a graph it may be known what its elements
are, of what rank it is, and how large some of its dimensions are. Two
pieces of such knowledge can contradict each other; if they do not, the
one declared is completed by the one inferred.
-/
import OnnxLowering.Graph.Basic

namespace OnnxLowering

-- ================================================================ dimensions

namespace Dim

/-- A declared dimension, completed by an inferred one that does not
contradict it: known sizes come before symbols. -/
def complete : Dim → Dim → Dim
  | _, value b => value b
  | unknown, inferred => inferred
  | declared, _ => declared

/-- Whether two dimensions are known to differ. -/
def conflict? : Dim → Dim → Option (Int × Int)
  | value a, value b => if a = b then none else some (a, b)
  | _, _ => none

/-- A dimension completed by another one, unless they contradict each
other. -/
def refine? (declared inferred : Dim) : Option Dim :=
  if (conflict? declared inferred).isSome then none else some (complete declared inferred)

/-- Completes a shape by another one of the same rank. -/
def refineAll? : List Dim → List Dim → Option (List Dim)
  | [], [] => some []
  | a :: as, b :: bs => do return (← refine? a b) :: (← refineAll? as bs)
  | _, _ => none

/-- What some dimensions, which are all the same, are known to be. -/
def same? (dims : List Dim) : Option Dim := dims.foldlM refine? .unknown

/-- The dimension of two operands that are stretched to each other.
Where one is known to be larger than one, the other is taken to fit. -/
def stretch? : Dim → Dim → Option Dim
  | value a, value b =>
      if a = 1 then some (value b) else if b = 1 || a = b then some (value a) else none
  | value a, d => some (if a = 1 then d else value a)
  | d, value b => some (if b = 1 then d else value b)
  | a, b => some (if a = b then a else unknown)

/-- Stretches shapes whose dimensions are given from the last one on. -/
def stretchReversed? : List Dim → List Dim → Option (List Dim)
  | [], bs => some bs
  | as, [] => some as
  | a :: as, b :: bs => do return (← stretch? a b) :: (← stretchReversed? as bs)

/-- Stretches shapes to each other. -/
def stretchAll? (as bs : List Dim) : Option (List Dim) :=
  (stretchReversed? as.reverse bs.reverse).map List.reverse

/-- The dimension that a possibly negative axis means. -/
def axis? (axis : Int) (rank : Nat) : Option Nat :=
  if -(rank : Int) ≤ axis && axis < rank then
    some (if axis < 0 then axis + rank else axis).toNat
  else none

end Dim

-- ===================================================================== types

/-- What is known of a tensor: the code of its element type, zero if
there is none, and its shape if the rank is known. -/
structure TensorType where
  elementCode : Int := 0
  shape : Option (List Dim) := none
deriving DecidableEq, Repr, Inhabited

/-- How an inferred type contradicts the one that is there already. The
inferred side comes first. -/
inductive TypeConflict where
  | elements (inferred existing : Int)
  | ranks (inferred existing : Nat)
  | sizes (index : Nat) (inferred existing : Int)
deriving DecidableEq, Repr

def TypeConflict.message : TypeConflict → String
  | elements inferred existing =>
      s!"[TypeInferenceError] Inferred elem type differs from existing elem type: "
        ++ s!"({inferred}) vs ({existing})"
  | ranks inferred existing =>
      s!"[ShapeInferenceError] Inferred shape and existing shape differ in rank: "
        ++ s!"({inferred}) vs ({existing})"
  | sizes index inferred existing =>
      s!"[ShapeInferenceError] Inferred shape and existing shape differ in dimension {index}: "
        ++ s!"({inferred}) vs ({existing})"

namespace TensorType

/-- The first dimension in which shapes of the same rank contradict each
other. -/
def sizeConflict? (inferred existing : List Dim) : Option TypeConflict :=
  (inferred.zip existing).zipIdx.findSome? fun ((a, b), index) =>
    (Dim.conflict? a b).map fun (a, b) => .sizes index a b

/-- How an inferred type contradicts an existing one, if it does: the
element types are compared first, then the ranks, then the sizes. -/
def conflict? (inferred existing : TensorType) : Option TypeConflict :=
  if inferred.elementCode ≠ 0 && existing.elementCode ≠ 0
      && inferred.elementCode ≠ existing.elementCode then
    some (.elements inferred.elementCode existing.elementCode)
  else
    match inferred.shape, existing.shape with
    | some a, some b =>
        if a.length = b.length then sizeConflict? a b
        else some (.ranks a.length b.length)
    | _, _ => none

/-- An existing type, completed by an inferred one that does not
contradict it. -/
def complete (existing inferred : TensorType) : TensorType where
  elementCode := if existing.elementCode = 0 then inferred.elementCode else existing.elementCode
  shape :=
    match existing.shape, inferred.shape with
    | some a, some b => some (List.zipWith Dim.complete a b)
    | some a, none => some a
    | none, b => b

/-- Completes a type, or says how the inferred one contradicts it. -/
def refine (existing inferred : TensorType) : Except TypeConflict TensorType :=
  match inferred.conflict? existing with
  | some conflict => .error conflict
  | none => .ok (existing.complete inferred)

end TensorType

-- ============================================================== declarations

/-- The declared type of a value; a value can be declared without. -/
def ValueInfo.type? (info : ValueInfo) : Option TensorType :=
  if info.elementCode = 0 && info.shape.isNone then none
  else some { elementCode := info.elementCode, shape := info.shape }

def ValueInfo.setType (info : ValueInfo) (type : TensorType) : ValueInfo :=
  { info with elementCode := type.elementCode, shape := type.shape }

def Payload.type (payload : Payload) : TensorType where
  elementCode := payload.elementCode
  shape := some (payload.dims.map .value)

end OnnxLowering
