/-
Constants, aliases, elementwise arithmetic and writing by index.

Up to version 6 of the operator set, sums and products stretch their
operands only if the node says so, and then the right operand is put at
given dimensions of the left one. From version 7 on both operands are
stretched as they are.
-/
import OnnxLowering.Lowering.Value

namespace OnnxLowering

/-- The dimension that an axis means, for a rank known in advance. -/
def normalizeAxis (description : String) (axis rank : Int) :
    Except LowerError Int :=
  if -rank ≤ axis && axis < rank then .ok (if axis < 0 then axis + rank else axis)
  else .error (.invalidNode description (.axis axis rank))

namespace Handler

open Lower

-- =============================================================== constants

/-- The tensor of a constant, from the first of its attributes that is
there. -/
def constantTensor (values : Attributes) : Except LowerError Tensor :=
  let argument {α : Type} : Except AttributeError α → Except LowerError α :=
    Except.mapError .argument
  match values.find? "value", values.find? "value_float", values.find? "value_floats",
      values.find? "value_int", values.find? "value_ints" with
  | some (.tensor payload), _, _, _, _ => payload.toTensor.mapError .payload
  | some _, _, _, _, _ => .error .valueNotTensor
  | none, some value, _, _, _ => argument value.toFloatTensor
  | none, none, some value, _, _ => argument value.toFloatTensor
  | none, none, none, some value, _ => argument value.toIntTensor
  | none, none, none, none, some value => argument value.toIntTensor
  | none, none, none, none, none => .error .missingConstant

def constant : Handler := fun node => do
  let tensor ← ofExcept id (constantTensor (← attributes node))
  return .one (← Lower.constant node tensor (node.outputs.headD node.name) (some false))

/-- A new name for the same value. -/
def identity : Handler := fun node => return .one (← input node 0)

-- ============================================================== arithmetic

def binary (op : Op) : Handler := fun node => do
  let lhs ← input node 0
  let rhs ← input node 1
  return .one (← apply node op [lhs, rhs] 0)

/-- The axis of an aligned operation. It is checked and made positive as
soon as the rank of the left operand is known. -/
def alignmentAxis (node : NodeOf Importer) (values : Attributes) : Lower (Option Int) := do
  match values.find? "axis" with
  | none => return none
  | some value =>
      let axis ← ofExcept .argument value.toInt
      match ← shape (← inputName node 0) with
      | none => return some axis
      | some dims => return some (← ofExcept id (normalizeAxis node.describe axis dims.length))

def alignedBinary (op : Op) : Handler := fun node => do
  let values ← attributes node
  let lhs ← input node 0
  let rhs ← input node 1
  let aligned ← match values.find? "broadcast" with
    | none => pure 0
    | some value => ofExcept .argument value.toInt
  if aligned = 0 then return .one (← apply node op [lhs, rhs] 0)
  let axis ← alignmentAxis node values
  let placed ← apply node (.align axis) [lhs, rhs] 0
  return .one (← apply node op [lhs, placed] 0)

def sqrt : Handler := fun node => do
  return .one (← apply node .sqrt [← input node 0] 0)

-- ================================================================== writing

/-- Later rows replace earlier ones; any other way of combining them is
refused. -/
def scatter : Handler := fun node => do
  let values ← attributes node
  match values.find? "reduction" with
  | none => pure ()
  | some value =>
      unless value = .text "none" do invalid node (.reduction value.render)
  let data ← input node 0
  let indices ← input node 1
  let updates ← input node 2
  return .one (← apply node .scatter [data, indices, updates] 0)

end Handler

end OnnxLowering
