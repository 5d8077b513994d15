/-
The wiring of a loop. Every argument of the body is sliced from an input
of the loop, or carried from one iteration to the next, or shared by all
iterations; every output of the loop is the last value of an output of
the body, or its values joined.

Indices are positions in lists and count from the end if they are
negative, as do the two ends of a slicing rule.
-/
import OnnxLowering.RunError

namespace OnnxLowering

/-- How an axis is walked: parts of `partSize` positions, `stride` apart,
from position `start` to position `stop`, both included. A negative
stride walks backwards. -/
structure Slicing where
  start : Int
  stride : Int
  partSize : Int
  stop : Int
  axis : Int
deriving DecidableEq, Repr

/-- An argument of the body that gets a part of an input at every
iteration. -/
structure SlicedInput where
  bodyIndex : Int
  inputIndex : Int
  slicing : Slicing
deriving DecidableEq, Repr

/-- An argument of the body that starts as an input and then is an output
of the body's last run. -/
structure CarriedInput where
  bodyIndex : Int
  inputIndex : Int
  outputIndex : Int
deriving DecidableEq, Repr

/-- An argument of the body that is the same input at every iteration. -/
structure SharedInput where
  bodyIndex : Int
  inputIndex : Int
deriving DecidableEq, Repr

/-- An output of the loop. -/
inductive LoopOutput where
  | last (outputIndex : Int)
  | joined (outputIndex : Int) (slicing : Slicing)
deriving DecidableEq, Repr

structure Wiring where
  sliced : List SlicedInput := []
  carried : List CarriedInput := []
  shared : List SharedInput := []
  outputs : List LoopOutput := []
deriving DecidableEq, Repr, Inhabited

namespace Slicing

/-- The position that a possibly negative one means on an axis of the
given size. -/
def resolve (position size : Int) : Int :=
  if position < 0 then position + size else position

/-- The single steps over a whole axis, forwards. -/
def forward (axis : Int) : Slicing := ⟨0, 1, 1, -1, axis⟩

/-- The single steps over a whole axis, backwards. -/
def backward (axis : Int) : Slicing := ⟨-1, -1, 1, 0, axis⟩

variable (slicing : Slicing)

/-- The number of positions between the two ends, both included. -/
def span (length : Int) : Int :=
  ((resolve slicing.stop length - resolve slicing.start length).natAbs : Int) + 1

/-- The number of parts that fit between the two ends on an axis of the
given length. -/
def count (length : Int) : Except RunError Nat :=
  if length = 0 then .ok 0
  else
    let span := slicing.span length
    if span < slicing.partSize then .ok 0
    else if slicing.stride = 0 then .error .zeroStride
    else .ok ((span - slicing.partSize) / slicing.stride.natAbs + 1).toNat

/-- The position at which part number `iteration` begins. Backwards, a
part ends where a forward one would begin. -/
def position (length : Int) (iteration : Nat) : Int :=
  let start := resolve slicing.start length
  if 0 < slicing.stride then start + iteration * slicing.stride
  else start + 1 + iteration * slicing.stride - slicing.partSize

end Slicing

namespace Wiring

variable (wiring : Wiring)

/-- Adds a sliced input. The rule has to have a step and a size. -/
def addSliced (wire : SlicedInput) : Except RunError Wiring :=
  if wire.slicing.stride = 0 || wire.slicing.partSize ≤ 0 then .error .emptySlices
  else .ok { wiring with sliced := wiring.sliced ++ [wire] }

def addCarried (wire : CarriedInput) : Wiring :=
  { wiring with carried := wiring.carried ++ [wire] }

def addShared (wire : SharedInput) : Wiring :=
  { wiring with shared := wiring.shared ++ [wire] }

/-- Adds an output; the result is its position among the outputs of the
loop. -/
def addOutput (output : LoopOutput) : Nat × Wiring :=
  (wiring.outputs.length, { wiring with outputs := wiring.outputs ++ [output] })

/-- Adds an output that is the value of an iteration, which can only be
the last one. -/
def addValue (outputIndex : Int) (iteration : Int) : Except RunError (Nat × Wiring) :=
  if iteration ≠ -1 then .error .earlierIteration
  else .ok (wiring.addOutput (.last outputIndex))

end Wiring

end OnnxLowering
