/-
What can go wrong when a lowered module runs. Every constructor is a
cause; those for which a text is laid down have it in `message`.
-/
namespace OnnxLowering

inductive RunError where
  /-- An axis that the tensor does not have. -/
  | axisOutOfRange
  /-- A position outside its dimension or its list. -/
  | indexOutOfRange
  /-- Sizes that do not fit each other. -/
  | sizeMismatch
  /-- Element types that do not go together, or that the operation is
  not defined on. -/
  | typeMismatch
  /-- An operation that is not there for an element type. -/
  | noArithmetic
  /-- A number that is no integer of 64 bits where one has to be. -/
  | hugeInteger
  /-- A size that is no integer of 64 bits. -/
  | hugeSize
  /-- A number of arguments that is no integer of 64 bits. -/
  | hugeArity
  /-- More arguments than there is memory for. -/
  | memoryExhausted
  /-- An operand that was never given a value. -/
  | absentOperand
  /-- An absent value where a tensor is asked about itself. -/
  | absentTensor
  /-- Another number of arguments than parameters. -/
  | argumentCount
  /-- A transform that needs a real signal of a complex one. -/
  | complexSignal
  /-- A seed that is not a number, or not one number. -/
  | undefinedSeed
  /-- An infinite seed. -/
  | infiniteSeed
  /-- Aligning a tensor with the dimensions of another that start at an
  axis, where the dimensions do not suffice. -/
  | misaligned (rank targetRank : Nat) (axis : Int)
  /-- A slicing rule with no step or no size. -/
  | emptySlices
  /-- The value of another iteration than the last one. -/
  | earlierIteration
  /-- A loop without any sliced input. -/
  | nothingSliced
  /-- Sliced inputs with different numbers of slices. -/
  | unequalCounts (counts : List Int)
  /-- The last value of an output, when there was no iteration. -/
  | noLastValue (output : Int)
  /-- The joined values of an output, when there was no iteration. -/
  | nothingToJoin (output : Int)
  /-- A count of steps of no length. -/
  | zeroStride
  /-- A function on tensors that a parameter hides. -/
  | hiddenFunction
  /-- An element type that a parameter hides. -/
  | hiddenType
deriving DecidableEq, Repr

namespace RunError

def message : RunError → Option String
  | misaligned rank targetRank axis =>
      some s!"Cannot broadcast a rank-{rank} tensor into rank {targetRank} at axis {axis}"
  | emptySlices =>
      some "Sliced input needs a non-zero stride and a positive part size"
  | earlierIteration => some "Only the value of the last iteration can be requested"
  | nothingSliced => some "TensorIterator requires at least one sliced input"
  | unequalCounts counts =>
      some ("Sliced inputs disagree on the number of iterations: ["
        ++ ", ".intercalate (counts.map toString) ++ "]")
  | noLastValue output =>
      some s!"Body output {output} has no value because the loop ran zero iterations"
  | nothingToJoin output =>
      some s!"Body output {output} cannot be concatenated after zero iterations"
  | _ => none

end RunError

end OnnxLowering
