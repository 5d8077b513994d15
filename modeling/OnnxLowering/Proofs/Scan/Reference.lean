/-
What a scan means. A scan iterates a function from states and elements
to states and further values: at every step it reads one element of each
scan input, the states go on to the next step, and the further values
are stacked in the end. Axes are those of the node, negative ones
counting from the end of the tensor at hand.

The function can fail, and so can the scan: if an input does not have its
axis, if the sizes along the axes differ, or if values cannot be stacked.
Nothing is said of tensors with more dimensions, or larger ones, than
integers of 64 bits count.
-/
import OnnxLowering.Handler.Scan
import OnnxLowering.Proofs.Tensor.Slices

namespace OnnxLowering

/-- Integers of 64 bits count the dimensions of a tensor and the
positions along each of them. -/
def Tensor.Addressable (t : Tensor) : Prop :=
  t.rank + 1 < 2 ^ 63 ∧ ∀ size ∈ t.shape, size ≤ 2 ^ 63

instance (t : Tensor) : Decidable t.Addressable := inferInstanceAs (Decidable (_ ∧ _))

namespace Handler.ScanPlan

variable (plan : ScanPlan)

/-- The position that a step reads, of `size` positions. -/
def place (direction : Int) (size step : Nat) : Nat :=
  if direction = 0 then step else size - 1 - step

/-- The values of all steps in the order in which they are stacked. -/
def arrange {α : Type} (direction : Int) (values : List α) : List α :=
  if direction = 0 then values else values.reverse

/-- The dimensions that the scan inputs are read along. -/
def dimensions (scans : List Tensor) : Outcome (List Nat) :=
  (scans.zip plan.inputAxes).mapM fun entry =>
    .ofExcept (Tensor.resolveAxis entry.1.rank entry.2)

/-- The number of steps, on which all sizes have to agree. -/
def steps : List Nat → Outcome Nat
  | [] => .failed
  | size :: sizes => do
      Outcome.demand (∀ other ∈ sizes, other = size)
      return size

/-- The elements that a step reads. -/
def elements (scans : List Tensor) (ks : List Nat) (size step : Nat) : List Tensor :=
  ((scans.zip ks).zip plan.inputDirections).map fun entry =>
    entry.1.1.select entry.1.2 (place entry.2 size step)

/-- A scan between two steps: the states, and the further values of each
step so far. -/
structure Progress where
  states : List Tensor
  rows : List (List Tensor) := []
deriving DecidableEq

/-- What a scan iterates. -/
abbrev Body := List Tensor → Outcome (List Tensor)

/-- One step. -/
def advance (body : Body) (scans : List Tensor) (ks : List Nat) (size : Nat)
    (progress : Progress) (step : Nat) : Outcome Progress := do
  let values ← body (progress.states ++ plan.elements scans ks size step)
  let row := values.drop plan.states
  Outcome.require (∀ value ∈ row, value.Addressable)
  let _ ← (row.zip plan.outputAxes).mapM fun entry => .ofExcept (entry.1.unsqueeze entry.2)
  return ⟨values.take plan.states, progress.rows ++ [row]⟩

/-- The values of one output of the body, step after step. -/
def column (rows : List (List Tensor)) (j : Nat) : List Tensor := rows.filterMap (·[j]?)

/-- The stacked values. -/
def stacked (rows : List (List Tensor)) : Outcome (List Tensor) :=
  (plan.outputAxes.zip plan.outputDirections).zipIdx.mapM fun entry =>
    Tensor.stack entry.1.1 (arrange entry.1.2 (column rows entry.2))

/-- What the scan of some inputs, states first, returns. -/
def run (body : Body) (inputs : List Tensor) : Outcome (List Tensor) := do
  let scans := inputs.drop plan.states
  Outcome.require (∀ scan ∈ scans, scan.Addressable)
  let ks ← plan.dimensions scans
  let size ← steps ((scans.zip ks).map fun entry => entry.1.shape.getD entry.2 0)
  let last ← (List.range size).foldlM (plan.advance body scans ks size)
    ⟨inputs.take plan.states, []⟩
  return last.states ++ (← plan.stacked last.rows)

/-- At some step a scan of certain inputs hands values to what it
iterates. -/
def Hands (body : Body) (inputs xs : List Tensor) : Prop :=
  ∃ ks size step progress, plan.dimensions (inputs.drop plan.states) = .ok ks
    ∧ steps (((inputs.drop plan.states).zip ks).map fun entry => entry.1.shape.getD entry.2 0)
      = .ok size
    ∧ step < size
    ∧ (List.range step).foldlM (plan.advance body (inputs.drop plan.states) ks size)
      ⟨inputs.take plan.states, []⟩ = .ok progress
    ∧ xs = progress.states ++ plan.elements (inputs.drop plan.states) ks size step

end Handler.ScanPlan

end OnnxLowering
