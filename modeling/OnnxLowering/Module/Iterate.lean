/-
Running a loop. The body is any function from arguments to outputs, and
the loop applies it once per part of the sliced inputs. Between two
iterations its state holds the arguments of the body, the values to be
joined, one row per iteration, and the last outputs. `iterate_eq_foldlM`
says that the iterations are a fold over their numbers; they are not
carried out as one, because a loop may be wired to far more iterations
than it gets through before it fails.
-/
import OnnxLowering.Module.Wiring
import OnnxLowering.Tensor.Layout

namespace OnnxLowering

/-- A value on its way into or out of a body: a tensor, or nothing where
an argument was never connected. -/
abbrev Operand := Option Tensor

/-- The element at a position that counts from the end if it is
negative. -/
def elementAt {α : Type} (xs : List α) (position : Int) : Except RunError α :=
  let i := Slicing.resolve position xs.length
  if i < 0 then .error .indexOutOfRange
  else
    match xs[i.toNat]? with
    | some x => .ok x
    | none => .error .indexOutOfRange

/-- The list with another element at a position that counts from the end
if it is negative. -/
def replaceAt {α : Type} (xs : List α) (position : Int) (x : α) :
    Except RunError (List α) :=
  let i := Slicing.resolve position xs.length
  if 0 ≤ i && i < xs.length then .ok (xs.set i.toNat x) else .error .indexOutOfRange

/-- A tensor that is asked about itself. -/
def Operand.tensor : Operand → Except RunError Tensor
  | some t => .ok t
  | none => .error .absentTensor

/-- A tensor that is computed with. -/
def Operand.value : Operand → Except RunError Tensor
  | some t => .ok t
  | none => .error .absentOperand

/-- The part of a tensor at an iteration. -/
def Slicing.part (slicing : Slicing) (t : Tensor) (iteration : Nat) :
    Except RunError Tensor := do
  let length ← t.sizeAlong slicing.axis
  t.narrow slicing.axis (slicing.position length iteration) slicing.partSize.toNat

/-- The parts of an output put together; those of a backward rule come
last first. -/
def Slicing.joinParts (slicing : Slicing) (parts : List Operand) :
    Except RunError Tensor := do
  let parts ← (if slicing.stride < 0 then parts.reverse else parts).mapM Operand.value
  Tensor.join parts slicing.axis

namespace Wiring

variable (wiring : Wiring)

/-- A loop between two iterations. -/
structure State where
  arguments : List Operand
  rows : List (List Operand) := []
  last : Option (List Operand) := none

/-- The body of a loop. -/
abbrev Body := List Operand → Except RunError (List Operand)

/-- The number of arguments of a body when it is stated and not counted. A
negative number stands for none, and the arguments have to fit into
memory, a place of eight bytes each. -/
def statedArity (count : Int) : Except RunError Nat :=
  if ¬ Shape.isWord count then .error .hugeArity
  else if ¬ Shape.isStorable [count.toNat] 8 then .error .memoryExhausted
  else .ok count.toNat

/-- The arguments before the first iteration: the shared inputs and the
first values of the carried ones. -/
def start (arity : Nat) (inputs : List Operand) : Except RunError (List Operand) := do
  let arguments ← wiring.shared.foldlM
    (fun arguments wire => do
      replaceAt arguments wire.bodyIndex (← elementAt inputs wire.inputIndex))
    (List.replicate arity none)
  wiring.carried.foldlM
    (fun arguments wire => do
      replaceAt arguments wire.bodyIndex (← elementAt inputs wire.inputIndex))
    arguments

/-- The number of parts of one sliced input. -/
def partCount (inputs : List Operand) (wire : SlicedInput) : Except RunError Nat := do
  let t ← (← elementAt inputs wire.inputIndex).tensor
  wire.slicing.count (← t.sizeAlong wire.slicing.axis)

/-- Distinct numbers in ascending order. -/
def distinctSorted (counts : List Nat) : List Nat := counts.eraseDups.mergeSort

/-- The number of iterations, on which all sliced inputs have to
agree. -/
def iterations (inputs : List Operand) : Except RunError Nat := do
  if wiring.sliced.isEmpty then throw .nothingSliced
  let counts ← wiring.sliced.mapM (partCount inputs)
  match distinctSorted counts with
  | [count] => return count
  | counts => throw (.unequalCounts (counts.map Int.ofNat))

/-- The arguments with the parts of the sliced inputs for an
iteration. -/
def feed (inputs arguments : List Operand) (iteration : Nat) :
    Except RunError (List Operand) :=
  wiring.sliced.foldlM
    (fun arguments wire => do
      let t ← (← elementAt inputs wire.inputIndex).tensor
      let part ← wire.slicing.part t iteration
      replaceAt arguments wire.bodyIndex (some part))
    arguments

/-- The arguments with the outputs that are carried on. -/
def carry (arguments outputs : List Operand) : Except RunError (List Operand) :=
  wiring.carried.foldlM
    (fun arguments wire => do
      replaceAt arguments wire.bodyIndex (← elementAt outputs wire.outputIndex))
    arguments

/-- One value per output of the loop: the one to be joined, where values
are joined. -/
def collect (outputs : List Operand) : Except RunError (List Operand) :=
  wiring.outputs.mapM fun
    | .last _ => .ok none
    | .joined outputIndex _ => elementAt outputs outputIndex

/-- One iteration. -/
def step (body : Body) (inputs : List Operand) (state : State) (iteration : Nat) :
    Except RunError State := do
  let arguments ← wiring.feed inputs state.arguments iteration
  let outputs ← body arguments
  let arguments ← wiring.carry arguments outputs
  let row ← wiring.collect outputs
  return ⟨arguments, state.rows ++ [row], some outputs⟩

/-- A number of iterations, from iteration `first` on. -/
def iterate (body : Body) (inputs : List Operand) (state : State) (first : Nat) :
    Nat → Except RunError State
  | 0 => .ok state
  | count + 1 => do
      iterate body inputs (← wiring.step body inputs state first) (first + 1) count

theorem iterate_eq_foldlM (body : Body) (inputs : List Operand) (state : State)
    (first count : Nat) :
    wiring.iterate body inputs state first count =
      (List.range' first count).foldlM (wiring.step body inputs) state := by
  induction count generalizing state first with
  | zero => rfl
  | succ count ih => simp only [iterate, List.range'_succ, List.foldlM_cons, ih]

/-- The last value of an output of the body. If there was no iteration,
a carried argument has kept its first value. -/
def lastValue (inputs : List Operand) (last : Option (List Operand)) (outputIndex : Int) :
    Except RunError Operand :=
  match last with
  | some outputs => elementAt outputs outputIndex
  | none =>
      match wiring.carried.find? (·.outputIndex = outputIndex) with
      | some wire => elementAt inputs wire.inputIndex
      | none => .error (.noLastValue outputIndex)

/-- Output number `position` of the loop, after the last iteration. -/
def result (inputs : List Operand) (state : State) (output : LoopOutput)
    (position : Nat) : Except RunError Operand :=
  match output with
  | .last outputIndex => wiring.lastValue inputs state.last outputIndex
  | .joined outputIndex slicing =>
      if state.rows.isEmpty then .error (.nothingToJoin outputIndex)
      else (slicing.joinParts (state.rows.map (·.getD position none))).map some

/-- Runs a loop whose body takes `arity` arguments. -/
def run (arity : Nat) (body : Body) (inputs : List Operand) :
    Except RunError (List Operand) := do
  let arguments ← wiring.start arity inputs
  let count ← wiring.iterations inputs
  let state ← wiring.iterate body inputs { arguments } 0 count
  wiring.outputs.zipIdx.mapM fun (output, position) =>
    wiring.result inputs state output position

end Wiring

end OnnxLowering
