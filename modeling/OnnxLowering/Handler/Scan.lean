/-
Scans. A scan applies its body once per element of its scan inputs,
carries states from one application to the next, and stacks what else
the body returns. It becomes a loop over slices: the states are carried
inputs, the scan inputs are sliced one position at a time, and whatever
the body reads from outside is shared by all iterations.

The node is checked against its body before the graph around it is
changed in any way.
-/
import OnnxLowering.Handler.Elementwise
import OnnxLowering.Module.LoopBody

namespace OnnxLowering

namespace Lower

/-- Lowers the nested graph that a node carries under a name. -/
def importGraph (node : NodeOf Importer) (name : String) : Lower Subgraph := do
  match node.graph? name with
  | none => throw (.missingGraph node.describe name)
  | some importer =>
      report (.importing name node.describe)
      let (result, records) := importer.lower ⟨← opset, ← scopes⟩
      for record in records do report record
      ofExcept id result

end Lower

namespace Handler

open Lower

/-- How the operator set version spells a scan: the axis that is meant
if none is given, the position of the first input, and the name of the
attribute with the directions of the scan inputs. -/
structure ScanSyntax where
  defaultAxis : Int
  firstInput : Nat
  directions : String

/-- What a scan does besides its body: the number of states, and for
each scan input and scan output its axis and whether it is walked
backwards. -/
structure ScanPlan where
  states : Nat
  inputAxes : List Int
  inputDirections : List Int
  outputAxes : List Int
  outputDirections : List Int

namespace ScanPlan

variable (plan : ScanPlan)

/-- The walk over an axis in a direction; any direction but zero is
backwards. -/
def walk (axis direction : Int) : Slicing :=
  if direction = 0 then .forward axis else .backward axis

/-- The number of inputs of the body. -/
def inputCount : Nat := plan.states + plan.inputAxes.length

/-- The wiring of the loop, for a body that reads `captured` values from
outside after its own inputs. -/
def wiring (captured : Nat) : Wiring where
  sliced := (plan.inputAxes.zip plan.inputDirections).zipIdx.map
    fun ((axis, direction), i) =>
      { bodyIndex := plan.states + i
        inputIndex := plan.states + i
        slicing := walk axis direction }
  carried := (List.range plan.states).map fun (i : Nat) =>
    { bodyIndex := i, inputIndex := i, outputIndex := i }
  shared := (List.range captured).map fun (i : Nat) =>
    { bodyIndex := plan.inputCount + i, inputIndex := plan.inputCount + i }
  outputs := (List.range plan.states).map (fun (i : Nat) => .last i)
    ++ (plan.outputAxes.zip plan.outputDirections).zipIdx.map
      fun ((axis, direction), i) => .joined (plan.states + i) (walk axis direction)

end ScanPlan

-- ================================================================== checks

/-- A list of integers among the attributes. -/
def intsOr (values : Attributes) (name : String) (default : List Int) :
    Except AttributeError (List Int) :=
  match values.find? name with
  | some value => value.toInts
  | none => .ok default

/-- Demands that a list has an entry for each of its subjects. -/
def checkEntries (node : NodeOf Importer) (name : String) (entries : List Int)
    (expected : Int) : Lower Unit := do
  unless (entries.length : Int) = expected do
    invalid node (.entryCount name expected entries.length)

/-- Reads the plan of a scan off its attributes and checks it against
the counts of the body's inputs and outputs and of the node's inputs. -/
def scanPlan (spelling : ScanSyntax) (node : NodeOf Importer) (values : Attributes)
    (scanInputs : Int) (given bodyInputs bodyOutputs : Nat) : Lower ScanPlan := do
  let states : Int := bodyInputs - scanInputs
  let scanOutputs : Int := bodyOutputs - states
  if scanInputs < 1 || states < 0 then invalid node (.scanInputCount scanInputs bodyInputs)
  if scanOutputs < 0 then invalid node (.scanOutputCount bodyOutputs states)
  unless given = bodyInputs do invalid node (.inputCount given bodyInputs)
  let entries (name : String) (count default : Int) : Lower (List Int) :=
    ofExcept .argument (intsOr values name (List.replicate count.toNat default))
  let inputAxes ← entries "scan_input_axes" scanInputs spelling.defaultAxis
  let inputDirections ← entries spelling.directions scanInputs 0
  let outputAxes ← entries "scan_output_axes" scanOutputs spelling.defaultAxis
  let outputDirections ← entries "scan_output_directions" scanOutputs 0
  checkEntries node "scan_input_axes" inputAxes scanInputs
  checkEntries node spelling.directions inputDirections scanInputs
  checkEntries node "scan_output_axes" outputAxes scanOutputs
  checkEntries node "scan_output_directions" outputDirections scanOutputs
  return { states := states.toNat, inputAxes, inputDirections, outputAxes, outputDirections }

-- ==================================================================== body

/-- The axis of a scan input, positive if the rank of the input is
known, and the shape that the loop's slices of the input are then known
to have. -/
def sliceAxis (description : String) (shape : Option KnownShape) (axis : Int) :
    Except LowerError (Int × Option KnownShape) :=
  match shape with
  | none => .ok (axis, none)
  | some dims => do
      let axis ← normalizeAxis description axis dims.length
      return (axis, some (dims.set axis.toNat (some 1)))

/-- The axis of a scan output, positive if the rank of the body's output
is known. The joined value has one dimension more. -/
def joinAxis (description : String) (shape : Option KnownShape) (axis : Int) :
    Except LowerError Int :=
  match shape with
  | none => .ok axis
  | some dims => normalizeAxis description axis (dims.length + 1)

/-- Turns the module of a body into one for the slices of a loop, given
what is known of the shapes of the node's inputs. The axes of the plan
become positive wherever a rank is known. -/
def scanBody (description : String) (plan : ScanPlan) (body : Module)
    (shapes : List (Option KnownShape)) : Except LowerError (Module × ScanPlan) := do
  let slices ← ((shapes.drop plan.states).zip plan.inputAxes).mapM fun (shape, axis) =>
    sliceAxis description shape axis
  let known := shapes.take plan.states ++ slices.map Prod.snd
  let body := known.zipIdx.foldl (fun body (shape, i) => body.setInputShape i shape) body
  let inputAxes := slices.map Prod.fst
  let body := body.squeezeInputs plan.states inputAxes
  let outputAxes ← ((body.results.refs.drop plan.states).zip plan.outputAxes).mapM
    fun (ref, axis) => joinAxis description (body.label ref).shape.join axis
  return (body.unsqueezeResults plan.states outputAxes, { plan with inputAxes, outputAxes })

-- ================================================================= handler

/-- Lowers a scan: one call of a loop, and one node per output of the
body that takes its value from what the loop returns. -/
def scanWith (spelling : ScanSyntax) : Handler := fun node => do
  let values ← attributes node
  let scanInputs ← match values.find? "num_scan_inputs" with
    | some value => ofExcept .argument value.toInt
    | none => invalid node (.missingAttribute "num_scan_inputs")
  let names := node.inputs.drop spelling.firstInput
  if names.any String.isEmpty then invalid node .omittedInput
  let subgraph ← importGraph node "body"
  let plan ← scanPlan spelling node values scanInputs names.length
    subgraph.inputNames.length subgraph.outputNames.length
  let captured := subgraph.outerInputs.length
  report (.scanning node.describe plan.states plan.inputAxes.length plan.outputAxes.length
    captured)
  let shapes ← names.mapM shape
  let (body, plan) ← ofExcept id (scanBody node.describe plan subgraph.module shapes)
  let loop := Loop.mk (plan.wiring captured) (plan.inputCount + captured) body
  let operands ← (names ++ subgraph.outerInputs).mapM value
  let name ← registerLoop (if node.name.isEmpty then "scan" else node.name) loop
  let result ← call node name operands 0 false
  let outputs ← (List.range (plan.states + plan.outputAxes.length)).mapM fun i =>
    apply node (.item i) [result] i
  return .many outputs

/-- Scans of version 8 have a first input with the lengths of the
sequences, which is not supported, and a batch axis in front of the
sequence axis. -/
def scanBatched : Handler := fun node => do
  unless (node.inputs.headD "").isEmpty do invalid node .sequenceLengths
  scanWith ⟨1, 1, "directions"⟩ node

def scan : Handler := scanWith ⟨0, 0, "scan_input_directions"⟩

end Handler

end OnnxLowering
