/-
What a graph means. The nodes are taken in order; each one applies its
operation to what the names of its inputs stand for, and gives names to
the results. Inside the graph of a node a name stands for what that graph
itself gives it to, and else for what it stands for around the node.

Besides its tensor a name has what is known of it before there are
tensors. The lowering decides some things by that: in which rank an axis
counts from the end, and how long the frames of a spectrum are. Nothing
is said where an axis counts from the end of a tensor that has not the
rank that is known, or where different things could be known of one name.
-/
import OnnxLowering.Handler.Standard
import OnnxLowering.Proofs.Module.LoopBody
import OnnxLowering.Proofs.Scan.Reference

namespace OnnxLowering

-- ============================================================ environments

/-- What a name stands for: a tensor, whether the tensor is known before
the graph is run, and the shapes that its value may be labelled with
then. -/
structure Entry where
  tensor : Tensor
  constant : Bool
  shapes : List KnownShape
deriving DecidableEq

/-- What names stand for. -/
abbrev Env := String → Option Entry

/-- A graph inside a node: what it returns for its inputs, where names
stand for something around it. -/
structure Nested where
  inputCount : Nat
  outputCount : Nat
  run : Env → List Tensor → Outcome (List Entry)

/-- A tensor that is known before the graph is run. -/
def Entry.ofConstant (t : Tensor) : Entry := ⟨t, true, [t.shape.known]⟩

/-- The shapes that a name may be known to have: the declared one, else
those that its value may be labelled with. -/
def Entry.known (entry : Entry) (declarations : NameMap KnownType) (name : String) :
    List KnownShape :=
  match (declarations.find? name).bind KnownType.shape with
  | some shape => [shape]
  | none => entry.shapes

namespace Env

variable (env : Env)

def read (name : String) : Outcome Entry :=
  match env name with
  | some entry => .ok entry
  | none => .failed

def insert (name : String) (entry : Entry) : Env :=
  fun other => if other = name then some entry else env other

/-- Gives names to more values; an empty name is none. -/
def insertAll (pairs : List (String × Entry)) : Env :=
  pairs.foldl (fun env (name, entry) => if name.isEmpty then env else env.insert name entry) env

/-- What the names of a graph with certain declarations stand for in a
graph inside. -/
def within (declarations : NameMap KnownType) : Env := fun name =>
  (env name).map fun entry =>
    { entry with
        shapes := entry.known declarations name
          ++ if entry.constant then [entry.tensor.shape.known] else [] }

end Env

theorem Env.read_eq_ok {env : Env} {name : String} {e : Entry} :
    env.read name = .ok e ↔ env name = some e := by
  unfold Env.read
  cases env name with
  | none => exact ⟨fun h => (nomatch h), fun h => (nomatch h)⟩
  | some e' =>
      exact ⟨fun h => congrArg some (Outcome.ok.inj h), fun h => congrArg _ (Option.some.inj h)⟩

/-- What is known, if it is the same in all cases. -/
def agreed {α : Type} [DecidableEq α] : List α → Outcome (Option α)
  | [] => .ok none
  | x :: xs => do
      Outcome.require (∀ other ∈ xs, other = x)
      return some x

/-- A tensor has the rank that it is known to have, if an axis counts
from the end. -/
def HasRank (axis : Int) (shapes : List KnownShape) (t : Tensor) : Prop :=
  axis < 0 → ∀ shape ∈ shapes, t.rank = shape.length

instance (axis : Int) (shapes : List KnownShape) (t : Tensor) :
    Decidable (HasRank axis shapes t) := inferInstanceAs (Decidable (_ → _))

-- =================================================================== nodes

section

variable (opset : Int) (declarations : NameMap KnownType) (env : Env) (node : NodeOf Nested)

/-- What an input of a node stands for. -/
def operand (index : Nat) : Outcome Entry :=
  match node.inputs[index]? with
  | some name => env.read name
  | none => .failed

/-- What an input of a node stands for that may be left out. -/
def optionalOperand (index : Nat) : Outcome (Option Entry) :=
  if (node.inputs.getD index "").isEmpty then .ok none else some <$> operand env node index

/-- The tensor that an operation makes of others. -/
def computed (op : Op) (operands : List Tensor) : Outcome Tensor := do
  match ← Outcome.ofExcept (op.eval (operands.map Value.ofTensor)) with
  | .one (some t) => return t
  | _ => .failed

/-- What an output of a node stands for. -/
def produced (output : Nat) (t : Tensor) : Entry :=
  let name := node.namedOutputs.getD output node.name
  let known := if name.isEmpty then none else declarations.find? name
  ⟨t, false, (known.bind KnownType.shape).toList⟩

/-- The names for the one value of a node. -/
def named (entry : Entry) : List (String × Entry) := (node.namedOutputs.take 1).map (·, entry)

/-- Applies an operation to as many inputs as it takes. -/
def applied (op : Op) (count : Nat) : Outcome (List (String × Entry)) := do
  let operands ← (List.range count).mapM (operand env node)
  let t ← computed op (operands.map Entry.tensor)
  return named node (produced declarations node 0 t)

/-- One operation on two inputs, as a sequence of steps. -/
theorem applied_two (op : Op) :
    applied declarations env node op 2 = (do
      let lhs ← operand env node 0
      let rhs ← operand env node 1
      return named node (produced declarations node 0
        (← computed op [lhs.tensor, rhs.tensor]))) := by
  show (do
    let operands ← [0, 1].mapM (operand env node)
    let t ← computed op (operands.map Entry.tensor)
    return named node (produced declarations node 0 t)) = _
  simp only [List.mapM_cons, List.mapM_nil, bind_assoc, pure_bind, List.map_cons, List.map_nil]

-- ============================================================== attributes

/-- An integer among the attributes. -/
def intOr (values : Attributes) (name : String) (default : Int) : Outcome Int :=
  match values.find? name with
  | some value => .ofExcept value.toInt
  | none => .ok default

def numberOr (values : Attributes) (name : String) (default : Nat) : Outcome Nat :=
  match values.find? name with
  | some value => .ofExcept value.toNumber
  | none => .ok default

/-- Mean, scale and seed of random numbers. -/
def distribution (values : Attributes) : Outcome (Nat × Nat × Option Nat) := do
  let mean ← numberOr values "mean" (BinaryFormat.double.encode (.ofInt 0))
  let scale ← numberOr values "scale" (BinaryFormat.double.encode (.ofInt 1))
  match values.find? "seed" with
  | some value => return (mean, scale, some (← .ofExcept value.toNumber))
  | none => return (mean, scale, none)

/-- The real type that a code stands for. -/
def realType (code : Int) : Outcome DType :=
  match (DType.ofCode code).filter DType.isReal with
  | some dtype => .ok dtype
  | none => .failed

-- ============================================================== operations

/-- The axis at which the right operand is put. -/
def alignment (lhs : Entry) (values : Attributes) : Outcome (Option Int) :=
  match values.find? "axis" with
  | none => .ok none
  | some value => do
      let axis ← .ofExcept value.toInt
      Outcome.require (HasRank axis (lhs.known declarations (node.inputs.getD 0 "")) lhs.tensor)
      return some axis

/-- Up to version 6 of the operator set: the right operand is put at
dimensions of the left one if the node says so. -/
def aligned (op : Op) (values : Attributes) : Outcome (List (String × Entry)) := do
  let lhs ← operand env node 0
  let rhs ← operand env node 1
  if (← intOr values "broadcast" 0) = 0 then
    return named node (produced declarations node 0 (← computed op [lhs.tensor, rhs.tensor]))
  else
    let axis ← alignment declarations node lhs values
    let placed ← computed (.align axis) [lhs.tensor, rhs.tensor]
    return named node (produced declarations node 0 (← computed op [lhs.tensor, placed]))

def random (values : Attributes) : Outcome Op :=
  match values.find? "shape" with
  | none => .failed
  | some value => do
      let dims ← Outcome.ofExcept value.toInts
      let dtype ← realType (← intOr values "dtype" Handler.randomTypeCode)
      let (mean, scale, seed) ← distribution values
      return .random dims dtype mean scale seed

/-- The type of random numbers that have the shape of something else. -/
def optionalType (values : Attributes) : Outcome (Option DType) :=
  match values.find? "dtype" with
  | some value => do return some (← realType (← .ofExcept value.toInt))
  | none => .ok none

def randomLike (values : Attributes) : Outcome Op := do
  let dtype ← optionalType values
  let (mean, scale, seed) ← distribution values
  return .randomLike dtype mean scale seed

/-- The integer that a constant holds. -/
def integer (entry : Entry) : Outcome Int := do
  Outcome.demand (entry.constant = true ∧ entry.tensor.data.size = 1)
  .ofExcept (Handler.integerElement entry.tensor.dtype (entry.tensor.data.getD 0 0))

/-- What is known of the shape of a window, if there is one. -/
def windowShape (window : Option Entry) : Outcome (Option KnownShape) :=
  match window with
  | none => .ok none
  | some window => agreed (window.known declarations (node.inputs.getD 2 ""))

/-- The length of the frames of a spectrum: what the node says, else the
known length of the window, else as many samples as there would be whole
steps in the known length of the signal. -/
def framing (signal : Entry) (window : Option Entry) (step : Int) : Outcome Int := do
  if (node.inputs.getD 3 "").isEmpty then
    let known ← windowShape declarations node window
    match known, ← agreed (signal.known declarations (node.inputs.getD 0 "")) with
    | some [some length], _ => return length
    | none, some [_, some length, _] => return length.fdiv step
    | some [none], some [_, some length, _] => return length.fdiv step
    | _, _ => .failed
  else
    integer (← operand env node 3)

/-- The frames, multiplied by the window if there is one. -/
def windowed (frames : Tensor) : Option Entry → Outcome Tensor
  | some window => computed .window [frames, window.tensor]
  | none => .ok frames

def spectrum (values : Attributes) : Outcome (List (String × Entry)) := do
  let oneSided ← intOr values "onesided" 1
  let signal ← operand env node 0
  let step ← integer (← operand env node 1)
  let window ← optionalOperand env node 2
  let length ← framing declarations env node signal window step
  let frames ← computed (.frames length step) [signal.tensor]
  let frames ← windowed frames window
  let t ← computed (.transform length (oneSided = 1)) [frames]
  return named node (produced declarations node 0 t)

-- =================================================================== scans

/-- The plan of a scan, for a body of so many inputs and outputs. -/
def planOf (spelling : Handler.ScanSyntax) (values : Attributes) (scanInputs : Int)
    (inputCount outputCount : Nat) : Outcome Handler.ScanPlan := do
  let states := (inputCount - scanInputs).toNat
  let scanOutputs := outputCount - states
  let entries (name : String) (count : Nat) (default : Int) : Outcome (List Int) :=
    .ofExcept (Handler.intsOr values name (List.replicate count default))
  let inputAxes ← entries "scan_input_axes" scanInputs.toNat spelling.defaultAxis
  let inputDirections ← entries spelling.directions scanInputs.toNat 0
  let outputAxes ← entries "scan_output_axes" scanOutputs spelling.defaultAxis
  let outputDirections ← entries "scan_output_directions" scanOutputs 0
  return { states, inputAxes, inputDirections, outputAxes, outputDirections }

/-- What a scan iterates: the graph of its body, for states and elements.
The states may be returned as they are, so all that is known of them
counts for the axes of the outputs. -/
def scanned (body : Nested) (plan : Handler.ScanPlan) (known : List (List KnownShape)) :
    Handler.ScanPlan.Body := fun xs => do
  let results ← body.run (env.within declarations) xs
  Outcome.require (∀ axis ∈ plan.outputAxes, ∀ entry ∈ xs.zip (known.take plan.states),
    HasRank axis entry.2 entry.1)
  Outcome.require (∀ entry ∈ (results.drop plan.states).zip plan.outputAxes,
    HasRank entry.2 entry.1.shapes entry.1.tensor)
  return results.map Entry.tensor

/-- The number of scan inputs. -/
def scanInputCount (values : Attributes) : Outcome Int :=
  match values.find? "num_scan_inputs" with
  | some value => .ofExcept value.toInt
  | none => .failed

def scan (spelling : Handler.ScanSyntax) (values : Attributes) :
    Outcome (List (String × Entry)) := do
  let scanInputs ← scanInputCount values
  match node.graph? "body" with
  | none => .failed
  | some body =>
      let names := node.inputs.drop spelling.firstInput
      let entries ← names.mapM env.read
      let plan ← planOf spelling values scanInputs body.inputCount body.outputCount
      let known := (entries.zip names).map fun (entry, name) => entry.known declarations name
      Outcome.require (∀ entry ∈ ((entries.zip known).drop plan.states).zip plan.inputAxes,
        HasRank entry.2 entry.1.2 entry.1.1.tensor)
      let outputs ← plan.run (scanned declarations env body plan known)
        (entries.map Entry.tensor)
      return node.outputs.zip (outputs.zipIdx.map fun (t, i) => produced declarations node i t)

-- ================================================================== graphs

/-- The names that a node gives, and what they stand for. Attributes that
the operation does not have are not looked at. -/
def results : Outcome (List (String × Entry)) := do
  let values : Outcome Attributes := .ofExcept node.values
  match node.op with
  | "Constant" =>
      return named node (.ofConstant (← .ofExcept (Handler.constantTensor (← values))))
  | "Identity" => return named node { ← operand env node 0 with constant := false }
  | "Add" =>
      if 7 ≤ opset then applied declarations env node .add 2
      else aligned declarations env node .add (← values)
  | "Mul" =>
      if 7 ≤ opset then applied declarations env node .multiply 2
      else aligned declarations env node .multiply (← values)
  | "Sqrt" => applied declarations env node .sqrt 1
  | "ScatterND" => applied declarations env node .scatter 3
  | "RandomNormal" => applied declarations env node (← random (← values)) 0
  | "RandomNormalLike" => applied declarations env node (← randomLike (← values)) 1
  | "STFT" => spectrum declarations env node (← values)
  | "Scan" =>
      if 9 ≤ opset then scan declarations env node ⟨0, 0, "scan_input_directions"⟩ (← values)
      else scan declarations env node ⟨1, 1, "directions"⟩ (← values)
  | _ => .failed

/-- A node adds names. -/
def evalNode : Outcome Env := return env.insertAll (← results opset declarations env node)

end

namespace GraphOf

variable {G : Type}

/-- The initial tensors of a graph. -/
def initial (graph : GraphOf G) : Except PayloadError (List (String × Tensor)) :=
  graph.initializers.mapM fun (name, payload) => do return (name, ← payload.toTensor)

/-- The names of the inputs without an initial tensor. -/
def feedNames (graph : GraphOf G) : List String :=
  (graph.inputs.map ValueInfo.name).filter fun name =>
    !(graph.initializers.map Prod.fst).contains name

/-- What names stand for before the first node. -/
def entries (graph : GraphOf G) (outer : Env) (initial : List (String × Tensor))
    (feeds : List Tensor) : Env :=
  (graph.feedNames.zip feeds).foldl
    (fun env (name, t) => env.insert name
      ⟨t, false, ((graph.declarations.find? name).bind KnownType.shape).toList⟩)
    fun name =>
      match (NameMap.ofList initial).find? name with
      | some t => some (.ofConstant t)
      | none => outer name

/-- What a graph means whose nodes hold the meanings of graphs. -/
def meaning (opset : Int) (graph : GraphOf Nested) : Nested where
  inputCount := graph.feedNames.length
  outputCount := graph.outputs.length
  run outer feeds := do
    Outcome.demand (feeds.length = graph.feedNames.length)
    let initial ← .ofExcept graph.initial
    let env ← graph.nodes.foldlM (evalNode opset graph.declarations)
      (graph.entries outer initial feeds)
    graph.outputs.mapM fun info => env.read info.name

end GraphOf

/-- What a graph means. -/
def Graph.meaning (opset : Int) (graph : Graph) : Nested := graph.fold (GraphOf.meaning opset)

end OnnxLowering
