/-
Inferring types. The type of a value that a graph does not declare often
follows from the operation that computes it. Inference goes through the
nodes of a graph in order, adds what it finds to the declarations of the
graph, and completes the declarations that are there. A node that does
not fit its operands, or whose result contradicts what is known of it,
is passed over.

The body of a scan is inferred where the scan stands. It sees the types
around it and may complete them, and what it has completed stays, also
if the scan is passed over in the end. So what is known of a value is
kept at a place of its own, and a name leads to the place of the last
declaration that has a type.
-/
import OnnxLowering.Graph.Typing
import OnnxLowering.NameMap

namespace OnnxLowering

/-- Why a graph cannot be inferred. -/
inductive InferenceFault where
  /-- A node whose domain the model gives no version for. -/
  | noVersion (name domain op : String)
  /-- An initial tensor that contradicts its declaration. -/
  | initial (conflict : TypeConflict)
  /-- A node without an operand or a result that its rule asks for. -/
  | broken (op name kind : String) (index : Nat)
deriving DecidableEq, Repr

def InferenceFault.message : InferenceFault → String
  | noVersion name domain op =>
      s!"[TypeInferenceError] Cannot infer type and shape for node name {name}. "
        ++ s!"No opset import for domain {domain} optype {op}"
  | initial conflict => conflict.message
  | broken op name kind index =>
      s!"[ShapeInferenceError] (op_type:{op}, node name: {name}): "
        ++ s!"{kind} {index} is out of bounds."

-- ==================================================================== places

/-- What is known of values, each at a place of its own. -/
structure Places where
  types : List (Option TensorType) := []

namespace Places

def get (places : Places) (place : Nat) : Option TensorType := (places.types[place]?).join

def set (places : Places) (place : Nat) (type : TensorType) : Places :=
  ⟨places.types.set place (some type)⟩

/-- Further places, with what is known there. The first of them is the
number of places there have been. -/
def append (places : Places) (types : List (Option TensorType)) : Places :=
  ⟨places.types ++ types⟩

/-- Completes what is known at a place. -/
def refine (places : Places) (place : Nat) (inferred : TensorType) :
    Except TypeConflict Places := do
  match places.get place with
  | some type => return places.set place (← type.refine inferred)
  | none => return places.set place inferred

/-- Declarations with what is known at their places. -/
def readAll (places : Places) (infos : List (ValueInfo × Nat)) : List ValueInfo :=
  infos.map fun (info, place) =>
    match places.get place with
    | some type => info.setType type
    | none => info

end Places

-- ==================================================================== graphs

namespace Inference

/-- The places that names lead to. -/
abbrev Names := NameMap Nat

/-- How a graph is inferred, from the names around it and the types of
its first inputs: what becomes of the places and of the graph, and, if
it could be inferred, what is known of its outputs. -/
structure Inferrer where
  graph : Graph
  infer : Names → List TensorType → Places →
    Places × Graph × Except InferenceFault (Option (List (Option TensorType)))

/-- Types on the way through a graph: the places that names lead to, the
declarations without a type, and those that have been added. -/
structure State where
  places : Places
  names : Names
  untyped : Names
  added : List (ValueInfo × Nat) := []

namespace State

def type? (state : State) (name : String) : Option TensorType :=
  (state.names.find? name).bind state.places.get

/-- A name that nothing is known of, and where it leads from now on. -/
def bind (state : State) (name : String) (type : TensorType) : State :=
  { state with
      places := state.places.append [some type]
      names := state.names.insert name state.places.types.length }

/-- Declares a name. The last declaration of it without a type gets the
type as well. -/
def declare (state : State) (name : String) (type : TensorType) : State :=
  let bound := state.bind name type
  { bound with
      added := state.added ++ [({ name }, state.places.types.length)]
      places :=
        match state.untyped.find? name with
        | some place => bound.places.set place type
        | none => bound.places }

/-- Takes in what is inferred of the results of a node, up to the first
that contradicts what is known. -/
def updateAll (state : State) : List (String × Option TensorType) → State
  | [] => state
  | (_, none) :: rest => state.updateAll rest
  | (name, some type) :: rest =>
      if name.isEmpty then state.updateAll rest
      else
        match state.names.find? name with
        | none => (state.declare name type).updateAll rest
        | some place =>
            match state.places.refine place type with
            | .ok places => updateAll { state with places } rest
            | .error _ => state

/-- Compares an initial tensor with what is declared of it; one that is
not declared has its own type. -/
def addInitial (state : State) (name : String) (payload : Payload) :
    Except InferenceFault State :=
  match state.names.find? name with
  | none => .ok (state.bind name payload.type)
  | some place =>
      match payload.type.conflict? ((state.places.get place).getD {}) with
      | some conflict => .error (.initial conflict)
      | none => .ok state

end State

/-- A node with another graph in place of the last one of the given
name. -/
def setGraph (node : NodeOf Graph) (name : String) (graph : Graph) : NodeOf Graph :=
  let set : List (String × AttributeOf Graph) → List (String × AttributeOf Graph) × Bool :=
    List.foldr
      (fun (key, a) (rest, done) =>
        match a, done with
        | .graph _, false =>
            if key = name then ((key, .graph graph) :: rest, true) else ((key, a) :: rest, false)
        | _, _ => ((key, a) :: rest, done))
      ([], false)
  { node with attributes := (set node.attributes).1 }

/-- The fault of a node that breaks its rule; one that is passed over
has none. -/
def faultOf {G : Type} (node : NodeOf G) : TypingStop → Option InferenceFault
  | .unfit => none
  | .noInput index => some (.broken node.op node.name "Input" index)
  | .noOutput index => some (.broken node.op node.name "Output" index)

/-- Infers a scan: its body, and from what that returns its results. A
body that cannot be inferred makes the scan unfit. -/
def inferScan (version : Int) (state : State) (node : NodeOf Inferrer) :
    State × NodeOf Graph × Except TypingStop (List TensorType) :=
  let plain := node.map Inferrer.graph
  let operands := node.inputs.map state.type?
  match ScanTyping.ofVersion node operands version, Typing.graph? node "body" with
  | .error stop, _ => (state, plain, .error stop)
  | .ok none, _ => (state, plain, .ok [])
  | .ok (some _), none => (state, plain, .error .unfit)
  | .ok (some typing), some body =>
      let (places, graph, returned) := body.infer state.names typing.arguments state.places
      ({ state with places },
       setGraph plain "body" graph,
       match returned with
       | .ok (some returned) => typing.results node.outputs.length returned
       | _ => .error .unfit)

/-- The versions that a model gives for the domains, the last one where it
gives more. Of a version the low 32 bits count. -/
def versions (model : Model) : NameMap Int :=
  .ofList (model.opsets.map fun (domain, version) => (domain, Int.bmod version 0x100000000))

/-- The version of the operator set of a domain. The default domain has
two names, of which a model may give a version for either. -/
def version? (versions : NameMap Int) (domain : String) : Option Int :=
  match versions.find? domain with
  | some version => some version
  | none => if domain.isEmpty then versions.find? "ai.onnx" else none

/-- Infers a node. -/
def inferNode (versions : NameMap Int) (state : State) (node : NodeOf Inferrer) :
    State × NodeOf Graph × Option InferenceFault :=
  match version? versions node.domain with
  | none =>
      (state, node.map Inferrer.graph, some (.noVersion node.name node.domain node.op))
  | some version =>
      if !node.domain.isEmpty then (state, node.map Inferrer.graph, none)
      else
        let (state, after, types) :=
          if node.op = "Scan" then inferScan version state node
          else
            (state, node.map Inferrer.graph,
             Option.toList <$> Typing.result node (node.inputs.map state.type?) version)
        match types with
        | .ok types => (state.updateAll (node.outputs.zip (types.map some)), after, none)
        | .error stop => (state, after, faultOf node stop)

/-- Infers nodes in order, up to the first that has a fault. -/
def inferNodes (versions : NameMap Int) (state : State) :
    List (NodeOf Inferrer) → State × List (NodeOf Graph) × Option InferenceFault
  | [] => (state, [], none)
  | node :: rest =>
      let (state, node, fault) := inferNode versions state node
      match fault with
      | some fault => (state, node :: rest.map (NodeOf.map Inferrer.graph), some fault)
      | none =>
          let (state, rest, fault) := inferNodes versions state rest
          (state, node :: rest, fault)

/-- The inputs, completed by what is known of the first of them from
outside up to the first contradiction, and whether there is none. -/
def refineInputs : List ValueInfo → List TensorType → List ValueInfo × Bool
  | infos, [] => (infos, true)
  | [], _ => ([], false)
  | info :: infos, type :: types =>
      match (info.type?.getD {}).refine type with
      | .error _ => (info :: infos, false)
      | .ok type =>
          let (infos, fits) := refineInputs infos types
          (info.setType type :: infos, fits)

/-- Whether a graph can take inputs from outside: it has enough of them,
and none of them is an initial tensor as well. -/
def accepts (graph : GraphOf Inferrer) (given : List TensorType) : Bool :=
  given.length ≤ graph.inputs.length
    && graph.inputs.all fun info => !graph.initializers.any (·.1 = info.name)

/-- Infers a graph from its declarations, whose inputs are complete, and
the names around it. -/
def inferDeclared (versions : NameMap Int) (graph : GraphOf Inferrer) (outer : Names)
    (places : Places) :
    Places × Graph × Except InferenceFault (List (Option TensorType)) :=
  let first := places.types.length
  let valueInfo := graph.valueInfo.zipIdx first
  let inputs := graph.inputs.zipIdx (first + graph.valueInfo.length)
  let outputs := graph.outputs.zipIdx (first + graph.valueInfo.length + graph.inputs.length)
  let declared := valueInfo ++ inputs ++ outputs
  let enter (typed : Bool) (names : Names) : Names :=
    declared.foldl
      (fun names (info, place) =>
        if info.type?.isSome = typed then names.insert info.name place else names)
      names
  let start : State :=
    { places := places.append (declared.map fun (info, _) => info.type?)
      names := enter true outer
      untyped := enter false .empty }
  let initial := graph.initializers.foldlM (fun state (name, payload) =>
    state.addInitial name payload) start
  let (state, nodes, fault) :=
    match initial with
    | .ok state => inferNodes versions state graph.nodes
    | .error fault => (start, graph.nodes.map (NodeOf.map Inferrer.graph), some fault)
  let inferred : GraphOf Graph :=
    { graph with
        nodes
        inputs := state.places.readAll inputs
        outputs := state.places.readAll outputs
        valueInfo := state.places.readAll (valueInfo ++ state.added) }
  (state.places, ⟨inferred⟩,
   match fault with
   | some fault => .error fault
   | none => .ok (outputs.map fun (_, place) => state.places.get place))

/-- Infers a graph whose inner graphs are known how to infer. -/
def inferrer (versions : NameMap Int) (graph : GraphOf Inferrer) : Inferrer where
  graph := ⟨graph.map Inferrer.graph⟩
  infer outer given places :=
    let start := graph.map Inferrer.graph
    if !accepts graph given then (places, ⟨start⟩, .ok none)
    else
      match refineInputs graph.inputs given with
      | (inputs, false) => (places, ⟨{ start with inputs }⟩, .ok none)
      | (inputs, true) =>
          let (places, inferred, types) :=
            inferDeclared versions { graph with inputs } outer places
          (places, inferred, types.map some)

end Inference

-- ==================================================================== models

/-- The model with all types that can be inferred, or why they cannot.
A whole model gets nothing from outside, so that its graph takes it. -/
def Model.inferTypes (model : Model) : Except InferenceFault Model :=
  let versions := Inference.versions model
  let graph := model.graph.body.map (Graph.fold (Inference.inferrer versions))
  let (_, graph, types) := Inference.inferDeclared versions graph .empty {}
  types.map fun _ => { model with graph }

end OnnxLowering
