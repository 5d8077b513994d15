/-
Lowering a graph. The inputs become inputs of the module, each node goes
to the handler that the operator set version selects, and the outputs
are returned. A graph inside a node is lowered on demand by the handler
of that node, in the scope that surrounds it then: `Handlers.importer`
turns a graph whose inner graphs have become importers into an importer
itself, and folding it over a graph reaches all depths.
-/
import OnnxLowering.Lowering.Finish
import OnnxLowering.Registry

namespace OnnxLowering

abbrev Handlers := Registry Handler

/-- The names of the domain of operators that handlers exist for. -/
def defaultDomains : List String := ["", "ai.onnx"]

namespace Lower

-- ==================================================================== inputs

/-- Adds an input of the graph to the module, with all that is declared
of it. -/
def addGraphInput (info : ValueInfo) : Lower Unit := do
  let ref ← withScope (·.addInput info.name info.name)
  modifyScope fun scope =>
    let known := scope.declarations.find? info.name
    let scope := scope.labelInput ref fun label =>
      { label with
          shape := known.map KnownType.shape
          dtype := known.map KnownType.dtype
          op := some "Input" }
    { scope.bind info.name ref with inputNames := scope.inputNames ++ [info.name] }

/-- Adds the inputs of the graph to the module. An input with an initial
tensor is a constant and no input of the module. -/
def addGraphInputs (inputs : List ValueInfo) : Lower Unit := do
  let initializers := (← scope).initializers
  for info in inputs do
    unless initializers.contains info.name do addGraphInput info

-- ===================================================================== nodes

variable {G : Type}

/-- The handler of a node. -/
def handlerOf (handlers : Handlers) (node : NodeOf G) : Lower Handler := do
  unless defaultDomains.contains node.domain do
    throw (.customDomain node.domain node.op node.name)
  let opset ← opset
  match handlers.find? node.op opset with
  | some (_, handler) => return handler
  | none =>
      if handlers.contains node.op then throw (.unsupportedOpset node.op opset node.name)
      else throw (.unsupportedOp node.op node.name)

/-- Binds the first named output to the one value that there is. The
other outputs have none, so nothing may read them. -/
def bindOne (node : NodeOf G) (ref : Ref) : Lower Unit :=
  match node.namedOutputs with
  | [] => return
  | name :: others => do
      bind name ref
      let users := (← scope).users
      if others.any (0 < users.count ·) then throw (.manyOutputs node.op)

/-- Binds the outputs in order. There may be more values than outputs. -/
def bindMany (node : NodeOf G) (refs : List Ref) : Lower Unit := do
  if refs.length < node.outputs.length then
    throw (.tooFewResults node.op refs.length node.outputs.length)
  for (name, ref) in node.outputs.zip refs do bindOutput name ref

/-- Binds the outputs of a node to what its handler has made of it. -/
def bindResult (node : NodeOf G) : Result → Lower Unit
  | .nothing => return
  | .one ref => bindOne node ref
  | .many refs => bindMany node refs
  | .unsupported => throw (.unsupportedResult node.op)

def lowerNode (handlers : Handlers) (node : NodeOf Importer) : Lower Unit := do
  let handler ← handlerOf handlers node
  report (.converting node.describe (← opset))
  bindResult node (← handler node)

def lowerNodes (handlers : Handlers) (nodes : List (NodeOf Importer)) : Lower Unit :=
  nodes.forM (lowerNode handlers)

-- =================================================================== outputs

/-- What the module returns: a single output as it is, if no tuple is
asked for. -/
def results (asTuple : Bool) : Lower Results := do
  match asTuple, ← (← scope).outputs.mapM value with
  | false, [ref] => return .single ref
  | _, refs => return .tuple refs

/-- Lowers a whole graph. -/
def lowerGraph (handlers : Handlers) (graph : GraphOf Importer) (asTuple : Bool) :
    Lower Module := do
  addGraphInputs graph.inputs
  lowerNodes handlers graph.nodes
  finish (← results asTuple)

/-- Lowers a graph inside a node. -/
def lowerSubgraph (handlers : Handlers) (graph : GraphOf Importer) : Lower Subgraph := do
  let module ← lowerGraph handlers graph true
  let scope ← scope
  return ⟨module, scope.inputNames, scope.outputs, scope.outerInputs⟩

end Lower

-- ================================================================= importers

/-- The outcome of a computation that starts in the scope of a graph, and
what was reported on the way. -/
def Lower.runIn {α G : Type} (graph : GraphOf G) (context : Context) (action : Lower α) :
    Except LowerError α × List LogRecord :=
  match Scope.ofGraph graph with
  | .error error => (.error (.payload error), [])
  | .ok scope =>
      match (action.run context).run { scope } with
      | .ok value session => (.ok value, session.log)
      | .error error session => (.error error, session.log)

namespace Handlers

variable (handlers : Handlers)

/-- A graph, as an importer, once the graphs inside are importers. -/
def importer (graph : GraphOf Importer) : Importer where
  lower context := (Lower.lowerSubgraph handlers graph).runIn graph context

/-- A graph whose inner graphs have become importers. -/
def prepare (graph : Graph) : GraphOf Importer :=
  graph.body.map (Graph.fold handlers.importer)

end Handlers

/-- Lowers a graph that no other graph surrounds. The log is there
whether or not that succeeds. -/
def Graph.lower (graph : Graph) (handlers : Handlers) (opset : Int) (asTuple : Bool) :
    Except LowerError Module × List LogRecord :=
  let graph := handlers.prepare graph
  (Lower.lowerGraph handlers graph asTuple).runIn graph { opset }

end OnnxLowering
