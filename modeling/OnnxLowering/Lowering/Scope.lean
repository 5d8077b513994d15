/-
The scope of a graph under construction: what has been lowered so far
and what every name stands for. Names are looked up in a chain of
scopes, the one of the graph itself first and then those of the graphs
around it, nearest first. Everything in this module is a function of
that chain; nothing here changes a scope.

A name can be known in four ways. It is bound to a value of the module;
or it is a constant that has been made a value already; or it is an
initial tensor of the graph; or its tensor is known for another reason.
-/
import OnnxLowering.Graph.Payload
import OnnxLowering.Module.Basic
import OnnxLowering.Naming.Supply

namespace OnnxLowering

/-- A shape all of whose dimensions are known. -/
def Shape.known (shape : Shape) : KnownShape := shape.map fun size => some (Int.ofNat size)

/-- A declared value, as far as it is known: the shape if the rank is,
and the type. -/
structure KnownType where
  shape : Option KnownShape
  dtype : Option DType
deriving DecidableEq, Repr

def ValueInfo.known (info : ValueInfo) : KnownType where
  shape := info.shape.map fun dims => dims.map fun
    | .value size => some size
    | _ => none
  dtype := DType.ofCode info.elementCode

/-- All declarations of a graph. If a name is declared more than once,
the outputs have the last word, and intermediate values come before the
inputs. -/
def GraphOf.declarations {G : Type} (graph : GraphOf G) : NameMap KnownType :=
  .ofList ((graph.inputs ++ graph.valueInfo ++ graph.outputs).map fun info =>
    (info.name, info.known))

/-- How often each name is read, by nodes and as an output of the
graph. -/
def GraphOf.users {G : Type} (graph : GraphOf G) : Counters :=
  let reads := graph.nodes.flatMap NodeOf.inputs ++ graph.outputs.map ValueInfo.name
  (reads.filter (!·.isEmpty)).foldl
    (fun counters name => counters.insert name (counters.count name + 1)) .empty

structure Scope where
  -- the module so far
  inputs : List Input := []
  nodes : List Node := []
  /-- The names of the nodes in the textual form, in step with
  `nodes`. -/
  nodeNames : List String := []
  supply : NameSupply := {}
  attributes : NameMap Attribute := .empty
  loops : NameMap Loop := .empty
  /-- Once a module has been made of this scope, the loops it had then:
  only they can be called from then on. -/
  finished : Option (List String) := none
  -- what names stand for
  bindings : NameMap Ref := .empty
  constants : NameMap Ref := .empty
  initializers : NameMap Tensor := .empty
  tensors : NameMap Tensor := .empty
  declarations : NameMap KnownType := .empty
  -- the interface
  outputs : List String := []
  users : Counters := .empty
  inputNames : List String := []
  outerInputs : List String := []
  -- how often names have been handed out
  loopCounters : Counters := .empty
  attributeCounters : Counters := .empty
  inputCounters : Counters := .empty

namespace Scope

/-- The scope of a graph before anything of it is lowered. -/
def ofGraph {G : Type} (graph : GraphOf G) : Except PayloadError Scope := do
  let initializers ← graph.initializers.mapM fun (name, payload) => do
    return (name, ← payload.toTensor)
  return {
    initializers := .ofList initializers
    tensors := .ofList initializers
    declarations := graph.declarations
    outputs := graph.outputs.map ValueInfo.name
    users := graph.users }

/-- The label of a value of the module. -/
def label (scope : Scope) : Ref → Label
  | .input i => (scope.inputs[i]?.map Input.label).getD {}
  | .node i => (scope.nodes[i]?.map Node.label).getD {}

/-- Whether a name stands for something in this scope itself. -/
def defines (scope : Scope) (name : String) : Bool :=
  scope.bindings.contains name || scope.tensors.contains name
    || scope.initializers.contains name

end Scope

/-- A scope and the scopes around it, nearest first. -/
abbrev Scopes := List Scope

namespace Scopes

/-- Whether a name stands for something. -/
def defines : Scopes → String → Bool
  | [], _ => false
  | scope :: outer, name => scope.defines name || defines outer name

/-- The tensor that a name is known to stand for. A name that a scope
binds to a value of its module is not looked up any further, since it
hides whatever it stands for outside. -/
def tensor? : Scopes → String → Option Tensor
  | [], _ => none
  | scope :: outer, name =>
      match scope.tensors.find? name with
      | some tensor => some tensor
      | none => if scope.bindings.contains name then none else tensor? outer name

/-- The shape that a name is known to have: the declared one, else that
of the known tensor, else the one its value is labelled with, else what
is known outside. -/
def shape? : Scopes → String → Option KnownShape
  | [], _ => none
  | scope :: outer, name =>
      match (scope.declarations.find? name).bind KnownType.shape with
      | some shape => some shape
      | none =>
          match scope.tensors.find? name with
          | some tensor => some tensor.shape.known
          | none =>
              match scope.bindings.find? name with
              | some ref => (scope.label ref).shape.join
              | none => shape? outer name

end Scopes

end OnnxLowering
