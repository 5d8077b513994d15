/-
Graphs in the exchange format. A graph is a list of nodes over named
values, with declared inputs, outputs and intermediate values and with
initial tensors; a node may carry whole graphs as attributes.

The structures are written over a parameter `G`, the type of the graphs
inside. `Graph` closes the recursion, and `Graph.fold` computes from the
inside out: it replaces every nested graph by what an algebra makes of
it. Whoever looks at one graph therefore never recurses, and finds in
place of a nested graph whatever the analysis at hand needs of it.
-/
namespace OnnxLowering

-- ============================================================ declarations

/-- A dimension of a declared shape. -/
inductive Dim where
  | unknown
  | value (size : Int)
  | symbol (name : String)
deriving DecidableEq, Repr

/-- A value as a graph declares it. The element type is a numeric code,
zero if there is none; the shape is missing if the rank is unknown. -/
structure ValueInfo where
  name : String
  elementCode : Int := 0
  shape : Option (List Dim) := none
deriving DecidableEq, Repr, Inhabited

/-- The elements of a stored tensor. Floating-point numbers, the parts
of complex ones included, are patterns of the format that their element
type is stored in. -/
inductive Content where
  | bytes (bytes : List UInt8)
  | integers (values : List Int)
  | patterns (values : List Nat)
  | texts (values : List String)
deriving DecidableEq, Repr

/-- A tensor as it is stored. -/
structure Payload where
  elementCode : Int
  dims : List Int := []
  content : Content
deriving DecidableEq, Repr

-- ==================================================================== graphs

/-- An attribute of a node. Single-precision numbers are kept as
patterns, and texts as the bytes they are stored in. -/
inductive AttributeOf (G : Type) where
  | int (value : Int)
  | float (pattern : Nat)
  | text (bytes : List UInt8)
  | tensor (payload : Payload)
  | graph (graph : G)
  | graphs (graphs : List G)
  | ints (values : List Int)
  | floats (patterns : List Nat)
  | texts (values : List (List UInt8))

/-- An operation on named values. An empty name among the inputs or
outputs stands for one that is left out. -/
structure NodeOf (G : Type) where
  op : String
  domain : String := ""
  name : String := ""
  inputs : List String := []
  outputs : List String := []
  attributes : List (String × AttributeOf G) := []

structure GraphOf (G : Type) where
  name : String := ""
  nodes : List (NodeOf G) := []
  inputs : List ValueInfo := []
  outputs : List ValueInfo := []
  initializers : List (String × Payload) := []
  valueInfo : List ValueInfo := []

inductive Graph where
  | mk (body : GraphOf Graph)

/-- A graph together with the versions of the operator sets that it was
written for. -/
structure Model where
  opsets : List (String × Int)
  graph : Graph

-- ===================================================================== nodes

namespace NodeOf

variable {G : Type} (node : NodeOf G)

/-- How a node is referred to in messages: by its operation and its
name, or the name of its first output. -/
def describe : String :=
  let name := if node.name.isEmpty then node.outputs.headD "" else node.name
  node.op ++ " node '" ++ name ++ "'"

/-- The outputs that are not left out. -/
def namedOutputs : List String := node.outputs.filter (!·.isEmpty)

/-- The position among the named outputs that a possibly negative one
means. Positions beyond the last output are left as they are. -/
def outputPosition (position : Int) : Option Nat :=
  let i := if position < 0 then position + node.namedOutputs.length else position
  if i < 0 then none else some i.toNat

/-- The first attribute of the given name that is a graph. -/
def graph? (name : String) : Option G :=
  node.attributes.findSome? fun (key, a) =>
    match a with
    | .graph g => if key = name then some g else none
    | _ => none

end NodeOf

-- ====================================================================== maps

variable {A B : Type}

def AttributeOf.map (f : A → B) : AttributeOf A → AttributeOf B
  | .int value => .int value
  | .float pattern => .float pattern
  | .text bytes => .text bytes
  | .tensor payload => .tensor payload
  | .graph g => .graph (f g)
  | .graphs gs => .graphs (gs.map f)
  | .ints values => .ints values
  | .floats patterns => .floats patterns
  | .texts values => .texts values

def NodeOf.map (f : A → B) (node : NodeOf A) : NodeOf B :=
  { node with attributes := node.attributes.map fun (name, a) => (name, a.map f) }

def GraphOf.map (f : A → B) (graph : GraphOf A) : GraphOf B :=
  { graph with nodes := graph.nodes.map (NodeOf.map f) }

-- ===================================================================== folds

namespace Graph

def body : Graph → GraphOf Graph
  | ⟨body⟩ => body

variable {R : Type} (algebra : GraphOf R → R)

mutual

/-- What an algebra makes of a graph, once it has been applied to all
graphs inside. -/
def fold : Graph → R
  | ⟨⟨name, nodes, inputs, outputs, initializers, valueInfo⟩⟩ =>
      algebra ⟨name, foldNodes nodes, inputs, outputs, initializers, valueInfo⟩

def foldNodes : List (NodeOf Graph) → List (NodeOf R)
  | [] => []
  | ⟨op, domain, name, inputs, outputs, attributes⟩ :: rest =>
      ⟨op, domain, name, inputs, outputs, foldAttributes attributes⟩ :: foldNodes rest

def foldAttributes : List (String × AttributeOf Graph) → List (String × AttributeOf R)
  | [] => []
  | (name, a) :: rest => (name, foldAttribute a) :: foldAttributes rest

def foldAttribute : AttributeOf Graph → AttributeOf R
  | .int value => .int value
  | .float pattern => .float pattern
  | .text bytes => .text bytes
  | .tensor payload => .tensor payload
  | .graph g => .graph (fold g)
  | .graphs gs => .graphs (foldAll gs)
  | .ints values => .ints values
  | .floats patterns => .floats patterns
  | .texts values => .texts values

def foldAll : List Graph → List R
  | [] => []
  | g :: rest => fold g :: foldAll rest

end

theorem foldAll_eq (gs : List Graph) : foldAll algebra gs = gs.map (fold algebra) := by
  induction gs with
  | nil => rfl
  | cons g gs ih => rw [foldAll, ih, List.map_cons]

theorem foldAttribute_eq (a : AttributeOf Graph) :
    foldAttribute algebra a = a.map (fold algebra) := by
  cases a <;> simp only [foldAttribute, AttributeOf.map, foldAll_eq]

theorem foldAttributes_eq (attributes : List (String × AttributeOf Graph)) :
    foldAttributes algebra attributes =
      attributes.map fun (name, a) => (name, a.map (fold algebra)) := by
  induction attributes with
  | nil => rfl
  | cons a rest ih => rw [foldAttributes, ih, List.map_cons, foldAttribute_eq]

theorem foldNodes_eq (nodes : List (NodeOf Graph)) :
    foldNodes algebra nodes = nodes.map (NodeOf.map (fold algebra)) := by
  induction nodes with
  | nil => rfl
  | cons node rest ih =>
      rw [foldNodes, ih, List.map_cons, foldAttributes_eq]
      rfl

/-- The one equation of `fold`: the nested graphs are folded, and the
algebra is applied to the rest. -/
theorem fold_eq (g : Graph) : g.fold algebra = algebra (g.body.map (fold algebra)) := by
  cases g with
  | mk body =>
      cases body
      simp only [fold, foldNodes_eq, Graph.body, GraphOf.map]

end Graph

end OnnxLowering
