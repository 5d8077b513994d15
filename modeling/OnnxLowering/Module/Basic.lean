/-
Lowered modules. A module is a list of inputs and a list of nodes, each
of which applies an operation to inputs and earlier nodes, together with
the tensors and loops that its nodes refer to by name and the values
that it returns.

Inputs and nodes are numbered separately. Both lists only ever grow at
their ends while a module is under construction, so a reference stays
valid when an input is added after nodes exist; in print all inputs come
first.

A loop holds a module as its body. As with graphs, the structures are
written over a parameter `L`, the type of the loops inside.
-/
import OnnxLowering.Module.Wiring
import OnnxLowering.NameMap
import OnnxLowering.Tensor.Basic

namespace OnnxLowering

-- ============================================================= labels

/-- A shape as far as it is known: dimensions without a known size are
`none`. -/
abbrev KnownShape := List (Option Int)

/-- What a node is known to compute. Every entry is there or not; an
entry that is there may still say that the shape or type is unknown. -/
structure Label where
  name : Option String := none
  identifier : Option String := none
  op : Option String := none
  outputs : Option (List String) := none
  shape : Option (Option KnownShape) := none
  dtype : Option (Option DType) := none
deriving DecidableEq, Repr, Inhabited

-- =================================================================== nodes

/-- A value of a module: an input or the result of a node. -/
inductive Ref where
  | input (index : Nat)
  | node (index : Nat)
deriving DecidableEq, Repr

/-- An operation, with the parameters that are fixed when a module is
built. Numbers are patterns of the double format. -/
inductive Op where
  | add
  | multiply
  | sqrt
  | squeeze (axis : Int)
  | unsqueeze (axis : Int)
  /-- A component of what a loop returns. -/
  | item (index : Nat)
  | align (axis : Option Int)
  | scatter
  | random (dims : List Int) (dtype : DType) (mean scale : Nat) (seed : Option Nat)
  | randomLike (dtype : Option DType) (mean scale : Nat) (seed : Option Nat)
  | frames (length step : Int)
  | window
  | transform (length : Int) (oneSided : Bool)
deriving DecidableEq, Repr

namespace Op

/-- The name of the function that carries out an operation in the
textual form of a module. -/
def function : Op → String
  | add => "add"
  | multiply => "mul"
  | sqrt => "sqrt"
  | squeeze _ => "squeeze"
  | unsqueeze _ => "unsqueeze"
  | item _ => "getitem"
  | align _ => "_legacy_broadcast"
  | scatter => "_scatter_nd"
  | random .. => "_random_normal"
  | randomLike .. => "_random_normal_like"
  | frames .. => "_frame_signal"
  | window => "_apply_window"
  | transform .. => "_dft"

end Op

/-- What a module returns: one value, or a tuple of values. -/
inductive Results where
  | single (ref : Ref)
  | tuple (refs : List Ref)
deriving DecidableEq, Repr

/-- What a node does. -/
inductive Action where
  /-- Reads a tensor of the module. -/
  | load (name : String)
  | apply (op : Op) (operands : List Ref)
  /-- Runs a loop of the module. -/
  | call (name : String) (operands : List Ref)
  /-- Returns values. It occurs among the nodes of a module only if they
  were already returned from before the module was built once more. -/
  | yield (results : Results)
deriving DecidableEq, Repr

structure Node where
  action : Action
  label : Label := {}
deriving DecidableEq, Repr

structure Input where
  name : String
  label : Label := {}
deriving DecidableEq, Repr

/-- A tensor of a module. -/
structure Attribute where
  tensor : Tensor
  trainable : Bool
deriving DecidableEq, Repr

-- ================================================================= modules

structure ModuleOf (L : Type) where
  inputs : List Input
  nodes : List Node
  results : Results
  attributes : NameMap Attribute := .empty
  loops : NameMap L := .empty

/-- What a module can run by name: a loop, or something that is only
known to be there. -/
inductive Loop where
  | unknown
  | mk (wiring : Wiring) (arity : Nat) (body : ModuleOf Loop)

abbrev Module := ModuleOf Loop

namespace Ref

/-- The position of a value in print, where all inputs come first. -/
def position (inputCount : Nat) : Ref → Nat
  | input i => i
  | node i => inputCount + i

/-- The same value after `count` nodes have been put in front. -/
def shift (count : Nat) : Ref → Ref
  | input i => .input i
  | node i => .node (i + count)

end Ref

/-- What a list of nodes returns: what the last of them that returns
values does. -/
def returned? (nodes : List Node) : Option Results :=
  nodes.reverse.findSome? fun node =>
    match node.action with
    | .yield results => some results
    | _ => none

/-- How it is put that a list of nodes returns nothing. -/
def nothingReturned : String := "FX graph has no output node"

def Results.refs : Results → List Ref
  | single ref => [ref]
  | tuple refs => refs

def Results.map (f : Ref → Ref) : Results → Results
  | single ref => .single (f ref)
  | tuple refs => .tuple (refs.map f)

namespace Action

/-- The values that an action reads. -/
def refs : Action → List Ref
  | load _ => []
  | apply _ operands => operands
  | call _ operands => operands
  | yield results => results.refs

/-- The same action on other values. -/
def map (f : Ref → Ref) : Action → Action
  | load name => .load name
  | apply op operands => .apply op (operands.map f)
  | call name operands => .call name (operands.map f)
  | yield results => .yield (results.map f)

/-- The attribute or loop that an action refers to by name. -/
def target? : Action → Option String
  | load name => some name
  | call name _ => some name
  | _ => none

end Action

namespace ModuleOf

variable {A B : Type}

/-- The same module over other loops. -/
def map (f : A → B) (m : ModuleOf A) : ModuleOf B :=
  { m with loops := ⟨m.loops.entries.map fun (name, loop) => (name, f loop)⟩ }

/-- The label of a value. -/
def label (m : ModuleOf A) : Ref → Label
  | .input i => (m.inputs[i]?.map Input.label).getD {}
  | .node i => (m.nodes[i]?.map Node.label).getD {}

end ModuleOf

-- =================================================================== folds

namespace Loop

variable {R : Type} (default : R) (algebra : Wiring → Nat → ModuleOf R → R)

mutual

/-- What an algebra makes of a loop, once it has been applied to all
loops in its body. -/
def fold : Loop → R
  | unknown => default
  | mk wiring arity ⟨inputs, nodes, results, attributes, ⟨loops⟩⟩ =>
      algebra wiring arity ⟨inputs, nodes, results, attributes, ⟨foldAll loops⟩⟩

def foldAll : List (String × Loop) → List (String × R)
  | [] => []
  | (name, loop) :: rest => (name, fold loop) :: foldAll rest

end

theorem foldAll_eq (loops : List (String × Loop)) :
    foldAll default algebra loops =
      loops.map fun (name, loop) => (name, loop.fold default algebra) := by
  induction loops with
  | nil => rfl
  | cons entry rest ih => rw [foldAll, ih, List.map_cons]

/-- The one equation of `fold` at a loop with a body. -/
theorem fold_mk (wiring : Wiring) (arity : Nat) (body : Module) :
    (mk wiring arity body).fold default algebra =
      algebra wiring arity (body.map (fold default algebra)) := by
  obtain ⟨inputs, nodes, results, attributes, ⟨loops⟩⟩ := body
  simp only [fold, foldAll_eq, ModuleOf.map]

end Loop

end OnnxLowering
