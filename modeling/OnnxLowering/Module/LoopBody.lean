/-
Making a module the body of a loop. A body takes elements and returns
elements, while a loop hands it slices, in which the sliced axis has
size one, and joins slices of what it returns. So the sliced inputs are
squeezed before anything reads them, and the outputs to be joined are
unsqueezed before they are returned.
-/
import OnnxLowering.Module.Basic

namespace OnnxLowering.ModuleOf

variable {L : Type}

/-- Replaces what is known of the shape of an input. -/
def setInputShape (m : ModuleOf L) (index : Nat) (shape : Option KnownShape) :
    ModuleOf L :=
  { m with
      inputs := m.inputs.modify index fun input =>
        { input with label := { input.label with shape := some shape } } }

/-- Where a value goes when the `count` inputs from `first` on are
squeezed: one of these becomes the node that squeezes it, and all other
nodes move back. -/
def squeezed (first count : Nat) : Ref → Ref
  | .input i => if first ≤ i ∧ i < first + count then .node (i - first) else .input i
  | .node i => .node (i + count)

/-- Squeezes the inputs from `first` on, each at its axis, in front of
all other nodes. The other nodes and the results get the squeezed
values. -/
def squeezeInputs (m : ModuleOf L) (first : Nat) (axes : List Int) : ModuleOf L :=
  let redirect := squeezed first axes.length
  let squeezes : List Node := axes.zipIdx.map fun (axis, i) =>
    ⟨.apply (.squeeze axis) [.input (first + i)], {}⟩
  { m with
      nodes := squeezes ++ m.nodes.map fun node => { node with action := node.action.map redirect }
      results := m.results.map redirect }

/-- Unsqueezes the results from `first` on, each at its axis, behind all
other nodes. -/
def unsqueezeResults (m : ModuleOf L) (first : Nat) (axes : List Int) : ModuleOf L :=
  let refs := m.results.refs
  let unsqueezes : List Node := ((refs.drop first).zip axes).map fun (ref, axis) =>
    ⟨.apply (.unsqueeze axis) [ref], {}⟩
  { m with
      nodes := m.nodes ++ unsqueezes
      results := .tuple (refs.take first
        ++ (List.range unsqueezes.length).map fun i => .node (m.nodes.length + i)) }

end OnnxLowering.ModuleOf
