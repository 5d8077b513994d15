/-
What labels promise. In a run of a module a label tells the truth if the
value that it is on is a tensor of the labelled shape; sizes that it leaves
open do not matter. `ModuleOf.LabelsHold` says so of all labels of a
module, and of all those of the bodies of its loops, at every iteration.
-/
import Mathlib.Data.List.Forall2
import OnnxLowering.Proofs.Module.Listing

namespace OnnxLowering

/-- A tensor has a known shape: as many dimensions, and every known
size. -/
def KnownShape.Matches (known : KnownShape) (t : Tensor) : Prop :=
  List.Forall₂ (fun (size? : Option Int) (size : Nat) => ∀ s ∈ size?, s = size) known t.shape

instance (known : KnownShape) (t : Tensor) : Decidable (known.Matches t) :=
  inferInstanceAs (Decidable (List.Forall₂ _ _ _))

/-- A tensor has its own shape. -/
theorem KnownShape.matches_known (t : Tensor) : KnownShape.Matches t.shape.known t := by
  unfold KnownShape.Matches Shape.known
  rw [List.forall₂_map_left_iff, List.forall₂_same]
  rintro size - s hs
  exact (Option.some.inj hs).symm

/-- A value is a tensor of the shape on a label, if there is one. -/
def Label.Holds (label : Label) (value : Value) : Prop :=
  ∀ known ∈ label.shape.join, ∃ t, value = .ofTensor t ∧ known.Matches t

theorem Label.holds_empty (value : Value) : Label.Holds {} value := fun _ h => nomatch h

/-- What a reference refers to does not depend on later values. -/
theorem Ref.Within.value_append {ref : Ref} {count : Nat} {inputs : List Operand}
    {done : List Value} (h : ref.Within count done.length) (new : List Value) :
    ref.value inputs (done ++ new) = ref.value inputs done := by
  cases ref with
  | input i => rfl
  | node i => simp only [Ref.value, List.getD_eq_getElem?_getD, List.getElem?_append_left h]

/-- At some iteration a loop hands certain arguments to its body. -/
def Wiring.Hands (wiring : Wiring) (arity : Nat) (body : Wiring.Body)
    (inputs arguments : List Operand) : Prop :=
  ∃ first count iteration state, wiring.start arity inputs = .ok first
    ∧ wiring.iterations inputs = .ok count ∧ iteration < count
    ∧ wiring.iterate body inputs { arguments := first } 0 iteration = .ok state
    ∧ wiring.feed inputs state.arguments iteration = .ok arguments

namespace ModuleOf

/-- What a module does as the body of a loop. -/
def body (m : Module) : Wiring.Body := fun arguments => (m.eval arguments).map Output.operands

/-- In the run of a module on certain arguments all nodes have values, and
every label holds, here and in every run of the body of a loop. -/
inductive LabelsHold : Module → List Operand → Prop
  | mk {m : Module} {arguments inputs : List Operand} {done : List Value}
      (inputs_eq : Arguments.bind m.parameters arguments = inputs)
      (evaluates : (m.map Loop.meaning).evalNodes ((m.map Loop.meaning).argument? arguments) inputs
        = .ok done)
      (labels : ∀ ref : Ref, ref.Within m.inputs.length m.nodes.length →
        (m.label ref).Holds (ref.value inputs done))
      (loops : ∀ node ∈ m.nodes, ∀ name operands, node.action = .call name operands →
        ∀ wiring arity body, m.loops.find? name = some (.mk wiring arity body) →
        ∀ xs, wiring.Hands arity body.body
          (operands.map fun ref => (ref.value inputs done).operand) xs → LabelsHold body xs) :
      LabelsHold m arguments

variable {m : Module} {arguments : List Operand}

/-- The labels of a module in a run of which nothing is hidden. -/
structure Labelled (m : Module) (arguments : List Operand) (done : List Value) : Prop where
  values : (m.map Loop.meaning).valuesFrom arguments [] m.nodes = .ok done
  labels : ∀ ref : Ref, ref.Within m.inputs.length m.nodes.length →
    (m.label ref).Holds (ref.value arguments done)
  loops : ∀ node ∈ m.nodes, ∀ name operands, node.action = .call name operands →
    ∀ wiring arity body, m.loops.find? name = some (.mk wiring arity body) →
    ∀ xs, wiring.Hands arity body.body
      (operands.map fun ref => (ref.value arguments done).operand) xs → body.LabelsHold xs

theorem Legible.map_meaning (h : m.Legible) : (m.map Loop.meaning).Legible :=
  ⟨h.sources, h.visible⟩

theorem labelsHold_iff (hlegible : m.Legible) (hlength : arguments.length = m.inputs.length) :
    m.LabelsHold arguments ↔ ∃ done, m.Labelled arguments done := by
  have hinputs : Arguments.bind m.parameters arguments = arguments :=
    hlegible.map_meaning.bind hlength
  have hvalues := @Legible.evalNodes _ arguments hlegible.map_meaning arguments
  constructor
  · rintro ⟨rfl, hdone, hlabels, hloops⟩
    rw [hinputs] at hdone hlabels hloops
    exact ⟨_, hvalues.symm.trans hdone, hlabels, hloops⟩
  · rintro ⟨done, hdone, hlabels, hloops⟩
    exact ⟨hinputs, hvalues.trans hdone, hlabels, hloops⟩

end ModuleOf

end OnnxLowering
