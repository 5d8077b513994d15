/-
Running a module. The nodes are evaluated in order, each from the values
of the inputs and of the nodes before it; the value of a loop is what
its body, run as a module of its own, makes the loop return. What a loop
does is a parameter of the evaluation of a single module (`ModuleOf.run`
runs a module over the meanings of its loops), and `Loop.meaning` ties
the knot.
-/
import OnnxLowering.Module.Basic
import OnnxLowering.Module.Iterate
import OnnxLowering.Naming.Arguments
import OnnxLowering.Signal.Fourier
import OnnxLowering.Signal.Frame
import OnnxLowering.Tensor.Random

namespace OnnxLowering

/-- The value of a node: one operand, or what a loop returns. -/
inductive Value where
  | one (operand : Operand)
  | many (operands : List Operand)
deriving DecidableEq, Repr

/-- A value as an operand; a tuple is none. -/
def Value.operand : Value → Operand
  | .one operand => operand
  | .many _ => none

namespace Op

/-- A number that is a fixed parameter of an operation. Numbers that are
not finite are written as words in the textual form, so that a parameter
of that name stands in for them: `hidden` is the argument for the
parameter of a name. -/
def quantity (hidden : String → Option Operand) (pattern : Nat) :
    Except RunError Quantity :=
  let x := BinaryFormat.double.decode pattern
  let word (name : String) (negative : Bool) : Except RunError Quantity :=
    match hidden name with
    | none => .ok (.number x)
    | some operand =>
        let quantity : Quantity := (operand.map .tensor).getD .absent
        if negative then quantity.negate else .ok quantity
  match x with
  | .nan => word Reserved.undefinedNumber false
  | .infinite negative => word Reserved.infiniteNumber negative
  | .finite .. => .ok (.number x)

/-- Mean, scale and seed of an operation that draws random numbers. -/
def quantities (hidden : String → Option Operand) (mean scale : Nat) (seed : Option Nat) :
    Except RunError (Quantity × Quantity × Quantity) := do
  let mean ← quantity hidden mean
  let scale ← quantity hidden scale
  let seed ← match seed with
    | some pattern => quantity hidden pattern
    | none => pure .absent
  return (mean, scale, seed)

/-- Applies an operation to operands, as many as it takes. -/
def apply (op : Op) (hidden : String → Option Operand) (values : List Value) :
    Except RunError Value := do
  let one (t : Tensor) : Value := .one (some t)
  match op, values with
  | .item index, [.many operands] => return .one (← elementAt operands index)
  | .add, [a, b] => return one (← Tensor.add (← a.operand.value) (← b.operand.value))
  | .multiply, [a, b] =>
      return one (← Tensor.multiply (← a.operand.value) (← b.operand.value))
  | .sqrt, [a] => return one (← (← a.operand.value).sqrt)
  | .squeeze axis, [a] => return one (← (← a.operand.value).squeeze axis)
  | .unsqueeze axis, [a] => return one (← (← a.operand.value).unsqueeze axis)
  | .align axis, [a, b] =>
      return one (← Tensor.align (← a.operand.tensor) (← b.operand.tensor) axis)
  | .scatter, [data, indices, updates] =>
      return one (← Tensor.scatter (← data.operand.tensor) (← indices.operand.tensor)
        (← updates.operand.tensor))
  | .random dims dtype mean scale seed, [] =>
      let (mean, scale, seed) ← quantities hidden mean scale seed
      return one (← Tensor.random dims dtype mean scale seed)
  | .randomLike dtype mean scale seed, [a] =>
      let (mean, scale, seed) ← quantities hidden mean scale seed
      let t ← a.operand.tensor
      return one (← Tensor.random (t.shape.map Int.ofNat) (dtype.getD t.dtype) mean scale seed)
  | .frames length step, [a] =>
      return one (← (← a.operand.tensor).frames length step)
  | .window, [a, b] =>
      let window ← b.operand.tensor
      return one (← Tensor.applyWindow (← a.operand.tensor) window)
  | .transform length oneSided, [a] =>
      return one (← (← a.operand.tensor).transform length oneSided)
  | _, _ => throw .argumentCount

/-- What goes wrong with an operation when a parameter hides the library
of the textual form: the parameter itself has to have what the operation
needs of the library. A tensor has functions of the same names, but on
nothing but itself. -/
def hiddenFault? (op : Op) (parameter : Operand) : Option RunError :=
  match op with
  | .sqrt | .squeeze _ | .unsqueeze _ =>
      some (if parameter.isSome then .hiddenFunction else .hiddenType)
  | .random .. | .randomLike (some _) .. => some .hiddenType
  | _ => none

end Op

/-- What a module returns when it has run. -/
inductive Output where
  | single (operand : Operand)
  | tuple (operands : List Operand)
deriving DecidableEq, Repr

/-- The values that a module returns as a tuple. -/
def Output.operands : Output → List Operand
  | single operand => [operand]
  | tuple operands => operands

/-- What it means to run a loop. -/
abbrev Meaning := List Operand → Except RunError (List Operand)

namespace Ref

/-- The value that a reference stands for, once the inputs and the nodes
so far have values. -/
def value (inputs : List Operand) (done : List Value) : Ref → Value
  | input i => .one (inputs.getD i none)
  | node i => done.getD i (.one none)

end Ref

namespace ModuleOf

/-- The argument for the parameter of a name, if there is one. -/
def argument? (m : ModuleOf Meaning) (arguments : List Operand) (name : String) :
    Option Operand :=
  ((m.inputs.map Input.name).zip arguments).lookup name

/-- The value of a node. What the textual form calls by a name can be
hidden by an argument of that name. -/
def evalNode (m : ModuleOf Meaning) (hidden : String → Option Operand)
    (inputs : List Operand) (done : List Value) (node : Node) : Except RunError Value :=
  match node.action with
  | .load name => .ok (.one ((m.attributes.find? name).map Attribute.tensor))
  | .apply op operands =>
      match (hidden Reserved.library).bind op.hiddenFault? with
      | some error => .error error
      | none => op.apply hidden (operands.map (Ref.value inputs done))
  | .call name operands =>
      match m.loops.find? name with
      | some meaning =>
          (meaning (operands.map fun ref => (ref.value inputs done).operand)).map .many
      | none => .error .absentOperand
  | .yield _ => .ok (.one none)

/-- The values of all nodes, in order. -/
def evalNodes (m : ModuleOf Meaning) (hidden : String → Option Operand)
    (inputs : List Operand) : Except RunError (List Value) :=
  m.nodes.foldlM
    (fun done node => do return done ++ [← m.evalNode hidden inputs done node]) []

/-- Runs a module over the meanings of its loops. There has to be one
argument for every input. -/
def run (m : ModuleOf Meaning) (arguments : List Operand) : Except RunError Output := do
  unless arguments.length = m.inputs.length do throw .argumentCount
  let inputs := Arguments.bind (m.inputs.map Input.name) arguments
  let done ← m.evalNodes (m.argument? arguments) inputs
  let operand (ref : Ref) : Operand := (ref.value inputs done).operand
  match m.results with
  | .single ref => return .single (operand ref)
  | .tuple refs => return .tuple (refs.map operand)

end ModuleOf

namespace Loop

/-- What it means to run a loop over a body whose own loops have a
meaning. -/
def meaningOver (wiring : Wiring) (arity : Nat) (body : ModuleOf Meaning) : Meaning :=
  wiring.run arity fun arguments => (body.run arguments).map Output.operands

/-- What it means to run a loop. -/
def meaning (loop : Loop) : Meaning :=
  loop.fold (fun _ => .error .absentOperand) meaningOver

end Loop

/-- Runs a module. -/
def ModuleOf.eval (m : Module) (arguments : List Operand) : Except RunError Output :=
  (m.map Loop.meaning).run arguments

end OnnxLowering
