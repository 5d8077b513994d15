/-
Values under construction: adding inputs and nodes to a module, giving
tensors and loops names on it, and finding the value that a name of the
graph stands for. A constant becomes a value only when it is first
asked for, and a name from outside only when it is first read; after
that the name is bound, so that nothing is added twice.
-/
import OnnxLowering.Lowering.Session

namespace OnnxLowering

-- ======================================================= nodes and inputs

/-- The variable name that is wished for what is stored under a name:
the name in snake case, without the underscores that mark it as
special. -/
def variableWish (name : String) : String :=
  let chars := name.toList
  let special := chars.take 2 = ['_', '_'] && chars.reverse.take 2 = ['_', '_']
  Identifier.snakeCase
    (if special then String.ofList ((chars.drop 2).take (chars.length - 4)) else name)

/-- The variable name that is wished for the result of an action. -/
def Action.wish : Action → String
  | .load name => variableWish name
  | .apply op _ => variableWish op.function
  | .call name _ => variableWish name
  | .yield _ => "output"

namespace Scope

/-- Appends a node. -/
def addNode (scope : Scope) (action : Action) (label : Label) : Ref × Scope :=
  let (name, supply) := scope.supply.create action.wish
  (.node scope.nodes.length,
   { scope with
      nodes := scope.nodes ++ [⟨action, label⟩]
      nodeNames := scope.nodeNames ++ [name]
      supply })

/-- Appends an input for the value `source`, under a name made from
`preferred`. The input takes that name even if the supply of variable
names would have chosen another one. -/
def addInput (scope : Scope) (source preferred : String) : Ref × Scope :=
  let (name, inputCounters) := scope.inputCounters.take (Identifier.sanitize preferred)
  let (_, supply) := scope.supply.create (variableWish name)
  let label : Label := { name := some source, identifier := some name }
  (.input scope.inputs.length,
   { scope with inputs := scope.inputs ++ [⟨name, label⟩], inputCounters, supply })

/-- Makes a name stand for a value. -/
def bind (scope : Scope) (name : String) (ref : Ref) : Scope :=
  { scope with bindings := scope.bindings.insert name ref }

/-- Adds to what an input is known to be. -/
def labelInput (scope : Scope) (ref : Ref) (f : Label → Label) : Scope :=
  match ref with
  | .input i =>
      { scope with
          inputs := scope.inputs.modify i fun input => ⟨input.name, f input.label⟩ }
  | .node _ => scope

/-- Whether a tensor can be put under a name: nothing of another kind
is there. A tensor of the same kind is replaced. -/
def admitsAttribute (scope : Scope) (name : String) (trainable : Bool) : Bool :=
  !Reserved.members.contains name && !scope.loops.contains name
    && (scope.attributes.find? name).all (·.trainable = trainable)

/-- Whether a loop can be put under a name. -/
def admitsLoop (scope : Scope) (name : String) : Bool :=
  !Reserved.members.contains name && !scope.attributes.contains name

end Scope

namespace Lower

/-- Changes the scope and returns a value. -/
def withScope {α : Type} (f : Scope → α × Scope) : Lower α := do
  let (value, scope) := f (← scope)
  modifyScope fun _ => scope
  return value

def addNode (action : Action) (label : Label) : Lower Ref :=
  withScope (·.addNode action label)

def bind (name : String) (ref : Ref) : Lower Unit := modifyScope (·.bind name ref)

/-- Binds an output name, unless the output is left out. -/
def bindOutput (name : String) (ref : Ref) : Lower Unit := do
  unless name.isEmpty do bind name ref

-- ================================================================ constants

/-- Stores a tensor on the module and appends a node that reads it. It
is known from then on under the name `source`, from which its name on
the module is made. Unless it is said otherwise, tensors that have
derivatives can be trained. -/
def materialise (source : String) (tensor : Tensor) (trainable : Option Bool) :
    Lower Ref := do
  let name ← withScope fun scope =>
    let (name, attributeCounters) :=
      scope.attributeCounters.take (Identifier.sanitize source)
    (name, { scope with attributeCounters })
  let trainable := trainable.getD tensor.dtype.isDifferentiable
  if trainable && !tensor.dtype.isDifferentiable then throw .notTrainable
  unless (← scope).admitsAttribute name trainable do throw (.nameTaken name)
  modifyScope fun scope =>
    { scope with attributes := scope.attributes.insert name ⟨tensor, trainable⟩ }
  let ref ← addNode (.load name)
    { name := some source
      op := some "Constant"
      shape := some (some tensor.shape.known)
      dtype := some (some tensor.dtype) }
  modifyScope fun scope =>
    { scope with
        constants := scope.constants.insert source ref
        tensors := scope.tensors.insert source tensor }
  return ref

/-- A constant of a node, under the hint if there is one, else under the
name of the node or of its first output. -/
def constant {G : Type} (node : NodeOf G) (tensor : Tensor) (hint : Option String)
    (trainable : Option Bool) : Lower Ref :=
  let hint := hint.getD ""
  let source :=
    if !hint.isEmpty then hint
    else if !node.name.isEmpty then node.name
    else node.outputs.headD "const"
  materialise source tensor trainable

-- ==================================================================== names

/-- The value of a name that stands for something outside. A known
tensor is stored on the module; for anything else the module gets one
more input. -/
def capture (name : String) : Lower Ref := do
  let outer := (← read).outer
  match outer.tensor? name with
  | some tensor =>
      let ref ← materialise name tensor (some false)
      bind name ref
      return ref
  | none =>
      let ref ← withScope (·.addInput name ("outer_" ++ name))
      modifyScope fun scope =>
        let scope := scope.labelInput ref fun label =>
          { label with
              op := some "OuterScope"
              shape := (outer.shape? name).map some }
        { scope.bind name ref with outerInputs := scope.outerInputs ++ [name] }
      report (.capturing name)
      return ref

/-- The value that a name stands for. -/
def value (name : String) : Lower Ref := do
  if name.isEmpty then throw .emptyName
  let scope ← scope
  match scope.bindings.find? name, scope.constants.find? name,
      scope.initializers.find? name, scope.tensors.find? name with
  | some ref, _, _, _ => return ref
  | none, some ref, _, _ => return ref
  | none, none, some tensor, _ => materialise name tensor none
  | none, none, none, some tensor =>
      let ref ← materialise name tensor (some false)
      bind name ref
      return ref
  | none, none, none, none =>
      if (← read).outer.defines name then capture name
      else throw (.unknownValue name)

/-- Whether a name stands for anything. -/
def defines (name : String) : Lower Bool := return (← scopes).defines name

/-- The tensor that a name is known to stand for. -/
def tensor (name : String) : Lower Tensor := do
  match (← scopes).tensor? name with
  | some tensor => return tensor
  | none => throw (.notStatic name)

/-- The shape that a name is known to have. -/
def shape (name : String) : Lower (Option KnownShape) := return (← scopes).shape? name

/-- The name of an input that the operation of a node reads. -/
def inputName {G : Type} (node : NodeOf G) (index : Nat) : Lower String :=
  match node.inputs[index]? with
  | some name => return name
  | none => throw .missingInput

/-- The value of an input that the operation of a node reads. -/
def input {G : Type} (node : NodeOf G) (index : Nat) : Lower Ref := do
  value (← inputName node index)

/-- The value of an input that may be left out. -/
def optionalInput {G : Type} (node : NodeOf G) (index : Nat) : Lower (Option Ref) := do
  match node.inputs[index]? with
  | some name => if name.isEmpty then return none else return some (← value name)
  | none => return none

/-- The attributes of a node. -/
def attributes {G : Type} (node : NodeOf G) : Lower Attributes :=
  ofExcept .argument node.values

-- =================================================================== results

/-- What is known of the result of a node that stands for one of its
named outputs, or, beyond those, for the name of the node itself. -/
def labelOf {G : Type} (scope : Scope) (node : NodeOf G) (output : Nat)
    (typed : Bool) : Label :=
  let named := node.namedOutputs
  let valueName := named.getD output node.name
  let known :=
    if valueName.isEmpty || !typed then none else scope.declarations.find? valueName
  { op := some node.op
    name := some (if node.name.isEmpty then valueName else node.name)
    outputs := if named.isEmpty then none else some named
    shape := known.map KnownType.shape
    dtype := known.map KnownType.dtype }

/-- Appends an operation on behalf of a node. -/
def apply {G : Type} (node : NodeOf G) (op : Op) (operands : List Ref) (output : Nat) :
    Lower Ref := do
  addNode (.apply op operands) (labelOf (← scope) node output true)

/-- Appends an operation whose result stands for an output that counts
from the end if it is negative. If there is no such output, the
operation is appended all the same. -/
def applyAt {G : Type} (node : NodeOf G) (op : Op) (operands : List Ref) (output : Int) :
    Lower Ref :=
  match node.outputPosition output with
  | some output => apply node op operands output
  | none => do
      let _ ← addNode (.apply op operands) {}
      throw .missingOutput

/-- Gives a loop a name on the module, made from `base`. -/
def registerLoop (base : String) (loop : Loop) : Lower String := do
  let name ← withScope fun scope =>
    let (name, loopCounters) := scope.loopCounters.take (Identifier.sanitize base)
    (name, { scope with loopCounters })
  unless (← scope).admitsLoop name do throw (.nameTaken name)
  modifyScope fun scope => { scope with loops := scope.loops.insert name loop }
  return name

/-- Appends the call of a loop on behalf of a node. -/
def call {G : Type} (node : NodeOf G) (name : String) (operands : List Ref)
    (output : Nat) (typed : Bool) : Lower Ref := do
  if (← scope).finished.any (!·.contains name) then throw (.missingMember name)
  addNode (.call name operands) (labelOf (← scope) node output typed)

/-- Appends the call of a loop, as `applyAt` does an operation. -/
def callAt {G : Type} (node : NodeOf G) (name : String) (operands : List Ref)
    (output : Int) (typed : Bool) : Lower Ref :=
  match node.outputPosition output with
  | some output => call node name operands output typed
  | none => do
      if (← scope).finished.any (!·.contains name) then throw (.missingMember name)
      let _ ← addNode (.call name operands) {}
      throw .missingOutput

end Lower

end OnnxLowering
