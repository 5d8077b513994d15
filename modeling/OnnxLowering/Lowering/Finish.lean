/-
Making a module of a scope. The tensors and loops that the nodes refer
to move to a host of their own, and the module gets its textual form, in
which its inputs are parameters and its nodes are variables. Both can
fail over names alone: a host has members that cannot be replaced, and a
parameter cannot be called everything.
-/
import OnnxLowering.Lowering.Value

namespace OnnxLowering

namespace Scope

variable (scope : Scope)

-- ==================================================================== checks

/-- What prevents the tensor or loop of a name from moving to the
finished host. A loop can hide any operation of the host, a tensor
cannot. -/
def moveFault? (name : String) : Option LowerError :=
  if scope.attributes.contains name then
    if Reserved.finishedOperations.contains name then some (.nameTaken name)
    else if name = Reserved.finishedText then some (.hiddenMember name)
    else none
  else if scope.loops.contains name || Reserved.members.contains name then none
  else some (.missingMember name)

/-- The names of the tensors and loops that the nodes refer to, in
order. -/
def targets : List String := scope.nodes.filterMap fun node => node.action.target?

/-- The names of the loops that the nodes call, in order. -/
def calls : List String :=
  scope.nodes.filterMap fun node =>
    match node.action with
    | .call name _ => some name
    | _ => none

/-- The first name that the nodes refer to among some members of the
host, which are set after everything has moved there. -/
def reservedFault? (members : List String) : Option LowerError :=
  (scope.targets.find? members.contains).map .reservedMember

/-- What prevents all that the nodes refer to from moving to the finished
host. -/
def hostFault? : Option LowerError :=
  match scope.targets.findSome? scope.moveFault? with
  | some error => some error
  | none => scope.reservedFault? Reserved.finishedGraph

/-- The first parameter that is no name or occurs earlier, in a list of
which `earlier` has been seen. -/
def illegalParameter? (earlier : List String) : List String → Option String
  | [] => none
  | name :: rest =>
      if Reserved.isIllegalParameter name || earlier.contains name then some name
      else illegalParameter? (name :: earlier) rest

/-- The first name that occurs again later. -/
def repeated? : List String → Option String
  | [] => none
  | name :: rest => if rest.contains name then some name else repeated? rest

/-- Whether the finished host has a loop of the given name in plain
sight. -/
def showsLoop (name : String) : Bool :=
  scope.loops.contains name && !Reserved.finishedOperations.contains name
    && name ≠ Reserved.finishedText && name ≠ Reserved.finishedCall

/-- What is wrong with the textual form: parameters, tensors and loops
that are no names there. -/
def textFault? : Option LowerError :=
  match illegalParameter? [] (scope.inputs.map Input.name) with
  | some name => some (.illegalName name)
  | none => (scope.targets.find? Reserved.keywords.contains).map .illegalName

/-- What is wrong with the finished host: names that occur twice, calls of
what is no loop, and members that it has set to nothing. -/
def finishedFault? : Option LowerError :=
  match repeated? (scope.inputs.map Input.name ++ scope.nodeNames) with
  | some name => some (.repeatedName name)
  | none =>
      match scope.targets.find? Reserved.finishedBlanks.contains with
      | some name => some (.hiddenMember name)
      | none => (scope.calls.find? (!scope.showsLoop ·)).map .hiddenMember

-- ==================================================================== module

/-- The module of a scope whose last node returns the results. -/
def toModule (results : Results) : Module where
  inputs := scope.inputs
  nodes := scope.nodes.dropLast
  results := results
  attributes := scope.attributes
  loops := scope.loops

end Scope

namespace Lower

/-- Fails if there is a fault. -/
def refuse : Option LowerError → Lower Unit
  | some error => throw error
  | none => return

/-- Returns the results from the module, and makes it a module. -/
def finish (results : Results) : Lower Module := do
  let _ ← addNode (.yield results) {}
  let scope ← scope
  refuse scope.hostFault?
  modifyScope fun scope => { scope with finished := some scope.calls }
  refuse scope.textFault?
  refuse (scope.reservedFault? Reserved.finishedData)
  refuse scope.finishedFault?
  return scope.toModule results

end Lower

end OnnxLowering
