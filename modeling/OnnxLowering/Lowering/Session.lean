/-
The lowering monad. A step of the lowering reads the operator set
version and the scopes around the graph, changes the scope of the graph
itself, reports to a log, and may fail. The scopes around are only read:
nothing that happens to a nested graph can change them. A failed step
leaves behind what it had done until then.
-/
import OnnxLowering.Lowering.Error
import OnnxLowering.Lowering.Log
import OnnxLowering.Lowering.Scope

namespace OnnxLowering

structure Context where
  opset : Int
  outer : Scopes := []

structure Session where
  scope : Scope
  log : List LogRecord := []

abbrev Lower := ReaderT Context (EStateM LowerError Session)

/-- A nested graph that has been lowered to a module of its own. The
module's inputs are those of the graph, and then one for every value
that it reads from outside and that is not known when it is lowered. It
returns a tuple. -/
structure Subgraph where
  module : Module
  inputNames : List String
  outputNames : List String
  outerInputs : List String

/-- What a nested graph is to the node that carries it: something that
can be lowered once it is known where it stands. -/
structure Importer where
  lower : Context → Except LowerError Subgraph × List LogRecord

/-- What a handler makes of a node: nothing that its outputs could stand
for, the value of its first output, the values of its outputs in order,
or something else. -/
inductive Result where
  | nothing
  | one (ref : Ref)
  | many (refs : List Ref)
  | unsupported

/-- How the nodes of an operation are lowered. -/
abbrev Handler := NodeOf Importer → Lower Result

namespace Lower

def opset : Lower Int := return (← read).opset

/-- The scope of the graph. -/
def scope : Lower Scope := return (← get).scope

/-- The scope of the graph and those around it. -/
def scopes : Lower Scopes := return (← scope) :: (← read).outer

def modifyScope (f : Scope → Scope) : Lower Unit :=
  modify fun session => { session with scope := f session.scope }

def report (record : LogRecord) : Lower Unit :=
  modify fun session => { session with log := session.log ++ [record] }

/-- The value, or the error, of a computation that touches no scope. -/
def ofExcept {ε α : Type} (wrap : ε → LowerError) : Except ε α → Lower α
  | .ok value => return value
  | .error error => throw (wrap error)

/-- Refuses a node. -/
def invalid {α G : Type} (node : NodeOf G) (fault : NodeFault) : Lower α :=
  throw (.invalidNode node.describe fault)

end Lower

end OnnxLowering
