/-
Typing operations. What an operation says of its results follows from
the types of its operands and from its attributes; how much it says
depends on the version of its operator set. An operation that does not
fit its operands says nothing. One that lacks an operand or a result
that its rule asks for breaks the rule, which is a graver matter.

A scan is typed in two steps, since what it returns is what its body
returns: first what the body gets, then, from what the body makes of
it, what the scan returns.
-/
import OnnxLowering.Graph.TensorType

namespace OnnxLowering

/-- Why the typing of an operation stops. -/
inductive TypingStop where
  /-- The operation does not fit its operands. -/
  | unfit
  /-- The rule asks for an input that the node does not have. -/
  | noInput (index : Nat)
  /-- The rule asks for an output that the node does not have. -/
  | noOutput (index : Nat)
deriving DecidableEq, Repr

namespace Typing

variable {G : Type} (node : NodeOf G) (operands : List (Option TensorType))

-- ================================================================ attributes

/-- The last attribute of a name. -/
def attribute? (name : String) : Option (AttributeOf G) :=
  (node.attributes.reverse.find? (·.1 = name)).map Prod.snd

/-- The last attribute of a name that is a graph. -/
def graph? (name : String) : Option G :=
  node.attributes.reverse.findSome? fun (key, a) =>
    match a with
    | .graph g => if key = name then some g else none
    | _ => none

/-- The integers of an attribute, of which all but a list of integers
has none. -/
def integers : AttributeOf G → List Int
  | .ints values => values
  | _ => []

/-- The number of elements that a list of a kind has; an attribute of
another kind has none. -/
def floatCount : AttributeOf G → Nat
  | .floats values => values.length
  | _ => 0

def textCount : AttributeOf G → Nat
  | .texts values => values.length
  | _ => 0

/-- The type of a stored tensor; an attribute of another kind stands for
a single element of no type. -/
def storedType : AttributeOf G → TensorType
  | .tensor payload => payload.type
  | _ => { shape := some [] }

-- ================================================================== operands

/-- The type of an operand. -/
def operand (index : Nat) : Except TypingStop TensorType :=
  match operands[index]? with
  | none => .error (.noInput index)
  | some none => .error .unfit
  | some (some type) => .ok type

/-- The element type of an operand, which has to be known. -/
def elementCode (index : Nat) : Except TypingStop Int := do
  let type ← operand operands index
  if type.elementCode = 0 then throw .unfit
  return type.elementCode

/-- The shape of an operand, if it is there and of known rank. -/
def shape? (index : Nat) : Option (List Dim) := do (← (← operands[index]?)).shape

/-- Asks for an output. -/
def output (index : Nat) : Except TypingStop Unit :=
  if index < node.outputs.length then .ok () else .error (.noOutput index)

def orUnfit {α : Type} : Option α → Except TypingStop α
  | some x => .ok x
  | none => .error .unfit

-- ================================================================ operations

/-- The type of operand `index` as that of output `index`. -/
def same (index : Nat) : Except TypingStop TensorType := do
  let code ← elementCode operands index
  output node index
  return { elementCode := code, shape := shape? operands index }

/-- The codes of element types run up to this one. -/
def lastElementCode : Int := 26

/-- The element type that an attribute names. Of its code the low 32
bits count. -/
def namedElementCode : AttributeOf G → Except TypingStop Int
  | .int code =>
      let code := Int.bmod code 0x100000000
      if 0 ≤ code && code ≤ lastElementCode then .ok code else .error .unfit
  | _ => .error .unfit

/-- The kinds of value that a constant can have. -/
def constantAttributes (version : Int) : List String :=
  if version < 11 then ["value"]
  else if version < 12 then ["value", "sparse_value"]
  else
    ["value", "sparse_value", "value_int", "value_ints", "value_float", "value_floats",
     "value_string", "value_strings"]

/-- The type of the value that an attribute gives to a constant. -/
def constantType (name : String) (a : AttributeOf G) : TensorType :=
  let vector (length : Nat) : List Dim := [.value length]
  match name with
  | "value_int" => { elementCode := 7, shape := some [] }
  | "value_ints" => { elementCode := 7, shape := some (vector (integers a).length) }
  | "value_float" => { elementCode := 1, shape := some [] }
  | "value_floats" => { elementCode := 1, shape := some (vector (floatCount a)) }
  | "value_string" => { elementCode := 8, shape := some [] }
  | "value_strings" => { elementCode := 8, shape := some (vector (textCount a)) }
  | "sparse_value" => { shape := some [] }
  | _ => storedType a

/-- The type of a constant, which has exactly one value. The old
constants may lack it, and only say something of stored tensors. -/
def constant (version : Int) : Except TypingStop (Option TensorType) := do
  let values := (constantAttributes version).filterMap fun name =>
    (attribute? node name).map fun a => (name, a)
  match values with
  | [(name, a)] =>
      if version < 11 then
        match a with
        | .tensor _ => pure ()
        | _ => return none
      output node 0
      return some (constantType name a)
  | [] => if version < 11 then return none else throw .unfit
  | _ => throw .unfit

/-- The type of elementwise arithmetic: the element type of the left
operand, and the shape that both operands stretch to. In the first
version that says anything it is the type of the left operand. -/
def arithmetic (version : Int) : Except TypingStop TensorType := do
  let type ← same node operands 0
  if version < 7 then return type
  match shape? operands 0, shape? operands 1 with
  | some as, some bs => return { type with shape := some (← orUnfit (Dim.stretchAll? as bs)) }
  | _, _ => return { type with shape := none }

/-- Random numbers of a given shape. -/
def random : Except TypingStop TensorType := do
  let code ← ((attribute? node "dtype").map namedElementCode).getD (.ok 1)
  output node 0
  match attribute? node "shape" with
  | some (.ints dims) =>
      if dims.any (· < 0) then throw .unfit
      return { elementCode := code, shape := some (dims.map .value) }
  | _ => throw .unfit

/-- Random numbers of the shape of a tensor. -/
def randomLike : Except TypingStop TensorType := do
  let code ← ((attribute? node "dtype").map namedElementCode).getD (elementCode operands 0)
  output node 0
  return { elementCode := code, shape := shape? operands 0 }

/-- The type of the result of an operation that carries no graph, if the
operation says anything of it. -/
def result (version : Int) : Except TypingStop (Option TensorType) :=
  if version < 1 then .ok none
  else
    match node.op with
    | "Constant" => constant node version
    | "Identity" => some <$> same node operands 0
    | "Sqrt" => if version < 6 then .ok none else some <$> same node operands 0
    | "ScatterND" => if version < 11 then .ok none else some <$> same node operands 0
    | "Add" | "Mul" =>
        if version < 6 then .ok none else some <$> arithmetic node operands version
    | "RandomNormal" => some <$> random node
    | "RandomNormalLike" => some <$> randomLike node operands
    | _ => .ok none

end Typing

-- ===================================================================== scans

/-- How a scan takes its operands apart and puts its results together.
The states come first among its operands and results. -/
structure ScanTyping where
  /-- The number of states. A negative one stands for a scan that has
  fewer operands than it scans, and nothing but states. -/
  states : Int
  /-- The types of the states, which are results as well. -/
  stateTypes : List TensorType
  /-- What the body gets. -/
  arguments : List TensorType
  /-- The shape of result `i` for the shape of what the body returns
  there. -/
  grow : Nat → List Dim → Option (List Dim)

namespace ScanTyping

open Typing

def isState (states : Int) (index : Nat) : Bool := states < 0 || (index : Int) < states

/-- Parts operands into states and scan inputs. -/
def part {α : Type} (states : Int) (operands : List α) : List α × List α :=
  if states < 0 then (operands, []) else operands.splitAt states.toNat

variable {G : Type} (node : NodeOf G) (operands : List (Option TensorType))

/-- The number of scan inputs. -/
def scanInputs : Int :=
  match attribute? node "num_scan_inputs" with
  | some (.int count) => count
  | _ => 0

/-- The most axes that a scan can have. -/
def axisLimit : Int := 0x1000000000000000

/-- Per scan input or output its axis; zero, unless the node says
otherwise. Of an axis the low 32 bits count. -/
def axes (name : String) (count : Int) : Except TypingStop (Nat → Int) :=
  match attribute? node name with
  | none => if 0 ≤ count && count < axisLimit then .ok fun _ => 0 else .error .unfit
  | some a =>
      if (integers a).length = count then
        .ok fun i => Int.bmod ((integers a).getD i 0) 0x100000000
      else .error .unfit

/-- The type of the elements along an axis, and their number. -/
def element (type : TensorType) (axis : Int) : Except TypingStop (TensorType × Dim) :=
  match type.shape with
  | none => .ok (type, .unknown)
  | some dims => do
      let axis ← orUnfit (Dim.axis? axis dims.length)
      return ({ type with shape := some (dims.eraseIdx axis) }, dims.getD axis .unknown)

/-- The typing of a scan: the body gets the states as they are, and the
elements of the scan inputs. -/
def ofNode : Except TypingStop ScanTyping := do
  let scanned := scanInputs node
  let states := (operands.length : Int) - scanned
  let inputAxes ← axes node "scan_input_axes" scanned
  let outputAxes ← axes node "scan_output_axes" (node.outputs.length - states)
  let (_, scanInputs) := part states operands
  let count := operands.length - scanInputs.length
  let stateTypes ← (List.range count).mapM (same node operands)
  let elements ← scanInputs.zipIdx.mapM fun (type, i) => do
    element (← orUnfit type) (inputAxes i)
  let length ← orUnfit (Dim.same? (elements.map Prod.snd))
  return {
    states, stateTypes
    arguments := stateTypes ++ elements.map Prod.fst
    grow := fun i dims =>
      if isState states i then some dims
      else do
        let axis ← Dim.axis? (outputAxes (i - states.toNat)) (dims.length + 1)
        return dims.insertIdx axis length }

/-- The type without its first dimensions. -/
def without (count : Nat) (type : TensorType) : TensorType :=
  { type with shape := type.shape.map (·.drop count) }

/-- The typing of a scan with a batch axis in front of everything: the
body gets the states without that axis, and the scan inputs without the
one behind it either. The first input is none of these. How large the
two axes are follows from the scan inputs that have more. -/
def ofBatchedNode : Except TypingStop ScanTyping := do
  let states := (operands.length : Int) - 1 - scanInputs node
  let operands := operands.drop 1
  let (_, scanInputs) := part states operands
  let count := operands.length - scanInputs.length
  let stateTypes ← (List.range count).mapM (same node operands)
  let scanned ← scanInputs.mapM orUnfit
  let large := (scanned.filterMap TensorType.shape).filter (2 < ·.length)
  let batch ← orUnfit (Dim.same? (large.filterMap (·[0]?)))
  let length ← orUnfit (Dim.same? (large.filterMap (·[1]?)))
  return {
    states, stateTypes
    arguments := stateTypes.map (without 1) ++ scanned.map (without 2)
    grow := fun i dims =>
      some ((if isState states i then [batch] else [batch, length]) ++ dims) }

/-- The typing of a scan of a version, which had a batch axis at
first. -/
def ofVersion (version : Int) : Except TypingStop (Option ScanTyping) :=
  if version < 8 then .ok none
  else if version < 9 then some <$> ofBatchedNode node operands
  else some <$> ofNode node operands

/-- The type of a result for the type of what the body returns there. A
state keeps its element type. -/
def result (typing : ScanTyping) (returned : TensorType) (index : Nat) : Option TensorType := do
  let known := typing.stateTypes.getD index {}
  let elementCode :=
    if isState typing.states index then known.elementCode else returned.elementCode
  match returned.shape with
  | none => return { known with elementCode }
  | some dims =>
      let dims ← typing.grow index dims
      match known.shape with
      | none => return { elementCode, shape := some dims }
      | some shape => return { elementCode, shape := some (← Dim.refineAll? shape dims) }

/-- The types of a scan's results for those of what its body returns. A
body that returns nothing only leaves the states as they are. -/
def results (typing : ScanTyping) (outputs : Nat) (returned : List (Option TensorType)) :
    Except TypingStop (List TensorType) :=
  if returned.isEmpty then .ok typing.stateTypes
  else if returned.length ≠ outputs then .error .unfit
  else
    returned.zipIdx.mapM fun (type, index) => do
      orUnfit (typing.result (← orUnfit type) index)

end ScanTyping

end OnnxLowering
