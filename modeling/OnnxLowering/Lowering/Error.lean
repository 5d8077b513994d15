/-
What can go wrong when a graph is lowered. `LowerError` lists causes:
first those that the lowering itself finds and explains, then those that
come from the data it is given (unreadable tensors and attributes, names
that cannot be used). Only the first kind has a text, in `message`; a
fault of a single node is one of them and names the node.
-/
import OnnxLowering.Graph.Attribute
import OnnxLowering.Graph.Payload

namespace OnnxLowering

/-- What an operation demands of its node and does not find. -/
inductive NodeFault where
  /-- An axis outside the range that a rank allows. -/
  | axis (axis rank : Int)
  | missingAttribute (name : String)
  /-- A type code of random numbers that stands for no real type. -/
  | randomType (code : Int)
  | reduction (shown : String)
  | sequenceLengths
  | omittedInput
  | scanInputCount (scanInputs : Int) (bodyInputs : Nat)
  | scanOutputCount (bodyOutputs : Nat) (states : Int)
  | inputCount (given expected : Nat)
  | entryCount (name : String) (expected : Int) (given : Nat)
  /-- An input that is no constant of one element; `known` tells a
  constant of another size from no constant at all. -/
  | notScalar (input : String) (known : Bool)
  | frameStep (step : Int)
  | signalShape
  | signalChannels (size : Int)
  | windowRank
  | windowLength
  | complexOneSided
  | noFrames (signalLength frameLength : Int)
deriving DecidableEq, Repr

namespace NodeFault

def message : NodeFault → String
  | axis position rank =>
      s!"axis {position} is out of the tensor rank range [{-rank}, {rank - 1}]"
  | missingAttribute name => s!"the '{name}' attribute is required"
  | randomType code => s!"unsupported 'dtype' value {code}"
  | reduction shown =>
      "unsupported value of attribute 'reduction'. Only 'none' is supported, got: " ++ shown
  | sequenceLengths => "the 'sequence_lens' input is not supported"
  | omittedInput => "all initial state and scan inputs must be provided"
  | scanInputCount scanInputs bodyInputs =>
      s!"num_scan_inputs={scanInputs} does not fit a body with {bodyInputs} inputs"
  | scanOutputCount bodyOutputs states =>
      s!"body returns {bodyOutputs} outputs but carries {states} states"
  | inputCount given expected =>
      s!"node provides {given} inputs but the body expects {expected}"
  | entryCount name expected given =>
      s!"'{name}' must have {expected} entries, got {given}"
  | notScalar input _ => input ++ " input must be a scalar or Shape\x7b1\x7d constant."
  | frameStep step => s!"frame_step must be positive, got {step}"
  | signalShape => "Shape of signal input must be static with the rank equal to 3."
  | signalChannels size =>
      s!"The last dimension of signal input must be 1 (real) or 2 (complex), got {size}."
  | windowRank => "The rank of window input must be 1D."
  | windowLength => "The length of window input must be equal to frame_length."
  | complexOneSided => "If attribute onesided==1, signal input can NOT be complex."
  | noFrames signalLength frameLength =>
      s!"signal of length {signalLength} yields no frames of length {frameLength}"

end NodeFault

inductive LowerError where
  -- found by the lowering
  | emptyName
  | unknownValue (name : String)
  | notStatic (name : String)
  | missingGraph (description name : String)
  | unsupportedResult (op : String)
  | tooFewResults (op : String) (produced declared : Nat)
  | valueNotTensor
  | missingConstant
  | noDefaultOpset
  | customDomain (domain op node : String)
  | unsupportedOpset (op : String) (opset : Int) (node : String)
  | unsupportedOp (op node : String)
  | manyOutputs (op : String)
  | invalidNode (description : String) (fault : NodeFault)
  -- found in the data
  | payload (error : PayloadError)
  | argument (error : AttributeError)
  /-- A node with fewer inputs than its operation reads. -/
  | missingInput
  /-- A position before the first output of a node. -/
  | missingOutput
  /-- A name of a tensor or loop that is taken. -/
  | nameTaken (name : String)
  /-- A tensor to be trained whose elements have no derivatives. -/
  | notTrainable
  /-- A tensor or loop that a node refers to and the module lacks. -/
  | missingMember (name : String)
  /-- A tensor under a name that a finished module uses for itself. -/
  | reservedMember (name : String)
  /-- A tensor or loop that cannot be seen behind a member of the same
  name. -/
  | hiddenMember (name : String)
  /-- A name that cannot stand in the textual form, or that two of its
  parameters have. -/
  | illegalName (name : String)
  /-- Two nodes of one name. -/
  | repeatedName (name : String)
deriving DecidableEq, Repr

namespace LowerError

/-- Whether the lowering itself found the error. -/
def isConversion : LowerError → Bool
  | payload _ | argument _ | missingInput | missingOutput | nameTaken _ | notTrainable
  | missingMember _ | reservedMember _ | hiddenMember _ | illegalName _
  | repeatedName _ => false
  | _ => true

/-- Whether the error is that an operation is not supported. -/
def isUnsupported : LowerError → Bool
  | customDomain .. | unsupportedOpset .. | unsupportedOp .. | manyOutputs _ => true
  | _ => false

def message : LowerError → Option String
  | emptyName => some "Empty value name encountered in ONNX graph"
  | unknownValue name => some s!"Value '{name}' is unknown in the current graph context"
  | notStatic name => some s!"Tensor value for '{name}' is not statically known"
  | missingGraph description name =>
      some s!"{description} is missing the '{name}' graph attribute"
  | unsupportedResult op => some s!"Handler for op '{op}' returned unsupported value type"
  | tooFewResults op produced declared =>
      some (s!"Operator '{op}' produced {produced} tensors, "
        ++ s!"but graph declares {declared} outputs")
  | valueNotTensor => some "'value' attribute of Constant node is not a TensorProto"
  | missingConstant => some "Constant node is missing a supported value attribute"
  | noDefaultOpset => some "Model does not import the default ONNX operator set"
  | customDomain domain op node =>
      some (s!"Operator '{domain}.{op}' from a custom domain is not supported "
        ++ s!"(node name: '{node}')")
  | unsupportedOpset op opset node =>
      some s!"Operator '{op}' is not supported in opset {opset} (node name: '{node}')"
  | unsupportedOp op node =>
      some s!"Operator '{op}' is not supported (node name: '{node}')"
  | manyOutputs op =>
      some s!"Operator '{op}' produces multiple outputs which are not supported"
  | invalidNode description fault => some (description ++ ": " ++ fault.message)
  | _ => none

end LowerError

end OnnxLowering
