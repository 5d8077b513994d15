/-
What the lowering reports about its progress. A record says what
happened; its level and its wording follow from that.
-/
namespace OnnxLowering

inductive LogRecord where
  /-- A node is about to be lowered. -/
  | converting (description : String) (opset : Int)
  /-- A nested graph is about to be lowered. -/
  | importing (name description : String)
  /-- A nested graph reads a value of the graph around it. -/
  | capturing (name : String)
  /-- The counts of a scan that is accepted. -/
  | scanning (description : String) (states scanInputs scanOutputs captured : Nat)
  /-- The framing of a spectrum that is accepted. -/
  | framing (description : String) (count length step oneSided : Int)
  /-- The shapes of a model could not be inferred. -/
  | inferenceFailed (reason : String)
deriving DecidableEq, Repr

namespace LogRecord

/-- Warnings are about something that went wrong. -/
def isWarning : LogRecord → Bool
  | inferenceFailed _ => true
  | _ => false

def message : LogRecord → String
  | converting description opset => s!"Converting {description} with opset {opset}"
  | importing name description => s!"Importing subgraph '{name}' of {description}"
  | capturing name => s!"Subgraph captures outer scope value '{name}'"
  | scanning description states scanInputs scanOutputs captured =>
      s!"{description}: {states} states, {scanInputs} scan inputs, "
        ++ s!"{scanOutputs} scan outputs, {captured} outer scope inputs"
  | framing description count length step oneSided =>
      s!"{description}: {count} frames of length {length}, step {step}, "
        ++ s!"onesided={oneSided}"
  | inferenceFailed reason =>
      s!"ONNX shape inference failed ({reason}), converting without inferred shapes"

end LogRecord

end OnnxLowering
