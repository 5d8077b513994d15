/-
Short-time spectra. A spectrum over time is lowered to three steps:
cutting the signal into frames, multiplying each by the window if there
is one, and transforming each. The step and the length of the frames are
fixed when the graph is lowered, so what determines them has to be known
then.
-/
import OnnxLowering.Lowering.Value
import OnnxLowering.Signal.Frame

namespace OnnxLowering.Handler

open Lower

/-- The integer that an element denotes; complex elements denote
none. -/
def integerElement (dtype : DType) (x : Nat) : Except AttributeError Int :=
  match dtype.layout with
  | .complex _ => .error .wrongKind
  | .real format => AttributeValue.integerPart (format.convert .double x)
  | _ => .ok (Element.toInt dtype x)

/-- The integer that an input is known to be: a constant of one
element. -/
def knownInteger (node : NodeOf Importer) (index : Nat) (what : String) : Lower Int := do
  match (← scopes).tensor? (← inputName node index) with
  | none => invalid node (.notScalar what false)
  | some tensor =>
      unless tensor.data.size = 1 do invalid node (.notScalar what true)
      ofExcept .argument (integerElement tensor.dtype (tensor.data.getD 0 0))

/-- Whether the last dimension is known to hold real and imaginary
part. -/
def isComplexShape (shape : Option KnownShape) : Bool :=
  match shape with
  | some dims => dims.getLast? = some (some 2)
  | none => false

/-- The three dimensions of a signal, all of which have to be known; the
last one is 1 for real and 2 for complex signals. -/
def signalDims (node : NodeOf Importer) (shape : Option KnownShape) :
    Lower (Int × Int × Int) := do
  match shape with
  | some [some batch, some length, some channels] =>
      unless channels = 1 || channels = 2 do invalid node (.signalChannels channels)
      return (batch, length, channels)
  | _ => invalid node .signalShape

/-- The length of a window, as far as it is known. -/
def windowLength (node : NodeOf Importer) (shape : Option KnownShape) :
    Lower (Option Int) :=
  match shape with
  | none => return none
  | some [length] => return length
  | some _ => invalid node .windowRank

/-- The length of the frames: what the node says, else the length of the
window, else as many samples as there would be whole steps. -/
def frameLength (node : NodeOf Importer) (signalLength step : Int)
    (window : Option Int) : Lower Int := do
  if (node.inputs.getD 3 "").isEmpty then
    return window.getD (signalLength.fdiv step)
  knownInteger node 3 "frame_length"

def spectrum : Handler := fun node => do
  let values ← attributes node
  let oneSided ← match values.find? "onesided" with
    | some value => ofExcept .argument value.toInt
    | none => pure 1
  let signal ← input node 0
  let step ← knownInteger node 1 "frame_step"
  if step ≤ 0 then invalid node (.frameStep step)
  let signalShape ← shape (← inputName node 0)
  let (_, signalLength, _) ← signalDims node signalShape
  let window ← optionalInput node 2
  let window? ← match window with
    | some _ => windowLength node (← shape (← inputName node 2))
    | none => pure none
  let length ← frameLength node signalLength step window?
  if window?.any (· ≠ length) then invalid node .windowLength
  if oneSided = 1 && isComplexShape signalShape then invalid node .complexOneSided
  let count := (signalLength - length).fdiv step + 1
  if length ≤ 0 || count ≤ 0 then invalid node (.noFrames signalLength length)
  report (.framing node.describe count length step oneSided)
  let frames ← apply node (.frames length step) [signal] 0
  let frames ← match window with
    | some window => apply node .window [frames, window] 0
    | none => pure frames
  return .one (← apply node (.transform length (oneSided = 1)) [frames] 0)

end OnnxLowering.Handler
