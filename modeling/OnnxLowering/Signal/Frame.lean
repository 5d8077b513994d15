/-
Framing and windowing. A signal is cut into frames, stretches of equal
length that start at regular steps, and every frame is multiplied by a
window.
-/
import OnnxLowering.Tensor.Arithmetic
import OnnxLowering.Tensor.Layout

namespace OnnxLowering.Tensor

/-- The dimension along which signals run. -/
def signalAxis : Nat := 1

/-- The number of frames of the given length and step that fit into
`size` samples, for a length that fits and a positive step. -/
def frameCount (size length step : Nat) : Nat := (size - length) / step + 1

/-- A signal of shape `[batch, size, channels]` as frames of shape
`[batch, count, length, channels]`: frame `k` starts at sample
`k * step`. -/
def frames (signal : Tensor) (length step : Int) : Except RunError Tensor := do
  unless Shape.isWord length && Shape.isWord step do throw .hugeInteger
  if signal.rank ≤ signalAxis then throw .axisOutOfRange
  let size := signal.shape.getD signalAxis 0
  unless 0 ≤ length && length ≤ size && 0 < step do throw .sizeMismatch
  let length := length.toNat
  let step := step.toNat
  match signal.shape with
  | [batch, _, channels] =>
      return ofFn signal.dtype [batch, frameCount size length step, length, channels]
        fun is => signal.get
          [is.getD 0 0, is.getD 1 0 * step + is.getD 2 0, is.getD 3 0]
  | _ => throw .sizeMismatch

/-- Every frame multiplied by the window, the same for all channels. The
window is cast to the frames' type and gets a last dimension of size one
for the channels. -/
def applyWindow (frames window : Tensor) : Except RunError Tensor := do
  multiply frames (← (window.cast frames.dtype).unsqueeze (-1))

end OnnxLowering.Tensor
