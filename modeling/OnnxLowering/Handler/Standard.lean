/-
The handlers of all supported operations, each with the operator set
version from which it applies.
-/
import OnnxLowering.Handler.Random
import OnnxLowering.Handler.Scan
import OnnxLowering.Handler.Spectrum
import OnnxLowering.Lowering.Graph

namespace OnnxLowering

namespace Handlers

def standard : Handlers :=
  .ofList
    [("Constant", 1, Handler.constant),
     ("Identity", 1, Handler.identity),
     ("Add", 1, Handler.alignedBinary .add),
     ("Add", 7, Handler.binary .add),
     ("Mul", 1, Handler.alignedBinary .multiply),
     ("Mul", 7, Handler.binary .multiply),
     ("Sqrt", 1, Handler.sqrt),
     ("RandomNormal", 1, Handler.random),
     ("RandomNormalLike", 1, Handler.randomLike),
     ("ScatterND", 11, Handler.scatter),
     ("Scan", 8, Handler.scanBatched),
     ("Scan", 9, Handler.scan),
     ("STFT", 17, Handler.spectrum)]

end Handlers

end OnnxLowering
