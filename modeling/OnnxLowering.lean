import OnnxLowering.DType
import OnnxLowering.Element
import OnnxLowering.Graph.Attribute
import OnnxLowering.Graph.Basic
import OnnxLowering.Graph.Inference
import OnnxLowering.Graph.Listing
import OnnxLowering.Graph.Payload
import OnnxLowering.Graph.TensorType
import OnnxLowering.Graph.Typing
import OnnxLowering.Handler.Elementwise
import OnnxLowering.Handler.Random
import OnnxLowering.Handler.Scan
import OnnxLowering.Handler.Spectrum
import OnnxLowering.Handler.Standard
import OnnxLowering.Lowering.Error
import OnnxLowering.Lowering.Finish
import OnnxLowering.Lowering.Graph
import OnnxLowering.Lowering.Log
import OnnxLowering.Lowering.Model
import OnnxLowering.Lowering.Scope
import OnnxLowering.Lowering.Session
import OnnxLowering.Lowering.Value
import OnnxLowering.Module.Basic
import OnnxLowering.Module.Iterate
import OnnxLowering.Module.LoopBody
import OnnxLowering.Module.Run
import OnnxLowering.Module.Wiring
import OnnxLowering.NameMap
import OnnxLowering.Naming.Arguments
import OnnxLowering.Naming.Counter
import OnnxLowering.Naming.Supply
import OnnxLowering.Number.Binary
import OnnxLowering.Number.Root
import OnnxLowering.Number.Shortest
import OnnxLowering.Number.Significant
import OnnxLowering.Proofs.Except
import OnnxLowering.Proofs.Graph.Direct
import OnnxLowering.Proofs.Graph.Levels
import OnnxLowering.Proofs.Graph.Reference
import OnnxLowering.Proofs.Graph.Scoping
import OnnxLowering.Proofs.Graph.Visits
import OnnxLowering.Proofs.Handler.Acceptance
import OnnxLowering.Proofs.Handler.Alignment
import OnnxLowering.Proofs.Handler.Composed
import OnnxLowering.Proofs.Handler.Effects
import OnnxLowering.Proofs.Handler.Escapes
import OnnxLowering.Proofs.Handler.Framing
import OnnxLowering.Proofs.Handler.Labels
import OnnxLowering.Proofs.Handler.Moves
import OnnxLowering.Proofs.Handler.Simulation
import OnnxLowering.Proofs.Handler.Standard
import OnnxLowering.Proofs.Handler.Steps
import OnnxLowering.Proofs.Handler.Windows
import OnnxLowering.Proofs.Lists
import OnnxLowering.Proofs.Lowering.Answers
import OnnxLowering.Proofs.Lowering.Batch
import OnnxLowering.Proofs.Lowering.Capture
import OnnxLowering.Proofs.Lowering.Closure
import OnnxLowering.Proofs.Lowering.Composed
import OnnxLowering.Proofs.Lowering.Declarations
import OnnxLowering.Proofs.Lowering.Direct
import OnnxLowering.Proofs.Lowering.Effects
import OnnxLowering.Proofs.Lowering.Escapes
import OnnxLowering.Proofs.Lowering.Failure
import OnnxLowering.Proofs.Lowering.Frame
import OnnxLowering.Proofs.Lowering.Growth
import OnnxLowering.Proofs.Lowering.Host
import OnnxLowering.Proofs.Lowering.Identifiers
import OnnxLowering.Proofs.Lowering.Identity
import OnnxLowering.Proofs.Lowering.Knowledge
import OnnxLowering.Proofs.Lowering.Labels
import OnnxLowering.Proofs.Lowering.Lookup
import OnnxLowering.Proofs.Lowering.Moves
import OnnxLowering.Proofs.Lowering.Outside
import OnnxLowering.Proofs.Lowering.Parameters
import OnnxLowering.Proofs.Lowering.Positions
import OnnxLowering.Proofs.Lowering.Reachable
import OnnxLowering.Proofs.Lowering.Reading
import OnnxLowering.Proofs.Lowering.Resolution
import OnnxLowering.Proofs.Lowering.Simulation
import OnnxLowering.Proofs.Lowering.Steps
import OnnxLowering.Proofs.Lowering.Told
import OnnxLowering.Proofs.Lowering.Twins
import OnnxLowering.Proofs.Lowering.WellFormed
import OnnxLowering.Proofs.Lowering.Whole
import OnnxLowering.Proofs.Lowering.World
import OnnxLowering.Proofs.Module.Arrangement
import OnnxLowering.Proofs.Module.Constant
import OnnxLowering.Proofs.Module.Evaluation
import OnnxLowering.Proofs.Module.Labels
import OnnxLowering.Proofs.Module.Listing
import OnnxLowering.Proofs.Module.LoopBody
import OnnxLowering.Proofs.Module.Tidy
import OnnxLowering.Proofs.Module.Walk
import OnnxLowering.Proofs.Module.Window
import OnnxLowering.Proofs.Naming.Handed
import OnnxLowering.Proofs.Naming.Numbered
import OnnxLowering.Proofs.Naming.Supply
import OnnxLowering.Proofs.Outcome
import OnnxLowering.Proofs.Registry
import OnnxLowering.Proofs.Scan.Acceptance
import OnnxLowering.Proofs.Scan.Batch
import OnnxLowering.Proofs.Scan.Body
import OnnxLowering.Proofs.Scan.Declared
import OnnxLowering.Proofs.Scan.Labels
import OnnxLowering.Proofs.Scan.Loop
import OnnxLowering.Proofs.Scan.Meaning
import OnnxLowering.Proofs.Scan.Node
import OnnxLowering.Proofs.Scan.Reference
import OnnxLowering.Proofs.Scan.Refusal
import OnnxLowering.Proofs.Scan.Simulation
import OnnxLowering.Proofs.Scan.Split
import OnnxLowering.Proofs.Signal.Frames
import OnnxLowering.Proofs.Signal.Windows
import OnnxLowering.Proofs.Tensor.Alignment
import OnnxLowering.Proofs.Tensor.Chunks
import OnnxLowering.Proofs.Tensor.Flattening
import OnnxLowering.Proofs.Tensor.Joins
import OnnxLowering.Proofs.Tensor.Samples
import OnnxLowering.Proofs.Tensor.Scatter
import OnnxLowering.Proofs.Tensor.Slices
import OnnxLowering.Proofs.Text.Identifier
import OnnxLowering.Registry
import OnnxLowering.RunError
import OnnxLowering.Shape
import OnnxLowering.Signal.Fourier
import OnnxLowering.Signal.Frame
import OnnxLowering.Tensor.Arithmetic
import OnnxLowering.Tensor.Basic
import OnnxLowering.Tensor.Layout
import OnnxLowering.Tensor.Random
import OnnxLowering.Text.Identifier
import OnnxLowering.Text.Numeral
import OnnxLowering.Text.Reserved
