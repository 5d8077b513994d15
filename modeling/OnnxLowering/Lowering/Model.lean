/-
Lowering a model. The version of the default operator set is read off
the model, and the types of its values are inferred before its graph is
lowered. Inference is an aid: if it fails, that is reported and the
model is lowered as it is.
-/
import OnnxLowering.Lowering.Graph

namespace OnnxLowering

namespace Model

/-- The version of the first operator set of the default domain. -/
def defaultOpset (model : Model) : Except LowerError Int :=
  match model.opsets.find? fun (domain, _) => defaultDomains.contains domain with
  | some (_, version) => .ok version
  | none => .error .noDefaultOpset

/-- Lowers a model after `infer` has been at it. -/
def lower (model : Model) (handlers : Handlers) (infer : Model → Except String Model)
    (asTuple : Bool) : Except LowerError Module × List LogRecord :=
  let (model, log) : Model × List LogRecord :=
    match infer model with
    | .ok model => (model, [])
    | .error reason => (model, [.inferenceFailed reason])
  match model.defaultOpset with
  | .error error => (.error error, log)
  | .ok opset =>
      let (result, records) := model.graph.lower handlers opset asTuple
      (result, log ++ records)

end Model

end OnnxLowering
