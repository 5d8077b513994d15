/-
Refused scans leave no trace. All checks of a scan, those of the graph
inside and of its axes included, come before the first value that the
lowering asks for, and lowering the graph inside changes nothing around
it. From the first value on, no step refuses the node.
-/
import OnnxLowering.Proofs.Handler.Standard
import OnnxLowering.Proofs.Lowering.Frame

namespace OnnxLowering

namespace Lower

/-- Lowering a graph inside a node leaves everything around that graph
alone, whether it succeeds or not. -/
theorem importGraph_reads (node : NodeOf Importer) (name : String) :
    (importGraph node name).Reads := by
  unfold importGraph
  cases node.graph? name with
  | none => exact .throw _
  | some importer =>
      exact (Reads.report _).bind fun _ => Reads.opset.bind fun _ => Reads.scopes.bind fun _ =>
        (Reads.reports _).bind fun _ => .ofExcept _ _

/-- Finding a handler reads nothing but the version of the operator
set. -/
theorem handlerOf_reads {G : Type} (handlers : Handlers) (node : NodeOf G) :
    (handlerOf handlers node).Reads := by
  refine .guard' (Reads.opset.bind fun opset => ?_)
  split
  · exact .pure _
  · exact (Reads.throw _).ite (.throw _)

theorem find?_of_handlerOf_eq_ok {G : Type} {handlers : Handlers} {node : NodeOf G}
    {context : Context} {session session' : Session} {handler : Handler}
    (h : handlerOf handlers node context session = .ok handler session') :
    ∃ version, handlers.find? node.op context.opset = some (version, handler) := by
  unfold handlerOf at h
  obtain ⟨-, h⟩ := guard_eq_ok'.1 h
  obtain ⟨_, _, hopset, h⟩ := bind_eq_ok.1 h
  cases hopset
  cases hfind : handlers.find? node.op context.opset with
  | none =>
      rw [hfind] at h
      simp only at h
      split at h <;> cases h
  | some entry =>
      rw [hfind] at h
      cases h
      exact ⟨entry.1, rfl⟩

end Lower

namespace Handler

open Lower

theorem checkEntries_reads (node : NodeOf Importer) (name : String) (entries : List Int)
    (expected : Int) : (checkEntries node name entries expected).Reads :=
  (Reads.pure _).ite (.throw _)

theorem scanPlan_reads (spelling : ScanSyntax) (node : NodeOf Importer) (values : Attributes)
    (scanInputs : Int) (given bodyInputs bodyOutputs : Nat) :
    (scanPlan spelling node values scanInputs given bodyInputs bodyOutputs).Reads := by
  refine .guard (.guard (.guard' ?_))
  exact (Reads.ofExcept _ _).bind fun _ => (Reads.ofExcept _ _).bind fun _ =>
    (Reads.ofExcept _ _).bind fun _ => (Reads.ofExcept _ _).bind fun _ =>
    (checkEntries_reads _ _ _ _).bind fun _ => (checkEntries_reads _ _ _ _).bind fun _ =>
    (checkEntries_reads _ _ _ _).bind fun _ => (checkEntries_reads _ _ _ _).bind fun _ => .pure _

end Handler

end OnnxLowering
