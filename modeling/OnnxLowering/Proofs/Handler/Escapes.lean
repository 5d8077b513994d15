/-
The handlers fail as expected. What a furnished node lacks is found by
its handler and explained, and every other error of a handler escapes
from the data (`Handler.keeps_of_served`). A scan brings the errors of
its body along, and those are errors of the whole graph.
-/
import OnnxLowering.Proofs.Handler.Standard
import OnnxLowering.Proofs.Handler.Steps
import OnnxLowering.Proofs.Lowering.Escapes

namespace OnnxLowering

/-- A graph inside, wherever it is lowered, reads names of the whole
graph and fails as expected of it. -/
def Importer.Traced (graph : Graph) (importer : Importer) : Prop :=
  ∀ context : Context, Scopes.Traced graph context.outer →
    (∀ subgraph, (importer.lower context).1 = .ok subgraph →
      ∀ name ∈ subgraph.outerInputs, graph.Mentions name)
    ∧ ∀ error, (importer.lower context).1 = .error error → graph.Expects error

-- ================================================================ reading

namespace Lower

variable {graph : Graph} {context : Context} {before : Scope → Prop} {node : NodeOf Importer}

/-- An argument that can be read. -/
theorem argument_ends {α : Type} {result : Except AttributeError α} (h : ∃ a, result = .ok a) :
    (ofExcept .argument result).Ends context graph.Expects before fun a scope =>
      before scope ∧ result = .ok a := by
  refine .ofExcept fun error herror => ?_
  obtain ⟨a, rfl⟩ := h
  cases herror

section

variable (hnode : graph.HasNode node) (houter : Scopes.Traced graph context.outer)

include houter

theorem importGraph_ends (hinner : ∀ importer ∈ node.inner, importer.Traced graph) {name : String} :
    (importGraph node name).Ends context graph.Expects (Scope.Traced graph) fun subgraph scope =>
      scope.Traced graph ∧ ∀ name ∈ subgraph.outerInputs, graph.Mentions name := by
  unfold importGraph
  cases hgraph : node.graph? name with
  | none => exact .throw (Or.inl rfl)
  | some importer =>
      refine (Ends.report _).bind fun _ => Ends.opset.bind fun opset => .of_and fun _ =>
        Ends.scopes.bind fun scopes => .of_and fun hscopes => ?_
      obtain ⟨first, hfirst, rfl⟩ := hscopes
      obtain ⟨hreads, herrors⟩ := hinner importer (NodeOf.mem_inner_of_graph? hgraph)
        ⟨opset, first :: context.outer⟩ (hfirst.cons houter)
      refine (Ends.forIn fun record _ => (Ends.report record).yields).bind fun _ => ?_
      exact (Ends.ofExcept herrors).weaken fun subgraph scope h => ⟨h.1, hreads subgraph h.2⟩

include hnode

end

end Lower

-- =============================================================== handlers

namespace Handler

open Lower

variable {graph : Graph} {context : Context} {node : NodeOf Importer}

-- ============================================================= arguments

variable (hnode : graph.HasNode node) (houter : Scopes.Traced graph context.outer)

include hnode

include houter

omit hnode houter in
theorem intsOr_ends {values : Attributes} {name : String} {default : List Int}
    {before : Scope → Prop} (hfurnished : node.Furnished) (hvalues : node.values = .ok values)
    (hkind : definedKind? node.op name = some .ints) :
    (ofExcept .argument (intsOr values name default)).Ends context graph.Expects before
      fun _ => before := by
  refine (argument_ends ?_).weaken fun _ _ h => h.1
  unfold intsOr
  cases hfind : values.find? name with
  | none => exact ⟨default, rfl⟩
  | some value =>
      obtain ⟨is, rfl⟩ := hfurnished.exists_ints hvalues hfind hkind
      exact ⟨is, rfl⟩

end Handler

end OnnxLowering
