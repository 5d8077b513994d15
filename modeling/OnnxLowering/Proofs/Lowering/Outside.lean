/-
What a nested graph reads from outside. Whatever a step of the lowering
does to a scope, the names that the scope reads from outside are no empty
ones (`Scope.Step.named`): the value of the empty name cannot be asked for.
And they stand for something around the graph, so whoever lowers the node
with the graph inside can have their values (`outside_importer`).
-/
import OnnxLowering.Proofs.Handler.Composed
import OnnxLowering.Proofs.Lowering.WellFormed

namespace OnnxLowering

/-- No name that is read from outside is empty. -/
def Scope.Named (scope : Scope) : Prop := ∀ name ∈ scope.outerInputs, name.isEmpty = false

/-- A name from outside is read only if its value is asked for. -/
theorem Scope.Step.named {context : Context} {gives : String → Prop} {scope scope' : Scope}
    (step : Scope.Step context gives scope scope') (h : scope.Named) : scope'.Named := by
  cases step with
  | @value _ name _ _ _ hvalue =>
      obtain ⟨hname, hgets⟩ := Lower.value_eq_ok hvalue
      have hgrows : scope.Grows context.outer [name] [] scope' := hgets.grows List.mem_cons_self
      obtain ⟨names, -, houter, -, -, -, hnames⟩ := hgrows.captured
      intro other hother
      rw [houter] at hother
      rcases List.mem_append.1 hother with hold | hnew
      · exact h other hold
      · rwa [List.mem_singleton.1 (hnames other hnew).1]
  | constant _ stores =>
      obtain ⟨place, trainable, label, nodeNames, supply, attributeCounters, -, rfl⟩ := stores
      exact h
  | bound _ => exact h
  | known => exact h
  | input _ feeds =>
      obtain ⟨inputName, label, inputCounters, supply, -, -, rfl⟩ := feeds
      exact h
  | module => exact h

/-- A nested graph becomes a module with an input for each of its own and
for each name from outside, and with a result for each of its outputs. -/
theorem ports_importer {graph : Graph} {context : Context} {subgraph : Subgraph}
    (h : ((graph.fold Handlers.standard.importer).lower context).1 = .ok subgraph) :
    subgraph.module.inputs.length = subgraph.inputNames.length + subgraph.outerInputs.length
      ∧ subgraph.module.results.refs.length = subgraph.outputNames.length := by
  constructor
  · obtain ⟨-, hwellFormed, hinputNames⟩ := wellFormed_importer graph context subgraph h
    cases hwellFormed with
    | mk listed loops =>
        rw [← List.length_map (f := fun input : Input => input.label.name), listed.labels,
          List.length_map, List.length_append, hinputNames]
  · rw [Graph.fold_eq] at h
    obtain ⟨start, left, hstart, ⟨lowered⟩, -, houtputs, -⟩ := importer_eq_ok h
    have hgrows : lowered.last.scope.Grows context.outer lowered.last.scope.outputs []
        lowered.ended := lowered.outputs.grows (List.Subset.refl _)
    have hrefs : subgraph.module.results = .ofRefs true lowered.refs :=
      congrArg ModuleOf.results lowered.module
    rw [hrefs, Results.refs_ofRefs, lowered.outputs.length_eq, houtputs, lowered.outputNames,
      hgrows.outputs]

/-- What a nested graph reads from outside has a name, and stands for
something around the node that carries the graph. -/
theorem outside_importer {graph : Graph} {context : Context} {subgraph : Subgraph}
    (h : ((graph.fold Handlers.standard.importer).lower context).1 = .ok subgraph) :
    ∀ name ∈ subgraph.outerInputs,
      name.isEmpty = false ∧ Scopes.defines context.outer name = true := by
  rw [Graph.fold_eq] at h
  intro name hname
  constructor
  · obtain ⟨start, left, hstart, hrun⟩ := runIn_eq_ok h
    have hnamed : start.Named := by
      obtain ⟨_, -, rfl⟩ := ofGraph_eq_ok hstart
      exact fun _ hmem => absurd hmem List.not_mem_nil
    obtain ⟨m, ended, hlower, hrest⟩ := Lower.bind_eq_ok.1 hrun
    have hcomposed := @Lower.lowerGraph_composed (fun _ => True)
      (graph.body.map (Graph.fold Handlers.standard.importer)) true (fun _ _ => trivial)
      fun _ _ => ⟨fun _ => trivial, fun _ _ => trivial⟩
    have hended : ended.scope.Named := (hcomposed.steps_of_ok hlower).keep Scope.Step.named hnamed
    cases hrest
    exact hended name hname
  · obtain ⟨start, left, hstart, ⟨lowered⟩, -, -, houter⟩ := importer_eq_ok h
    obtain ⟨-, -, -, hdefines⟩ := lowered.wellFormed hstart
      fun node hnode spelling session result session' scanned =>
        scanned.scanLoop hnode fun g _ => wellFormed_importer g
    exact hdefines name (houter ▸ hname)

end OnnxLowering
