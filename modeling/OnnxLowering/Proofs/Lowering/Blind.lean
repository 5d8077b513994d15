/-
Graphs that have nothing to do with a name. A name is fresh for a graph if
it occurs nowhere in it; then it makes no difference to the graph what the
name stands for around it (`Graph.blind`). Two graphs whose nodes keep
step, apart from such a name, become the same module (`lowers_alike`).
-/
import OnnxLowering.Proofs.Graph.Levels
import OnnxLowering.Proofs.Handler.Mirrors

namespace OnnxLowering

open Lower

-- ============================================================= fresh names

/-- A name that occurs nowhere in a graph, at any depth, and is not the
one under which a constant without a name is stored. -/
structure Graph.Fresh (graph : Graph) (y : String) : Prop where
  named : y.isEmpty = false
  unreserved : y ≠ "const"
  unmentioned : ¬ graph.Mentions y
  undeclared : ∀ level ∈ graph.levels, y ∉ level.valueInfo.map ValueInfo.name

section

variable {graph : Graph} {y : String}

/-- A graph that mentions a name does so itself or through a graph
inside. -/
theorem Graph.mentions_of_inner {g : Graph} {node : NodeOf Graph} (hnode : node ∈ graph.body.nodes)
    (hg : g ∈ node.inner) (h : g.Mentions y) : graph.Mentions y := by
  obtain ⟨level, hlevel, hname⟩ := h
  exact ⟨level, Graph.levels_subset hnode hg hlevel, hname⟩

/-- What is fresh for a graph is fresh for the graphs inside. -/
theorem Graph.Fresh.inner {g : Graph} {node : NodeOf Graph} (h : graph.Fresh y)
    (hnode : node ∈ graph.body.nodes) (hg : g ∈ node.inner) : g.Fresh y where
  named := h.named
  unreserved := h.unreserved
  unmentioned hmentions := h.unmentioned (Graph.mentions_of_inner hnode hg hmentions)
  undeclared level hlevel := h.undeclared level (Graph.levels_subset hnode hg hlevel)

/-- A graph declares nothing of a name that is fresh. -/
theorem Graph.Fresh.find?_declarations (h : graph.Fresh y) : graph.body.declarations.find? y = none := by
  unfold GraphOf.declarations
  rw [NameMap.find?_ofList_eq_none, List.map_map]
  intro hname
  have hmentioned {name : String} (hname : name ∈ graph.body.mentioned) : graph.Mentions name :=
    Graph.mentions_of_mem (List.Subset.refl _) hname
  have hlevel := h.undeclared _ graph.bare_mem_levels
  rw [List.map_append, List.map_append, List.mem_append, List.mem_append] at hname
  rcases hname with (hname | hname) | hname
  · refine h.unmentioned (hmentioned ?_)
    simp only [GraphOf.mentioned, List.mem_append]
    exact .inl (.inl (.inr hname))
  · exact hlevel hname
  · refine h.unmentioned (hmentioned ?_)
    simp only [GraphOf.mentioned, List.mem_append]
    exact .inl (.inr hname)

/-- The nodes of a graph have nothing to do with a name that it does not
mention, if the graphs inside are blind to the name. -/
theorem NodeOf.avoids_of_mem {f : Graph → Importer} (h : ¬ graph.Mentions y) (hconst : y ≠ "const")
    {node : NodeOf Graph} (hnode : node ∈ graph.body.nodes) (hinner : ∀ g ∈ node.inner, (f g).Blind y) :
    (node.map f).Avoids y := by
  have hhas := Graph.hasNode_of_mem (List.Subset.refl _) hnode
  refine ⟨fun hname => h (hhas.mentions_input hname), fun hname => h (hhas.mentions_output hname), ?_, ?_⟩
  · show Handler.constantSource node ≠ y
    have houtput {default : String} (hdefault : default ≠ y) : node.outputs.headD default ≠ y := by
      cases houtputs : node.outputs with
      | nil => exact hdefault
      | cons name others =>
          rintro rfl
          refine h (hhas.mentions_output ?_)
          rw [houtputs]
          exact List.mem_cons_self
    have hname : node.name ≠ y := fun heq => h (heq ▸ hhas.mentions_name)
    unfold Handler.constantSource
    split
    · exact houtput hname
    · split
      · exact hname
      · exact houtput hconst.symm
  · intro importer himporter
    rw [NodeOf.inner_map] at himporter
    obtain ⟨g, hg, rfl⟩ := List.mem_map.1 himporter
    exact hinner g hg

end

-- =================================================================== graphs

section

variable {y : String} {context context' : Context}

/-- A graph starts without knowing anything of a name that it does not
mention. -/
theorem ofGraph_alike {G : Type} {graph : GraphOf G} {start : Scope} (h : y ∉ graph.mentioned)
    (hstart : Scope.ofGraph graph = .ok start) : start.Alike y start := by
  obtain ⟨initial, hinitial, rfl⟩ := ofGraph_eq_ok hstart
  simp only [GraphOf.mentioned, List.mem_append, not_or] at h
  refine .refl h.1.2 List.not_mem_nil ?_
  rw [NameMap.find?_ofList_eq_none, GraphOf.map_fst_initial hinitial]
  exact h.1.1.1

theorem runIn_ok {α G : Type} {graph : GraphOf G} {context : Context} {x : Lower α} {a : α}
    {start : Scope} {session' : Session} (hstart : Scope.ofGraph graph = .ok start)
    (hrun : x context { scope := start } = .ok a session') : (x.runIn graph context).1 = .ok a := by
  unfold Lower.runIn
  rw [hstart]
  simp only
  rw [show (x.run context).run { scope := start } = _ from hrun]

/-- Where the nodes of two graphs keep step, the graphs become the same,
as a whole or inside a node. -/
theorem lowers_alike (contexts : context.Alike y context') {graph graph' : GraphOf Importer}
    (hinputs : graph'.inputs = graph.inputs)
    (hstart : ∀ start, Scope.ofGraph graph = .ok start →
      ∃ start', Scope.ofGraph graph' = .ok start' ∧ start.Alike y start')
    (hnodes : ∀ start fed fed' last, Scope.ofGraph graph = .ok start →
      addGraphInputs graph.inputs context { scope := start } = .ok () fed →
      fed.scope.Alike y fed'.scope → lowerNodes Handlers.standard graph.nodes context fed = .ok () last →
        ∃ last', lowerNodes Handlers.standard graph'.nodes context' fed' = .ok () last'
          ∧ last.scope.Alike y last'.scope) :
    (∀ asTuple m, ((lowerGraph Handlers.standard graph asTuple).runIn graph context).1 = .ok m →
      ((lowerGraph Handlers.standard graph' asTuple).runIn graph' context').1 = .ok m)
    ∧ ∀ subgraph, ((Handlers.standard.importer graph).lower context).1 = .ok subgraph →
      ((Handlers.standard.importer graph').lower context').1 = .ok subgraph
        ∧ y ∉ subgraph.outerInputs := by
  refine ⟨fun asTuple m h => ?_, fun subgraph h => ?_⟩
  · obtain ⟨start, left, hgraph, h⟩ := runIn_eq_ok h
    obtain ⟨start', hgraph', halike⟩ := hstart start hgraph
    obtain ⟨left', h', -⟩ := @lowerGraph_alike _ _ _ contexts _ _ hinputs _ { scope := start' } _ _ _
      halike (fun fed fed' last => hnodes start fed fed' last hgraph) h
    exact runIn_ok hgraph' h'
  · obtain ⟨start, left, hgraph, h⟩ := runIn_eq_ok h
    obtain ⟨start', hgraph', halike⟩ := hstart start hgraph
    obtain ⟨m, last, hmodule, hlast⟩ := bind_eq_ok.1 h
    cases hlast
    obtain ⟨last', hmodule', hlastAlike⟩ := @lowerGraph_alike _ _ _ contexts _ _ hinputs _
      { scope := start' } _ _ _ halike (fun fed fed' last => hnodes start fed fed' last hgraph) hmodule
    obtain ⟨bindings, users, hsame⟩ := hlastAlike.exists_eq
    refine ⟨@runIn_ok _ _ _ _ _ _ _ last' hgraph' (bind_eq_ok.2 ⟨m, last', hmodule', ?_⟩),
      hlastAlike.outerInputs⟩
    simp only [bind_apply, scope_apply, hsame]
    rfl

/-- A graph that does not mention a name is blind to it. -/
theorem Graph.blind (graph : Graph) (hconst : y ≠ "const") :
    ¬ graph.Mentions y → (graph.fold Handlers.standard.importer).Blind y := by
  induction graph using Graph.induct with
  | step graph ih =>
      intro h context context' contexts subgraph hlowered
      rw [Graph.fold_eq] at hlowered ⊢
      have hnames : y ∉ (graph.body.map (Graph.fold Handlers.standard.importer)).mentioned :=
        fun hname => h (Graph.mentions_of_mem (List.Subset.refl _) (GraphOf.mentioned_map _ _ ▸ hname))
      refine (lowers_alike contexts rfl (fun start hstart => ⟨start, hstart, ofGraph_alike hnames hstart⟩)
        fun _ _ _ _ _ _ halike hlast => ?_).2 subgraph hlowered
      refine lowerNodes_follows contexts (fun node hnode => ?_) _ _ _ _ halike hlast
      obtain ⟨node, hmem, rfl⟩ := List.mem_map.1 hnode
      exact NodeOf.avoids_of_mem h hconst hmem fun g hg => ih node hmem g hg fun hmentions =>
        h (Graph.mentions_of_inner hmem hg hmentions)

end

end OnnxLowering
