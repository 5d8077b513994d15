/-
Names that a graph captures. A lowered node reads its inputs and whatever
the graphs inside it read, and it gives values to its outputs; so a graph
captures nothing but names that it reads, at some depth, and that it does
not define itself.
-/
import OnnxLowering.Proofs.Handler.Moves
import OnnxLowering.Proofs.Lowering.Whole

namespace OnnxLowering

/-- The rules for nodes that read and give certain names. -/
def Rules.between (reads gives : List String) : Rules where
  reads name := name ∈ reads
  constants _ name := name ∈ gives
  outputs _ name := name ∈ gives
  loops _ := True

theorem Rules.within_between (reads gives : List String) : (between reads gives).Within reads gives where
  reads _ h := h
  constants _ _ h := h
  outputs _ _ h := h

/-- What a node and the graphs inside it read. -/
def NodeOf.reads (node : NodeOf Graph) : List String := node.inputs ++ node.inner.flatMap Graph.reads

theorem Graph.reads_eq_flatMap (graph : Graph) :
    graph.reads = graph.body.nodes.flatMap NodeOf.reads ++ graph.body.outputs.map ValueInfo.name :=
  graph.reads_eq

-- =================================================================== nodes

/-- Graphs inside capture only what they read. -/
def CapturesReads (g : Graph) : Prop :=
  ∀ context subgraph, ((g.fold Handlers.standard.importer).lower context).1 = .ok subgraph →
    subgraph.outerInputs ⊆ g.reads

section

variable {node : NodeOf Graph} {nodes : List (NodeOf Graph)} {visible : Visible} {context : Context}
  {session session' : Session}

/-- What a node does that gives new names only. -/
theorem permit_between (gives : node.givesNew visible = true)
    (hinner : ∀ g ∈ node.inner, CapturesReads g) :
    (Rules.between node.reads node.namedOutputs).Permit
      (node.map (Graph.fold Handlers.standard.importer)) context session where
  reads _ hname := List.mem_append_left _ hname
  scans spelling log result middle scanned := ⟨fun name hname => by
    obtain ⟨g, hbody, himporter⟩ : ∃ g, node.graph? "body" = some g
        ∧ g.fold Handlers.standard.importer = scanned.importer := by
      have hgraph := scanned.graph
      rw [NodeOf.graph?_map] at hgraph
      exact Option.map_eq_some_iff.1 hgraph
    have hmem := NodeOf.mem_inner_of_graph? hbody
    have himported := scanned.imported
    rw [← himporter] at himported
    exact List.mem_append_right _
      (List.mem_flatMap.2 ⟨g, hmem, hinner g hmem _ _ himported hname⟩), trivial⟩
  constants hop := ⟨NodeOf.constantSource_mem gives hop,
    fun _ hname => .inr fun _ => List.mem_of_mem_take hname⟩
  outputs _ _ _ _ hname _ := hname

/-- What its handler does to a scope. -/
theorem Served.moves_between {handler : Handler} {result : Result} {log : List LogRecord}
    (served : Served context.opset node.op handler) (hop : node.op ≠ "Constant")
    (h : handler (node.map (Graph.fold Handlers.standard.importer)) context { session with log }
      = .ok result session')
    (gives : node.givesNew visible = true) (hinner : ∀ g ∈ node.inner, CapturesReads g)
    (tied : session.scope.Tied) :
    Moves context.outer (Rules.between node.reads node.namedOutputs).reading session.scope
      session'.scope := by
  have hpermit : (Rules.between node.reads node.namedOutputs).Permit
      (node.map (Graph.fold Handlers.standard.importer)) context session :=
    permit_between gives hinner
  exact (@Served.makes (Rules.between node.reads node.namedOutputs).reading _ _ _ _ _ _ _ served hop
    h hpermit.reads (fun spelling scanned => hpermit.scans spelling log result session' scanned)
    tied).1

/-- What a node does to a scope that gives new names only. -/
theorem lowerNode_grows
    (h : Lower.lowerNode Handlers.standard (node.map (Graph.fold Handlers.standard.importer)) context
      session = .ok () session')
    (gives : node.givesNew visible = true) (hinner : ∀ g ∈ node.inner, CapturesReads g)
    (tied : session.scope.Tied) :
    session.scope.Grows context.outer node.reads node.namedOutputs session'.scope
      ∧ session'.scope.Tied := by
  have hmoves := lowerNode_moves h (permit_between gives hinner) tied
  exact ⟨hmoves.grows (Rules.within_between _ _), hmoves.tied tied⟩

theorem NodesScoped.mem (h : NodesScoped visible nodes) (hnode : node ∈ nodes) :
    ∃ visible', node.givesNew visible' = true ∧ ∀ g ∈ node.inner, g.scoped visible' = true := by
  induction h with
  | nil => cases hnode
  | cons gives inner _ ih =>
      rcases List.mem_cons.1 hnode with rfl | hrest
      · exact ⟨_, gives, inner⟩
      · exact ih hrest

theorem lowerNodes_grows
    (h : Lower.lowerNodes Handlers.standard
      (nodes.map (NodeOf.map (Graph.fold Handlers.standard.importer))) context session
      = .ok () session')
    (hscoped : NodesScoped visible nodes)
    (hinner : ∀ node ∈ nodes, ∀ g ∈ node.inner, CapturesReads g) (tied : session.scope.Tied) :
    session.scope.Grows context.outer (nodes.flatMap NodeOf.reads)
        (nodes.flatMap NodeOf.namedOutputs) session'.scope ∧ session'.scope.Tied := by
  induction hscoped generalizing session with
  | nil =>
      cases h
      exact ⟨.refl _, tied⟩
  | @cons visible node rest gives inner others ih =>
      rw [List.forall_mem_cons] at hinner
      obtain ⟨middle, hfirst, hrest⟩ := Lower.lowerNodes_cons_eq_ok h
      obtain ⟨hgrows, htied⟩ := lowerNode_grows hfirst gives hinner.1 tied
      obtain ⟨hgrows', htied'⟩ := ih hrest hinner.2 htied
      rw [List.flatMap_cons, List.flatMap_cons]
      exact ⟨(hgrows.mono (List.subset_append_left _ _) (List.subset_append_left _ _)).trans
        (hgrows'.mono (List.subset_append_right _ _) (List.subset_append_right _ _)), htied'⟩

end

-- ================================================================== graphs

section

variable {graph : Graph} {asTuple : Bool} {context : Context} {start left : Scope} {m : Module}
  {visible : Visible}

/-- What the lowering of a graph does to its scope. -/
theorem Lowered.grows
    (lowered : Lowered (Handlers.standard.prepare graph) asTuple context start m left)
    (hstart : Scope.ofGraph (Handlers.standard.prepare graph) = .ok start)
    (hscoped : graph.scoped visible = true)
    (hinner : ∀ node ∈ graph.body.nodes, ∀ g ∈ node.inner, CapturesReads g) :
    lowered.fed.scope.Grows context.outer graph.reads (graph.body.nodes.flatMap NodeOf.namedOutputs)
        lowered.last.scope
      ∧ lowered.last.scope.Grows context.outer graph.reads
        (graph.body.nodes.flatMap NodeOf.namedOutputs) lowered.ended := by
  obtain ⟨_, -, -, -, -, htied, -⟩ := ofGraph_feedsAll hstart lowered.feeds
  obtain ⟨hnodes, -⟩ := lowerNodes_grows lowered.nodes (Graph.nodesScoped hscoped) hinner htied
  have hnodes' : lowered.fed.scope.Grows context.outer graph.reads
      (graph.body.nodes.flatMap NodeOf.namedOutputs) lowered.last.scope := hnodes.mono
    (by rw [Graph.reads_eq_flatMap]; exact List.subset_append_left _ _) (List.Subset.refl _)
  refine ⟨hnodes', lowered.outputs.grows ?_⟩
  have houtputs : lowered.last.scope.outputs = graph.body.outputs.map ValueInfo.name := by
    rw [hnodes.outputs, lowered.feeds.same]
    obtain ⟨_, -, rfl⟩ := ofGraph_eq_ok hstart
    rfl
  rw [houtputs, Graph.reads_eq_flatMap]
  exact List.subset_append_right _ _

/-- What a graph captures: names that it reads, each once, that stand for
something around it and are not known there, and that it does not define
before its nodes do. -/
theorem Lowered.captured
    (lowered : Lowered (Handlers.standard.prepare graph) asTuple context start m left)
    (hstart : Scope.ofGraph (Handlers.standard.prepare graph) = .ok start)
    (hscoped : graph.scoped visible = true)
    (hinner : ∀ node ∈ graph.body.nodes, ∀ g ∈ node.inner, CapturesReads g) :
    left.outerInputs.Nodup ∧ ∀ name ∈ left.outerInputs, name ∈ graph.reads
      ∧ lowered.fed.scope.defines name = false ∧ Scopes.defines context.outer name = true
      ∧ Scopes.tensor? context.outer name = none := by
  obtain ⟨hnodes, houtputs⟩ := lowered.grows hstart hscoped hinner
  obtain ⟨names, _, houter, -, -, hnodup, hnames⟩ := (hnodes.trans houtputs).captured
  have hnone : lowered.fed.scope.outerInputs = [] := by
    rw [lowered.feeds.same]
    obtain ⟨_, -, rfl⟩ := ofGraph_eq_ok hstart
    rfl
  rw [lowered.outerInputs, houter, hnone, List.nil_append]
  refine ⟨hnodup, fun name hname => ?_⟩
  obtain ⟨hread, hnew, -, hvisible, hunknown⟩ := hnames name hname
  exact ⟨hread, hnew, hvisible, hunknown⟩

/-- A graph captures only what it reads. -/
theorem capturesReads (graph : Graph) :
    ∀ visible : Visible, graph.scoped visible = true → CapturesReads graph := by
  induction graph using Graph.induct with
  | step graph ih =>
      intro visible hscoped context subgraph h name hname
      rw [Graph.fold_eq] at h
      obtain ⟨start, left, hstart, ⟨lowered⟩, -, -, houterInputs⟩ := importer_eq_ok h
      have hinner : ∀ node ∈ graph.body.nodes, ∀ g ∈ node.inner, CapturesReads g := by
        intro node hnode g hg
        obtain ⟨visible', -, hinner⟩ := (Graph.nodesScoped hscoped).mem hnode
        exact ih node hnode g hg visible' (hinner g hg)
      rw [houterInputs] at hname
      exact ((lowered.captured hstart hscoped hinner).2 name hname).1

/-- The graphs inside a graph capture only what they read. -/
theorem Graph.capturesReads_inner (hscoped : graph.scoped visible = true) :
    ∀ node ∈ graph.body.nodes, ∀ g ∈ node.inner, CapturesReads g := by
  intro node hnode g hg
  obtain ⟨visible', -, hinner⟩ := (Graph.nodesScoped hscoped).mem hnode
  exact capturesReads g visible' (hinner g hg)

end

end OnnxLowering
