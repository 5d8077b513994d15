/-
Graphs without graphs inside, lowered. Each node has one output and no
name is given twice. Then the module of the graph does what the direct
evaluator does, if no name does harm in it.
-/
import OnnxLowering.Proofs.Graph.Direct
import OnnxLowering.Proofs.Lowering.Closure

namespace OnnxLowering

-- ================================================================== names

/-- The names that a graph has before its first node or that one of its
nodes gives, each as often as there is something for it. -/
def GraphOf.givenNames {G : Type} (graph : GraphOf G) : List String :=
  graph.initializers.map Prod.fst ++ graph.feedNames ++ graph.nodes.flatMap NodeOf.namedOutputs

section

variable {G : Type} {node : NodeOf G}

theorem NodeOf.Plain.namedOutputs (plain : node.Plain) : node.namedOutputs = node.outputs := by
  obtain ⟨name, houtputs, hname⟩ := plain.output
  unfold NodeOf.namedOutputs
  rw [houtputs, List.filter_cons_of_pos (by rw [hname]; rfl), List.filter_nil]

theorem NodeOf.Plain.givesNew (plain : node.Plain) {visible : Visible}
    (h : ∀ name ∈ node.namedOutputs, visible name = false) : node.givesNew visible = true := by
  obtain ⟨name, houtputs, hname⟩ := plain.output
  rw [NodeOf.givesNew, Bool.and_eq_true, List.all_eq_true, houtputs, List.headD_cons, hname,
    Bool.not_false, Bool.or_true]
  exact ⟨fun other hother => Bool.not_eq_true' _ ▸ h other hother, rfl⟩

end

theorem scopedNodes_of_plain {nodes : List (NodeOf Graph)} {visible : Visible}
    (plain : ∀ node ∈ nodes, node.Plain)
    (hidden : ∀ name ∈ nodes.flatMap NodeOf.namedOutputs, visible name = false)
    (distinct : (nodes.flatMap NodeOf.namedOutputs).Nodup) :
    scopedNodes visible (nodes.map (NodeOf.map Graph.scoped)) = true := by
  induction nodes generalizing visible with
  | nil => rfl
  | cons node rest ih =>
      rw [List.forall_mem_cons] at plain
      rw [List.flatMap_cons, List.nodup_append] at distinct
      rw [List.flatMap_cons] at hidden
      rw [List.map_cons, scopedNodes, Bool.and_eq_true, Bool.and_eq_true]
      refine ⟨⟨plain.1.givesNew fun name hname => hidden name (List.mem_append_left _ hname), ?_⟩,
        ih plain.2 (fun name hname => ?_) distinct.2.1⟩
      · rw [NodeOf.inner_map, plain.1.flat]
        rfl
      · have hold := hidden name (List.mem_append_right _ hname)
        have hnew : (node.map Graph.scoped).namedOutputs.contains name = false := by
          rw [← Bool.not_eq_true, List.contains_iff_mem]
          exact fun hmem => distinct.2.2 name hmem name hname rfl
        rw [Visible.adding, hold, hnew, Bool.or_false]

/-- Where no name is given twice, all nodes give new names only. -/
theorem Graph.scoped_of_plain {graph : Graph} (plain : ∀ node ∈ graph.body.nodes, node.Plain)
    (distinct : graph.body.givenNames.Nodup) : graph.scoped (fun _ => false) = true := by
  rw [GraphOf.givenNames, List.nodup_append] at distinct
  unfold Graph.scoped
  rw [Graph.fold_eq]
  refine scopedNodes_of_plain plain (fun name hname => ?_) distinct.2.1
  rw [Visible.adding, Bool.or_false, ← Bool.not_eq_true, List.contains_iff_mem]
  intro hmem
  refine distinct.2.2 name ?_ name hname rfl
  rw [List.mem_append]
  replace hmem : name ∈ graph.body.ownNames := hmem
  rw [GraphOf.ownNames, List.mem_append] at hmem
  refine hmem.elim .inl fun hinput => ?_
  by_cases hinitial : name ∈ graph.body.initializers.map Prod.fst
  · exact .inl hinitial
  · refine .inr (List.mem_filter.2 ⟨hinput, ?_⟩)
    rw [Bool.not_eq_true', ← Bool.not_eq_true, List.contains_iff_mem]
    exact hinitial

-- ================================================================== loops

/-- The rules for graphs without graphs inside: no loop is put on the
module. -/
def Rules.flat : Rules where
  reads _ := True
  constants _ _ := True
  outputs _ _ := True
  loops _ := False

theorem Scope.Stores.loops_eq {scope scope' : Scope} {name : String} {t : Tensor}
    (stores : scope.Stores name t scope') : scope'.loops = scope.loops := by
  obtain ⟨place, trainable, label, nodeNames, supply, attributeCounters, -, rfl⟩ := stores
  rfl

theorem Scope.Gets.loops_eq {outer : Scopes} {scope scope' : Scope} {name : String} {ref : Ref}
    (gets : scope.Gets outer name ref scope') : scope'.loops = scope.loops := by
  cases gets with
  | bound _ => rfl
  | constant _ => rfl
  | initial _ _ stores => exact stores.loops_eq
  | known _ stores => exact stores.loops_eq
  | copied _ _ _ stores => exact stores.loops_eq
  | captured _ _ _ captures =>
      obtain ⟨inputName, label, inputCounters, supply, -, -, rfl⟩ := captures
      rfl

theorem Move.loops_eq {outer : Scopes} {scope scope' : Scope} (h : Move outer .flat scope scope') :
    scope'.loops = scope.loops := by
  cases h with
  | value _ gets => exact gets.loops_eq
  | apply _ => rfl
  | call allowed _ => exact allowed.elim
  | constant _ stores => exact stores.loops_eq
  | output _ _ => rfl
  | settle _ _ => rfl

theorem Moves.loops_eq {outer : Scopes} {scope scope' : Scope} (h : Moves outer .flat scope scope') :
    scope'.loops = scope.loops :=
  h.preserve (P := fun other => other.loops = scope.loops)
    (fun _ _ hmove hloops => hmove.loops_eq.trans hloops) rfl

/-- A node without graphs inside is no scan. -/
theorem permit_flat {node : NodeOf Graph} {context : Context} {session : Session}
    (flat : node.inner = []) :
    Rules.flat.Permit (node.map (Graph.fold Handlers.standard.importer)) context session where
  reads _ _ := trivial
  scans spelling log result middle scanned := by
    have hmem := NodeOf.mem_inner_of_graph? scanned.graph
    rw [NodeOf.inner_map, flat] at hmem
    cases hmem
  constants _ := ⟨trivial, fun _ _ => .inr fun _ => trivial⟩
  outputs _ _ _ _ _ _ := trivial

section

variable {graph : Graph} {asTuple : Bool} {context : Context} {start left : Scope} {m : Module}

/-- A graph without graphs inside becomes a module without loops. -/
theorem Lowered.loops_eq
    (lowered : Lowered (Handlers.standard.prepare graph) asTuple context start m left)
    (hstart : Scope.ofGraph (Handlers.standard.prepare graph) = .ok start)
    (flat : ∀ node ∈ graph.body.nodes, node.inner = []) : m.loops = .empty := by
  obtain ⟨_, -, -, -, -, htied, -⟩ := ofGraph_feedsAll hstart lowered.feeds
  have hnodes : Moves context.outer .flat lowered.fed.scope lowered.last.scope := by
    refine lowerNodes_moves lowered.nodes (fun node hnode session => ?_) htied
    obtain ⟨inner, hinner, rfl⟩ := List.mem_map.1 hnode
    exact permit_flat (flat inner hinner)
  have houtputs : Moves context.outer .flat lowered.last.scope lowered.ended :=
    (lowered.outputs.moves (fun _ _ => trivial) (hnodes.tied htied)).1
  have hloops : start.loops = .empty := by
    obtain ⟨_, -, rfl⟩ := ofGraph_eq_ok hstart
    rfl
  have hsame := congrArg Scope.loops lowered.feeds.same
  have hmodule : m.loops = lowered.ended.loops := congrArg ModuleOf.loops lowered.module
  rw [hmodule, houtputs.loops_eq, hnodes.loops_eq]
  exact hsame.trans hloops

end

-- =================================================================== runs

/-- What a graph returns: a single result as it is, if no tuple is asked
for. -/
def Output.ofResults (asTuple : Bool) (results : List Operand) : Output :=
  match asTuple, results with
  | false, [result] => .single result
  | _, results => .tuple results

theorem ModuleOf.returns_ofRefs {L : Type} {m : ModuleOf L} {asTuple : Bool} {refs : List Ref}
    (h : m.results = .ofRefs asTuple refs) (inputs : List Operand) (done : List Value) :
    m.returns inputs done
      = .ofResults asTuple (refs.map fun ref => (ref.value inputs done).operand) := by
  unfold returns
  rw [h]
  rcases asTuple, refs with ⟨_ | _, _ | ⟨ref, _ | ⟨second, rest⟩⟩⟩ <;> rfl

section

variable {graph : Graph} {opset : Int} {asTuple : Bool} {m : Module}

/-- What a graph without graphs inside is lowered to does what the graph
means, if no name does harm in it. -/
theorem realises_lower (plain : ∀ node ∈ graph.body.nodes, node.Plain)
    (distinct : graph.body.givenNames.Nodup)
    (h : (graph.lower Handlers.standard opset asTuple).1 = .ok m)
    (targets : (targetsOf m.nodes).Nodup) (legible : m.Legible) (feeds : List Tensor) :
    Realises (fun output entries =>
        output = Output.ofResults asTuple (entries.map fun e => some e.tensor))
      (m.eval (feeds.map some)) ((graph.meaning opset).run (fun _ => none) feeds) := by
  obtain ⟨start, session, hstart, hrun⟩ := runIn_eq_ok h
  obtain ⟨lowered⟩ := lowerGraph_eq_ok hstart hrun
  have hscoped := Graph.scoped_of_plain plain distinct
  have hinner := Graph.capturesReads_inner hscoped
  have hflat : ∀ node ∈ graph.body.nodes, node.inner = [] := fun node hnode => (plain node hnode).flat
  have hnone : session.scope.outerInputs = [] := by
    refine List.eq_nil_iff_forall_not_mem.2 fun name hname => ?_
    obtain ⟨-, -, hvisible, -⟩ := (lowered.captured hstart hscoped hinner).2 name hname
    cases hvisible
  have hloops : ∀ name, m.loops.find? name = none := fun name => by
    rw [lowered.loops_eq hstart hflat, NameMap.find?_empty]
  have hrealises := @Lowered.realises _ _ _ _ _ _ _ _ (fun _ => none) lowered hstart
    hscoped (fun _ hname => nomatch hname)
    (fun node hnode g hg => nomatch (hflat node hnode ▸ hg : g ∈ [])) (fun _ hname => nomatch hname)
    (.of_no_loops legible targets hloops) feeds [] (hnone ▸ .nil)
  rw [List.append_nil] at hrealises
  refine hrealises.mono fun output entries hreturn => ?_
  obtain ⟨done, rfl, hdenotes⟩ := hreturn
  have hresults : m.results = .ofRefs asTuple lowered.refs := congrArg ModuleOf.results lowered.module
  rw [ModuleOf.returns_ofRefs hresults]
  refine congrArg (Output.ofResults asTuple) (map_eq_map_iff_forall₂.2 ?_)
  exact hdenotes.imp fun _ _ hdenotes => congrArg Value.operand hdenotes.value

/-- What a graph without graphs inside is lowered to returns what the
direct evaluator does, and fails where it fails, unless a parameter hides
the library from a node that needs it: then it never returns anything. -/
theorem lower_direct (plain : ∀ node ∈ graph.body.nodes, node.Plain)
    (distinct : graph.body.givenNames.Nodup)
    (h : (graph.lower Handlers.standard opset asTuple).1 = .ok m)
    (targets : (targetsOf m.nodes).Nodup) (besides : m.LegibleBesidesLibrary)
    {feeds : List Tensor} (ranked : opset < 7 → Direct.Ranked opset graph.body feeds)
    (output : Output) :
    m.eval (feeds.map some) = .ok output ↔ m.Legible ∧
      ∃ ts, Direct.evaluate opset graph.body feeds = .ok ts
        ∧ output = .ofResults asTuple (ts.map some) := by
  by_cases hlegible : m.Legible
  · have hmeans := realises_lower plain distinct h targets hlegible feeds
    unfold Graph.meaning at hmeans
    rw [Graph.fold_eq] at hmeans
    have hdirect := @realises_evaluate _ _ (Graph.fold (GraphOf.meaning opset)) opset plain feeds
    have hdefinite := @says_run _ _ (Graph.fold (GraphOf.meaning opset)) _ plain _ ranked
    rw [and_iff_right hlegible]
    rcases hmeans.agree hdirect hdefinite with
      ⟨returned, ts, entries, heval, hts, rfl, htensors⟩ | ⟨⟨e, heval⟩, _, hts⟩
    · have hresults : entries.map (fun e => some e.tensor) = ts.map some :=
        (map_eq_map_iff_forall₂.2 (htensors.imp fun _ _ htensor => congrArg some htensor)).symm
      rw [heval, hts, hresults]
      constructor
      · rintro ⟨⟩
        exact ⟨ts, rfl, rfl⟩
      · rintro ⟨_, ⟨⟩, rfl⟩
        rfl
    · rw [heval, hts]
      exact ⟨fun hok => (nomatch hok), fun ⟨_, hok, _⟩ => (nomatch hok)⟩
  · obtain ⟨hlibrary, node, hnode, hword⟩ := besides.exists_hidden hlegible
    exact ⟨fun heval => absurd heval (ModuleOf.run_ne_ok_of_hidden (m := m.map Loop.meaning) hnode hword
      hlibrary _ output), fun ⟨htrue, _⟩ => absurd htrue hlegible⟩

/-- A matrix to which a constant vector is added along its rows, as it was
done up to version 6. -/
def columnGraph : Graph :=
  ⟨{ nodes := [{
       op := "Add"
       inputs := ["x", "c"]
       outputs := ["s"]
       attributes := [("broadcast", .int 1), ("axis", .int (-2))] }]
     inputs := [{ name := "x", shape := some [.value 2, .value 2] }]
     outputs := [{ name := "s" }, { name := "c" }]
     initializers := [("c", ⟨7, [2], .integers [10, 20]⟩)] }⟩

def columnMatrix : Tensor := ⟨.int64, [2, 2], #[1, 2, 3, 4], rfl⟩

theorem columnGraph_plain : ∀ node ∈ columnGraph.body.nodes, node.Plain := by
  intro node hnode
  rw [List.mem_singleton.1 hnode]
  exact ⟨by decide, ⟨"s", rfl, by decide⟩, rfl⟩

/-- Only the shape of the matrix is declared. -/
theorem columnGraph_declared {name : String} {shape : KnownShape}
    (h : (columnGraph.body.declarations.find? name).bind KnownType.shape = some shape) :
    name = "x" ∧ shape = [some 2, some 2] := by
  by_cases hmem : name ∈ ["x", "s", "c"]
  · simp only [List.mem_cons, List.not_mem_nil, or_false] at hmem
    rcases hmem with rfl | rfl | rfl <;> cases h
    exact ⟨rfl, rfl⟩
  · have hnone : columnGraph.body.declarations.find? name = none :=
      NameMap.find?_ofList_eq_none.2 hmem
    rw [hnone] at h
    cases h

theorem columnGraph_ranked : Direct.Ranked 6 columnGraph.body [columnMatrix] := by
  intro nodes values hshorter hafter name t shape ht hshape
  obtain ⟨rfl, rfl⟩ := columnGraph_declared hshape
  have hrank : ∀ nodes ∈ [[], columnGraph.body.nodes],
      ((Direct.after 6 columnGraph.body [columnMatrix] nodes).map
        fun values => (values "x").map Tensor.rank).toOption = some (some 2) := by decide +kernel
  have hnodes : nodes ∈ [[], columnGraph.body.nodes] := by
    obtain rfl | ⟨rest, rfl, hrest⟩ := List.prefix_cons_iff.1 hshorter
    · exact List.mem_cons_self
    · rw [List.prefix_nil.1 hrest]
      exact List.mem_cons_of_mem _ List.mem_cons_self
  have hmatrix := hrank nodes hnodes
  rw [hafter] at hmatrix
  exact Option.some.inj ((congrArg (Option.map Tensor.rank) ht).symm.trans (Option.some.inj hmatrix))

/-- The vector is added to the columns, and returned besides. -/
theorem lower_direct_column :
    ∃ m, (columnGraph.lower Handlers.standard 6 false).1 = .ok m
      ∧ m.eval [some columnMatrix] = .ok (.tuple
        [some ⟨.int64, [2, 2], #[11, 12, 23, 24], rfl⟩, some (.vector .int64 [10, 20])]) := by
  obtain ⟨m, hm, hharmless⟩ : ∃ m, (columnGraph.lower Handlers.standard 6 false).1 = .ok m
      ∧ m.harmless = true := Except.exists_of_test (by decide +kernel)
  obtain ⟨ts, hts, hsum⟩ : ∃ ts, Direct.evaluate 6 columnGraph.body [columnMatrix] = .ok ts
      ∧ decide (ts = [⟨.int64, [2, 2], #[11, 12, 23, 24], rfl⟩, .vector .int64 [10, 20]]) = true :=
    Except.exists_of_test (by decide +kernel)
  have tidy := ModuleOf.Tidy.of_harmless hharmless
  refine ⟨m, hm, (lower_direct columnGraph_plain (by decide +kernel) hm tidy.distinct
    tidy.legible.besidesLibrary (fun _ => columnGraph_ranked) _).2 ⟨tidy.legible, ts, hts, ?_⟩⟩
  rw [of_decide_eq_true hsum]
  rfl

/-- An input that has the name of the library hides it from a node that
takes a root. -/
theorem lower_hides_library :
    ∃ m, ((Lower.rootBody "torch").lower Handlers.standard 13 false).1 = .ok m
      ∧ (∀ node ∈ (Lower.rootBody "torch").body.nodes, node.Plain)
      ∧ (Lower.rootBody "torch").body.givenNames.Nodup ∧ (targetsOf m.nodes).Nodup
      ∧ Direct.evaluate 13 (Lower.rootBody "torch").body [.scalar .float32 0x40800000]
        = .ok [.scalar .float32 0x40000000]
      ∧ ∀ output, m.eval [some (.scalar .float32 0x40800000)] ≠ .ok output := by
  obtain ⟨m, hm, htest⟩ : ∃ m, ((Lower.rootBody "torch").lower Handlers.standard 13 false).1 = .ok m
      ∧ (decide (targetsOf m.nodes).Nodup
        && !(m.eval [some (.scalar .float32 0x40800000)]).isOk) = true :=
    Except.exists_of_test (by decide +kernel)
  obtain ⟨ts, hts, hroot⟩ : ∃ ts, Direct.evaluate 13 (Lower.rootBody "torch").body
      [.scalar .float32 0x40800000] = .ok ts ∧ decide (ts = [.scalar .float32 0x40000000]) = true :=
    Except.exists_of_test (by decide +kernel)
  rw [Bool.and_eq_true, decide_eq_true_eq, Bool.not_eq_true'] at htest
  obtain ⟨htargets, hfails⟩ := htest
  refine ⟨m, hm, fun node hnode => ?_, by decide +kernel, htargets, of_decide_eq_true hroot ▸ hts,
    fun output houtput => ?_⟩
  · rw [List.mem_singleton.1 hnode]
    exact ⟨by decide, ⟨"y", rfl, by decide⟩, rfl⟩
  · rw [houtput] at hfails
    cases hfails

end

end OnnxLowering
