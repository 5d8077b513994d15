/-
The modules that graphs become. Before its first node a graph has its
initial tensors and its inputs (`Holds.feedsAll`), behind the last one it
returns what its outputs stand for, and so its module does what the graph
means, if the graphs inside do (`Lowered.realises`). `simulates` ties the
knot: at any depth, a graph that has become a module is closed over the
names that it captures.
-/
import OnnxLowering.Proofs.Lowering.Simulation

namespace OnnxLowering

/-- Modules over the meanings of their loops have the same loops. -/
theorem ModuleOf.find?_loops_map {A B : Type} (m : ModuleOf A) (f : A → B) (name : String) :
    (m.map f).loops.find? name = (m.loops.find? name).map f := by
  unfold ModuleOf.map NameMap.find?
  induction m.loops.entries with
  | nil => rfl
  | cons entry rest ih =>
      obtain ⟨key, loop⟩ := entry
      rw [List.map_cons, List.lookup_cons, List.lookup_cons]
      split
      · rfl
      · exact ih

namespace World

variable {w : World} {scope scope' : Scope} {outside env : Env} {done : List Value} {G : Type}
  {graph : GraphOf G}

-- ================================================================= starts

/-- Before anything else there are the initial tensors. -/
theorem Holds.ofInitial {start : Scope} {initial : List (String × Tensor)}
    (hstart : Scope.ofGraph graph = .ok start) (hinitial : graph.initial = .ok initial) :
    w.Holds outside start [] fun name =>
      match (NameMap.ofList initial).find? name with
      | some t => some (.ofConstant t)
      | none => outside name := by
  obtain ⟨initial', hinitial', rfl⟩ := ofGraph_eq_ok hstart
  cases hinitial.symm.trans hinitial'
  refine ⟨rfl, rfl, fun name hname => ?_, fun name hname => ?_, fun _ hname => nomatch hname⟩
  · have hsome : ∃ t, (NameMap.ofList initial).find? name = some t := by
      simp only [Scope.defines, NameMap.contains, NameMap.find?_empty, Option.isSome_none,
        Bool.false_or, Bool.or_self] at hname
      exact Option.isSome_iff_exists.1 hname
    obtain ⟨t, ht⟩ := hsome
    refine ⟨.ofConstant t, by simp only [ht], ⟨ht, fun t' ht' => ?_, fun _ => ?_⟩, ?_⟩
    · exact (ht.symm.trans ht' ▸ rfl : (Entry.ofConstant t).known? = some t')
    · exact List.mem_singleton_self _
    · rintro ref (href | href) <;> cases href
  · obtain ⟨-, -, hnone⟩ := Scope.find?_of_not_defines hname
    replace hnone : (NameMap.ofList initial).find? name = none := hnone
    simp only [hnone]

/-- An input of the graph stands for what is fed to it. -/
theorem Holds.feeds {name : String} {t : Tensor} (h : w.Holds outside scope done env)
    (feeds : scope.Feeds name scope') (new : Unknown scope name) (houter : scope.outerInputs = [])
    (hinput : w.inputs[scope.inputNames.length]? = some (some t)) :
    w.Holds outside scope' done (env.insert name
      ⟨t, false, ((scope.declarations.find? name).bind KnownType.shape).toList⟩) := by
  obtain ⟨inputName, label, inputCounters, supply, -, hlabel, rfl⟩ := feeds
  have hlength : scope.inputs.length = scope.inputNames.length := by
    rw [h.inputs, houter]
    rfl
  let added : Scope := { scope with
    inputs := scope.inputs ++ [⟨inputName, label⟩]
    inputNames := scope.inputNames ++ [name]
    inputCounters, supply }
  have hadded : w.Holds outside added done env := by
    refine ⟨h.count, ?_, fun other hother => ?_, h.outside, h.stored⟩
    · show (scope.inputs ++ [_]).length = (scope.inputNames ++ [_]).length + scope.outerInputs.length
      rw [List.length_append, List.length_append, hlength, houter]
      rfl
    · obtain ⟨e', henv, hknows, hdenotes⟩ := h.inside other hother
      exact ⟨e', henv, ⟨hknows.tensor, hknows.initial, hknows.exact⟩, fun ref hbound =>
        (hdenotes ref hbound).extend (List.prefix_append _ _) List.prefix_rfl List.prefix_rfl⟩
  have hdenotes : w.Denotes added done (.input scope.inputs.length)
      ⟨t, false, ((scope.declarations.find? name).bind KnownType.shape).toList⟩ := by
    refine ⟨by simp [added], ?_, ?_⟩
    · rw [Ref.value, List.getD_eq_getElem?_getD, hlength, hinput]
      rfl
    · show KnownAs ((scope.inputs ++ [_])[scope.inputs.length]?.map Input.label |>.getD {}).shape.join _
      rw [List.getElem?_concat_length, Option.map_some, Option.getD_some, hlabel]
      cases (scope.declarations.find? name).bind KnownType.shape with
      | none => rfl
      | some dims => exact List.mem_singleton_self dims
  have hknows : added.Knows name
      ⟨t, false, ((scope.declarations.find? name).bind KnownType.shape).toList⟩ :=
    ⟨new.tensors, fun t ht => (by cases new.initializers.symm.trans ht),
      fun htrue => absurd htrue Bool.false_ne_true⟩
  exact hadded.bind hdenotes hknows fun ref' href => by cases new.constants.symm.trans href

/-- What names stand for before the first node. -/
theorem Holds.feedsAll {names : List String} {ts : List Tensor} (h : w.Holds outside scope done env)
    (feeds : scope.FeedsAll names scope') (new : ∀ name ∈ names, Unknown scope name)
    (houter : scope.outerInputs = []) (hlength : ts.length = names.length)
    (hinputs : ∀ (i : Nat) t, ts[i]? = some t →
      w.inputs[scope.inputNames.length + i]? = some (some t)) :
    w.Holds outside scope' done ((names.zip ts).foldl
      (fun env (name, t) => env.insert name
        ⟨t, false, ((scope.declarations.find? name).bind KnownType.shape).toList⟩) env) := by
  induction feeds generalizing env ts with
  | nil => exact h
  | @cons scope middle scope' name names first rest ih =>
      obtain ⟨t, ts, rfl⟩ := List.exists_cons_of_length_eq_add_one hlength
      rw [List.forall_mem_cons] at new
      have hfed := h.feeds first new.1 houter (hinputs 0 t rfl)
      obtain ⟨inputName, label, inputCounters, supply, -, -, rfl⟩ := first
      refine ih hfed (fun other hother => ?_) houter (Nat.succ.inj hlength) fun i t' ht' => ?_
      · obtain ⟨htensors, hinitializers, hconstants⟩ := new.2 other hother
        exact ⟨htensors, hinitializers, hconstants⟩
      · show w.inputs[(scope.inputNames ++ [name]).length + i]? = _
        rw [List.length_append, List.length_singleton, Nat.add_assoc, Nat.add_comm 1]
        exact hinputs (i + 1) t' ht'

/-- What a module returns whose results have values. -/
theorem are_returns {L : Type} {m : ModuleOf L} {es : List Entry}
    (h : List.Forall₂ (w.Denotes scope done) m.results.refs es) :
    (m.returns w.inputs done).Are (es.map Entry.tensor) := by
  have hvalues : m.results.refs.map (fun ref => (ref.value w.inputs done).operand)
      = (es.map Entry.tensor).map some := by
    rw [List.map_map]
    exact map_eq_map_iff_forall₂.2 (h.imp fun _ _ hdenotes =>
      congrArg Value.operand hdenotes.value)
  unfold ModuleOf.returns Output.Are Output.operands
  cases hresults : m.results with
  | single ref =>
      rw [hresults] at hvalues
      exact hvalues
  | tuple refs =>
      rw [hresults] at hvalues
      exact hvalues

end World

-- ================================================================= operands

section

variable {feeds outers : List Tensor}

/-- What is fed to a graph comes first, -/
theorem getElem?_feeds {i : Nat} {t : Tensor} (ht : feeds[i]? = some t) :
    ((feeds ++ outers).map some)[i]? = some (some t) := by
  rw [List.getElem?_map, List.getElem?_append_left (List.getElem?_eq_some_iff.1 ht).1, ht]
  rfl

/-- and behind it what the graph captures. -/
theorem getElem?_captured {outside : Env} {names : List String} {i : Nat} {name : String}
    (houters : List.Forall₂ (fun name t => ∃ e, outside name = some e ∧ e.tensor = t) names outers)
    (hname : names[i]? = some name) :
    ∃ e, outside name = some e
      ∧ ((feeds ++ outers).map some)[feeds.length + i]? = some (some e.tensor) := by
  obtain ⟨t, ht⟩ : ∃ t, outers[i]? = some t :=
    ⟨_, List.getElem?_eq_getElem (houters.length_eq ▸ (List.getElem?_eq_some_iff.1 hname).1)⟩
  obtain ⟨e, houtside, rfl⟩ := getElem?_forall₂ houters hname ht
  refine ⟨e, houtside, ?_⟩
  rw [List.getElem?_map, List.getElem?_append_right (Nat.le_add_right _ _),
    Nat.add_sub_cancel_left, ht]
  rfl

end

-- ================================================================== graphs

section

variable {graph : Graph} {asTuple : Bool} {opset : Int} {outer : Scopes} {start left : Scope}
  {m : Module} {visible : Visible} {outside : Env}

/-- The scope in which the first node is lowered. -/
theorem Lowered.fed_eq {graph : GraphOf Importer} {context : Context}
    (lowered : Lowered graph asTuple context start m left)
    (hstart : Scope.ofGraph graph = .ok start) :
    lowered.fed.scope.inputNames = graph.feedNames ∧ lowered.fed.scope.outerInputs = []
      ∧ lowered.fed.scope.nodes = [] ∧ lowered.fed.scope.declarations = graph.declarations
      ∧ lowered.fed.scope.outputs = graph.outputs.map ValueInfo.name
      ∧ lowered.fed.scope.inputs.map (fun input => input.label.name)
        = graph.feedNames.map some := by
  have hlabels := lowered.feeds.inputs
  have hsame := lowered.feeds.same
  obtain ⟨_, -, rfl⟩ := ofGraph_eq_ok hstart
  exact ⟨congrArg Scope.inputNames hsame, congrArg Scope.outerInputs hsame,
    congrArg Scope.nodes hsame, congrArg Scope.declarations hsame, congrArg Scope.outputs hsame,
    hlabels⟩

theorem Lowered.results_refs {graph : GraphOf Importer} {context : Context}
    (lowered : Lowered graph asTuple context start m left) : m.results.refs = lowered.refs :=
  (congrArg (·.results.refs) lowered.module).trans (Results.refs_ofRefs asTuple lowered.refs)

theorem Lowered.label_eq {graph : GraphOf Importer} {context : Context}
    (lowered : Lowered graph asTuple context start m left) (ref : Ref) :
    m.label ref = lowered.ended.label ref :=
  (congrArg (·.label ref) lowered.module).trans (by cases ref <;> rfl)

/-- What names stand for before the first node. -/
theorem Lowered.fed_holds {graph : GraphOf Importer} {context : Context} {w : World}
    {initial : List (String × Tensor)} {feeds : List Tensor}
    (lowered : Lowered graph asTuple context start m left)
    (hstart : Scope.ofGraph graph = .ok start) (hinitial : graph.initial = .ok initial)
    (hlength : feeds.length = graph.feedNames.length)
    (hinputs : ∀ (i : Nat) t, feeds[i]? = some t → w.inputs[i]? = some (some t)) :
    w.Holds outside lowered.fed.scope [] (graph.entries outside initial feeds) := by
  have hholds : w.Holds outside start [] _ := World.Holds.ofInitial hstart hinitial
  have hfeeds := lowered.feeds
  obtain ⟨initial', hinitial', rfl⟩ := ofGraph_eq_ok hstart
  cases hinitial.symm.trans hinitial'
  refine hholds.feedsAll hfeeds (fun name hname => ?_) rfl hlength fun i t ht => ?_
  · have hnone : (NameMap.ofList initial).find? name = none := by
      rw [NameMap.find?_ofList_eq_none, GraphOf.map_fst_initial hinitial]
      have hfree := (List.mem_filter.1 hname).2
      rw [Bool.not_eq_true'] at hfree
      exact fun hmem => nomatch hfree.symm.trans (List.contains_iff_mem.2 hmem)
    exact ⟨hnone, hnone, rfl⟩
  · show w.inputs[0 + i]? = _
    rw [Nat.zero_add]
    exact hinputs i t ht

/-- Before the first node a graph has its own names, and no others. -/
theorem Lowered.defines_fed_iff {graph : GraphOf Importer} {context : Context} {name : String}
    (lowered : Lowered graph asTuple context start m left)
    (hstart : Scope.ofGraph graph = .ok start) :
    lowered.fed.scope.defines name = true ↔ name ∈ graph.ownNames := by
  obtain ⟨initial, hinitial, hinitializers, htensors, -, -, hbindings⟩ :=
    ofGraph_feedsAll hstart lowered.feeds
  rw [Scope.defines, hbindings, hinitializers, htensors, NameMap.contains_ofList,
    GraphOf.map_fst_initial hinitial, Bool.or_assoc, Bool.or_self, Bool.or_eq_true,
    List.contains_iff_mem, List.contains_iff_mem, GraphOf.ownNames, List.mem_append,
    GraphOf.feedNames, List.mem_filter, Bool.not_eq_true', ← Bool.not_eq_true, List.contains_iff_mem]
  tauto

theorem Lowered.visible_fed {graph : GraphOf Importer} {context : Context}
    (lowered : Lowered graph asTuple context start m left)
    (hstart : Scope.ofGraph graph = .ok start)
    (hvisible : ∀ name, outer.defines name = true → visible name = true) (name : String)
    (hname : Scopes.defines (lowered.fed.scope :: outer) name = true) :
    visible.adding graph.ownNames name = true := by
  rcases Bool.or_eq_true _ _ ▸ hname with hname | hname
  · exact Visible.adding_of_mem ((lowered.defines_fed_iff hstart).1 hname)
  · exact Visible.adding_of_visible (hvisible name hname)

/-- The inputs of the module are those of the graph and then the captured
names. -/
theorem Lowered.labels
    (lowered : Lowered (Handlers.standard.prepare graph) asTuple ⟨opset, outer⟩ start m left)
    (hstart : Scope.ofGraph (Handlers.standard.prepare graph) = .ok start)
    (hscoped : graph.scoped visible = true)
    (hinner : ∀ node ∈ graph.body.nodes, ∀ g ∈ node.inner, CapturesReads g) :
    left.inputNames = graph.body.feedNames ∧ m.inputs.map (fun input => input.label.name)
      = (left.inputNames ++ left.outerInputs).map some := by
  obtain ⟨hnodes, houtputs⟩ := lowered.grows hstart hscoped hinner
  have hgrows := hnodes.trans houtputs
  obtain ⟨hinputNames, hnone, -, -, -, hlabels⟩ := lowered.fed_eq hstart
  obtain ⟨names, inputs, houter, hinputs, hnames, -⟩ := hgrows.captured
  have hleft : left.inputNames = graph.body.feedNames := by
    rw [lowered.inputNames, hgrows.inputNames, hinputNames]
    rfl
  have hmodule : m.inputs = lowered.fed.scope.inputs ++ inputs := by
    rw [← hinputs]
    exact congrArg ModuleOf.inputs lowered.module
  refine ⟨hleft, ?_⟩
  rw [hmodule, List.map_append, hlabels, hnames, hleft, lowered.outerInputs, houter, hnone,
    List.nil_append, List.map_append]
  rfl

theorem Lowered.arity
    (lowered : Lowered (Handlers.standard.prepare graph) asTuple ⟨opset, outer⟩ start m left)
    (hstart : Scope.ofGraph (Handlers.standard.prepare graph) = .ok start)
    (hscoped : graph.scoped visible = true)
    (hinner : ∀ node ∈ graph.body.nodes, ∀ g ∈ node.inner, CapturesReads g) :
    m.inputs.length = left.inputNames.length + left.outerInputs.length := by
  have hlength := congrArg List.length (lowered.labels hstart hscoped hinner).2
  rwa [List.length_map, List.length_map, List.length_append] at hlength

/-- The module of a graph fits every scope on the way to it. -/
theorem Lowered.fits
    (lowered : Lowered (Handlers.standard.prepare graph) asTuple ⟨opset, outer⟩ start m left)
    (tidy : m.Tidy) {inputs : List Operand}
    (hcaptured : ∀ i name, left.outerInputs[i]? = some name → ∃ e, outside name = some e
      ∧ inputs[left.inputNames.length + i]? = some (some e.tensor)) :
    (World.mk (m.map Loop.meaning) inputs).Fits outside lowered.ended := by
  rw [lowered.outerInputs, lowered.inputNames] at hcaptured
  have hnodes : m.nodes = lowered.ended.nodes := congrArg ModuleOf.nodes lowered.module
  have hattributes : m.attributes = lowered.ended.attributes :=
    congrArg ModuleOf.attributes lowered.module
  have hloops : m.loops = lowered.ended.loops := congrArg ModuleOf.loops lowered.module
  refine ⟨hnodes ▸ tidy.distinct, fun name _ => ?_, fun name _ => ?_,
    fun name hname wiring arity body hloop => ?_, hcaptured⟩
  · exact congrArg (NameMap.find? · name) hattributes
  · rw [← hloops]
    exact ModuleOf.find?_loops_map m _ name
  · rw [← hnodes] at hname
    rw [← hloops] at hloop
    exact tidy.body hname hloop

/-- A module evaluates what was lowered between the first node and the
results. -/
theorem Lowered.eval_eq
    (lowered : Lowered (Handlers.standard.prepare graph) asTuple ⟨opset, outer⟩ start m left)
    (hstart : Scope.ofGraph (Handlers.standard.prepare graph) = .ok start) (tidy : m.Tidy)
    {inputs : List Operand} (hlength : inputs.length = m.inputs.length) :
    m.eval inputs = (do
      return m.returns inputs (← World.advance ⟨m.map Loop.meaning, inputs⟩ lowered.fed.scope
        lowered.ended [])) := by
  have hlegible : (m.map Loop.meaning).Legible := ⟨tidy.legible.sources, tidy.legible.visible⟩
  have hall : m.nodes = lowered.ended.nodes := congrArg ModuleOf.nodes lowered.module
  unfold ModuleOf.eval World.advance
  rw [ModuleOf.run_of_legible hlegible hlength, (lowered.fed_eq hstart).2.2.1, ← hall]
  rfl

/-- The module of a graph does what the graph means. -/
theorem Lowered.realises
    (lowered : Lowered (Handlers.standard.prepare graph) asTuple ⟨opset, outer⟩ start m left)
    (hstart : Scope.ofGraph (Handlers.standard.prepare graph) = .ok start)
    (hscoped : graph.scoped visible = true)
    (hvisible : ∀ name, outer.defines name = true → visible name = true)
    (hsimulates : ∀ node ∈ graph.body.nodes, ∀ g ∈ node.inner, Simulates opset g)
    (seen : Seen outer outside) (tidy : m.Tidy) {feeds outers : List Tensor}
    (houters : List.Forall₂ (fun name t => ∃ e, outside name = some e ∧ e.tensor = t)
      left.outerInputs outers) :
    Realises (fun output entries => ∃ done, output = m.returns ((feeds ++ outers).map some) done
        ∧ List.Forall₂
          (World.Denotes ⟨m.map Loop.meaning, (feeds ++ outers).map some⟩ lowered.ended done)
          lowered.refs entries)
      (m.eval ((feeds ++ outers).map some)) ((graph.meaning opset).run outside feeds) := by
  have hinner := Graph.capturesReads_inner hscoped
  have hinputNames := (lowered.labels hstart hscoped hinner).1
  have harity := hinputNames ▸ lowered.arity hstart hscoped hinner
  obtain ⟨-, -, -, hdeclarations, hnamed, -⟩ := lowered.fed_eq hstart
  obtain ⟨hnodes, houtputs⟩ := lowered.grows hstart hscoped hinner
  obtain ⟨initial, hinitial, -, -, -, htied, -⟩ := ofGraph_feedsAll hstart lowered.feeds
  replace hinitial : graph.body.initial = .ok initial := hinitial
  have hlength : ((feeds ++ outers).map some).length = m.inputs.length
      ↔ feeds.length = graph.body.feedNames.length := by
    rw [harity, List.length_map, List.length_append, houters.length_eq]
    omega
  unfold Graph.meaning
  rw [Graph.fold_eq]
  show Realises _ (m.eval ((feeds ++ outers).map some)) (do
    Outcome.demand (feeds.length = graph.body.feedNames.length)
    let initial ← .ofExcept graph.body.initial
    let env ← (graph.body.nodes.map (NodeOf.map (Graph.meaning opset))).foldlM
      (evalNode opset graph.body.declarations) (graph.body.entries outside initial feeds)
    graph.body.outputs.mapM fun info => env.read info.name)
  by_cases hfeeds : feeds.length = graph.body.feedNames.length
  · have fits := @Lowered.fits _ _ _ _ _ _ _ outside lowered tidy ((feeds ++ outers).map some)
      fun i name hname => by
        rw [hinputNames, ← hfeeds]
        exact getElem?_captured houters hname
    have hfed := @Lowered.fed_holds _ _ _ _ outside _ _
      ⟨m.map Loop.meaning, (feeds ++ outers).map some⟩ _ _ lowered hstart hinitial hfeeds
      fun i t ht => getElem?_feeds ht
    have hmeans := hfed.lowersNodes (Graph.nodesScoped hscoped) seen
      (lowered.visible_fed hstart hvisible) hinner htied lowered.nodes (fits.of_grows houtputs)
      hsimulates
    rw [hdeclarations] at hmeans
    rw [lowered.eval_eq hstart tidy (hlength.2 hfeeds), World.advance_trans hnodes houtputs,
      Outcome.demand, if_pos hfeeds, Outcome.ok_bind, Outcome.ofExcept_eq_ok.2 hinitial,
      Outcome.ok_bind, bind_assoc]
    refine hmeans.bind fun done env _ hholds => ?_
    obtain ⟨es, done', hes, hadvance, -, hdenotes⟩ :=
      hholds.getsAll seen lowered.outputs fits
    rw [hadvance, Except.ok_bind]
    rw [hnodes.outputs, hnamed, List.mapM_map] at hes
    rw [show (graph.body.outputs.mapM fun info => env.read info.name) = .ok es from hes]
    exact .ok ⟨done', rfl, hdenotes⟩
  · rw [Outcome.demand, if_neg hfeeds, Outcome.failed_bind]
    exact ⟨_, ModuleOf.run_of_length_ne fun heq => hfeeds (hlength.1 heq)⟩

/-- At any depth, the module of a graph does what the graph means. -/
theorem simulates (opset : Int) (graph : Graph) : Simulates opset graph := by
  induction graph using Graph.induct with
  | step graph ih =>
      intro visible scopes env subgraph hscoped hvisible hseen h htidy
      rw [Graph.fold_eq] at h
      obtain ⟨start, left, hstart, ⟨lowered⟩, hinputNames, houtputNames, houterInputs⟩ :=
        importer_eq_ok h
      have hinner := Graph.capturesReads_inner hscoped
      have hlabels := (lowered.labels hstart hscoped hinner).1
      have hrefs := lowered.results_refs
      have hmeaning : graph.meaning opset
          = GraphOf.meaning opset (graph.body.map (Graph.meaning opset)) := Graph.fold_eq _ graph
      have houtputs : subgraph.outputNames = lowered.last.scope.outputs :=
        houtputNames.trans
          (lowered.outputNames.trans (lowered.grows hstart hscoped hinner).2.outputs)
      have hnamed : lowered.last.scope.outputs = graph.body.outputs.map ValueInfo.name :=
        (lowered.grows hstart hscoped hinner).1.outputs.trans (lowered.fed_eq hstart).2.2.2.2.1
      refine ⟨?_, ?_, ?_, ?_, fun feeds outers houters => ?_⟩
      · rw [hinputNames, hlabels, hmeaning]
        rfl
      · rw [houtputs, hnamed, List.length_map, hmeaning]
        rfl
      · rw [hinputNames, houterInputs]
        exact lowered.arity hstart hscoped hinner
      · rw [hrefs, houtputs, lowered.outputs.length_eq]
      · refine (lowered.realises hstart hscoped hvisible (fun node hnode g hg =>
          ih node hnode g hg) hseen htidy (houterInputs ▸ houters)).mono
            fun output entries hreturn => ?_
        obtain ⟨done, rfl, hdenotes⟩ := hreturn
        refine ⟨World.are_returns (hrefs ▸ hdenotes), ?_⟩
        rw [hrefs]
        refine hdenotes.imp fun ref e hdenotes => ⟨lowered.label_eq ref ▸ hdenotes.shapes, ?_⟩
        rintro i t rfl ht
        have hvalue := hdenotes.value
        rw [Ref.value, List.getD_eq_getElem?_getD, getElem?_feeds ht] at hvalue
        cases hvalue
        rfl

end

namespace Lower

variable {node : NodeOf Graph} {key : String} {graph : Graph} {context : Context}
  {session session' : Session} {subgraph : Subgraph}

/-- A graph inside a node is closed over what it captures. The captured
names are such as it reads and does not define, and of which nothing is
known around it; they come behind its inputs. Given what they stand for,
the module returns what the graph means where it stands, if no name does
harm in it. -/
theorem importGraph_closed (hgraph : node.graph? key = some graph)
    (hscoped : graph.scoped (Scopes.defines (session.scope :: context.outer)) = true)
    (h : importGraph (node.map (Graph.fold Handlers.standard.importer)) key context session
      = .ok subgraph session') :
    subgraph.outerInputs.Nodup
      ∧ (∀ name ∈ subgraph.outerInputs, name ∈ graph.reads ∧ name ∉ graph.body.names
        ∧ Scopes.defines (session.scope :: context.outer) name = true
        ∧ Scopes.tensor? (session.scope :: context.outer) name = none)
      ∧ subgraph.inputNames = graph.body.feedNames
      ∧ subgraph.outputNames = graph.body.outputs.map ValueInfo.name
      ∧ subgraph.module.inputs.map (fun input => input.label.name)
        = (subgraph.inputNames ++ subgraph.outerInputs).map some
      ∧ ∀ outside, Seen (session.scope :: context.outer) outside → subgraph.module.Tidy →
        ∀ feeds outers : List Tensor,
          List.Forall₂ (fun name t => ∃ e, outside name = some e ∧ e.tensor = t)
            subgraph.outerInputs outers →
          Realises (fun output entries => output = .tuple (entries.map fun e => some e.tensor))
            (subgraph.module.eval ((feeds ++ outers).map some))
            ((graph.meaning context.opset).run outside feeds) := by
  obtain ⟨importer, log, himporter, himported, rfl⟩ := importGraph_eq_ok h
  rw [NodeOf.graph?_map, hgraph] at himporter
  cases himporter
  rw [Graph.fold_eq] at himported
  obtain ⟨start, left, hstart, ⟨lowered⟩, hinputNames, houtputNames, houterInputs⟩ :=
    importer_eq_ok himported
  have hinner := Graph.capturesReads_inner hscoped
  obtain ⟨hnodup, hcaptured⟩ := lowered.captured hstart hscoped hinner
  obtain ⟨hfeedNames, hlabels⟩ := lowered.labels hstart hscoped hinner
  obtain ⟨hnodes, houtputs⟩ := lowered.grows hstart hscoped hinner
  rw [houterInputs, hinputNames, houtputNames]
  refine ⟨hnodup, fun name hname => ?_, hfeedNames, ?_, hlabels,
    fun outside seen tidy feeds outers houters => ?_⟩
  · obtain ⟨hread, hnew, hvisible, hunknown⟩ := hcaptured name hname
    refine ⟨hread, fun hmem => ?_, hvisible, hunknown⟩
    rcases List.mem_append.1 hmem with hown | hgiven
    · exact nomatch hnew.symm.trans ((lowered.defines_fed_iff hstart).2 hown)
    · have hhidden := (Graph.nodesScoped hscoped).not_visible hgiven
      rw [Visible.adding_of_visible hvisible] at hhidden
      cases hhidden
  · rw [lowered.outputNames, houtputs.outputs, hnodes.outputs, (lowered.fed_eq hstart).2.2.2.2.1]
    rfl
  · refine (lowered.realises hstart hscoped (fun _ hvisible => hvisible)
      (fun _ _ g _ => simulates _ g) seen tidy houters).mono fun output entries hreturn => ?_
    obtain ⟨done, rfl, hdenotes⟩ := hreturn
    have hare := World.are_returns (lowered.results_refs ▸ hdenotes)
    have htuple : subgraph.module.results = .tuple lowered.refs :=
      (congrArg ModuleOf.results lowered.module)
    unfold ModuleOf.returns Output.Are at hare
    unfold ModuleOf.returns
    rw [htuple] at hare ⊢
    exact congrArg Output.tuple (hare.trans List.map_map)

/-- A node with a graph inside that scales a vector by something around
it and then adds a constant from there. -/
def affineBody : Graph :=
  ⟨{ nodes :=
       [{ op := "Mul", inputs := ["x", "w"], outputs := ["p"] },
        { op := "Add", inputs := ["p", "c"], outputs := ["y"] }]
     inputs := [{ name := "x" }]
     outputs := [{ name := "y" }] }⟩

/-- A graph inside that has an input of a certain name and returns the
root of it. -/
def rootBody (name : String) : Graph :=
  ⟨{ nodes := [{ op := "Sqrt", inputs := [name], outputs := ["y"] }]
     inputs := [{ name }]
     outputs := [{ name := "y" }] }⟩

def bodyNode (body : Graph) : NodeOf Graph where
  op := "Scan"
  attributes := [("body", .graph body)]

/-- The scope around: a constant, and a value that is not known. -/
def affineScope : Scope where
  bindings := .ofList [("w", .input 0)]
  initializers := .ofList [("c", .scalar .int64 5)]
  tensors := .ofList [("c", .scalar .int64 5)]

/-- What the names around stand for. -/
def affineOutside : Env := fun name =>
  if name = "w" then some ⟨.scalar .int64 3, false, []⟩
  else if name = "c" then some (.ofConstant (.scalar .int64 5))
  else none

theorem seen_affineOutside : Seen [affineScope] affineOutside := by
  intro name hname
  have hcases : name = "w" ∨ name = "c" := by
    simp only [Scopes.defines, Scope.defines, affineScope, NameMap.contains_ofList, List.map_cons,
      List.map_nil, List.contains_cons, List.contains_nil, Bool.or_false, Bool.or_eq_true,
      beq_iff_eq] at hname
    tauto
  rcases hcases with rfl | rfl
  · exact ⟨⟨.scalar .int64 3, false, []⟩, rfl, rfl, fun h => absurd h Bool.false_ne_true, rfl⟩
  · exact ⟨.ofConstant (.scalar .int64 5), rfl, rfl, fun _ => List.mem_singleton_self _,
      List.mem_singleton_self _⟩

/-- Two scaled by three, and five more: the factor comes behind the input,
and the constant is known. -/
theorem importGraph_closed_affine :
    ∃ subgraph session', importGraph
        ((bodyNode affineBody).map (Graph.fold Handlers.standard.importer)) "body" ⟨13, []⟩
        { scope := affineScope } = .ok subgraph session'
      ∧ subgraph.outerInputs = ["w"]
      ∧ subgraph.module.eval [some (.scalar .int64 2), some (.scalar .int64 3)]
        = .ok (.tuple [some (.scalar .int64 11)]) := by
  obtain ⟨subgraph, himport, htest⟩ := @exists_of_succeedsWith _ ⟨13, []⟩
    { scope := affineScope }
    (importGraph ((bodyNode affineBody).map (Graph.fold Handlers.standard.importer)) "body")
    (fun s => decide (s.outerInputs = ["w"]) && s.module.harmless) (by decide +kernel)
  rw [Bool.and_eq_true, decide_eq_true_eq] at htest
  obtain ⟨houterInputs, hharmless⟩ := htest
  have hmeaning : (List.map Entry.tensor <$> ((affineBody.meaning 13).run affineOutside
      [.scalar .int64 2])) = .ok [.scalar .int64 11] := by decide +kernel
  obtain ⟨entries, hentries, htensors⟩ := Outcome.bind_eq_ok.1 hmeaning
  obtain ⟨-, -, -, -, -, hruns⟩ := importGraph_closed rfl (by decide +kernel) himport
  have hrun := hruns affineOutside seen_affineOutside (.of_harmless hharmless)
    [.scalar .int64 2] [.scalar .int64 3] (houterInputs ▸ .cons ⟨_, rfl, rfl⟩ .nil)
  rw [hentries] at hrun
  obtain ⟨output, heval, rfl⟩ := hrun
  refine ⟨subgraph, _, himport, houterInputs, heval.trans ?_⟩
  have hsome := congrArg (List.map some) (Outcome.ok.inj htensors)
  rw [List.map_map] at hsome
  exact congrArg (Except.ok ∘ Output.tuple) hsome

/-- By itself a graph inside does not mean less if its input has the name
of the library, but its module cannot take the root of it. -/
theorem importGraph_hides_library :
    ∃ subgraph session', importGraph
        ((bodyNode (rootBody "torch")).map (Graph.fold Handlers.standard.importer)) "body" ⟨13, []⟩
        { scope := {} } = .ok subgraph session'
      ∧ (rootBody "torch").scoped (Scopes.defines [{}]) = true
      ∧ subgraph.outerInputs = [] ∧ (targetsOf subgraph.module.nodes).Nodup
      ∧ List.map Entry.tensor <$> ((rootBody "torch").meaning 13).run (fun _ => none)
          [.scalar .float32 0x40800000] = .ok [.scalar .float32 0x40000000]
      ∧ ∀ output, subgraph.module.eval [some (.scalar .float32 0x40800000)] ≠ .ok output := by
  obtain ⟨subgraph, himport, htest⟩ := @exists_of_succeedsWith _ ⟨13, []⟩ { scope := {} }
    (importGraph ((bodyNode (rootBody "torch")).map (Graph.fold Handlers.standard.importer)) "body")
    (fun s => decide (s.outerInputs = []) && decide (targetsOf s.module.nodes).Nodup
      && !(s.module.eval [some (.scalar .float32 0x40800000)]).isOk) (by decide +kernel)
  simp only [Bool.and_eq_true, decide_eq_true_eq, Bool.not_eq_true'] at htest
  obtain ⟨⟨houterInputs, hdistinct⟩, hfails⟩ := htest
  refine ⟨subgraph, _, himport, by decide +kernel, houterInputs, hdistinct, by decide +kernel,
    fun output houtput => ?_⟩
  rw [houtput] at hfails
  cases hfails

end Lower

end OnnxLowering
