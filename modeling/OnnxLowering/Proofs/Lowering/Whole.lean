/-
A whole graph, taken apart. Lowering a graph adds its inputs, lowers its
nodes one after the other, reads its outputs and makes a module of the
scope. `Lowered` holds the scopes in between.
-/
import OnnxLowering.Proofs.Lowering.Moves

namespace OnnxLowering

namespace Scope

/-- An input of the graph has become an input of the module. -/
def Feeds (scope : Scope) (name : String) (scope' : Scope) : Prop :=
  ∃ inputName label inputCounters supply,
    label.name = some name
      ∧ label.shape.join = (scope.declarations.find? name).bind KnownType.shape
      ∧ scope' = { scope with
          inputs := scope.inputs ++ [⟨inputName, label⟩]
          bindings := scope.bindings.insert name (.input scope.inputs.length)
          inputNames := scope.inputNames ++ [name]
          inputCounters, supply }

/-- Inputs of the graph have become inputs of the module, one after the
other. -/
inductive FeedsAll : Scope → List String → Scope → Prop
  | nil {scope : Scope} : FeedsAll scope [] scope
  | cons {scope middle scope' : Scope} {name : String} {names : List String}
      (first : scope.Feeds name middle) (rest : FeedsAll middle names scope') :
      FeedsAll scope (name :: names) scope'

/-- The module of a scope that returns certain values. -/
def module (scope : Scope) (results : Results) : Module where
  inputs := scope.inputs
  nodes := scope.nodes
  results := results
  attributes := scope.attributes
  loops := scope.loops

variable {scope scope' : Scope} {names : List String}

/-- Nothing changes but the inputs and what the names of these stand
for. -/
theorem FeedsAll.same (h : scope.FeedsAll names scope') :
    scope' = { scope with
      inputs := scope'.inputs
      bindings := scope'.bindings
      inputNames := scope.inputNames ++ names
      inputCounters := scope'.inputCounters
      supply := scope'.supply } := by
  induction h with
  | nil => rw [List.append_nil]
  | cons first rest ih =>
      obtain ⟨inputName, label, inputCounters, supply, -, -, rfl⟩ := first
      rw [ih]
      simp only [List.append_assoc, List.singleton_append]

/-- The inputs come after those that are there, in order. -/
theorem FeedsAll.inputs (h : scope.FeedsAll names scope') :
    scope'.inputs.map (fun input => input.label.name)
      = scope.inputs.map (fun input => input.label.name) ++ names.map some := by
  induction h with
  | nil => rw [List.map_nil, List.append_nil]
  | cons first _ ih =>
      obtain ⟨inputName, label, inputCounters, supply, hlabel, -, rfl⟩ := first
      rw [ih, List.map_append, List.append_assoc, List.map_cons]
      exact congrArg (fun label => _ ++ label :: _) hlabel

/-- On their labels is what is declared of them. -/
theorem FeedsAll.shapes (h : scope.FeedsAll names scope') :
    scope'.inputs.map (fun input => input.label.shape.join)
      = scope.inputs.map (fun input => input.label.shape.join)
        ++ names.map fun name => (scope.declarations.find? name).bind KnownType.shape := by
  induction h with
  | nil => rw [List.map_nil, List.append_nil]
  | cons first _ ih =>
      obtain ⟨inputName, label, inputCounters, supply, -, hlabel, rfl⟩ := first
      rw [ih, List.map_append, List.append_assoc, List.map_cons]
      exact congrArg (fun shape => _ ++ shape :: _) hlabel

theorem FeedsAll.tied (h : scope.FeedsAll names scope') (tied : scope.Tied) : scope'.Tied := by
  induction h with
  | nil => exact tied
  | @cons scope middle scope' name names first rest ih =>
      refine ih ?_
      obtain ⟨inputName, label, inputCounters, supply, -, -, rfl⟩ := first
      refine @Tied.insert _ _ name (.input scope.inputs.length) tied
        ⟨List.prefix_append _ _, List.prefix_rfl⟩ ?_ (.inr rfl) (.inl rfl)
      show _ < (scope.inputs ++ [_]).length
      rw [List.length_append]
      exact Nat.lt_succ_self _

theorem FeedsAll.contains_bindings (h : scope.FeedsAll names scope') (name : String) :
    scope'.bindings.contains name = (names.contains name || scope.bindings.contains name) := by
  induction h with
  | nil => rfl
  | cons first rest ih =>
      obtain ⟨inputName, label, inputCounters, supply, -, -, rfl⟩ := first
      rw [ih, NameMap.contains_insert, List.contains_cons, ← Bool.or_assoc,
        Bool.or_comm (List.contains _ _)]

end Scope

-- =================================================================== readers

/-- How often a name is counted among some. -/
theorem count_foldl (names : List String) (counters : Counters) (name : String) :
    (names.foldl (fun counters other => counters.insert other (counters.count other + 1)) counters).count
        name
      = counters.count name + names.count name := by
  induction names generalizing counters with
  | nil => rfl
  | cons other names ih =>
      rw [List.foldl_cons, ih, List.count_cons, Counters.count, NameMap.find?_insert]
      by_cases hname : name = other
      · subst hname
        simp only [if_true, Option.getD_some, beq_self_eq_true]
        omega
      · rw [if_neg hname, if_neg (by simpa using Ne.symm hname)]
        rfl

/-- A name has as many readers as there are places where it is read. -/
theorem GraphOf.count_users {G : Type} (graph : GraphOf G) (name : String) :
    graph.users.count name
      = ((graph.nodes.flatMap NodeOf.inputs ++ graph.outputs.map ValueInfo.name).filter
          (!·.isEmpty)).count name := by
  unfold GraphOf.users
  simp only
  rw [count_foldl]
  exact Nat.zero_add _

-- ==================================================================== graphs

/-- What a module returns, given the values of the outputs. -/
def Results.ofRefs (asTuple : Bool) (refs : List Ref) : Results :=
  match asTuple, refs with
  | false, [ref] => .single ref
  | _, refs => .tuple refs

theorem Results.refs_ofRefs (asTuple : Bool) (refs : List Ref) :
    (ofRefs asTuple refs).refs = refs := by
  unfold ofRefs
  split <;> rfl

namespace Lower

variable {context : Context} {session session' : Session}

theorem addGraphInput_eq_ok {info : ValueInfo} {u : Unit}
    (h : addGraphInput info context session = .ok u session') :
    session.scope.Feeds info.name session'.scope := by
  unfold addGraphInput at h
  obtain ⟨ref, middle, hinput, h⟩ := bind_eq_ok.1 h
  rw [withScope_apply, Scope.addInput_eq] at hinput
  cases hinput
  cases h
  simp only [Scope.labelInput, Scope.bind, modify_concat]
  refine ⟨_, _, _, _, rfl, ?_, rfl⟩
  cases session.scope.declarations.find? info.name <;> rfl

theorem forIn_addGraphInput_eq_ok {initializers : NameMap Tensor} {inputs : List ValueInfo}
    {u : PUnit}
    (h : (forIn inputs PUnit.unit fun info _ =>
        if initializers.contains info.name = true then pure (ForInStep.yield PUnit.unit)
        else do
          addGraphInput info
          pure (ForInStep.yield PUnit.unit) : Lower PUnit) context session = .ok u session') :
    session.scope.FeedsAll ((inputs.map ValueInfo.name).filter fun name =>
      !initializers.contains name) session'.scope := by
  induction inputs generalizing session with
  | nil =>
      cases h
      exact .nil
  | cons info inputs ih =>
      rw [List.forIn_cons] at h
      obtain ⟨_, middle, hfirst, h⟩ := bind_eq_ok.1 h
      rw [List.map_cons, List.filter_cons]
      by_cases hinitial : initializers.contains info.name = true
      · rw [if_pos hinitial] at hfirst
        cases hfirst
        rw [hinitial, Bool.not_true, if_neg Bool.false_ne_true]
        exact ih h
      · rw [if_neg hinitial] at hfirst
        obtain ⟨_, _, hadded, hyield⟩ := bind_eq_ok.1 hfirst
        cases hyield
        rw [if_pos (by rw [Bool.eq_false_iff.2 hinitial]; rfl)]
        exact .cons (addGraphInput_eq_ok hadded) (ih h)

/-- The inputs without an initial tensor have been added. -/
theorem addGraphInputs_eq_ok {inputs : List ValueInfo} {u : Unit}
    (h : addGraphInputs inputs context session = .ok u session') :
    session.scope.FeedsAll ((inputs.map ValueInfo.name).filter fun name =>
      !session.scope.initializers.contains name) session'.scope := by
  unfold addGraphInputs at h
  obtain ⟨scope, _, hscope, h⟩ := bind_eq_ok.1 h
  cases hscope
  obtain ⟨_, _, hfor, h⟩ := bind_eq_ok.1 h
  cases h
  exact forIn_addGraphInput_eq_ok hfor

/-- The values of the outputs are the results. -/
theorem results_eq (asTuple : Bool) :
    results asTuple = do return .ofRefs asTuple (← (← scope).outputs.mapM value) := by
  unfold results
  refine congrArg _ (funext fun scope => congrArg _ (funext fun refs => ?_))
  rcases asTuple with _ | _ <;> rcases refs with _ | ⟨ref, _ | ⟨other, refs⟩⟩ <;> rfl

theorem results_eq_ok_iff {asTuple : Bool} {r : Results} :
    results asTuple context session = .ok r session'
      ↔ ∃ refs, session.scope.outputs.mapM value context session = .ok refs session'
        ∧ r = .ofRefs asTuple refs := by
  rw [results_eq, bind_eq_ok]
  constructor
  · rintro ⟨_, _, hscope, h⟩
    cases hscope
    obtain ⟨refs, middle, hrefs, h⟩ := bind_eq_ok.1 h
    obtain ⟨rfl, rfl⟩ := pure_eq_ok.1 h
    exact ⟨refs, hrefs, rfl⟩
  · rintro ⟨refs, hrefs, rfl⟩
    exact ⟨_, _, rfl, bind_eq_ok.2 ⟨refs, _, hrefs, rfl⟩⟩

theorem results_eq_ok {asTuple : Bool} {r : Results}
    (h : results asTuple context session = .ok r session') :
    ∃ refs, session.scope.GetsAll context.outer session.scope.outputs refs session'.scope
      ∧ r = .ofRefs asTuple refs := by
  obtain ⟨refs, hrefs, hresults⟩ := results_eq_ok_iff.1 h
  exact ⟨refs, mapM_value_eq_ok hrefs, hresults⟩

theorem refuse_eq_ok {fault? : Option LowerError} {u : Unit}
    (h : refuse fault? context session = .ok u session') : fault? = none ∧ session = session' := by
  cases fault? with
  | none =>
      cases h
      exact ⟨rfl, rfl⟩
  | some error => cases h

/-- The module of the scope, and what the scope is still asked for. -/
theorem finish_eq_ok {r : Results} {m : Module}
    (h : finish r context session = .ok m session') :
    m = session.scope.module r ∧ session'.scope.inputNames = session.scope.inputNames
      ∧ session'.scope.outputs = session.scope.outputs
      ∧ session'.scope.outerInputs = session.scope.outerInputs := by
  unfold finish at h
  obtain ⟨_, _, hyield, h⟩ := bind_eq_ok.1 h
  rw [addNode_apply, Scope.addNode_eq] at hyield
  cases hyield
  obtain ⟨_, _, hscope, h⟩ := bind_eq_ok.1 h
  cases hscope
  obtain ⟨_, _, hhost, h⟩ := bind_eq_ok.1 h
  obtain ⟨-, rfl⟩ := refuse_eq_ok hhost
  obtain ⟨_, _, hfinished, h⟩ := bind_eq_ok.1 h
  cases hfinished
  obtain ⟨_, _, htext, h⟩ := bind_eq_ok.1 h
  obtain ⟨-, rfl⟩ := refuse_eq_ok htext
  obtain ⟨_, _, hdata, h⟩ := bind_eq_ok.1 h
  obtain ⟨-, rfl⟩ := refuse_eq_ok hdata
  obtain ⟨_, _, hvisible, h⟩ := bind_eq_ok.1 h
  obtain ⟨-, rfl⟩ := refuse_eq_ok hvisible
  obtain ⟨rfl, rfl⟩ := pure_eq_ok.1 h
  refine ⟨?_, rfl, rfl, rfl⟩
  unfold Scope.toModule Scope.module
  rw [List.dropLast_concat]

end Lower

-- =================================================================== starts

theorem NameMap.find?_ofList_eq_none {α : Type} {entries : List (String × α)} {name : String} :
    (NameMap.ofList entries).find? name = none ↔ name ∉ entries.map Prod.fst := by
  unfold NameMap.ofList NameMap.find?
  rw [List.lookup_eq_none_iff]
  simp only [List.mem_reverse, List.mem_map, bne_iff_ne, not_exists, not_and]
  exact ⟨fun h entry hentry hname => h entry hentry hname.symm,
    fun h entry hentry hname => h entry hentry hname.symm⟩

theorem NameMap.contains_ofList {α : Type} (entries : List (String × α)) (name : String) :
    (NameMap.ofList entries).contains name = (entries.map Prod.fst).contains name := by
  rw [Bool.eq_iff_iff, List.contains_iff_mem, NameMap.contains, Option.isSome_iff_ne_none, ne_eq,
    NameMap.find?_ofList_eq_none, not_not]

section

variable {G : Type} {graph : GraphOf G} {scope : Scope}

theorem GraphOf.map_fst_initial {initial : List (String × Tensor)} (h : graph.initial = .ok initial) :
    initial.map Prod.fst = graph.initializers.map Prod.fst := by
  refine (map_eq_map_iff_forall₂.2 ((Except.mapM_eq_ok.1 h).imp fun entry pair hpair => ?_)).symm
  obtain ⟨t, -, hpair⟩ := Except.bind_eq_ok.1 hpair
  cases hpair
  rfl

/-- The scope of a graph before anything of it is lowered. -/
theorem ofGraph_eq_ok (h : Scope.ofGraph graph = .ok scope) :
    ∃ initial, graph.initial = .ok initial ∧ scope = {
      initializers := .ofList initial
      tensors := .ofList initial
      declarations := graph.declarations
      outputs := graph.outputs.map ValueInfo.name
      users := graph.users } := by
  obtain ⟨initial, hinitial, h⟩ := Except.bind_eq_ok.1 h
  cases h
  exact ⟨initial, hinitial, rfl⟩

/-- Names stand for the inputs and initial tensors of a graph before
anything else of it is lowered. -/
theorem ofGraph_feedsAll {fed : Scope} (hstart : Scope.ofGraph graph = .ok scope)
    (feeds : scope.FeedsAll graph.feedNames fed) :
    ∃ initial, graph.initial = .ok initial ∧ fed.initializers = .ofList initial
      ∧ fed.tensors = .ofList initial ∧ fed.constants = .empty ∧ fed.Tied
      ∧ ∀ name, fed.bindings.contains name = graph.feedNames.contains name := by
  have hsame := feeds.same
  have hbindings := feeds.contains_bindings
  obtain ⟨initial, hinitial, rfl⟩ := ofGraph_eq_ok hstart
  refine ⟨initial, hinitial, ?_, ?_, ?_, ?_, fun name => ?_⟩
  · rw [hsame]
  · rw [hsame]
  · rw [hsame]
  · exact feeds.tied ⟨fun _ _ h => (nomatch h), fun _ _ h => (nomatch h)⟩
  · exact (hbindings name).trans (Bool.or_false _)

theorem feedNames_eq (h : Scope.ofGraph graph = .ok scope) :
    ((graph.inputs.map ValueInfo.name).filter fun name => !scope.initializers.contains name)
      = graph.feedNames := by
  obtain ⟨initial, hinitial, rfl⟩ := ofGraph_eq_ok h
  refine List.filter_congr fun name _ => ?_
  rw [NameMap.contains_ofList, GraphOf.map_fst_initial hinitial]

end

-- =================================================================== graphs

/-- A graph has been lowered to a module. -/
structure Lowered (graph : GraphOf Importer) (asTuple : Bool) (context : Context) (start : Scope)
    (m : Module) (left : Scope) where
  /-- The scope with the inputs of the graph. -/
  fed : Session
  /-- The session after the last node. -/
  last : Session
  /-- The scope in which the outputs have values. -/
  ended : Scope
  refs : List Ref
  feeds : start.FeedsAll graph.feedNames fed.scope
  nodes : Lower.lowerNodes Handlers.standard graph.nodes context fed = .ok () last
  outputs : last.scope.GetsAll context.outer last.scope.outputs refs ended
  module : m = ended.module (.ofRefs asTuple refs)
  inputNames : left.inputNames = ended.inputNames
  outputNames : left.outputs = ended.outputs
  outerInputs : left.outerInputs = ended.outerInputs

theorem lowerGraph_eq_ok {graph : GraphOf Importer} {asTuple : Bool} {context : Context}
    {session session' : Session} {m : Module} (hstart : Scope.ofGraph graph = .ok session.scope)
    (h : Lower.lowerGraph Handlers.standard graph asTuple context session = .ok m session') :
    Nonempty (Lowered graph asTuple context session.scope m session'.scope) := by
  unfold Lower.lowerGraph at h
  obtain ⟨_, fed, hfeeds, h⟩ := Lower.bind_eq_ok.1 h
  obtain ⟨_, last, hnodes, h⟩ := Lower.bind_eq_ok.1 h
  obtain ⟨r, ended, hresults, h⟩ := Lower.bind_eq_ok.1 h
  obtain ⟨refs, houtputs, rfl⟩ := Lower.results_eq_ok hresults
  obtain ⟨rfl, hinputNames, houtputNames, houterInputs⟩ := Lower.finish_eq_ok h
  exact ⟨{
    fed, last, refs
    ended := ended.scope
    feeds := feedNames_eq hstart ▸ Lower.addGraphInputs_eq_ok hfeeds
    nodes := hnodes
    outputs := houtputs
    module := rfl
    inputNames := hinputNames
    outputNames := houtputNames
    outerInputs := houterInputs }⟩

/-- The scope that the lowering of a graph starts in. -/
theorem runIn_eq_ok {α G : Type} {graph : GraphOf G} {context : Context} {x : Lower α} {a : α}
    (h : (x.runIn graph context).1 = .ok a) :
    ∃ start session', Scope.ofGraph graph = .ok start
      ∧ x context { scope := start } = .ok a session' := by
  unfold Lower.runIn at h
  cases hstart : Scope.ofGraph graph with
  | error error =>
      rw [hstart] at h
      cases h
  | ok start =>
      rw [hstart] at h
      simp only at h
      cases hrun : x context { scope := start } with
      | error error session' =>
          rw [show (x.run context).run { scope := start } = _ from hrun] at h
          cases h
      | ok b session' =>
          rw [show (x.run context).run { scope := start } = _ from hrun] at h
          cases h
          exact ⟨start, session', rfl, hrun⟩

/-- An importer that succeeds has lowered its graph. -/
theorem importer_eq_ok {graph : GraphOf Importer} {context : Context} {subgraph : Subgraph}
    (h : ((Handlers.standard.importer graph).lower context).1 = .ok subgraph) :
    ∃ start left, Scope.ofGraph graph = .ok start
      ∧ Nonempty (Lowered graph true context start subgraph.module left)
      ∧ subgraph.inputNames = left.inputNames ∧ subgraph.outputNames = left.outputs
      ∧ subgraph.outerInputs = left.outerInputs := by
  obtain ⟨start, session', hstart, h⟩ := runIn_eq_ok h
  unfold Lower.lowerSubgraph at h
  obtain ⟨m, middle, hlowered, h⟩ := Lower.bind_eq_ok.1 h
  obtain ⟨_, _, hscope, h⟩ := Lower.bind_eq_ok.1 h
  cases hscope
  obtain ⟨rfl, rfl⟩ := Lower.pure_eq_ok.1 h
  exact ⟨start, _, hstart, lowerGraph_eq_ok hstart hlowered, rfl, rfl, rfl⟩

end OnnxLowering
