/-
Two conversions side by side. Two scopes are twins if they differ, as far
as names and values are concerned, in what is declared only: where a
declaration of the one has taken the place of that of the other, what is
known of shapes may differ, by this declaration (`Scope.Twin`).

Twins stay twins as long as the same happens to both, since what happens is
decided by the names and values, in which they agree: a name has the same
answer in both (`Twin.answers`), so the same effects leave twins behind
(`Twin.happenAll`), and a handler has the same effects in both. For a scan
this needs that the graph inside asks for the same names in both, which is
the induction over graphs (`importer_steady`).
-/
import OnnxLowering.Proofs.Lowering.Lookup
import OnnxLowering.Proofs.Lowering.Parameters

namespace OnnxLowering

open KnownShape (Redeclared)

variable {x x' : Option KnownShape}

namespace Scope

/-- Two scopes that agree in what names stand for and how many values there
are, and in all that is declared but for one shape in the place of another.
What is known of the values differs by these at most. -/
structure Twin (x x' : Option KnownShape) (scope scope' : Scope) : Prop where
  bindings : scope'.bindings = scope.bindings
  constants : scope'.constants = scope.constants
  initializers : scope'.initializers = scope.initializers
  tensors : scope'.tensors = scope.tensors
  outerInputs : scope'.outerInputs = scope.outerInputs
  inputs : scope'.inputs.length = scope.inputs.length
  nodes : scope'.nodes.length = scope.nodes.length
  declared : ∀ name, scope'.declarations.shape? name = scope.declarations.shape? name
    ∨ scope.declarations.shape? name = x ∧ scope'.declarations.shape? name = x'
  labels : ∀ ref, Redeclared x x' (scope.label ref).shape.join (scope'.label ref).shape.join

variable {scope scope' after after' : Scope} {outer outer' : Scopes} {name : String} {ref ref' : Ref}

theorem Twin.refl (scope : Scope) : scope.Twin x x' scope :=
  ⟨rfl, rfl, rfl, rfl, rfl, rfl, rfl, fun _ => .inl rfl, fun _ => .refl⟩

/-- What is declared of a name differs by the declaration at most. -/
theorem Twin.redeclared (twin : scope.Twin x x' scope') (name : String) :
    Redeclared x x' (scope.declarations.shape? name) (scope'.declarations.shape? name) := by
  have hdeclared := (Redeclared.refl : Redeclared x x' none none).or (twin.declared name)
  rwa [Option.or_none, Option.or_none] at hdeclared

-- ===================================================================== values

/-- One value more on both sides. -/
theorem redeclared_append {α : Type} {f : α → Label} {as as' : List α} {a a' : α}
    (hlength : as'.length = as.length)
    (h : ∀ i : Nat, Redeclared x x' (((as[i]?).map f).getD {}).shape.join
      (((as'[i]?).map f).getD {}).shape.join)
    (ha : Redeclared x x' (f a).shape.join (f a').shape.join) (i : Nat) :
    Redeclared x x' ((((as ++ [a])[i]?).map f).getD {}).shape.join
      ((((as' ++ [a'])[i]?).map f).getD {}).shape.join := by
  rcases Nat.lt_trichotomy i as.length with hlt | rfl | hlt
  · rw [List.getElem?_append_left hlt, List.getElem?_append_left (hlength ▸ hlt)]
    exact h i
  · rw [List.getElem?_concat_length, ← hlength, List.getElem?_concat_length]
    exact ha
  · have hnone {bs : List α} {b : α} (hbs : bs.length < i) : (bs ++ [b])[i]? = none := by
      rw [List.getElem?_eq_none_iff, List.length_append]
      exact hbs
    rw [hnone hlt, hnone (hlength ▸ hlt)]
    exact .refl

/-- A node more on both sides. -/
theorem Twin.node (twin : scope.Twin x x' scope') {action action' : Action} {label label' : Label}
    {nodeNames nodeNames' : List String} {supply supply' : NameSupply}
    (hlabel : Redeclared x x' label.shape.join label'.shape.join) :
    Twin x x' { scope with nodes := scope.nodes ++ [⟨action, label⟩], nodeNames, supply }
      { scope' with
        nodes := scope'.nodes ++ [⟨action', label'⟩], nodeNames := nodeNames', supply := supply' } where
  bindings := twin.bindings
  constants := twin.constants
  initializers := twin.initializers
  tensors := twin.tensors
  outerInputs := twin.outerInputs
  inputs := twin.inputs
  nodes := by rw [List.length_append, List.length_append, twin.nodes]; rfl
  declared := twin.declared
  labels ref := by
    cases ref with
    | input i => exact twin.labels (.input i)
    | node i => exact redeclared_append twin.nodes (fun i => twin.labels (.node i)) hlabel i

/-- An input more on both sides, for the same name. -/
theorem Twin.input (twin : scope.Twin x x' scope') {input input' : Input}
    {inputNames inputNames' : List String} {outerInputs outerInputs' : List String}
    {inputCounters inputCounters' : Counters} {supply supply' : NameSupply}
    (hlabel : Redeclared x x' input.label.shape.join input'.label.shape.join)
    (houter : outerInputs' = outerInputs) :
    Twin x x' { scope with
        inputs := scope.inputs ++ [input]
        bindings := scope.bindings.insert name (.input scope.inputs.length)
        inputNames, outerInputs, inputCounters, supply }
      { scope' with
        inputs := scope'.inputs ++ [input']
        bindings := scope'.bindings.insert name (.input scope'.inputs.length)
        inputNames := inputNames', outerInputs := outerInputs', inputCounters := inputCounters'
        supply := supply' } where
  bindings := by rw [twin.bindings, twin.inputs]
  constants := twin.constants
  initializers := twin.initializers
  tensors := twin.tensors
  outerInputs := houter
  inputs := by rw [List.length_append, List.length_append, twin.inputs]; rfl
  nodes := twin.nodes
  declared := twin.declared
  labels ref := by
    cases ref with
    | input i => exact redeclared_append twin.inputs (fun i => twin.labels (.input i)) hlabel i
    | node i => exact twin.labels (.node i)

theorem Twin.bind (twin : scope.Twin x x' scope') :
    (scope.bind name ref).Twin x x' (scope'.bind name ref) where
  bindings := congrArg (·.insert name ref) twin.bindings
  constants := twin.constants
  initializers := twin.initializers
  tensors := twin.tensors
  outerInputs := twin.outerInputs
  inputs := twin.inputs
  nodes := twin.nodes
  declared := twin.declared
  labels := twin.labels

theorem Twin.stores {source : String} {t : Tensor} (twin : scope.Twin x x' scope')
    (stores : scope.Stores source t after) (stores' : scope'.Stores source t after') :
    after.Twin x x' after' := by
  obtain ⟨place, trainable, label, nodeNames, supply, attributeCounters, hlabel, rfl⟩ := stores
  obtain ⟨place', trainable', label', nodeNames', supply', counters', hlabel', rfl⟩ := stores'
  have hnode := @Twin.node x x' _ _ twin (.load place) (.load place') label label' nodeNames nodeNames'
    supply supply' (by rw [hlabel, hlabel']; exact .refl)
  exact ⟨hnode.bindings, by rw [twin.constants, twin.nodes], hnode.initializers,
    by rw [twin.tensors], hnode.outerInputs, hnode.inputs, hnode.nodes, hnode.declared, hnode.labels⟩

end Scope

-- ==================================================================== lookups

namespace Scopes

/-- Scopes around each other, each with its twin. -/
abbrev Twins (x x' : Option KnownShape) : Scopes → Scopes → Prop := List.Forall₂ (Scope.Twin x x')

variable {scopes scopes' : Scopes}

theorem Twins.refl (scopes : Scopes) : Twins x x' scopes scopes :=
  List.forall₂_same.2 fun scope _ => .refl scope

/-- The same tensors are known. -/
theorem Twins.tensor?_eq (twins : Twins x x' scopes scopes') (name : String) :
    scopes'.tensor? name = scopes.tensor? name := by
  induction twins with
  | nil => rfl
  | cons twin _ ih => rw [tensor?, tensor?, twin.tensors, twin.bindings, ih]

/-- What a lookup finds differs by the declarations at most. -/
theorem Twins.shape? (twins : Twins x x' scopes scopes') (name : String) :
    Redeclared x x' (scopes.shape? name) (scopes'.shape? name) := by
  induction twins with
  | nil => exact .refl
  | @cons scope scope' outer outer' twin _ ih =>
      rw [shape?_cons, shape?_cons]
      refine Redeclared.or ?_ (twin.declared name)
      unfold behind?
      rw [twin.tensors, twin.bindings]
      split
      · exact .refl
      · split
        · exact twin.labels _
        · exact ih

end Scopes

-- ==================================================================== effects

namespace Scope

variable {scope scope' after after' : Scope} {outer outer' : Scopes} {name : String} {ref ref' : Ref}

/-- The answer to a name, by what the name is known as. -/
theorem Answers.by_knowledge (h : scope.Answers outer name ref after) :
    match scope.bindings.find? name, scope.constants.find? name, scope.initializers.find? name,
      scope.tensors.find? name, outer.tensor? name with
    | some stood, _, _, _, _ => ref = stood ∧ after = scope
    | none, some stood, _, _, _ => ref = stood ∧ after = scope
    | none, none, some t, _, _ => ref = .node scope.nodes.length ∧ scope.Stores name t after
    | none, none, none, some t, _ => ref = .node scope.nodes.length
        ∧ ∃ middle, scope.Stores name t middle ∧ after = middle.bind name ref
    | none, none, none, none, some t => ref = .node scope.nodes.length
        ∧ ∃ middle, scope.Stores name t middle ∧ after = middle.bind name ref
    | none, none, none, none, none => ref = .input scope.inputs.length
        ∧ scope.Imports name (outer.shape? name) after := by
  cases h with
  | stands h =>
      rcases h with hbinding | ⟨hbinding, hconstant⟩
      · rw [hbinding]
        exact ⟨rfl, rfl⟩
      · rw [hbinding, hconstant]
        exact ⟨rfl, rfl⟩
  | initial unbound unstored h stores =>
      rw [unbound, unstored, h]
      exact ⟨rfl, stores⟩
  | known unbound unstored plain h stores =>
      rw [unbound, unstored, plain, h]
      exact ⟨rfl, _, stores, rfl⟩
  | copied unseen h stores =>
      rw [unseen.bindings, unseen.constants, unseen.initializers, unseen.tensors, h]
      exact ⟨rfl, _, stores, rfl⟩
  | captured unseen h imports =>
      rw [unseen.bindings, unseen.constants, unseen.initializers, unseen.tensors, h]
      exact ⟨rfl, imports⟩

/-- A name has the same answer on both sides. -/
theorem Twin.answers (twin : scope.Twin x x' scope') (twins : Scopes.Twins x x' outer outer')
    (answers : scope.Answers outer name ref after) (answers' : scope'.Answers outer' name ref' after') :
    ref' = ref ∧ after.Twin x x' after' := by
  have hleft := answers.by_knowledge
  have hright := answers'.by_knowledge
  rw [twin.bindings, twin.constants, twin.initializers, twin.tensors, twins.tensor?_eq, twin.nodes,
    twin.inputs] at hright
  generalize scope.bindings.find? name = bound?, scope.constants.find? name = constant?,
    scope.initializers.find? name = initial?, scope.tensors.find? name = known?,
    outer.tensor? name = outside? at hleft hright
  split at hleft
  case h_1 | h_2 =>
    obtain ⟨rfl, rfl⟩ := hleft
    obtain ⟨rfl, rfl⟩ := hright
    exact ⟨rfl, twin⟩
  case h_3 =>
    obtain ⟨rfl, stores⟩ := hleft
    obtain ⟨rfl, stores'⟩ := hright
    exact ⟨rfl, twin.stores stores stores'⟩
  case h_4 | h_5 =>
    obtain ⟨rfl, middle, stores, rfl⟩ := hleft
    obtain ⟨rfl, middle', stores', rfl⟩ := hright
    exact ⟨rfl, (twin.stores stores stores').bind⟩
  case h_6 =>
    obtain ⟨rfl, label, supply, hlabel, rfl⟩ := hleft
    obtain ⟨rfl, label', supply', hlabel', rfl⟩ := hright
    refine ⟨rfl, twin.input ?_ (by rw [twin.outerInputs])⟩
    rw [hlabel, hlabel']
    exact twins.shape? name

/-- The label of a result differs by what is declared of its name. -/
theorem Twin.labelOf (twin : scope.Twin x x' scope') (node : NodeOf Importer) (output : Nat)
    (typed : Bool) : Redeclared x x' (Lower.labelOf scope node output typed).shape.join
      (Lower.labelOf scope' node output typed).shape.join := by
  have hjoin (known : Option KnownType) :
      (known.map KnownType.shape).join = known.bind KnownType.shape := by
    cases known <;> rfl
  unfold Lower.labelOf
  simp only
  split
  · exact .refl
  · rw [hjoin, hjoin]
    exact twin.redeclared _

variable {context context' : Context} {node : NodeOf Importer} {effect : Effect}
  {effects : List Effect}

theorem Twin.happens (twin : scope.Twin x x' scope')
    (twins : Scopes.Twins x x' context.outer context'.outer)
    (happened : effect.Happens context node scope after)
    (happened' : effect.Happens context' node scope' after') : after.Twin x x' after' := by
  cases happened with
  | value h =>
      cases happened' with
      | value h' => exact (twin.answers twins (Lower.value_answers h) (Lower.value_answers h')).2
  | store h =>
      cases happened' with
      | store h' =>
          exact twin.stores (Lower.materialise_eq_ok h).2 (Lower.materialise_eq_ok h').2
  | node =>
      cases happened' with
      | node => exact twin.node (twin.labelOf node _ _)
  | loop =>
      cases happened' with
      | loop =>
          exact ⟨twin.bindings, twin.constants, twin.initializers, twin.tensors, twin.outerInputs,
            twin.inputs, twin.nodes, twin.declared, twin.labels⟩

/-- The same effects leave twins behind. -/
theorem Twin.happenAll (twin : scope.Twin x x' scope')
    (twins : Scopes.Twins x x' context.outer context'.outer)
    (h : Effects context node effects scope after) (h' : Effects context' node effects scope' after') :
    after.Twin x x' after' := by
  induction h generalizing scope' with
  | nil =>
      cases h' with
      | nil => exact twin
  | cons first _ ih =>
      cases h' with
      | cons first' rest' => exact ih (twin.happens twins first first') rest'

theorem Twin.stands (twin : scope.Twin x x' scope') (h : scope.Stands name ref)
    (h' : scope'.Stands name ref') : ref' = ref := by
  unfold Stands at h h'
  rw [twin.bindings, twin.constants] at h'
  rcases h with hbinding | ⟨hbinding, hconstant⟩
  · rw [hbinding] at h'
    rcases h' with h' | ⟨h', -⟩
    · exact (Option.some.inj h').symm
    · cases h'
  · rw [hbinding, hconstant] at h'
    rcases h' with h' | ⟨-, h'⟩
    · cases h'
    · exact (Option.some.inj h').symm

/-- And a result that is found in the same way is the same. -/
theorem Twin.yields (twin : scope.Twin x x' scope') {yield : Yield} {result result' : Result}
    (h : yield.Of scope result) (h' : yield.Of scope' result') : result' = result := by
  cases yield with
  | last =>
      obtain ⟨k, rfl, hk⟩ := h
      obtain ⟨k', rfl, hk'⟩ := h'
      rw [twin.nodes] at hk'
      rw [show k' = k by omega]
  | named name =>
      obtain ⟨ref, rfl, hstands⟩ := h
      obtain ⟨ref', rfl, hstands'⟩ := h'
      rw [twin.stands hstands hstands']
  | items count =>
      obtain ⟨first, rfl, hfirst⟩ := h
      obtain ⟨first', rfl, hfirst'⟩ := h'
      rw [twin.nodes] at hfirst'
      rw [show first' = first by omega]

-- ===================================================================== inputs

theorem Twin.feeds (twin : scope.Twin x x' scope') (feeds : scope.Feeds name after)
    (feeds' : scope'.Feeds name after') : after.Twin x x' after' := by
  obtain ⟨inputName, label, inputCounters, supply, -, hlabel, rfl⟩ := feeds
  obtain ⟨inputName', label', inputCounters', supply', -, hlabel', rfl⟩ := feeds'
  refine twin.input ?_ twin.outerInputs
  rw [hlabel, hlabel']
  exact twin.redeclared name

theorem Twin.feedsAll {names : List String} (twin : scope.Twin x x' scope')
    (feeds : scope.FeedsAll names after) (feeds' : scope'.FeedsAll names after') :
    after.Twin x x' after' := by
  induction feeds generalizing scope' with
  | nil =>
      cases feeds' with
      | nil => exact twin
  | cons first _ ih =>
      cases feeds' with
      | cons first' rest' => exact ih (twin.feeds first first') rest'

end Scope

-- ====================================================================== nodes

/-- In twin surroundings a graph asks for the same names from outside, and
returns a value for each of its outputs, of which there are as many. -/
def Importer.Steady (x x' : Option KnownShape) (importer : Importer) : Prop :=
  ∀ opset outer outer' subgraph subgraph', Scopes.Twins x x' outer outer' →
    (importer.lower ⟨opset, outer⟩).1 = .ok subgraph →
    (importer.lower ⟨opset, outer'⟩).1 = .ok subgraph' →
      subgraph'.outerInputs = subgraph.outerInputs
        ∧ subgraph'.outputNames.length = subgraph.outputNames.length
        ∧ subgraph.module.results.refs.length = subgraph.outputNames.length
        ∧ subgraph'.module.results.refs.length = subgraph'.outputNames.length

namespace Scope

variable {context context' : Context} {node : NodeOf Importer} {nodes : List (NodeOf Importer)}
  {scope scope' : Scope} {session session' after after' : Session} {u u' : Unit}

/-- A handler has the same result on both sides. -/
theorem Twin.handler {op : String} {handler : Handler} {result result' : Result}
    {log log' : List LogRecord} (twin : scope.Twin x x' scope')
    (twins : Scopes.Twins x x' context.outer context'.outer) (hopset : context'.opset = context.opset)
    (served : Served context.opset op handler) (hinner : ∀ importer ∈ node.inner, importer.Steady x x')
    (h : handler node context ⟨scope, log⟩ = .ok result after)
    (h' : handler node context' ⟨scope', log'⟩ = .ok result' after') :
    result' = result ∧ after.scope.Twin x x' after'.scope := by
  rcases Handler.fixed_or_scanned served node with ⟨effects, yield, hdoes⟩ | ⟨-, spelling, hscanned⟩
  · obtain ⟨heffects, hyield⟩ := hdoes context _ _ _ h
    obtain ⟨heffects', hyield'⟩ := hdoes context' _ _ _ h'
    have hafter := twin.happenAll twins heffects heffects'
    exact ⟨hafter.yields hyield hyield', hafter⟩
  · obtain ⟨scanned⟩ := hscanned _ _ _ _ h
    obtain ⟨scanned'⟩ := hscanned _ _ _ _ h'
    have himporter : scanned'.importer = scanned.importer :=
      Option.some.inj (scanned'.graph.symm.trans scanned.graph)
    have himported' := scanned'.imported
    rw [himporter, hopset] at himported'
    obtain ⟨houter, hnames, hrefs, hrefs'⟩ := hinner _ (NodeOf.mem_inner_of_graph? scanned.graph)
      _ _ _ _ _ (.cons twin twins) scanned.imported himported'
    obtain ⟨count, heffects, hyield, hcount⟩ := scanned.effects
    obtain ⟨count', heffects', hyield', hcount'⟩ := scanned'.effects
    obtain rfl : count' = count := by rw [hcount' hrefs', hcount hrefs, hnames]
    rw [houter] at heffects'
    have hafter := twin.happenAll twins heffects heffects'
    exact ⟨hafter.yields hyield hyield', hafter⟩

theorem Twin.lowerNode (twin : session.scope.Twin x x' session'.scope)
    (twins : Scopes.Twins x x' context.outer context'.outer) (hopset : context'.opset = context.opset)
    (hinner : ∀ importer ∈ node.inner, importer.Steady x x')
    (h : Lower.lowerNode Handlers.standard node context session = .ok u after)
    (h' : Lower.lowerNode Handlers.standard node context' session' = .ok u' after') :
    after.scope.Twin x x' after'.scope := by
  obtain ⟨-, version, handler, result, log, middle, hfind, hresult, rfl⟩ := Lower.lowerNode_eq_ok h
  obtain ⟨-, version', handler', result', log', middle', hfind', hresult', rfl⟩ :=
    Lower.lowerNode_eq_ok h'
  rw [hopset, hfind] at hfind'
  cases hfind'
  obtain ⟨rfl, hmiddle⟩ :=
    twin.handler twins hopset (Handlers.served_of_find? hfind) hinner hresult hresult'
  exact ⟨congrArg (bound · _) hmiddle.bindings, hmiddle.constants, hmiddle.initializers,
    hmiddle.tensors, hmiddle.outerInputs, hmiddle.inputs, hmiddle.nodes, hmiddle.declared,
    hmiddle.labels⟩

theorem Twin.lowerNodes (twin : session.scope.Twin x x' session'.scope)
    (twins : Scopes.Twins x x' context.outer context'.outer) (hopset : context'.opset = context.opset)
    (hinner : ∀ node ∈ nodes, ∀ importer ∈ node.inner, importer.Steady x x')
    (h : Lower.lowerNodes Handlers.standard nodes context session = .ok u after)
    (h' : Lower.lowerNodes Handlers.standard nodes context' session' = .ok u' after') :
    after.scope.Twin x x' after'.scope := by
  induction nodes generalizing session session' with
  | nil =>
      cases h
      cases h'
      exact twin
  | cons node nodes ih =>
      rw [List.forall_mem_cons] at hinner
      obtain ⟨middle, hfirst, hrest⟩ := Lower.lowerNodes_cons_eq_ok h
      obtain ⟨middle', hfirst', hrest'⟩ := Lower.lowerNodes_cons_eq_ok h'
      exact ih (twin.lowerNode twins hopset hinner.1 hfirst hfirst') hinner.2 hrest hrest'

end Scope

-- ===================================================================== graphs

/-- What the lowering of a graph inside a node has been. -/
theorem parts_of_importer {graph : GraphOf Importer} {context : Context} {subgraph : Subgraph}
    (h : ((Handlers.standard.importer graph).lower context).1 = .ok subgraph) :
    ∃ start refs session, Scope.ofGraph graph = .ok start
      ∧ Lower.lowerParts graph graph.nodes (graph.outputs.map ValueInfo.name) context { scope := start }
        = .ok refs session
      ∧ subgraph.outerInputs = session.scope.outerInputs
      ∧ subgraph.outputNames = graph.outputs.map ValueInfo.name
      ∧ subgraph.module.results.refs.length = subgraph.outputNames.length := by
  obtain ⟨start, _, hstart, h⟩ := runIn_eq_ok h
  unfold Lower.lowerSubgraph at h
  obtain ⟨m, left, hlowered, h⟩ := Lower.bind_eq_ok.1 h
  obtain ⟨_, _, hscope, h⟩ := Lower.bind_eq_ok.1 h
  cases hscope
  obtain ⟨rfl, rfl⟩ := Lower.pure_eq_ok.1 h
  obtain ⟨refs, session, hparts, hfinish⟩ := (Lower.lowerGraph_eq_ok_iff_parts hstart).1 hlowered
  obtain ⟨rfl, -, houtputs, houter⟩ := Lower.finish_eq_ok hfinish
  obtain ⟨_, fed, hfed, hlast⟩ := Lower.bind_eq_ok.1 hparts
  obtain ⟨_, last, hnodes, hrefs⟩ := Lower.bind_eq_ok.1 hlast
  have hnames : left.scope.outputs = graph.outputs.map ValueInfo.name :=
    (houtputs.trans ((keeps_sameGraph context last.scope).mapM_value hrefs (.refl _)).outputs).trans
      (Lower.sameGraph_of_parts hstart hfed hnodes).2
  refine ⟨start, refs, session, hstart, hparts, houter, hnames, ?_⟩
  rw [hnames, ← (Lower.mapM_value_eq_ok hrefs).length_eq]
  exact congrArg List.length (Results.refs_ofRefs true refs)

/-- Twins come of a graph in twin surroundings. -/
theorem Scope.Twin.parts {graph graph' : GraphOf Importer} {names : List String}
    {nodes : List (NodeOf Importer)} {context context' : Context} {start start' : Scope}
    {refs refs' : List Ref} {session session' : Session} (twin : start.Twin x x' start')
    (twins : Scopes.Twins x x' context.outer context'.outer) (hopset : context'.opset = context.opset)
    (hinner : ∀ node ∈ nodes, ∀ importer ∈ node.inner, importer.Steady x x')
    (hfeeds : graph'.feedNames = graph.feedNames) (hstart : Scope.ofGraph graph = .ok start)
    (hstart' : Scope.ofGraph graph' = .ok start')
    (h : Lower.lowerParts graph nodes names context { scope := start } = .ok refs session)
    (h' : Lower.lowerParts graph' nodes names context' { scope := start' } = .ok refs' session') :
    session.scope.Twin x x' session'.scope := by
  obtain ⟨_, fed, hfed, h⟩ := Lower.bind_eq_ok.1 h
  obtain ⟨_, last, hnodes, hrefs⟩ := Lower.bind_eq_ok.1 h
  obtain ⟨_, fed', hfed', h'⟩ := Lower.bind_eq_ok.1 h'
  obtain ⟨_, last', hnodes', hrefs'⟩ := Lower.bind_eq_ok.1 h'
  have hfirst := feedNames_eq hstart ▸ Lower.addGraphInputs_eq_ok hfed
  have hfirst' := hfeeds ▸ feedNames_eq hstart' ▸ Lower.addGraphInputs_eq_ok hfed'
  have hlast := (twin.feedsAll hfirst hfirst').lowerNodes twins hopset hinner hnodes hnodes'
  exact hlast.happenAll twins (@Lower.mapM_value_does context { op := "" } names _ _ _ hrefs).1
    (@Lower.mapM_value_does context' { op := "" } names _ _ _ hrefs').1

theorem importer_steady (g : Graph) : (g.fold Handlers.standard.importer).Steady x x' := by
  induction g using Graph.induct with
  | step g ih =>
      intro opset outer outer' subgraph subgraph' twins h h'
      rw [Graph.fold_eq] at h h'
      obtain ⟨start, refs, session, hstart, hparts, houter, hnames, hlength⟩ := parts_of_importer h
      obtain ⟨start', refs', session', hstart', hparts', houter', hnames', hlength'⟩ :=
        parts_of_importer h'
      cases hstart.symm.trans hstart'
      have hinner : ∀ node ∈ (g.body.map (Graph.fold Handlers.standard.importer)).nodes,
          ∀ importer ∈ node.inner, importer.Steady x x' := by
        intro node hnode importer himporter
        obtain ⟨source, hsource, rfl⟩ := List.mem_map.1 hnode
        rw [NodeOf.inner_map] at himporter
        obtain ⟨inner, hmem, rfl⟩ := List.mem_map.1 himporter
        exact ih source hsource inner hmem
      have htwin := @Scope.Twin.parts x x' _ _ _ _ ⟨opset, outer⟩ ⟨opset, outer'⟩ _ _ _ _ _ _
        (.refl start) twins rfl hinner rfl hstart hstart' hparts hparts'
      exact ⟨by rw [houter, houter', htwin.outerInputs], by rw [hnames, hnames'], hlength, hlength'⟩

end OnnxLowering
