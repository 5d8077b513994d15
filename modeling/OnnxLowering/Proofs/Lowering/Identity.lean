/-
Identities in front of nodes. An identity gives a value another name, and
a node may read this name instead of the one it read before. The graph
then becomes the very same module (`lower_alias`), also if the node stands
in a graph inside another one.

That is so if the node asks for the value only. An identity hides what is
known by the name: that it stands for a certain tensor, and what shape is
declared of it. And it asks for the value before the node asks for others,
which could get other names on the module then. So the node must not need
the tensor, nor a shape that is not known by the value, and the value must
be the next one to be asked for, or be there (`NodeOf.Transparent`).
-/
import OnnxLowering.Proofs.Lowering.Alias
import OnnxLowering.Proofs.Lowering.Knowledge

namespace OnnxLowering

open Lower

/-- An identity gives a value another name. -/
def NodeOf.identity {G : Type} (x y : String) : NodeOf G :=
  { op := "Identity", inputs := [x], outputs := [y] }

-- ==================================================================== nodes

section

variable {x y : String} {context context' : Context} {node : NodeOf Importer} {i : Nat}
  {session session' next : Session}

/-- After an identity, the scope is ahead of one where `x` can be asked
for. -/
theorem lowerNode_identity (contexts : context.Alike y context') (hopset : 1 ≤ context.opset)
    (hx : x ≠ y) (hy : y.isEmpty = false) {scope : Scope} (halike : scope.Alike y session'.scope)
    {log : List LogRecord} {ref : Ref} {left : Session}
    (hgets : value x context ⟨scope, log⟩ = .ok ref left) :
    ∃ left', lowerNode Handlers.standard (.identity x y) context' session' = .ok () left'
      ∧ Ahead x y context ref scope left'.scope := by
  have hhandler : handlerOf Handlers.standard (.identity x y : NodeOf Importer) context' session'
      = .ok Handler.identity session' :=
    handlerOf_eq_ok.2 ⟨rfl, ⟨1, Handlers.find?_identity (contexts.opset ▸ hopset)⟩, rfl⟩
  obtain ⟨log', hreport⟩ : ∃ log',
      report (.converting (.identity x y : NodeOf Importer).describe context'.opset) context' session'
        = .ok () ⟨session'.scope, log'⟩ := ⟨_, report_apply _⟩
  -- what is known of the value in the first scope
  have hvalue (log : List LogRecord) (a : Ref) (left : Session)
      (hgets : value x context ⟨scope, log⟩ = .ok a left) :=
    value_follows contexts hx ⟨scope, log⟩ ⟨session'.scope, log'⟩ a left halike hgets
  obtain ⟨middle, hmiddle, -⟩ := hvalue log ref left hgets
  have hresult : Handler.identity (.identity x y) context' ⟨session'.scope, log'⟩
      = .ok (.one ref) middle :=
    bind_eq_ok.2 ⟨ref, middle, hmiddle, rfl⟩
  have hbind : bindResult (.identity x y : NodeOf Importer) (.one ref) context' middle
      = .ok () { middle with scope := middle.scope.bind y ref } := by
    have hnamed : (.identity x y : NodeOf Importer).namedOutputs = [y] := by
      simp only [NodeOf.namedOutputs, NodeOf.identity, List.filter_cons, hy, List.filter_nil]
      rfl
    show bindOne _ _ _ _ = _
    unfold bindOne
    rw [hnamed]
    rfl
  refine ⟨_, bind_eq_ok.2 ⟨_, _, hhandler, bind_eq_ok.2 ⟨_, _, opset_apply, bind_eq_ok.2
    ⟨_, _, hreport, bind_eq_ok.2 ⟨_, _, hresult, hbind⟩⟩⟩⟩, ⟨log, left, hgets⟩, ?_,
    NameMap.find?_insert_self _ _ _⟩
  intro log a left hgets
  obtain ⟨other, hother, hotherAlike⟩ := hvalue log a left hgets
  cases hmiddle.symm.trans hother
  exact ⟨rfl, hotherAlike.bind_right ref⟩

/-- A node and an identity in front of it do what the node does. -/
theorem lowerNodes_alias (contexts : context.Alike y context') (avoids : node.Avoids y)
    (hinput : node.inputs[i]? = some x) (hx : x.isEmpty = false) (hy : y.isEmpty = false)
    (transparent : node.Transparent context session.scope i x) (tied : session.scope.Tied)
    (stocked : session.scope.Stocked) (undeclared : session.scope.declarations.find? y = none)
    (halike : session.scope.Alike y session'.scope)
    (h : lowerNode Handlers.standard node context session = .ok () next) :
    ∃ next', lowerNodes Handlers.standard
        [.identity x y, { node with inputs := node.inputs.set i y }] context' session' = .ok () next'
      ∧ next.scope.Alike y next'.scope := by
  have hne : x ≠ y := by
    rintro rfl
    exact avoids.inputs (List.mem_of_getElem? hinput)
  obtain ⟨-, version, _, _, _, _, hfind, -⟩ := lowerNode_bindResult h
  obtain ⟨log, ref, left, hgets⟩ := exists_value avoids hinput hx transparent h
  obtain ⟨middle', hidentity, hahead⟩ := lowerNode_identity contexts (Handlers.one_le_of_find? hfind) hne
    hy halike hgets
  have hstart : Trails x y node i context session.scope 0 session.scope middle'.scope := by
    rcases transparent.order with ⟨ref', hstands⟩ | ⟨hasks, hothers⟩
    · obtain ⟨-, haliased⟩ := hahead.aliased tied undeclared transparent.shape
        (@value_of_stands context ⟨session.scope, log⟩ _ _ hx hstands)
      exact .level haliased
    · exact .behind hahead ⟨Nat.zero_le i, hasks, hothers, nofun⟩
  have hmirrors := mirrors_alias contexts avoids hinput hx hy transparent tied stocked undeclared
  obtain ⟨next', hnext, hnextAlike⟩ := lowerNode_follows contexts hmirrors avoids.outputs avoids.source
    session middle' () next hstart h
  exact ⟨next', bind_eq_ok.2 ⟨(), middle', hidentity, bind_eq_ok.2 ⟨(), next', hnext, rfl⟩⟩, hnextAlike⟩

end

-- ============================================================ in the middle

/-- The nodes in front of a node of a graph have been lowered. -/
def Graph.Reaches (graph : Graph) (context : Context) (before : List (NodeOf Graph))
    (session : Session) : Prop :=
  ∃ start fed, Scope.ofGraph (Handlers.standard.prepare graph) = .ok start
    ∧ addGraphInputs graph.body.inputs context { scope := start } = .ok () fed
    ∧ lowerNodes Handlers.standard (before.map (NodeOf.map (Graph.fold Handlers.standard.importer)))
        context fed = .ok () session

/-- Everything that a scope refers to is there, and what is declared is
what the graph says. -/
theorem Graph.Reaches.ready {graph : Graph} {context : Context} {before : List (NodeOf Graph)}
    {session : Session} (h : graph.Reaches context before session) :
    session.scope.Tied ∧ session.scope.Stocked
      ∧ session.scope.declarations = graph.body.declarations := by
  obtain ⟨start, fed, hstart, hfed, hnodes⟩ := h
  have hfeeds : start.FeedsAll graph.body.feedNames fed.scope := by
    have hall := addGraphInputs_eq_ok hfed
    have hnames := feedNames_eq hstart
    exact hnames ▸ hall
  obtain ⟨initial, -, hinitializers, htensors, -, htied, -⟩ := ofGraph_feedsAll hstart hfeeds
  have hmoves := lowerNodes_moves_all hnodes htied
  refine ⟨hmoves.tied htied, hmoves.preserve (fun _ _ hmove => hmove.stocked) ?_, ?_⟩
  · intro name t ht _
    rw [htensors]
    rwa [hinitializers] at ht
  · refine (hmoves.preserve (P := fun scope => scope.declarations = fed.scope.declarations)
      (fun _ _ hmove h => hmove.declarations_eq.trans h) rfl).trans ?_
    have hsame := congrArg Scope.declarations hfeeds.same
    obtain ⟨_, -, rfl⟩ := ofGraph_eq_ok hstart
    exact hsame

section

variable {graph : Graph} {before after : List (NodeOf Graph)} {node : NodeOf Graph}
  {news : List (NodeOf Graph)} {y : String} {context context' : Context}

theorem GraphOf.users_map {A B : Type} (f : A → B) (graph : GraphOf A) :
    (graph.map f).users = graph.users := by
  unfold GraphOf.users GraphOf.map
  simp only [List.flatMap_map]
  rfl

theorem lowerNodes_append_eq_ok {handlers : Handlers} {nodes nodes' : List (NodeOf Importer)}
    {session session' : Session} :
    lowerNodes handlers (nodes ++ nodes') context session = .ok () session' ↔
      ∃ middle, lowerNodes handlers nodes context session = .ok () middle
        ∧ lowerNodes handlers nodes' context middle = .ok () session' := by
  induction nodes generalizing session with
  | nil =>
      refine ⟨fun h => ⟨session, rfl, h⟩, fun ⟨middle, hnone, h⟩ => ?_⟩
      cases hnone
      exact h
  | cons node nodes ih =>
      constructor
      · intro h
        obtain ⟨first, hfirst, h⟩ := lowerNodes_cons_eq_ok h
        obtain ⟨middle, hmiddle, hrest⟩ := ih.1 h
        exact ⟨middle, bind_eq_ok.2 ⟨(), first, hfirst, hmiddle⟩, hrest⟩
      · rintro ⟨middle, h, hrest⟩
        obtain ⟨first, hfirst, hmiddle⟩ := lowerNodes_cons_eq_ok h
        exact bind_eq_ok.2 ⟨(), first, hfirst, ih.2 ⟨middle, hmiddle, hrest⟩⟩

/-- The graph with other nodes in place of one. -/
def Graph.replace (graph : Graph) (before news after : List (NodeOf Graph)) : Graph :=
  ⟨{ graph.body with nodes := before ++ (news ++ after) }⟩

/-- If the other nodes do what the one does, the graph becomes the same. -/
theorem lowers_replace (contexts : context.Alike y context') (fresh : graph.Fresh y)
    (hnodes : graph.body.nodes = before ++ node :: after)
    (husers : ∀ name, name ≠ y →
      (graph.replace before news after).body.users.count name = graph.body.users.count name)
    (hnews : ∀ session session' next, graph.Reaches context before session →
      session.scope.Alike y session'.scope →
      lowerNode Handlers.standard (node.map (Graph.fold Handlers.standard.importer)) context session
        = .ok () next →
      ∃ next', lowerNodes Handlers.standard
          (news.map (NodeOf.map (Graph.fold Handlers.standard.importer))) context' session' = .ok () next'
        ∧ next.scope.Alike y next'.scope) :
    (∀ asTuple m, ((lowerGraph Handlers.standard (Handlers.standard.prepare graph) asTuple).runIn
        (Handlers.standard.prepare graph) context).1 = .ok m →
      ((lowerGraph Handlers.standard (Handlers.standard.prepare (graph.replace before news after))
        asTuple).runIn (Handlers.standard.prepare (graph.replace before news after)) context').1 = .ok m)
    ∧ ∀ subgraph, ((graph.fold Handlers.standard.importer).lower context).1 = .ok subgraph →
      (((graph.replace before news after).fold Handlers.standard.importer).lower context').1
          = .ok subgraph
        ∧ y ∉ subgraph.outerInputs := by
  rw [Graph.fold_eq, Graph.fold_eq]
  have havoids : ∀ other ∈ graph.body.nodes,
      (other.map (Graph.fold Handlers.standard.importer)).Avoids y := fun other hmem =>
    NodeOf.avoids_of_mem fresh.unmentioned fresh.unreserved hmem fun g hg =>
      g.blind fresh.unreserved (fresh.inner hmem hg).unmentioned
  have hnames : y ∉ (Handlers.standard.prepare graph).mentioned := fun hname =>
    fresh.unmentioned (Graph.mentions_of_mem (List.Subset.refl _) (GraphOf.mentioned_map _ _ ▸ hname))
  refine lowers_alike contexts rfl (fun start hstart => ?_)
    fun start fed fed' last hstart hfed halike h => ?_
  · have halike := ofGraph_alike hnames hstart
    obtain ⟨initial, hinitial, rfl⟩ := ofGraph_eq_ok hstart
    have hstart' : Scope.ofGraph (Handlers.standard.prepare (graph.replace before news after)) = .ok {
        initializers := .ofList initial
        tensors := .ofList initial
        declarations := graph.body.declarations
        outputs := graph.body.outputs.map ValueInfo.name
        users := (Handlers.standard.prepare (graph.replace before news after)).users } :=
      Except.bind_eq_ok.2 ⟨initial, hinitial, rfl⟩
    refine ⟨_, hstart', rfl, fun _ _ => rfl, fun name hname => ?_, halike.outputs, halike.outerInputs,
      halike.unknown⟩
    simp only [Handlers.prepare, GraphOf.users_map]
    exact husers name hname
  · replace h : lowerNodes Handlers.standard
        (graph.body.nodes.map (NodeOf.map (Graph.fold Handlers.standard.importer))) context fed
      = .ok () last := h
    show ∃ last', lowerNodes Handlers.standard ((before ++ (news ++ after)).map
        (NodeOf.map (Graph.fold Handlers.standard.importer))) context' fed' = .ok () last' ∧ _
    rw [hnodes, List.map_append, lowerNodes_append_eq_ok] at h
    rw [List.map_append, List.map_append]
    simp only [lowerNodes_append_eq_ok]
    rw [hnodes] at havoids
    have havoids' {others : List (NodeOf Graph)} (hothers : others ⊆ before ++ node :: after) :
        ∀ other ∈ others.map (NodeOf.map (Graph.fold Handlers.standard.importer)), other.Avoids y := by
      intro other hother
      obtain ⟨other, hmem, rfl⟩ := List.mem_map.1 hother
      exact havoids other (hothers hmem)
    obtain ⟨middle, hbefore, h⟩ := h
    obtain ⟨next, hnext, hafter⟩ := lowerNodes_cons_eq_ok h
    obtain ⟨middle', hbefore', hmiddle⟩ := lowerNodes_follows contexts
      (havoids' (List.subset_append_left _ _)) fed fed' () middle halike hbefore
    obtain ⟨next', hnext', hnextAlike⟩ := hnews middle middle' next ⟨start, fed, hstart, hfed, hbefore⟩
      hmiddle hnext
    obtain ⟨last', hafter', hlast⟩ := lowerNodes_follows contexts
      (havoids' fun other hother => List.mem_append_right _ (List.mem_cons_of_mem _ hother)) next next' ()
      last hnextAlike hafter
    exact ⟨last', ⟨middle', hbefore', next', hnext', hafter'⟩, hlast⟩

end

-- =================================================================== readers

/-- An input goes by another name, and an identity reads it instead. -/
theorem count_set {inputs : List String} {i : Nat} {x y name : String} (hinput : inputs[i]? = some x)
    (hx : x.isEmpty = false) (hy : y.isEmpty = false) (hname : name ≠ y) :
    ((x :: inputs.set i y).filter (!·.isEmpty)).count name
      = (inputs.filter (!·.isEmpty)).count name := by
  obtain ⟨hlt, rfl⟩ := List.getElem?_eq_some_iff.1 hinput
  rw [List.set_eq_take_append_cons_drop, if_pos hlt]
  conv_rhs => rw [← List.take_append_drop i inputs, List.drop_eq_getElem_cons hlt]
  simp only [List.filter_cons, List.filter_append, hx, hy, Bool.not_false, if_true, List.count_cons,
    List.count_append]
  rw [if_neg (by simpa using Ne.symm hname)]
  omega

/-- The other names have as many readers as before. -/
theorem count_users_alias {graph : Graph} {before after : List (NodeOf Graph)} {node : NodeOf Graph}
    {i : Nat} {x y name : String} (hnodes : graph.body.nodes = before ++ node :: after)
    (hinput : node.inputs[i]? = some x) (hx : x.isEmpty = false) (hy : y.isEmpty = false)
    (hname : name ≠ y) :
    (graph.replace before [.identity x y, { node with inputs := node.inputs.set i y }]
        after).body.users.count name
      = graph.body.users.count name := by
  have hset := count_set hinput hx hy hname
  rw [← List.singleton_append, List.filter_append, List.count_append] at hset
  have hnews : (graph.replace before [.identity x y, { node with inputs := node.inputs.set i y }]
      after).body.nodes.flatMap NodeOf.inputs
        = before.flatMap NodeOf.inputs ++ ([x] ++ (node.inputs.set i y ++ after.flatMap NodeOf.inputs)) := by
    show (before ++ ([NodeOf.identity x y, { node with inputs := node.inputs.set i y }] ++ after)).flatMap
      NodeOf.inputs = _
    rw [List.flatMap_append, List.flatMap_append, List.flatMap_cons, List.flatMap_singleton,
      List.append_assoc]
    rfl
  rw [GraphOf.count_users, GraphOf.count_users, hnews, hnodes, List.flatMap_append, List.flatMap_cons]
  simp only [List.filter_append, List.count_append]
  rw [← hset]
  show _ + _ + ((graph.body.outputs.map ValueInfo.name).filter _).count name = _
  omega

-- =================================================================== inside

section

variable {A : Type} {node : NodeOf A} {left right : List (String × AttributeOf A)} {key : String}
  {g g' : A}

/-- Graphs are no values. -/
theorem NodeOf.values_replace (h : node.attributes = left ++ (key, .graph g) :: right) :
    ({ node with attributes := left ++ (key, .graph g') :: right } : NodeOf A).values = node.values := by
  unfold values
  rw [h]
  simp only [List.foldlM_append, List.foldlM_cons]
  rfl

/-- Another graph inside, in place of one. -/
theorem NodeOf.graph?_replace (h : node.attributes = left ++ (key, .graph g) :: right) {name : String}
    {found : A} (hfound : node.graph? name = some found) :
    ({ node with attributes := left ++ (key, .graph g') :: right } : NodeOf A).graph? name = some found
      ∨ found = g ∧ ({ node with attributes := left ++ (key, .graph g') :: right } : NodeOf A).graph? name
        = some g' := by
  unfold graph? at hfound ⊢
  rw [h, List.findSome?_append] at hfound
  rw [List.findSome?_append]
  rcases Option.or_eq_some_iff.1 hfound with hfirst | ⟨hnone, hrest⟩
  · exact .inl (Option.or_eq_some_iff.2 (.inl hfirst))
  · rw [List.findSome?_cons] at hrest
    rw [hnone, Option.none_or, List.findSome?_cons]
    by_cases hkey : key = name
    · simp only [if_pos hkey] at hrest ⊢
      exact .inr ⟨(Option.some.inj hrest).symm, trivial⟩
    · simp only [if_neg hkey] at hrest ⊢
      exact .inl hrest

end

/-- One graph is another one with an identity in front of some node, at
some depth: it gives the value of an input `x` the name `y`, and the node
reads `y` instead. -/
inductive Graph.Aliases (y : String) : Context → Graph → Graph → Prop
  | node {context : Context} {graph : Graph} {before after : List (NodeOf Graph)} {node : NodeOf Graph}
      {i : Nat} {x : String} (nodes : graph.body.nodes = before ++ node :: after)
      (input : node.inputs[i]? = some x) (named : x.isEmpty = false)
      (transparent : ∀ session, graph.Reaches context before session →
        node.Transparent context session.scope i x) :
      Aliases y context graph
        (graph.replace before [.identity x y, { node with inputs := node.inputs.set i y }] after)
  | inside {context : Context} {graph g g' : Graph} {before after : List (NodeOf Graph)}
      {node : NodeOf Graph} {key : String} {left right : List (String × AttributeOf Graph)}
      (nodes : graph.body.nodes = before ++ node :: after)
      (attributes : node.attributes = left ++ (key, .graph g) :: right)
      (inner : ∀ session, graph.Reaches context before session →
        Aliases y ⟨context.opset, session.scope :: context.outer⟩ g g') :
      Aliases y context graph
        (graph.replace before [{ node with attributes := left ++ (key, .graph g') :: right }] after)

theorem NodeOf.Transparent.map {A B : Type} {node : NodeOf A} {f : A → B} {context : Context}
    {scope : Scope} {i : Nat} {x : String} (h : node.Transparent context scope i x) :
    (node.map f).Transparent context scope i x where
  tensor := h.tensor
  shape hasks := h.shape (by
    unfold asksShape at hasks ⊢
    rwa [values_map] at hasks)
  order := h.order

/-- A graph with such an identity becomes the same, as a whole or inside a
node, and wherever the surroundings are alike. -/
theorem Graph.Aliases.lowers {y : String} {context : Context} {graph graph' : Graph}
    (h : graph.Aliases y context graph') (fresh : graph.Fresh y) {context' : Context}
    (contexts : context.Alike y context') :
    (∀ asTuple m, ((lowerGraph Handlers.standard (Handlers.standard.prepare graph) asTuple).runIn
        (Handlers.standard.prepare graph) context).1 = .ok m →
      ((lowerGraph Handlers.standard (Handlers.standard.prepare graph') asTuple).runIn
        (Handlers.standard.prepare graph') context').1 = .ok m)
    ∧ ∀ subgraph, ((graph.fold Handlers.standard.importer).lower context).1 = .ok subgraph →
      ((graph'.fold Handlers.standard.importer).lower context').1 = .ok subgraph
        ∧ y ∉ subgraph.outerInputs := by
  induction h generalizing context' with
  | @node context graph before after node i x hnodes hinput hx transparent =>
      have hmem : node ∈ graph.body.nodes := hnodes ▸ List.mem_append_right _ List.mem_cons_self
      refine lowers_replace contexts fresh hnodes
        (fun name hname => count_users_alias hnodes hinput hx fresh.named hname)
        fun session session' next hreaches halike hnext => ?_
      obtain ⟨htied, hstocked, hdeclarations⟩ := hreaches.ready
      have havoids := NodeOf.avoids_of_mem fresh.unmentioned fresh.unreserved hmem fun g hg =>
        g.blind fresh.unreserved (fresh.inner hmem hg).unmentioned
      exact lowerNodes_alias contexts havoids hinput hx fresh.named (transparent session hreaches).map
        htied hstocked (hdeclarations ▸ fresh.find?_declarations) halike hnext
  | @inside context graph g g' before after node key left right hnodes hattributes inner ih =>
      have hmem : node ∈ graph.body.nodes := hnodes ▸ List.mem_append_right _ List.mem_cons_self
      have havoids := NodeOf.avoids_of_mem fresh.unmentioned fresh.unreserved hmem fun g hg =>
        g.blind fresh.unreserved (fresh.inner hmem hg).unmentioned
      have husers : (graph.replace before [{ node with attributes := left ++ (key, .graph g') :: right }]
          after).body.users = graph.body.users := by
        unfold GraphOf.users
        rw [hnodes]
        simp only [Graph.replace, Graph.body, List.flatMap_append, List.flatMap_cons, List.flatMap_nil,
          List.append_nil]
      refine lowers_replace contexts fresh hnodes (fun name _ => congrArg (Counters.count · name) husers)
        fun session session' next hreaches halike hnext => ?_
      have hmirrors := @mirrors_same y context context'
        (node.map (Graph.fold Handlers.standard.importer))
        (({ node with attributes := left ++ (key, .graph g') :: right } : NodeOf Graph).map
          (Graph.fold Handlers.standard.importer)).attributes
        (fun scope => scope = session.scope) contexts havoids.inputs
        (by
          show (({ node with attributes := left ++ (key, .graph g') :: right } : NodeOf Graph).map _).values
            = _
          rw [NodeOf.values_map, NodeOf.values_map, NodeOf.values_replace hattributes])
        (by
          rintro _ scope' rfl halike name importer himporter
          have hcontexts : Context.Alike y ⟨context.opset, session.scope :: context.outer⟩
              ⟨context'.opset, scope' :: context'.outer⟩ :=
            ⟨contexts.opset, fun name hname => halike.agree hname (contexts.outer name hname)⟩
          have hgraph {found : Graph}
              (h : ({ node with attributes := left ++ (key, .graph g') :: right } : NodeOf Graph).graph? name
                = some found) :
              (({ node with attributes := left ++ (key, .graph g') :: right } : NodeOf Graph).map
                (Graph.fold Handlers.standard.importer)).graph? name
                  = some (found.fold Handlers.standard.importer) := by
            rw [NodeOf.graph?_map, h]
            rfl
          have himporter' := himporter
          rw [NodeOf.graph?_map] at himporter'
          obtain ⟨found, hfound, rfl⟩ := Option.map_eq_some_iff.1 himporter'
          rcases NodeOf.graph?_replace hattributes hfound with hsame | ⟨rfl, hnew⟩
          · exact ⟨_, hgraph hsame, havoids.inner _ (NodeOf.mem_inner_of_graph? himporter) _ _ hcontexts⟩
          · have hfresh := fresh.inner hmem (NodeOf.mem_inner_of_graph? hfound)
            exact ⟨_, hgraph hnew, (ih session hreaches hfresh hcontexts).2⟩)
      obtain ⟨next', hnext', hnextAlike⟩ := lowerNode_follows contexts hmirrors havoids.outputs
        havoids.source session session' () next ⟨halike, fun _ => rfl⟩ hnext
      exact ⟨next', bind_eq_ok.2 ⟨(), next', hnext', rfl⟩, hnextAlike⟩

instance (graph : Graph) (name : String) : Decidable (graph.Mentions name) :=
  inferInstanceAs (Decidable (∃ level ∈ graph.levels, name ∈ level.mentioned))

end OnnxLowering
