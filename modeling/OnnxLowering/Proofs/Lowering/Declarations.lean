/-
What a further declaration does to the lookup of shapes. A graph declares
something more of a name; this has no effect on what names stand for, so
wherever its lowering comes to, the lowering of the graph without it comes
to the same point (`Graph.Abreast`), with twins of all scopes.

`shape?_best` says when a lookup finds the best that there is to know: for
a tensor, and before and after the declaration. The last declaration of a
name counts, and hides all else that is known, be it better or not.
-/
import OnnxLowering.Proofs.Lowering.Twins

namespace OnnxLowering

open KnownShape (Kept Redeclared Supersedes)

-- =============================================================== declarations

namespace GraphOf

variable {G : Type} {graph graph' : GraphOf G} {info : ValueInfo}

/-- A graph declares something more. As an input only a name with an initial
tensor can be declared once more; any other name would be one more input of
the graph. -/
inductive Gains (info : ValueInfo) : GraphOf G → GraphOf G → Prop
  | input {graph : GraphOf G} {front rest : List ValueInfo} (inputs : graph.inputs = front ++ rest)
      (initial : info.name ∈ graph.initializers.map Prod.fst) :
      Gains info graph { graph with inputs := front ++ info :: rest }
  | value {graph : GraphOf G} {front rest : List ValueInfo}
      (valueInfo : graph.valueInfo = front ++ rest) :
      Gains info graph { graph with valueInfo := front ++ info :: rest }
  | output {graph : GraphOf G} {front rest : List ValueInfo}
      (outputs : graph.outputs = front ++ rest) :
      Gains info graph { graph with outputs := front ++ info :: rest }

theorem Gains.initializers_eq (gains : graph.Gains info graph') :
    graph'.initializers = graph.initializers := by
  cases gains <;> rfl

/-- Another input with an initial tensor is no input of the module. -/
theorem Gains.feedNames_eq (gains : graph.Gains info graph') :
    graph'.feedNames = graph.feedNames := by
  cases gains with
  | @input front rest inputs initial =>
      unfold feedNames
      rw [inputs]
      simp only [List.map_append, List.map_cons, List.filter_append]
      rw [List.filter_cons_of_neg (by simpa using initial)]
  | value _ => rfl
  | output _ => rfl

end GraphOf

/-- One more entry says nothing of other names. -/
theorem NameMap.find?_ofList_insert {α : Type} {front rest : List (String × α)}
    {entry : String × α} {other : String} (h : other ≠ entry.1) :
    (NameMap.ofList (front ++ entry :: rest)).find? other
      = (NameMap.ofList (front ++ rest)).find? other := by
  have hentry : List.lookup other [entry] = none := by
    rw [List.lookup_cons, beq_false_of_ne h]
    rfl
  simp only [ofList, find?, List.reverse_append, List.reverse_cons, List.lookup_append,
    List.append_assoc, hentry, Option.none_or]

namespace GraphOf

variable {G : Type} {graph graph' : GraphOf G} {info : ValueInfo}

/-- Among all declarations there is one more. -/
theorem Gains.exists_split (gains : graph.Gains info graph') :
    ∃ front rest, graph.inputs ++ graph.valueInfo ++ graph.outputs = front ++ rest
      ∧ graph'.inputs ++ graph'.valueInfo ++ graph'.outputs = front ++ info :: rest := by
  cases gains with
  | @input front rest inputs _ =>
      refine ⟨front, rest ++ graph.valueInfo ++ graph.outputs, ?_, ?_⟩
      · rw [inputs]
        simp only [List.append_assoc]
      · simp only [List.append_assoc, List.cons_append]
  | @value front rest valueInfo =>
      refine ⟨graph.inputs ++ front, rest ++ graph.outputs, ?_, ?_⟩
      · rw [valueInfo]
        simp only [List.append_assoc]
      · simp only [List.append_assoc, List.cons_append]
  | @output front rest outputs =>
      refine ⟨graph.inputs ++ graph.valueInfo ++ front, rest, ?_, ?_⟩
      · rw [outputs]
        simp only [List.append_assoc]
      · simp only [List.append_assoc]

/-- What is declared of other names stays as it is. -/
theorem Gains.shape?_of_ne (gains : graph.Gains info graph') {name : String} (h : name ≠ info.name) :
    graph'.declarations.shape? name = graph.declarations.shape? name := by
  obtain ⟨front, rest, hgraph, hgraph'⟩ := gains.exists_split
  unfold NameMap.shape? declarations
  rw [hgraph, hgraph', List.map_append, List.map_append, List.map_cons, NameMap.find?_ofList_insert h]

end GraphOf

-- ==================================================================== points

section

variable {graph graph' : Graph} {context context' : Context} {scopes scopes' : Scopes}

/-- The node of a graph once the graphs inside are importers. -/
abbrev NodeOf.prepared (node : NodeOf Graph) : NodeOf Importer :=
  node.map (Graph.fold Handlers.standard.importer)

/-- A point in the lowering of a graph. Some inputs have been added, some
nodes have been lowered, and on behalf of another node some effects have
happened. -/
def Graph.Reached (graph : Graph) (context : Context) (inputs : List String)
    (nodes : List (NodeOf Graph)) (node : NodeOf Graph) (effects : List Effect) (scope : Scope) : Prop :=
  ∃ start fed last, Scope.ofGraph (Handlers.standard.prepare graph) = .ok start
    ∧ start.FeedsAll inputs fed.scope
    ∧ Lower.lowerNodes Handlers.standard (nodes.map NodeOf.prepared) context fed = .ok () last
    ∧ Effects context node.prepared effects last.scope scope

/-- The lowerings of two graphs have come to the same point, in the graphs
themselves or in the same graph inside a node. The scopes there are those of
the graphs in the midst of which they are, and those around them. -/
inductive Graph.Abreast : Graph → Graph → Context → Context → Scopes → Scopes → Prop
  | own {graph graph' : Graph} {context context' : Context} {inputs : List String}
      {nodes : List (NodeOf Graph)} {node : NodeOf Graph} {effects : List Effect}
      {scope scope' : Scope} (reached : graph.Reached context inputs nodes node effects scope)
      (reached' : graph'.Reached context' inputs nodes node effects scope') :
      Abreast graph graph' context context' (scope :: context.outer) (scope' :: context'.outer)
  | inside {graph graph' : Graph} {context context' : Context} {inputs : List String}
      {nodes : List (NodeOf Graph)} {node : NodeOf Graph} {effects : List Effect}
      {scope scope' : Scope} (reached : graph.Reached context inputs nodes node effects scope)
      (reached' : graph'.Reached context' inputs nodes node effects scope') {inner : Graph}
      (hinner : inner ∈ node.inner) {scopes scopes' : Scopes}
      (within : Abreast inner inner ⟨context.opset, scope :: context.outer⟩
        ⟨context'.opset, scope' :: context'.outer⟩ scopes scopes') :
      Abreast graph graph' context context' scopes scopes'

variable {x x' : Option KnownShape}

/-- Before anything is lowered the scopes of two graphs are twins. -/
def Graph.Akin (x x' : Option KnownShape) (graph graph' : Graph) : Prop :=
  ∀ start start', Scope.ofGraph (Handlers.standard.prepare graph) = .ok start →
    Scope.ofGraph (Handlers.standard.prepare graph') = .ok start' → start.Twin x x' start'

theorem Graph.Akin.refl (graph : Graph) : graph.Akin x x' graph := by
  intro start start' h h'
  cases h.symm.trans h'
  exact .refl start

/-- Then they are twins at every point. -/
theorem Graph.Akin.reached (akin : graph.Akin x x' graph')
    (twins : Scopes.Twins x x' context.outer context'.outer) (hopset : context'.opset = context.opset)
    {inputs : List String} {nodes : List (NodeOf Graph)} {node : NodeOf Graph} {effects : List Effect}
    {scope scope' : Scope} (reached : graph.Reached context inputs nodes node effects scope)
    (reached' : graph'.Reached context' inputs nodes node effects scope') :
    scope.Twin x x' scope' := by
  obtain ⟨start, fed, last, hstart, hfed, hnodes, heffects⟩ := reached
  obtain ⟨start', fed', last', hstart', hfed', hnodes', heffects'⟩ := reached'
  have hinner : ∀ node ∈ nodes.map NodeOf.prepared, ∀ importer ∈ node.inner, importer.Steady x x' := by
    intro node hnode importer himporter
    obtain ⟨source, -, rfl⟩ := List.mem_map.1 hnode
    rw [NodeOf.inner_map] at himporter
    obtain ⟨inner, -, rfl⟩ := List.mem_map.1 himporter
    exact importer_steady inner
  have hfirst := (akin start start' hstart hstart').feedsAll hfed hfed'
  exact (hfirst.lowerNodes twins hopset hinner hnodes hnodes').happenAll twins heffects heffects'

theorem Graph.Abreast.twins (abreast : graph.Abreast graph' context context' scopes scopes')
    (akin : graph.Akin x x' graph') (twins : Scopes.Twins x x' context.outer context'.outer)
    (hopset : context'.opset = context.opset) : Scopes.Twins x x' scopes scopes' := by
  induction abreast with
  | own reached reached' => exact .cons (akin.reached twins hopset reached reached') twins
  | inside reached reached' _ _ ih =>
      exact ih (.refl _) (.cons (akin.reached twins hopset reached reached') twins) hopset

theorem GraphOf.Gains.initial_eq {info : ValueInfo} (gains : graph.body.Gains info graph'.body) :
    (Handlers.standard.prepare graph').initial = (Handlers.standard.prepare graph).initial := by
  unfold GraphOf.initial
  exact congrArg _ gains.initializers_eq

/-- A graph that declares something more is akin to what it was. -/
theorem GraphOf.Gains.akin {info : ValueInfo} (gains : graph.body.Gains info graph'.body) :
    graph.Akin (graph.body.declarations.shape? info.name) (graph'.body.declarations.shape? info.name)
      graph' := by
  intro start start' hstart hstart'
  obtain ⟨initial, hinitial, rfl⟩ := ofGraph_eq_ok hstart
  obtain ⟨initial', hinitial', rfl⟩ := ofGraph_eq_ok hstart'
  obtain rfl : initial' = initial :=
    Except.ok.inj (hinitial'.symm.trans (gains.initial_eq.trans hinitial))
  refine ⟨rfl, rfl, rfl, rfl, rfl, rfl, rfl, fun name => ?_, fun ref => ?_⟩
  · by_cases hname : name = info.name
    · rw [hname]
      exact .inr ⟨rfl, rfl⟩
    · exact .inl (gains.shape?_of_ne hname)
  · exact .refl

/-- The lowering of a graph that declares something more comes to the same
points. -/
theorem GraphOf.Gains.abreast {info : ValueInfo} {nodes : List (NodeOf Graph)} {names : List String}
    {start start' : Scope} {refs refs' : List Ref} {session session' : Session}
    (gains : graph.body.Gains info graph'.body)
    (hstart : Scope.ofGraph (Handlers.standard.prepare graph) = .ok start)
    (hstart' : Scope.ofGraph (Handlers.standard.prepare graph') = .ok start')
    (h : Lower.lowerParts (Handlers.standard.prepare graph) (nodes.map NodeOf.prepared) names context
      { scope := start } = .ok refs session)
    (h' : Lower.lowerParts (Handlers.standard.prepare graph') (nodes.map NodeOf.prepared) names context
      { scope := start' } = .ok refs' session') :
    graph.Abreast graph' context context (session.scope :: context.outer)
      (session'.scope :: context.outer) := by
  obtain ⟨_, fed, hfed, h⟩ := Lower.bind_eq_ok.1 h
  obtain ⟨_, last, hnodes, hrefs⟩ := Lower.bind_eq_ok.1 h
  obtain ⟨_, fed', hfed', h'⟩ := Lower.bind_eq_ok.1 h'
  obtain ⟨_, last', hnodes', hrefs'⟩ := Lower.bind_eq_ok.1 h'
  have hfeeds := OnnxLowering.feedNames_eq hstart ▸ Lower.addGraphInputs_eq_ok hfed
  have hfeeds' := OnnxLowering.feedNames_eq hstart' ▸ Lower.addGraphInputs_eq_ok hfed'
  have hnames : (Handlers.standard.prepare graph').feedNames
      = (Handlers.standard.prepare graph).feedNames := gains.feedNames_eq
  rw [hnames] at hfeeds'
  let asking : NodeOf Graph := { op := "" }
  exact @Graph.Abreast.own _ _ _ _ _ nodes asking (names.map .value) _ _
    ⟨start, fed, last, hstart, hfeeds, hnodes, (Lower.mapM_value_does _ _ _ hrefs).1⟩
    ⟨start', fed', last', hstart', hfeeds', hnodes', (Lower.mapM_value_does _ _ _ hrefs').1⟩

/-- The scopes before anything is lowered, of a graph that has no initial
tensor of a name. A lookup of the name finds what the graph declares, and
then what is found outside. -/
theorem GraphOf.Gains.abreast_start {info : ValueInfo} {start : Scope}
    (gains : graph.body.Gains info graph'.body)
    (hstart : Scope.ofGraph (Handlers.standard.prepare graph) = .ok start)
    (hplain : info.name ∉ graph.body.initializers.map Prod.fst) :
    ∃ start', graph.Abreast graph' context context (start :: context.outer) (start' :: context.outer)
      ∧ Scopes.shape? (start :: context.outer) info.name
        = (graph.body.declarations.shape? info.name).or (Scopes.shape? context.outer info.name)
      ∧ Scopes.shape? (start' :: context.outer) info.name
        = (graph'.body.declarations.shape? info.name).or (Scopes.shape? context.outer info.name) := by
  obtain ⟨initial, hinitial, hscope⟩ := ofGraph_eq_ok hstart
  let start' : Scope := {
    initializers := .ofList initial
    tensors := .ofList initial
    declarations := graph'.body.declarations
    outputs := graph'.body.outputs.map ValueInfo.name
    users := (Handlers.standard.prepare graph').users }
  have hstart' : Scope.ofGraph (Handlers.standard.prepare graph') = .ok start' := by
    show (Handlers.standard.prepare graph').initial >>= _ = _
    rw [gains.initial_eq, hinitial]
    rfl
  have htensor : (NameMap.ofList initial).find? info.name = none := by
    rw [NameMap.find?_ofList_eq_none, GraphOf.map_fst_initial hinitial]
    exact hplain
  have hlookup {scope : Scope} (htensors : scope.tensors = .ofList initial)
      (hbindings : scope.bindings = .empty) : Scopes.shape? (scope :: context.outer) info.name
        = (scope.declarations.shape? info.name).or (Scopes.shape? context.outer info.name) := by
    rw [Scopes.shape?_cons, Scopes.behind?, htensors, htensor, hbindings, NameMap.find?_empty]
  subst hscope
  let asking : NodeOf Graph := { op := "" }
  exact ⟨start', @Graph.Abreast.own _ _ _ _ [] [] asking [] _ _
    ⟨_, ⟨_, []⟩, ⟨_, []⟩, hstart, .nil, rfl, .nil⟩ ⟨_, ⟨_, []⟩, ⟨_, []⟩, hstart', .nil, rfl, .nil⟩,
    hlookup rfl rfl, hlookup rfl rfl⟩

end

/-- **The best that is known of a shape** is what a lookup finds, of a
tensor that is known, if and only if no true declaration on the way to it
leaves a size open.

A further declaration of a name, wherever the graph is lowered, takes the
place of what was declared of it, in front of the same other sources.
Nothing is lost by that if it supersedes what was declared before; and if
the name has no initial tensor, then only if it does, as the graph may
stand where something else is known of the name. -/
theorem shape?_best (scopes : Scopes) (name : String) :
    (∀ t : Tensor, scopes.tensor? name = some t → (∀ known ∈ scopes.declared? name, known.Matches t) →
      (scopes.shape? name = some t.shape.known ↔ ∀ known ∈ scopes.declared? name, none ∉ known))
    ∧ ∀ (graph graph' : Graph) (info : ValueInfo), graph.body.Gains info graph'.body →
      let x := graph.body.declarations.shape? info.name
      let x' := graph'.body.declarations.shape? info.name
      (∀ context scopes', graph.Abreast graph' context context scopes scopes' →
        Redeclared x x' (scopes.shape? name) (scopes'.shape? name)
        ∧ ∀ t : Tensor, (∀ known ∈ scopes.shape? name, known.Matches t) →
          (∀ known ∈ scopes'.shape? name, known.Matches t) → Supersedes x x' →
            Kept (scopes.shape? name) (scopes'.shape? name))
      ∧ ∀ t : Tensor, (∃ start, Scope.ofGraph (Handlers.standard.prepare graph) = .ok start) →
        info.name ∉ graph.body.initializers.map Prod.fst → (∀ known ∈ x, known.Matches t) →
        (∀ known ∈ x', known.Matches t) →
        (∀ context scopes scopes', graph.Abreast graph' context context scopes scopes' →
          (∀ known ∈ scopes.shape? info.name, known.Matches t) →
          (∀ known ∈ scopes'.shape? info.name, known.Matches t) →
            Kept (scopes.shape? info.name) (scopes'.shape? info.name)) → Supersedes x x' := by
  refine ⟨fun t => Scopes.shape?_eq_known_iff, fun graph graph' info gains => ⟨?_, ?_⟩⟩
  · intro context scopes' abreast
    have hlookup := (abreast.twins gains.akin (.refl _) rfl).shape? name
    exact ⟨hlookup, fun t htrue htrue' supersedes => hlookup.kept htrue htrue' supersedes⟩
  · rintro t ⟨start, hstart⟩ hplain hx hx' hkept
    refine (KnownShape.supersedes_iff hx').2 fun other hother => ?_
    -- a graph around it that declares the other shape
    let around : Scope := { declarations := .ofList [(info.name, ⟨other, none⟩)] }
    obtain ⟨start', abreast, hshape, hshape'⟩ :=
      @GraphOf.Gains.abreast_start _ _ ⟨13, [around]⟩ _ _ gains hstart hplain
    have haround : Scopes.shape? [around] info.name = other := by
      have hfind : around.declarations.find? info.name = some ⟨other, none⟩ := by
        simp [around, NameMap.ofList, NameMap.find?]
      rw [Scopes.shape?, hfind]
      cases other <;> rfl
    have htrue {declared : Option KnownShape} (h : ∀ known ∈ declared, known.Matches t) :
        ∀ known ∈ declared.or other, known.Matches t := by
      cases declared with
      | none => exact hother
      | some _ => exact h
    have hkept' := hkept _ _ _ abreast
    rw [hshape, hshape', haround] at hkept'
    exact hkept' (htrue hx) (htrue hx')

/-- A graph that is fed a matrix, and declares more of it. -/
def matrixGraph (valueInfo outputs : List ValueInfo) : Graph :=
  ⟨{ inputs := [{ name := "x", elementCode := 1, shape := some [.value 2, .value 3] }]
     valueInfo, outputs }⟩

/-- The scope of such a graph once its input has been added. -/
def matrixScope (graph : Graph) : Scope :=
  ((Lower.lowerParts (Handlers.standard.prepare graph) [] []).last ⟨13, []⟩ { scope :=
    { declarations := graph.body.declarations
      outputs := graph.body.outputs.map ValueInfo.name
      users := graph.body.users } }).scope

theorem matrixGraph_abreast {valueInfo outputs valueInfo' outputs' : List ValueInfo} {info : ValueInfo}
    (gains : (matrixGraph valueInfo outputs).body.Gains info (matrixGraph valueInfo' outputs').body) :
    (matrixGraph valueInfo outputs).Abreast (matrixGraph valueInfo' outputs') ⟨13, []⟩ ⟨13, []⟩
      [matrixScope (matrixGraph valueInfo outputs)] [matrixScope (matrixGraph valueInfo' outputs')] :=
  @GraphOf.Gains.abreast _ _ ⟨13, []⟩ _ [] [] _ _ [] [] _ _ gains rfl rfl rfl rfl

/-- A further declaration that leaves all sizes open does no harm in front
of an output of which they are declared. -/
theorem shape?_best_matrix :
    let info : ValueInfo := { name := "x", elementCode := 1, shape := some [.unknown, .symbol "n"] }
    let output : ValueInfo := { name := "x", elementCode := 1, shape := some [.value 2, .value 3] }
    let scope := matrixScope (matrixGraph [] [output])
    let scope' := matrixScope (matrixGraph [info] [output])
    (matrixGraph [] [output]).body.Gains info (matrixGraph [info] [output]).body
      ∧ Scopes.shape? [scope] "x" = some [some 2, some 3]
      ∧ Kept (Scopes.shape? [scope] "x") (Scopes.shape? [scope'] "x") := by
  intro info output scope scope'
  have gains : (matrixGraph [] [output]).body.Gains info (matrixGraph [info] [output]).body :=
    @GraphOf.Gains.value _ info (matrixGraph [] [output]).body [] [] rfl
  have hbefore : Scopes.shape? [scope] "x" = some [some 2, some 3] := by decide +kernel
  have hafter : Scopes.shape? [scope'] "x" = some [some 2, some 3] := by decide +kernel
  let t : Tensor := .ofFn .float32 [2, 3] fun _ => 0
  have htrue : ∀ known ∈ (some [some 2, some 3] : Option KnownShape), known.Matches t := by
    rintro known ⟨⟩
    decide
  have supersedes : Supersedes ((matrixGraph [] [output]).body.declarations.shape? "x")
      ((matrixGraph [info] [output]).body.declarations.shape? "x") :=
    ⟨.refl _, fun h => nomatch h⟩
  refine ⟨gains, hbefore, (((shape?_best [scope] "x").2 _ _ info gains).1 _ _
    (matrixGraph_abreast gains)).2 t ?_ ?_ supersedes⟩
  · rw [hbefore]
    exact htrue
  · rw [hafter]
    exact htrue

/-- A graph with an initial tensor of two elements, which it declares to have
some number of elements when it returns it. -/
def twoElementGraph : Graph :=
  ⟨{ outputs := [{ name := "c", elementCode := 1, shape := some [.unknown] }]
     initializers := [("c", ⟨1, [2], .patterns [0x3f800000, 0x40000000]⟩)] }⟩

/-- The declaration hides the number of elements of the tensor; and an output
without a shape hides that of the input. -/
theorem shape?_hides :
    (∃ start t, Scope.ofGraph (Handlers.standard.prepare twoElementGraph) = .ok start
      ∧ Scopes.tensor? [start] "c" = some t ∧ KnownShape.Matches [none] t
      ∧ Scopes.shape? [start] "c" = some [none] ∧ t.shape = [2])
    ∧ let info : ValueInfo := { name := "x", elementCode := 1 }
      (matrixGraph [] []).body.Gains info (matrixGraph [] [info]).body
        ∧ (matrixGraph [] []).Abreast (matrixGraph [] [info]) ⟨13, []⟩ ⟨13, []⟩
          [matrixScope (matrixGraph [] [])] [matrixScope (matrixGraph [] [info])]
        ∧ Scopes.shape? [matrixScope (matrixGraph [] [])] "x" = some [some 2, some 3]
        ∧ Scopes.shape? [matrixScope (matrixGraph [] [info])] "x" = none := by
  constructor
  · obtain ⟨start, hstart, htest⟩ : ∃ start,
        Scope.ofGraph (Handlers.standard.prepare twoElementGraph) = .ok start
        ∧ ((Scopes.tensor? [start] "c").any fun t => decide (KnownShape.Matches [none] t
          ∧ Scopes.shape? [start] "c" = some [none] ∧ t.shape = [2])) = true :=
      Except.exists_of_test (by decide +kernel)
    obtain ⟨t, ht, hknown⟩ := (Option.any_eq_true _ _).1 htest
    obtain ⟨hmatches, hshape, hsizes⟩ := of_decide_eq_true hknown
    exact ⟨start, t, hstart, ht, hmatches, hshape, hsizes⟩
  · intro info
    have gains : (matrixGraph [] []).body.Gains info (matrixGraph [] [info]).body :=
      @GraphOf.Gains.output _ info (matrixGraph [] []).body [] [] rfl
    exact ⟨gains, matrixGraph_abreast gains, by decide +kernel, by decide +kernel⟩

end OnnxLowering
