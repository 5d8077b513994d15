/-
What is known of a name is true. While a graph is lowered some names are
known to stand for certain tensors, be it that they do so in the graph
itself or in one around it. Whoever asks for the value of such a name gets
one that is this tensor in every run (`known_always`), as long as every
name is given once and no two tensors are stored in one place.

The invariant is `Informed`: where a name is known, all values that it has
in the module are nodes that read its tensor. `Builds` follows a graph and
the graphs inside it through their lowering, so that it stands for every
point at which something may be asked.
-/
import OnnxLowering.Proofs.Handler.Moves
import OnnxLowering.Proofs.Lowering.Whole
import OnnxLowering.Proofs.Module.Constant

namespace OnnxLowering

-- =============================================================== knowledge

namespace Scope

/-- A value of the module under construction is read from a certain
tensor. -/
def Loads (scope : Scope) (ref : Ref) (t : Tensor) : Prop :=
  OnnxLowering.Loads scope.nodes scope.attributes ref t

/-- Names that are known to be certain tensors have values that are. -/
structure Informed (scope : Scope) : Prop where
  bindings : ∀ name t ref, scope.tensors.find? name = some t → scope.bindings.find? name = some ref →
    scope.Loads ref t
  constants : ∀ name ref, scope.constants.find? name = some ref →
    ∃ t, scope.tensors.find? name = some t ∧ scope.Loads ref t
  initial : ∀ name t, scope.initializers.find? name = some t → scope.tensors.find? name = some t

variable {outer : Scopes} {scope scope' : Scope} {name : String} {ref : Ref} {t : Tensor}

/-- The same names, and all tensors that were read before. -/
theorem Informed.extend (h : scope.Informed)
    (hloads : ∀ ref t, scope.Loads ref t → scope'.Loads ref t)
    (hbindings : scope'.bindings = scope.bindings) (hconstants : scope'.constants = scope.constants)
    (hinitializers : scope'.initializers = scope.initializers)
    (htensors : scope'.tensors = scope.tensors) :
    scope'.Informed where
  bindings name t ref ht href :=
    hloads ref t (h.bindings name t ref (htensors ▸ ht) (hbindings ▸ href))
  constants name ref href := by
    obtain ⟨t, ht, hload⟩ := h.constants name ref (hconstants ▸ href)
    exact ⟨t, htensors ▸ ht, hloads ref t hload⟩
  initial name t ht := htensors ▸ h.initial name t (hinitializers ▸ ht)

/-- A name gets a value that is what the name is known to be, if it is
known at all. -/
theorem Informed.bind (h : scope.Informed)
    (hvalue : ∀ t, scope.tensors.find? name = some t → scope.Loads ref t) :
    (scope.bind name ref).Informed where
  bindings other t ref' ht href := by
    replace href : (scope.bindings.insert name ref).find? other = some ref' := href
    rw [NameMap.find?_insert] at href
    split at href
    · next hother =>
        cases href
        exact hvalue t (hother ▸ ht)
    · exact h.bindings other t ref' ht href
  constants := h.constants
  initial := h.initial

/-- A tensor that is stored does not change what was read before, if there
is nothing else in its place. -/
theorem Stores.loads (stores : scope.Stores name t scope') (honce : LoadsOnce scope'.nodes) :
    scope'.Loads (.node scope.nodes.length) t ∧ ∀ ref u, scope.Loads ref u → scope'.Loads ref u := by
  obtain ⟨place, trainable, label, nodeNames, supply, attributeCounters, -, rfl⟩ := stores
  have hlast : (scope.nodes ++ [⟨.load place, label⟩])[scope.nodes.length]?
      = some ⟨.load place, label⟩ := by
    rw [List.getElem?_append_right (Nat.le_refl _), Nat.sub_self]
    rfl
  refine ⟨⟨_, _, place, trainable, rfl, hlast, rfl, NameMap.find?_insert_self _ _ _⟩,
    fun ref u hload => hload.extend (List.prefix_append _ _) fun other hother => ?_⟩
  refine NameMap.find?_insert_of_ne _ _ ?_
  rintro rfl
  exact honce.not_mem hother

/-- A tensor is stored under a name that is not known to be another
one. -/
theorem Informed.stores (h : scope.Informed) (stores : scope.Stores name t scope')
    (honce : LoadsOnce scope'.nodes)
    (hname : scope.tensors.find? name = some t
      ∨ scope.tensors.find? name = none ∧ scope.bindings.find? name = none) : scope'.Informed := by
  obtain ⟨hlast, hold⟩ := stores.loads honce
  have htensors := stores.tensors_eq
  obtain ⟨-, -, hbindings, hconstants⟩ := stores.extends
  have hinitializers : scope'.initializers = scope.initializers := by
    obtain ⟨place, trainable, label, nodeNames, supply, attributeCounters, -, rfl⟩ := stores
    rfl
  refine ⟨fun other u ref hu href => ?_, fun other ref href => ?_, fun other u hu => ?_⟩
  · rw [hbindings] at href
    rw [htensors, NameMap.find?_insert] at hu
    split at hu
    · next hother =>
        cases hu
        obtain hknown | ⟨-, hunbound⟩ := hname
        · exact hold ref _ (h.bindings name _ ref hknown (hother ▸ href))
        · rw [hother, hunbound] at href
          cases href
    · exact hold ref u (h.bindings other u ref hu href)
  · rw [htensors, NameMap.find?_insert]
    rw [hconstants, NameMap.find?_insert] at href
    split at href
    · next hother =>
        cases href
        exact ⟨t, if_pos hother, hlast⟩
    · next hother =>
        obtain ⟨u, hu, hload⟩ := h.constants other ref href
        exact ⟨u, (if_neg hother).trans hu, hold ref u hload⟩
  · rw [hinitializers] at hu
    rw [htensors, NameMap.find?_insert]
    split
    · next hother =>
        obtain hknown | ⟨hunknown, -⟩ := hname
        · rw [← hknown, ← hother]
          exact h.initial other u hu
        · rw [hother] at hu
          rw [h.initial name u hu] at hunknown
          cases hunknown
    · exact h.initial other u hu

/-- Asking for a value keeps all knowledge. -/
theorem Informed.gets (h : scope.Informed) (gets : scope.Gets outer name ref scope')
    (honce : LoadsOnce scope'.nodes) : scope'.Informed := by
  cases gets with
  | bound _ => exact h
  | constant _ => exact h
  | initial _ hinitial stores => exact h.stores stores honce (.inl (h.initial _ _ hinitial))
  | known hknown stores =>
      refine (h.stores stores honce (.inl hknown)).bind fun u hu => ?_
      rw [stores.tensors_eq, NameMap.find?_insert_self] at hu
      cases hu
      exact (stores.loads honce).1
  | copied new _ _ stores =>
      obtain ⟨hunbound, hunknown, -⟩ := find?_of_not_defines new
      refine (h.stores stores honce (.inr ⟨hunknown, hunbound⟩)).bind fun u hu => ?_
      rw [stores.tensors_eq, NameMap.find?_insert_self] at hu
      cases hu
      exact (stores.loads honce).1
  | captured new _ _ captures =>
      obtain ⟨inputName, label, inputCounters, supply, -, -, rfl⟩ := captures
      have hinput := @Informed.bind _ name (.input scope.inputs.length) h fun u hu => by
        rw [(find?_of_not_defines new).2.1] at hu
        cases hu
      exact hinput.extend (fun _ _ hload => hload) rfl rfl rfl rfl

/-- What is known of a name is what its value is. -/
theorem Informed.loads_of_gets (h : scope.Informed) (gets : scope.Gets outer name ref scope')
    (honce : LoadsOnce scope'.nodes) (ht : Scopes.tensor? (scope :: outer) name = some t) :
    scope'.Loads ref t := by
  have hown {u : Tensor} (hu : scope.tensors.find? name = some u) : u = t := by
    rw [Scopes.tensor?, hu] at ht
    exact Option.some.inj ht
  cases gets with
  | bound hbound =>
      refine h.bindings name t ref ?_ hbound
      unfold Scopes.tensor? at ht
      rw [NameMap.contains, hbound] at ht
      cases hu : scope.tensors.find? name with
      | some u => rw [hown hu]
      | none =>
          rw [hu] at ht
          cases ht
  | constant hconstant =>
      obtain ⟨u, hu, hload⟩ := h.constants name ref hconstant
      rwa [hown hu] at hload
  | initial _ hinitial stores =>
      rw [← hown (h.initial _ _ hinitial)]
      exact (stores.loads honce).1
  | known hknown stores =>
      rw [← hown hknown]
      exact (stores.loads honce).1
  | copied new _ hcopied stores =>
      obtain ⟨hunbound, hunknown, -⟩ := find?_of_not_defines new
      simp only [Scopes.tensor?, hunknown, NameMap.contains, hunbound, Option.isSome_none,
        Bool.false_eq_true, if_false, hcopied, Option.some.injEq] at ht
      rw [← ht]
      exact (stores.loads honce).1
  | captured new _ hnone _ =>
      obtain ⟨hunbound, hunknown, -⟩ := find?_of_not_defines new
      simp only [Scopes.tensor?, hunknown, NameMap.contains, hunbound, Option.isSome_none,
        Bool.false_eq_true, if_false, hnone, reduceCtorEq] at ht

end Scope

/-- The names of the constants among nodes. -/
def constantNames {G : Type} (nodes : List (NodeOf G)) : List String :=
  nodes.flatMap fun node => if node.op = "Constant" then node.namedOutputs else []

theorem constantNames_subset {G : Type} (nodes : List (NodeOf G)) :
    constantNames nodes ⊆ nodes.flatMap NodeOf.namedOutputs := by
  intro name hname
  obtain ⟨node, hnode, hname⟩ := List.mem_flatMap.1 hname
  split at hname
  · exact List.mem_flatMap.2 ⟨node, hnode, hname⟩
  · cases hname

/-- The rules for nodes that give every name once: what gets a value is
not known to be a tensor, and what becomes a constant has stood for
nothing. -/
def Rules.givingOnce {G : Type} (nodes : List (NodeOf G)) : Rules where
  reads _ := True
  constants scope name := name ∈ constantNames nodes ∧ scope.defines name = false
  outputs scope name := name ∈ nodes.flatMap NodeOf.namedOutputs ∧ scope.tensors.find? name = none
  loops _ := True

section

variable {G : Type} {outer : Scopes} {nodes nodes' : List (NodeOf G)} {scope scope' : Scope}
  {ref : Ref} {t : Tensor}
  {name : String}

theorem Move.more_nodes (h : Move outer (.givingOnce nodes) scope scope') (hsub : nodes ⊆ nodes') :
    Move outer (.givingOnce nodes') scope scope' := by
  cases h with
  | value read gets => exact .value read gets
  | apply there => exact .apply there
  | call allowed there => exact .call allowed there
  | constant given stores => exact .constant ⟨flatMap_subset hsub _ given.1, given.2⟩ stores
  | output given there => exact .output ⟨flatMap_subset hsub _ given.1, given.2⟩ there
  | settle stored known => exact .settle stored known

theorem Moves.more_nodes (h : Moves outer (.givingOnce nodes) scope scope') (hsub : nodes ⊆ nodes') :
    Moves outer (.givingOnce nodes') scope scope' :=
  Relation.ReflTransGen.mono (fun _ _ hmove => hmove.more_nodes hsub) _ _ h

/-- What a node reads stays what it is, if no two read the same. -/
theorem Move.loads (h : Move outer (.givingOnce nodes) scope scope') (honce : LoadsOnce scope'.nodes)
    (hload : scope.Loads ref t) : scope'.Loads ref t := by
  cases h with
  | value _ gets =>
      cases gets with
      | bound _ => exact hload
      | constant _ => exact hload
      | initial _ _ stores => exact (stores.loads honce).2 ref t hload
      | known _ stores => exact (stores.loads honce).2 ref t hload
      | copied _ _ _ stores => exact (stores.loads honce).2 ref t hload
      | captured _ _ _ captures =>
          obtain ⟨inputName, label, inputCounters, supply, -, -, rfl⟩ := captures
          exact hload
  | apply _ => exact Loads.extend hload (List.prefix_append _ _) fun _ _ => rfl
  | call _ _ => exact Loads.extend hload (List.prefix_append _ _) fun _ _ => rfl
  | constant _ stores => exact (stores.loads honce).2 ref t hload
  | output _ _ => exact hload
  | settle _ _ => exact hload

/-- Every move keeps all knowledge. -/
theorem Move.informed (h : Move outer (.givingOnce nodes) scope scope')
    (honce : LoadsOnce scope'.nodes) (hinformed : scope.Informed) : scope'.Informed := by
  have hloads := fun ref t (hload : scope.Loads ref t) => h.loads honce hload
  cases h with
  | value _ gets => exact hinformed.gets gets honce
  | apply _ => exact hinformed.extend hloads rfl rfl rfl rfl
  | call _ _ => exact hinformed.extend hloads rfl rfl rfl rfl
  | constant given stores =>
      obtain ⟨hunbound, hunknown, -⟩ := Scope.find?_of_not_defines given.2
      exact hinformed.stores stores honce (.inr ⟨hunknown, hunbound⟩)
  | output given _ =>
      refine hinformed.bind fun u hu => ?_
      rw [given.2] at hu
      cases hu
  | settle stored _ =>
      obtain ⟨u, hu, hload⟩ := hinformed.constants _ _ stored
      refine hinformed.bind fun u' hu' => ?_
      rw [hu] at hu'
      cases hu'
      exact hload

theorem Moves.loads (h : Moves outer (.givingOnce nodes) scope scope') (honce : LoadsOnce scope'.nodes)
    (hload : scope.Loads ref t) : scope'.Loads ref t := by
  refine h.preserve (P := fun scope => LoadsOnce scope.nodes → scope.Loads ref t)
    (fun _ _ hmove ih honce => ?_) (fun _ => hload) honce
  exact hmove.loads honce (ih (honce.of_prefix hmove.extends.2))

theorem Moves.informed (h : Moves outer (.givingOnce nodes) scope scope')
    (hinformed : LoadsOnce scope.nodes → scope.Informed) : LoadsOnce scope'.nodes → scope'.Informed :=
  h.preserve (P := fun scope => LoadsOnce scope.nodes → scope.Informed)
    (fun _ _ hmove ih honce => hmove.informed honce (ih (honce.of_prefix hmove.extends.2))) hinformed

end

-- ============================================================ what is hidden

theorem Scopes.tensor?_of_not_defines {scopes : Scopes} {name : String}
    (h : scopes.defines name = false) : scopes.tensor? name = none := by
  induction scopes with
  | nil => rfl
  | cons scope outer ih =>
      rw [Scopes.defines, Bool.or_eq_false_iff] at h
      obtain ⟨hunbound, hunknown, -⟩ := Scope.find?_of_not_defines h.1
      rw [Scopes.tensor?, hunknown, NameMap.contains, hunbound]
      exact ih h.2

/-- A name that is not known in a scope, where it hides whatever it may
stand for around that. -/
structure Scope.Hides (outer : Scopes) (scope : Scope) (name : String) : Prop where
  tensors : scope.tensors.find? name = none
  initializers : scope.initializers.find? name = none
  hidden : scope.bindings.contains name = true ∨ outer.defines name = false

section

variable {G : Type} {outer : Scopes} {nodes : List (NodeOf G)} {scope scope' : Scope}
  {name other : String}
  {ref : Ref} {t : Tensor}

theorem Scope.Hides.tensor?_eq_none (h : scope.Hides outer name) :
    Scopes.tensor? (scope :: outer) name = none := by
  rw [Scopes.tensor?, h.tensors]
  rcases h.hidden with hbound | hundefined
  · exact if_pos hbound
  · dsimp only
    split
    · rfl
    · exact Scopes.tensor?_of_not_defines hundefined

theorem Scope.Hides.bind (h : scope.Hides outer name) : (scope.bind other ref).Hides outer name where
  tensors := h.tensors
  initializers := h.initializers
  hidden := h.hidden.imp_left fun hbound => NameMap.contains_insert_of_contains hbound

theorem Scope.Hides.stores (h : scope.Hides outer name) (stores : scope.Stores other t scope')
    (hne : name ≠ other) : scope'.Hides outer name := by
  obtain ⟨place, trainable, label, nodeNames, supply, attributeCounters, -, rfl⟩ := stores
  exact ⟨(NameMap.find?_insert_of_ne _ _ hne).trans h.tensors, h.initializers, h.hidden⟩

/-- A name that hides what is around does so for good, unless it is that
of a constant. -/
theorem Move.hides (h : Move outer (.givingOnce nodes) scope scope') (hname : name ∉ constantNames nodes)
    (hhides : scope.Hides outer name) : scope'.Hides outer name := by
  have hnew {other : String} (hnew : scope.defines other = false)
      (hvisible : outer.defines other = true) :
      name ≠ other := by
    rintro rfl
    rcases hhides.hidden with hbound | hundefined
    · rw [NameMap.contains, (Scope.find?_of_not_defines hnew).1] at hbound
      cases hbound
    · rw [hundefined] at hvisible
      cases hvisible
  cases h with
  | value _ gets =>
      cases gets with
      | bound _ => exact hhides
      | constant _ => exact hhides
      | initial _ hinitial stores =>
          refine hhides.stores stores ?_
          rintro rfl
          rw [hhides.initializers] at hinitial
          cases hinitial
      | known hknown stores =>
          refine (hhides.stores stores ?_).bind
          rintro rfl
          rw [hhides.tensors] at hknown
          cases hknown
      | copied new visible _ stores => exact (hhides.stores stores (hnew new visible)).bind
      | captured _ _ _ captures =>
          obtain ⟨inputName, label, inputCounters, supply, -, -, rfl⟩ := captures
          exact ⟨hhides.tensors, hhides.initializers, hhides.bind.hidden⟩
  | apply _ => exact ⟨hhides.tensors, hhides.initializers, hhides.hidden⟩
  | call _ _ => exact ⟨hhides.tensors, hhides.initializers, hhides.hidden⟩
  | constant given stores =>
      refine hhides.stores stores ?_
      rintro rfl
      exact hname given.1
  | output _ _ => exact hhides.bind
  | settle _ _ => exact hhides.bind

theorem Moves.hides (h : Moves outer (.givingOnce nodes) scope scope') (hname : name ∉ constantNames nodes)
    (hhides : scope.Hides outer name) : scope'.Hides outer name :=
  h.preserve (fun _ _ hmove => hmove.hides hname) hhides

/-- A name gets a meaning from the graph itself or from around it. -/
theorem Moves.origin (h : Moves outer (.givingOnce nodes) scope scope')
    (hname : scope'.defines name = true) :
    scope.defines name = true ∨ outer.defines name = true
      ∨ name ∈ nodes.flatMap NodeOf.namedOutputs := by
  induction h with
  | refl => exact .inl hname
  | tail _ hmove ih =>
      cases hmove with
      | @value _ read _ _ gets =>
          have hgrows : Scope.Grows outer [read] [] _ _ := gets.grows (List.mem_singleton_self read)
          rcases hgrows.origin name hname with hold | hvisible | hgiven
          · exact ih hold
          · exact .inr (.inl hvisible)
          · cases hgiven
      | apply _ => exact ih hname
      | call _ _ => exact ih hname
      | constant given stores =>
          have hgrows : Scope.Grows outer [] [_] _ _ :=
            .of_stores stores (.inr (.inr (List.mem_singleton_self _)))
          rcases hgrows.origin name hname with hold | hvisible | hgiven
          · exact ih hold
          · exact .inr (.inl hvisible)
          · rw [List.mem_singleton.1 hgiven]
            exact .inr (.inr (constantNames_subset _ given.1))
      | output given _ =>
          rw [Scope.defines_bind, Bool.or_eq_true] at hname
          rcases hname with heq | hold
          · rw [eq_of_beq heq]
            exact .inr (.inr given.1)
          · exact ih hold
      | settle _ known =>
          rw [Scope.defines_bind, Bool.or_eq_true] at hname
          rcases hname with heq | hold
          · rw [← eq_of_beq heq] at known
            exact ih (Scope.defines_of_contains_tensors known)
          · exact ih hold

end

-- ================================================================ builders

/-- The root of graphs within graphs is lowered, and in the midst of it one
of the others. What is left of that are certain nodes; the scopes are its
own and those of the graphs around it. -/
inductive Builds (opset : Int) (root : Graph) :
    Graph → List (NodeOf Graph) → Scope → Scopes → Prop
  | whole {start : Scope} {fed : Session}
      (starts : Scope.ofGraph (Handlers.standard.prepare root) = .ok start)
      (feeds : Lower.addGraphInputs root.body.inputs ⟨opset, []⟩ { scope := start } = .ok () fed) :
      Builds opset root root root.body.nodes fed.scope []
  /-- The next node is lowered. -/
  | node {graph : Graph} {node : NodeOf Graph} {rest : List (NodeOf Graph)} {outer : Scopes}
      {session session' : Session} (before : Builds opset root graph (node :: rest) session.scope outer)
      (lowers : Lower.lowerNode Handlers.standard (node.map (Graph.fold Handlers.standard.importer))
        ⟨opset, outer⟩ session = .ok () session') :
      Builds opset root graph rest session'.scope outer
  /-- A graph inside the next node is lowered. -/
  | inside {graph g : Graph} {node : NodeOf Graph} {rest : List (NodeOf Graph)} {scope start : Scope}
      {outer : Scopes} {fed : Session} (around : Builds opset root graph (node :: rest) scope outer)
      (mem : g ∈ node.inner) (starts : Scope.ofGraph (Handlers.standard.prepare g) = .ok start)
      (feeds : Lower.addGraphInputs g.body.inputs ⟨opset, scope :: outer⟩ { scope := start }
        = .ok () fed) : Builds opset root g g.body.nodes fed.scope (scope :: outer)

/-- What holds while the nodes that are left give every name once. -/
structure GivenOnce (graph : Graph) (rest : List (NodeOf Graph)) (scope : Scope) (outer : Scopes)
    (visible : Visible) : Prop where
  new : NodesScoped visible rest
  sees : ∀ name, Scopes.defines (scope :: outer) name = true → visible name = true
  tied : scope.Tied
  informed : LoadsOnce scope.nodes → scope.Informed
  feeds : ∀ name ∈ graph.body.feedNames, visible name = true ∧ scope.Hides outer name
  done : ∃ done, graph.body.nodes = done ++ rest ∧ ∀ node ∈ done, node.op ≠ "Constant" →
    ∀ name ∈ node.namedOutputs, visible name = true ∧ scope.Hides outer name

section

variable {opset : Int} {graph root g : Graph} {node : NodeOf Graph} {rest : List (NodeOf Graph)}
  {scope middle : Scope} {outer : Scopes} {visible : Visible}

/-- A graph is about to be lowered whose names are given once. -/
theorem GivenOnce.start {start : Scope} {fed : Session} {context : Context}
    (starts : Scope.ofGraph (Handlers.standard.prepare graph) = .ok start)
    (feeds : Lower.addGraphInputs graph.body.inputs context { scope := start } = .ok () fed)
    (hscoped : graph.scoped visible = true)
    (hvisible : ∀ name, Scopes.defines context.outer name = true → visible name = true) :
    GivenOnce graph graph.body.nodes fed.scope context.outer (visible.adding graph.body.ownNames) := by
  have hfeeds : start.FeedsAll graph.body.feedNames fed.scope := by
    have hall := Lower.addGraphInputs_eq_ok feeds
    have hnames := feedNames_eq starts
    exact hnames ▸ hall
  obtain ⟨initial, hinitial, hinitializers, htensors, hconstants, htied, hbindings⟩ :=
    ofGraph_feedsAll starts hfeeds
  replace hbindings : ∀ name, fed.scope.bindings.contains name = graph.body.feedNames.contains name :=
    hbindings
  have hnames : initial.map Prod.fst = graph.body.initializers.map Prod.fst :=
    GraphOf.map_fst_initial hinitial
  have hunknown {name : String} (hname : name ∈ graph.body.feedNames) :
      (NameMap.ofList initial).find? name = none := by
    have hfeed := (List.mem_filter.1 hname).2
    rw [Bool.not_eq_true', Bool.eq_false_iff, ne_eq, List.contains_iff_mem] at hfeed
    rw [NameMap.find?_ofList_eq_none, hnames]
    exact hfeed
  have howned {name : String} (hname : name ∈ graph.body.feedNames) :
      name ∈ graph.body.ownNames := List.mem_append_right _ (List.mem_filter.1 hname).1
  refine {
    new := Graph.nodesScoped hscoped
    sees := fun name hname => ?_
    tied := htied
    informed := fun _ => ⟨fun name t ref ht href => ?_, fun name ref href => ?_, fun name t ht => ?_⟩
    feeds := fun name hname => ⟨Visible.adding_of_mem (howned hname), ?_, ?_, .inl ?_⟩
    done := ⟨[], rfl, fun _ hnode => nomatch hnode⟩ }
  · rw [Scopes.defines, Bool.or_eq_true, Scope.defines, htensors, hinitializers, hbindings,
      NameMap.contains_ofList, Bool.or_assoc, Bool.or_self, Bool.or_eq_true, hnames] at hname
    rcases hname with (hname | hname) | hname
    · exact Visible.adding_of_mem (howned (List.contains_iff_mem.1 hname))
    · exact Visible.adding_of_mem (List.mem_append_left _ (List.contains_iff_mem.1 hname))
    · exact Visible.adding_of_visible (hvisible name hname)
  · have hbound : fed.scope.bindings.contains name = true := by
      rw [NameMap.contains, href, Option.isSome_some]
    rw [hbindings] at hbound
    rw [htensors, hunknown (List.contains_iff_mem.1 hbound)] at ht
    cases ht
  · rw [hconstants] at href
    cases href
  · rw [htensors, ← hinitializers, ht]
  · rw [htensors, hunknown hname]
  · rw [hinitializers, hunknown hname]
  · rw [hbindings, List.contains_iff_mem.2 hname]

/-- What can be seen already is given by none of the nodes that are
left. -/
theorem NodesScoped.not_mem (h : NodesScoped visible rest) {name : String}
    (hname : visible name = true) : name ∉ rest.flatMap NodeOf.namedOutputs :=
  fun hgiven => nomatch (h.not_visible hgiven).symm.trans hname

/-- A name that can be seen already is no name of a constant that is left. -/
theorem GivenOnce.not_mem (h : GivenOnce graph rest scope outer visible) {name : String}
    (hname : visible name = true) : name ∉ constantNames rest :=
  fun hmem => h.new.not_mem hname (constantNames_subset _ hmem)

/-- Nothing changes about that before a node gives names. -/
theorem GivenOnce.read (h : GivenOnce graph rest scope outer visible)
    (hreads : Moves outer (.givingOnce ([] : List (NodeOf Graph))) scope middle) :
    GivenOnce graph rest middle outer visible where
  new := h.new
  sees name hname := by
    rw [Scopes.defines, Bool.or_eq_true] at hname
    refine h.sees name ?_
    rw [Scopes.defines, Bool.or_eq_true]
    rcases hname with hname | hname
    · exact (hreads.origin hname).imp_right fun h => h.resolve_right fun hgives => by cases hgives
    · exact .inr hname
  tied := hreads.tied h.tied
  informed := hreads.informed h.informed
  feeds name hname :=
    ⟨(h.feeds name hname).1, hreads.hides (fun hgives => by cases hgives) (h.feeds name hname).2⟩
  done := by
    obtain ⟨done, hdone, hnames⟩ := h.done
    exact ⟨done, hdone, fun node hnode hop name hname =>
      (hnames node hnode hop name hname).imp_right (hreads.hides fun hgives => by cases hgives)⟩

/-- The outputs of the next node stand for nothing yet. -/
theorem GivenOnce.not_defines (h : GivenOnce graph (node :: rest) scope outer visible) {name : String}
    (hname : name ∈ node.namedOutputs) :
    scope.defines name = false ∧ Scopes.defines outer name = false := by
  have hunseen : visible name = false := by
    by_contra hseen
    refine h.new.not_mem (Bool.not_eq_false _ ▸ hseen) ?_
    rw [List.flatMap_cons]
    exact List.mem_append_left _ hname
  have hundefined : Scopes.defines (scope :: outer) name = false := by
    by_contra hdefined
    rw [h.sees name (Bool.not_eq_false _ ▸ hdefined)] at hunseen
    cases hunseen
  rwa [Scopes.defines, Bool.or_eq_false_iff] at hundefined

/-- The rules permit what the next node does. -/
theorem GivenOnce.permit {session : Session}
    (h : GivenOnce graph (node :: rest) session.scope outer visible) :
    (Rules.givingOnce [node]).Permit (node.map (Graph.fold Handlers.standard.importer)) ⟨opset, outer⟩
      session := by
  have hgiven {name : String} (hname : name ∈ node.namedOutputs) :
      name ∈ [node].flatMap NodeOf.namedOutputs := by
    rwa [List.flatMap_singleton]
  refine {
    reads := fun _ _ => trivial
    scans := fun _ _ _ _ _ => ⟨fun _ _ => trivial, trivial⟩
    constants := fun hop => ?_
    outputs := fun hop middle hreads name hname bindings => ⟨hgiven hname, ?_⟩ }
  · replace hop : node.op = "Constant" := hop
    have hsource : node.namedOutputs.take 1 = [Handler.constantSource node] := by
      cases h.new with
      | cons gives _ _ => exact NodeOf.constantSource_eq gives hop
    have hmem : Handler.constantSource node ∈ node.namedOutputs :=
      List.mem_of_mem_take (hsource ▸ List.mem_singleton_self _)
    refine ⟨⟨?_, (h.not_defines hmem).1⟩, fun name hname => .inl ?_⟩
    · rw [constantNames, List.flatMap_singleton, if_pos hop]
      exact hmem
    · replace hname : name ∈ node.namedOutputs.take 1 := hname
      rw [hsource] at hname
      exact List.mem_singleton.1 hname
  · replace hreads : Moves outer (.givingOnce ([] : List (NodeOf Graph))) session.scope middle :=
      @Moves.of_reading _ (.givingOnce ([] : List (NodeOf Graph))) _ _ hreads
    have hundefined := h.not_defines hname
    have hnew : middle.defines name = false := by
      by_contra hdefined
      rcases hreads.origin (Bool.not_eq_false _ ▸ hdefined) with hold | hvisible | hgiven
      · rw [hundefined.1] at hold
        cases hold
      · rw [hundefined.2] at hvisible
        cases hvisible
      · cases hgiven
    exact (Scope.find?_of_not_defines hnew).2.1

/-- The moves of the next node. -/
theorem GivenOnce.moves {session session' : Session}
    (h : GivenOnce graph (node :: rest) session.scope outer visible)
    (lowers : Lower.lowerNode Handlers.standard (node.map (Graph.fold Handlers.standard.importer))
      ⟨opset, outer⟩ session = .ok () session') :
    Moves outer (.givingOnce [node]) session.scope session'.scope :=
  lowerNode_moves lowers h.permit h.tied

/-- A node has been lowered. -/
theorem GivenOnce.next {session session' : Session}
    (h : GivenOnce graph (node :: rest) session.scope outer visible)
    (lowers : Lower.lowerNode Handlers.standard (node.map (Graph.fold Handlers.standard.importer))
      ⟨opset, outer⟩ session = .ok () session') :
    GivenOnce graph rest session'.scope outer (visible.adding node.namedOutputs) := by
  have hmoves := h.moves lowers
  have hkept {name : String} (hname : visible name = true ∧ session.scope.Hides outer name) :
      visible.adding node.namedOutputs name = true ∧ session'.scope.Hides outer name := by
    refine ⟨Visible.adding_of_visible hname.1, hmoves.hides (fun hconstant => ?_) hname.2⟩
    exact h.not_mem hname.1 (flatMap_subset (List.cons_subset_cons _ (List.nil_subset _)) _ hconstant)
  refine {
    new := by
      cases h.new with
      | cons _ _ others => exact others
    sees := fun name hname => ?_
    tied := hmoves.tied h.tied
    informed := hmoves.informed h.informed
    feeds := fun name hname => hkept (h.feeds name hname)
    done := ?_ }
  · rw [Scopes.defines, Bool.or_eq_true] at hname
    have hold (hold : Scopes.defines (session.scope :: outer) name = true) :
        visible.adding node.namedOutputs name = true := Visible.adding_of_visible (h.sees name hold)
    rw [Scopes.defines, Bool.or_eq_true] at hold
    rcases hname with hname | hname
    · rcases hmoves.origin hname with hdefined | hvisible | hgiven
      · exact hold (.inl hdefined)
      · exact hold (.inr hvisible)
      · rw [List.flatMap_singleton] at hgiven
        exact Visible.adding_of_mem hgiven
    · exact hold (.inr hname)
  · obtain ⟨done, hdone, hnames⟩ := h.done
    refine ⟨done ++ [node], by rw [hdone, List.append_assoc, List.singleton_append], ?_⟩
    intro other hother hop name hname
    rcases List.mem_append.1 hother with hold | hlast
    · exact hkept (hnames other hold hop name hname)
    · obtain rfl := List.mem_singleton.1 hlast
      have hundefined := h.not_defines hname
      refine ⟨Visible.adding_of_mem hname, hmoves.hides ?_ ⟨?_, ?_, .inr hundefined.2⟩⟩
      · rw [constantNames, List.flatMap_singleton, if_neg hop]
        exact List.not_mem_nil
      · exact (Scope.find?_of_not_defines hundefined.1).2.1
      · have hinitial := hundefined.1
        simp only [Scope.defines, Bool.or_eq_false_iff, NameMap.contains, Option.isSome_eq_false_iff,
          Option.isNone_iff_eq_none] at hinitial
        exact hinitial.2

/-- The moves of all nodes that are left. -/
theorem GivenOnce.allMoves {session session' : Session}
    (h : GivenOnce graph rest session.scope outer visible)
    (lowers : Lower.lowerNodes Handlers.standard
      (rest.map (NodeOf.map (Graph.fold Handlers.standard.importer))) ⟨opset, outer⟩ session
      = .ok () session') :
    Moves outer (.givingOnce rest) session.scope session'.scope ∧ session'.scope.Tied := by
  induction rest generalizing session visible with
  | nil =>
      cases lowers
      exact ⟨.refl, h.tied⟩
  | cons node rest ih =>
      obtain ⟨middle, hfirst, hrest⟩ := Lower.lowerNodes_cons_eq_ok lowers
      obtain ⟨hmoves, htied⟩ := ih (h.next hfirst) hrest
      exact ⟨((h.moves hfirst).more_nodes (List.cons_subset_cons _ (List.nil_subset _))).trans
        (hmoves.more_nodes (List.subset_cons_self _ _)), htied⟩

/-- The names of every graph are given once. -/
theorem Builds.givenOnce (builds : Builds opset root graph rest scope outer)
    (hscoped : root.scoped (fun _ => false) = true) :
    ∃ visible, GivenOnce graph rest scope outer visible := by
  induction builds with
  | whole starts feeds => exact ⟨_, GivenOnce.start starts feeds hscoped fun _ hname => nomatch hname⟩
  | node _ lowers ih =>
      obtain ⟨visible, h⟩ := ih
      exact ⟨_, h.next lowers⟩
  | inside _ mem starts feeds ih =>
      obtain ⟨visible, h⟩ := ih
      refine ⟨_, GivenOnce.start starts feeds ?_ h.sees⟩
      cases h.new with
      | cons _ inner _ => exact inner _ mem

end

-- ================================================================== result

/-- What is left of the lowering of a graph. -/
def Lower.complete (rest : List (NodeOf Graph)) (asTuple : Bool) : Lower Module := do
  lowerNodes Handlers.standard (rest.map (NodeOf.map (Graph.fold Handlers.standard.importer)))
  finish (← results asTuple)

/-- A value is a certain tensor whenever a module is run: the module
itself, or the loop of a scan that has it as its body. -/
def ModuleOf.AlwaysInLoops (m : Module) (ref : Ref) (t : Tensor) : Prop :=
  m.Always ref t ∧ ∀ description plan shapes body plan',
    Handler.scanBody description plan m shapes = .ok (body, plan') →
      body.Always (ModuleOf.squeezed plan.states plan'.inputAxes.length ref) t

/-- Whatever may be asked for, at any point of the lowering of a graph
whose names are given once and of the graphs inside: what is known to be a
tensor has a value that is this tensor in every run, and neither inputs
nor the results of nodes are known. -/
theorem known_always {opset : Int} {root graph : Graph} {rest : List (NodeOf Graph)} {scope : Scope}
    {outer : Scopes} (hscoped : root.scoped (fun _ => false) = true)
    (builds : Builds opset root graph rest scope outer) :
    -- what is left consists of moves, also if more has been read before
    (∀ middle, Moves outer (.givingOnce ([] : List (NodeOf Graph))) scope middle →
      ∀ asTuple log m session',
        Lower.complete rest asTuple ⟨opset, outer⟩ ⟨middle, log⟩ = .ok m session' →
        ∃ ended results, Moves outer (.givingOnce rest) middle ended ∧ m = ended.module results)
    ∧ ∀ middle, Moves outer (.givingOnce rest) scope middle →
      (∀ name ∈ graph.body.feedNames, Scopes.tensor? (middle :: outer) name = none)
      ∧ (∀ done, graph.body.nodes = done ++ rest → ∀ node ∈ done, node.op ≠ "Constant" →
        ∀ name ∈ node.namedOutputs, Scopes.tensor? (middle :: outer) name = none)
      ∧ ∀ name t, Scopes.tensor? (middle :: outer) name = some t →
        ∀ log ref after, Lower.value name ⟨opset, outer⟩ ⟨middle, log⟩ = .ok ref after →
        ∀ ended results, Moves outer (.givingOnce rest) after.scope ended → LoadsOnce ended.nodes →
          (ended.module results).AlwaysInLoops ref t := by
  obtain ⟨visible, hgiven⟩ := builds.givenOnce hscoped
  refine ⟨fun middle hreads asTuple log m session' h => ?_, fun middle hmoves => ⟨?_, ?_, ?_⟩⟩
  · obtain ⟨_, last, hnodes, h⟩ := Lower.bind_eq_ok.1 h
    obtain ⟨results, ended, hresults, h⟩ := Lower.bind_eq_ok.1 h
    obtain ⟨refs, hgets, rfl⟩ := Lower.results_eq_ok hresults
    obtain ⟨rfl, -⟩ := Lower.finish_eq_ok h
    obtain ⟨hrest, htied⟩ := (hgiven.read hreads).allMoves hnodes
    have houtputs : Moves outer (.givingOnce rest) last.scope ended.scope :=
      (hgets.moves (fun _ _ => trivial) htied).1
    exact ⟨ended.scope, _, hrest.trans houtputs, rfl⟩
  · intro name hname
    obtain ⟨hvisible, hhides⟩ := hgiven.feeds name hname
    exact (hmoves.hides (hgiven.not_mem hvisible) hhides).tensor?_eq_none
  · intro done hdone node hnode hop name hname
    obtain ⟨done', hdone', hnames⟩ := hgiven.done
    obtain rfl : done' = done := List.append_cancel_right (hdone'.symm.trans hdone)
    obtain ⟨hvisible, hhides⟩ := hnames node hnode hop name hname
    exact (hmoves.hides (hgiven.not_mem hvisible) hhides).tensor?_eq_none
  · intro name t ht log ref after hvalue ended results hrest honce
    obtain ⟨-, hgets⟩ := Lower.value_eq_ok hvalue
    have hmove : Move outer (.givingOnce rest) middle after.scope := .value trivial hgets
    have hafter : LoadsOnce after.scope.nodes := honce.of_prefix hrest.extends.2
    have hinformed : middle.Informed :=
      hmoves.informed hgiven.informed (hafter.of_prefix hmove.extends.2)
    have hloads := hrest.loads honce (hinformed.loads_of_gets hgets hafter ht)
    exact ⟨.of_loads hloads, fun _ _ _ _ _ hbody => .of_loads (ModuleOf.loads_scanBody hbody hloads)⟩

/-- A body that adds a constant of the graph around it to its state. -/
def offsetBody : Graph :=
  ⟨{ nodes := [{ op := "Add", inputs := ["s", "c"], outputs := ["t"] }]
     inputs := [{ name := "s" }, { name := "x" }]
     outputs := [{ name := "t" }, { name := "x" }] }⟩

def offsetGraph : Graph :=
  ⟨{ nodes := [{
       op := "Scan"
       inputs := ["a", "b"]
       outputs := ["f", "ys"]
       attributes := [("body", .graph offsetBody), ("num_scan_inputs", .int 1)] }]
     inputs := [{ name := "a" }, { name := "b" }]
     outputs := [{ name := "f" }, { name := "ys" }]
     initializers := [("c", ⟨7, [], .integers [5]⟩)] }⟩

/-- The scope of a graph before anything of it is lowered. -/
def startScope (graph : Graph) : Scope :=
  (Scope.ofGraph (Handlers.standard.prepare graph)).toOption.getD {}

/-- The session with the inputs of a graph. -/
def fedSession (graph : Graph) (context : Context) : Session :=
  (Lower.addGraphInputs graph.body.inputs).last context { scope := startScope graph }

/-- The body reads the constant, and then its node is lowered. -/
theorem known_always_offset :
    ∃ (outer : Scopes) (scope : Scope) (ref : Ref) (m : Module) (after session' : Session),
      Scopes.tensor? (scope :: outer) "c" = some (.scalar .int64 5)
      ∧ Lower.value "c" ⟨9, outer⟩ { scope } = .ok ref after
      ∧ Lower.complete offsetBody.body.nodes true ⟨9, outer⟩ after = .ok m session'
      ∧ m.AlwaysInLoops ref (.scalar .int64 5) := by
  let outer := [(fedSession offsetGraph ⟨9, []⟩).scope]
  let scope := (fedSession offsetBody ⟨9, outer⟩).scope
  have hbuilds : Builds 9 offsetGraph offsetBody offsetBody.body.nodes scope outer := by
    obtain ⟨_, hfed, -⟩ : ∃ u, Lower.addGraphInputs offsetGraph.body.inputs ⟨9, []⟩
        { scope := startScope offsetGraph } = .ok u (fedSession offsetGraph ⟨9, []⟩) ∧ true = true :=
      @Lower.exists_of_succeedsWith _ _ _ _ (fun _ => true) (by decide +kernel)
    obtain ⟨_, hbody, -⟩ : ∃ u, Lower.addGraphInputs offsetBody.body.inputs ⟨9, outer⟩
        { scope := startScope offsetBody } = .ok u (fedSession offsetBody ⟨9, outer⟩) ∧ true = true :=
      @Lower.exists_of_succeedsWith _ _ _ _ (fun _ => true) (by decide +kernel)
    exact .inside (.whole (Except.eq_ok_of_isOk (by decide +kernel) _) hfed) (List.mem_singleton_self _)
      (Except.eq_ok_of_isOk (by decide +kernel) _) hbody
  have hknown : Scopes.tensor? (scope :: outer) "c" = some (.scalar .int64 5) := by decide +kernel
  obtain ⟨ref, hvalue, -⟩ : ∃ ref, Lower.value "c" ⟨9, outer⟩ { scope }
      = .ok ref ((Lower.value "c").last ⟨9, outer⟩ { scope }) ∧ true = true :=
    @Lower.exists_of_succeedsWith _ _ _ _ (fun _ => true) (by decide +kernel)
  obtain ⟨m, hcomplete, honce⟩ := @Lower.exists_of_succeedsWith _ ⟨9, outer⟩
    ((Lower.value "c").last ⟨9, outer⟩ { scope }) (Lower.complete offsetBody.body.nodes true)
    (fun m => decide (LoadsOnce m.nodes)) (by decide +kernel)
  -- what the scopes are does not matter any more
  generalize (Lower.value "c").last ⟨9, outer⟩ { scope } = after at hvalue hcomplete
  clear_value scope outer
  obtain ⟨hmoves, halways⟩ := known_always (by decide +kernel) hbuilds
  have hread : Move outer (.givingOnce ([] : List (NodeOf Graph))) scope after.scope :=
    .value trivial (Lower.value_eq_ok hvalue).2
  obtain ⟨ended, results, hrest, rfl⟩ := hmoves _ (.single hread) _ _ _ _ hcomplete
  exact ⟨outer, scope, ref, _, after, _, hknown, hvalue, hcomplete,
    (halways scope .refl).2.2 "c" _ hknown _ _ _ hvalue ended results hrest (of_decide_eq_true honce)⟩

end OnnxLowering
