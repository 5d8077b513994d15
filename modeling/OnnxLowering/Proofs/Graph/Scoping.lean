/-
Names in graphs with graphs inside. `Graph.reads` lists what a graph
reads at any depth, and `Graph.scoped` says that every node gives new
names only: none that the graph has already, and none that it sees of
what is around it. Both are folds, and `Graph.induct` is the induction
that goes with folds.
-/
import OnnxLowering.Graph.Attribute
import OnnxLowering.Proofs.Except

namespace OnnxLowering

-- ============================================================ inner graphs

section

variable {A B : Type}

/-- The graphs inside an attribute. -/
def AttributeOf.inner : AttributeOf A → List A
  | .graph g => [g]
  | .graphs gs => gs
  | _ => []

/-- The graphs inside a node. -/
def NodeOf.inner (node : NodeOf A) : List A := node.attributes.flatMap fun entry => entry.2.inner

variable (f : A → B)

theorem AttributeOf.inner_map (a : AttributeOf A) : (a.map f).inner = a.inner.map f := by
  cases a <;> rfl

theorem AttributeOf.value?_map (a : AttributeOf A) : (a.map f).value? = a.value? := by
  cases a <;> rfl

namespace NodeOf

variable (node : NodeOf A)

theorem inner_map : (node.map f).inner = node.inner.map f := by
  unfold inner map
  rw [List.flatMap_map, List.map_flatMap]
  exact List.flatMap_congr fun entry _ => entry.2.inner_map f

/-- What the graphs inside stand for does not matter to the other
attributes. -/
theorem values_map : (node.map f).values = node.values := by
  unfold values map
  rw [List.foldlM_map]
  simp only [AttributeOf.value?_map]

theorem graph?_map (name : String) : (node.map f).graph? name = (node.graph? name).map f := by
  unfold graph? map
  induction node.attributes with
  | nil => rfl
  | cons entry rest ih =>
      rw [List.map_cons, List.findSome?_cons, List.findSome?_cons, ih]
      obtain ⟨key, a⟩ := entry
      cases a with
      | graph g =>
          simp only [AttributeOf.map]
          by_cases hkey : key = name
          · simp only [if_pos hkey, Option.map_some]
          · simp only [if_neg hkey]
      | _ => rfl

theorem mem_inner_of_graph? {node : NodeOf A} {name : String} {g : A}
    (h : node.graph? name = some g) : g ∈ node.inner := by
  unfold graph? at h
  obtain ⟨entry, hentry, hfound⟩ := List.exists_of_findSome?_eq_some h
  obtain ⟨key, a⟩ := entry
  refine List.mem_flatMap.2 ⟨(key, a), hentry, ?_⟩
  cases a with
  | graph g' =>
      simp only at hfound
      by_cases hkey : key = name
      · rw [if_pos hkey] at hfound
        exact List.mem_singleton.2 (Option.some.inj hfound).symm
      · rw [if_neg hkey] at hfound
        cases hfound
  | _ => cases hfound

end NodeOf

end

namespace Graph

theorem sizeOf_lt_of_mem_inner {graph g : Graph} {node : NodeOf Graph}
    (hnode : node ∈ graph.body.nodes) (hg : g ∈ node.inner) : sizeOf g < sizeOf graph := by
  obtain ⟨body⟩ := graph
  obtain ⟨entry, hentry, hg⟩ := List.mem_flatMap.1 hg
  have hattribute : sizeOf g < sizeOf entry.2 := by
    obtain ⟨key, a⟩ := entry
    cases a with
    | graph g' =>
        rw [List.mem_singleton.1 hg]
        simp
    | graphs gs =>
        have hlt := List.sizeOf_lt_of_mem (show g ∈ gs from hg)
        simp only [AttributeOf.graphs.sizeOf_spec]
        omega
    | _ => cases hg
  have hentry := List.sizeOf_lt_of_mem hentry
  have hnode := List.sizeOf_lt_of_mem (show node ∈ body.nodes from hnode)
  obtain ⟨key, a⟩ := entry
  obtain ⟨op, domain, name, inputs, outputs, attributes⟩ := node
  obtain ⟨name', nodes, inputs', outputs', initializers, valueInfo⟩ := body
  simp only [Graph.mk.sizeOf_spec, GraphOf.mk.sizeOf_spec, NodeOf.mk.sizeOf_spec,
    Prod.mk.sizeOf_spec] at *
  omega

/-- Whatever holds of a graph as soon as it holds of all graphs inside
its nodes holds of all graphs. -/
theorem induct {P : Graph → Prop}
    (step : ∀ graph : Graph, (∀ node ∈ graph.body.nodes, ∀ g ∈ node.inner, P g) → P graph)
    (graph : Graph) : P graph :=
  step graph fun _ hnode g hg =>
    have := sizeOf_lt_of_mem_inner hnode hg
    induct step g
termination_by sizeOf graph

end Graph

-- ================================================================== names

namespace GraphOf

variable {G : Type} (graph : GraphOf G)

/-- The names that a graph has before its first node. -/
def ownNames : List String :=
  graph.initializers.map Prod.fst ++ graph.inputs.map ValueInfo.name

/-- All names of a graph itself. -/
def names : List String := graph.ownNames ++ graph.nodes.flatMap NodeOf.namedOutputs

/-- What a graph reads if the graphs inside read certain names. -/
def reads (graph : GraphOf (List String)) : List String :=
  graph.nodes.flatMap (fun node => node.inputs ++ node.inner.flatten)
    ++ graph.outputs.map ValueInfo.name

end GraphOf

/-- The names that a graph or a graph inside it reads. -/
def Graph.reads (graph : Graph) : List String := graph.fold GraphOf.reads

theorem Graph.reads_eq (graph : Graph) :
    graph.reads = graph.body.nodes.flatMap (fun node => node.inputs ++ node.inner.flatMap reads)
      ++ graph.body.outputs.map ValueInfo.name := by
  unfold reads
  rw [Graph.fold_eq]
  unfold GraphOf.reads GraphOf.map
  rw [List.flatMap_map]
  simp only [NodeOf.inner_map, List.flatMap_def]
  rfl

/-- Whether names can be seen. -/
abbrev Visible := String → Bool

namespace Visible

/-- More names can be seen. -/
def adding (visible : Visible) (names : List String) : Visible :=
  fun name => names.contains name || visible name

theorem adding_of_visible {visible : Visible} {names : List String} {name : String}
    (h : visible name = true) : visible.adding names name = true := by
  rw [Visible.adding, h, Bool.or_true]

theorem adding_of_mem {visible : Visible} {names : List String} {name : String}
    (h : name ∈ names) : visible.adding names name = true := by
  rw [Visible.adding, List.contains_iff_mem.2 h, Bool.true_or]

end Visible

/-- Whether a node gives no name that can be seen already, and a constant
gives one at all. -/
def NodeOf.givesNew {G : Type} (node : NodeOf G) (visible : Visible) : Bool :=
  node.namedOutputs.all (!visible ·)
    && (node.op != "Constant" || !(node.outputs.headD "").isEmpty)

theorem NodeOf.not_visible_of_givesNew {G : Type} {node : NodeOf G} {visible : Visible}
    (h : node.givesNew visible = true) {name : String} (hname : name ∈ node.namedOutputs) :
    visible name = false := by
  rw [NodeOf.givesNew, Bool.and_eq_true] at h
  exact Bool.not_eq_true' _ ▸ List.all_eq_true.1 h.1 name hname

/-- Whether nodes give new names only, one after the other, and so do the
graphs inside. -/
def scopedNodes : Visible → List (NodeOf (Visible → Bool)) → Bool
  | _, [] => true
  | visible, node :: rest =>
      node.givesNew visible && node.inner.all (· visible)
        && scopedNodes (visible.adding node.namedOutputs) rest

/-- Whether a graph gives new names only if it sees certain names around
it. -/
def Graph.scoped (graph : Graph) : Visible → Bool :=
  graph.fold fun graph visible => scopedNodes (visible.adding graph.ownNames) graph.nodes

/-- What it takes that a list of nodes gives new names only. -/
inductive NodesScoped : Visible → List (NodeOf Graph) → Prop
  | nil {visible : Visible} : NodesScoped visible []
  | cons {visible : Visible} {node : NodeOf Graph} {rest : List (NodeOf Graph)}
      (gives : node.givesNew visible = true) (inner : ∀ g ∈ node.inner, g.scoped visible = true)
      (others : NodesScoped (visible.adding node.namedOutputs) rest) :
      NodesScoped visible (node :: rest)

/-- The names that nodes give cannot be seen before. -/
theorem NodesScoped.not_visible {visible : Visible} {nodes : List (NodeOf Graph)} {name : String}
    (h : NodesScoped visible nodes) (hname : name ∈ nodes.flatMap NodeOf.namedOutputs) :
    visible name = false := by
  induction h with
  | nil => cases hname
  | @cons visible node rest gives _ _ ih =>
      rw [List.flatMap_cons, List.mem_append] at hname
      rcases hname with hfirst | hrest
      · exact NodeOf.not_visible_of_givesNew gives hfirst
      · rw [← Bool.not_eq_true]
        exact fun hvisible => nomatch (ih hrest).symm.trans (Visible.adding_of_visible hvisible)

theorem nodesScoped_of_scopedNodes {visible : Visible} {nodes : List (NodeOf Graph)}
    (h : scopedNodes visible (nodes.map (NodeOf.map Graph.scoped)) = true) :
    NodesScoped visible nodes := by
  induction nodes generalizing visible with
  | nil => exact .nil
  | cons node rest ih =>
      rw [List.map_cons, scopedNodes, Bool.and_eq_true, Bool.and_eq_true, NodeOf.inner_map,
        List.all_eq_true] at h
      obtain ⟨⟨hgives, hinner⟩, hrest⟩ := h
      exact .cons hgives (fun g hg => hinner _ (List.mem_map_of_mem hg)) (ih hrest)

theorem Graph.nodesScoped {graph : Graph} {visible : Visible} (h : graph.scoped visible = true) :
    NodesScoped (visible.adding graph.body.ownNames) graph.body.nodes := by
  unfold Graph.scoped at h
  rw [Graph.fold_eq] at h
  exact nodesScoped_of_scopedNodes h

end OnnxLowering
