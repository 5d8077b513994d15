/-
Graphs at all depths. `Graph.levels` lists a graph and everything inside
it, each level without what it carries itself, so that a property of all
depths is one of a list. What a graph mentions, stores and knows is read
off the levels, and so is whether every node has what its operation
cannot do without (`Graph.Furnished`).
-/
import OnnxLowering.Handler.Elementwise
import OnnxLowering.Proofs.Graph.Scoping

namespace OnnxLowering

-- ================================================================= levels

section

variable {A B : Type}

/-- A node without the graphs that it carries. -/
def NodeOf.bare (node : NodeOf A) : NodeOf Unit := node.map fun _ => ()

/-- A graph without the graphs inside. -/
def GraphOf.bare (graph : GraphOf A) : GraphOf Unit := graph.map fun _ => ()

theorem AttributeOf.map_map {C : Type} (f : A → B) (g : B → C) (a : AttributeOf A) :
    (a.map f).map g = a.map (g ∘ f) := by
  cases a <;> simp only [AttributeOf.map, List.map_map, Function.comp]

theorem NodeOf.bare_map (f : A → B) (node : NodeOf A) : (node.map f).bare = node.bare := by
  unfold NodeOf.bare NodeOf.map
  simp only [List.map_map]
  congr 1
  refine List.map_congr_left fun entry _ => ?_
  exact congrArg (Prod.mk entry.1) (AttributeOf.map_map f _ entry.2)

theorem GraphOf.bare_map (f : A → B) (graph : GraphOf A) : (graph.map f).bare = graph.bare := by
  unfold bare map
  simp only [List.map_map]
  congr 1
  exact List.map_congr_left fun node _ => NodeOf.bare_map f node

end

namespace Graph

/-- A graph and all graphs inside it, at any depth, each without the
graphs that it carries itself. -/
def levels (graph : Graph) : List (GraphOf Unit) :=
  graph.fold fun body => body.bare :: body.nodes.flatMap fun node => node.inner.flatten

theorem levels_eq (graph : Graph) :
    graph.levels
      = graph.body.bare :: graph.body.nodes.flatMap fun node => node.inner.flatMap levels := by
  unfold levels
  rw [fold_eq]
  show (graph.body.map _).bare :: (graph.body.nodes.map _).flatMap _ = _
  rw [GraphOf.bare_map, List.flatMap_map]
  simp only [NodeOf.inner_map, List.flatMap_def]

theorem bare_mem_levels (graph : Graph) : graph.body.bare ∈ graph.levels := by
  rw [levels_eq]
  exact List.mem_cons_self

/-- The levels of a graph inside are levels of the whole. -/
theorem levels_subset {graph g : Graph} {node : NodeOf Graph} (hnode : node ∈ graph.body.nodes)
    (hg : g ∈ node.inner) : g.levels ⊆ graph.levels := by
  intro level hlevel
  rw [levels_eq]
  refine List.mem_cons_of_mem _ (List.mem_flatMap.2 ⟨node, hnode, ?_⟩)
  exact List.mem_flatMap.2 ⟨g, hg, hlevel⟩

end Graph

-- =============================================================== contents

/-- All names in a graph itself, those of its nodes among them. -/
def GraphOf.mentioned {G : Type} (graph : GraphOf G) : List String :=
  graph.initializers.map Prod.fst ++ graph.inputs.map ValueInfo.name
    ++ graph.outputs.map ValueInfo.name
    ++ graph.nodes.flatMap fun node => node.name :: (node.inputs ++ node.outputs)

theorem GraphOf.mentioned_map {A B : Type} (f : A → B) (graph : GraphOf A) :
    (graph.map f).mentioned = graph.mentioned := by
  unfold mentioned GraphOf.map
  rw [List.flatMap_map]
  rfl

namespace Graph

variable (graph : Graph)

/-- A node occurs in a graph, at some depth. -/
def HasNode {G : Type} (node : NodeOf G) : Prop :=
  ∃ level ∈ graph.levels, node.bare ∈ level.nodes

/-- A name occurs in a graph, at some depth. -/
def Mentions (name : String) : Prop := ∃ level ∈ graph.levels, name ∈ level.mentioned

/-- A tensor is stored in a graph, at some depth. -/
inductive HasPayload : Payload → Prop
  | initial {level : GraphOf Unit} {name : String} {payload : Payload}
      (level_mem : level ∈ graph.levels) (mem : (name, payload) ∈ level.initializers) :
      HasPayload payload
  | attribute {node : NodeOf Unit} {name : String} {payload : Payload}
      (hasNode : graph.HasNode node) (mem : (name, .tensor payload) ∈ node.attributes) :
      HasPayload payload

/-- A tensor is what an initial tensor or a constant of a graph stands
for, at some depth. -/
inductive HasTensor : Tensor → Prop
  | initial {level : GraphOf Unit} {name : String} {payload : Payload} {t : Tensor}
      (level_mem : level ∈ graph.levels) (mem : (name, payload) ∈ level.initializers)
      (decoded : payload.toTensor = .ok t) : HasTensor t
  | constant {node : NodeOf Unit} {values : Attributes} {t : Tensor}
      (hasNode : graph.HasNode node) (attributes : node.values = .ok values)
      (decoded : Handler.constantTensor values = .ok t) : HasTensor t

variable {graph}

section

variable {A B : Type} {node : NodeOf A} {f : A → B}

theorem HasNode.map (h : graph.HasNode node) : graph.HasNode (node.map f) := by
  unfold HasNode at h ⊢
  rwa [NodeOf.bare_map]

theorem HasNode.bare (h : graph.HasNode node) : graph.HasNode node.bare := h.map

theorem HasNode.mentions_name (h : graph.HasNode node) : graph.Mentions node.name := by
  obtain ⟨level, hlevel, hnode⟩ := h
  exact ⟨level, hlevel, List.mem_append_right _
    (List.mem_flatMap.2 ⟨node.bare, hnode, List.mem_cons_self⟩)⟩

theorem HasNode.mentions_input (h : graph.HasNode node) {name : String}
    (hname : name ∈ node.inputs) : graph.Mentions name := by
  obtain ⟨level, hlevel, hnode⟩ := h
  exact ⟨level, hlevel, List.mem_append_right _ (List.mem_flatMap.2
    ⟨node.bare, hnode, List.mem_cons_of_mem _ (List.mem_append_left _ hname)⟩)⟩

theorem HasNode.mentions_output (h : graph.HasNode node) {name : String}
    (hname : name ∈ node.outputs) : graph.Mentions name := by
  obtain ⟨level, hlevel, hnode⟩ := h
  exact ⟨level, hlevel, List.mem_append_right _ (List.mem_flatMap.2
    ⟨node.bare, hnode, List.mem_cons_of_mem _ (List.mem_append_right _ hname)⟩)⟩

end

/-- A node of a graph inside is one of the whole. -/
theorem hasNode_of_mem {g : Graph} (hlevels : g.levels ⊆ graph.levels) {node : NodeOf Graph}
    (hnode : node ∈ g.body.nodes) : graph.HasNode node :=
  ⟨g.body.bare, hlevels g.bare_mem_levels, List.mem_map_of_mem hnode⟩

theorem mentions_of_mem {g : Graph} (hlevels : g.levels ⊆ graph.levels) {name : String}
    (hname : name ∈ g.body.mentioned) : graph.Mentions name :=
  ⟨g.body.bare, hlevels g.bare_mem_levels, (GraphOf.mentioned_map _ g.body).symm ▸ hname⟩

end Graph

-- ============================================================ requirements

/-- The kinds of attributes. -/
inductive AttributeKind where
  | int
  | float
  | text
  | tensor
  | graph
  | graphs
  | ints
  | floats
  | texts
deriving DecidableEq, Repr

def AttributeOf.kind {G : Type} : AttributeOf G → AttributeKind
  | .int _ => .int
  | .float _ => .float
  | .text _ => .text
  | .tensor _ => .tensor
  | .graph _ => .graph
  | .graphs _ => .graphs
  | .ints _ => .ints
  | .floats _ => .floats
  | .texts _ => .texts

theorem AttributeOf.kind_map {A B : Type} (f : A → B) (a : AttributeOf A) :
    (a.map f).kind = a.kind := by
  cases a <;> rfl

/-- The inputs that an operation cannot do without. -/
def requiredInputs : String → Nat
  | "Identity" | "Sqrt" | "RandomNormalLike" => 1
  | "Add" | "Mul" | "STFT" => 2
  | "ScatterND" => 3
  | _ => 0

/-- The kind that an operation defines for an attribute of a name. -/
def definedKind? : String → String → Option AttributeKind
  | "Constant", "value" => some .tensor
  | "Constant", "value_float" => some .float
  | "Constant", "value_floats" => some .floats
  | "Constant", "value_int" => some .int
  | "Constant", "value_ints" => some .ints
  | "Add", "axis" | "Add", "broadcast" | "Mul", "axis" | "Mul", "broadcast" => some .int
  | "ScatterND", "reduction" => some .text
  | "RandomNormal", "shape" => some .ints
  | "RandomNormal", "dtype" | "RandomNormalLike", "dtype" => some .int
  | "RandomNormal", "mean" | "RandomNormalLike", "mean" => some .float
  | "RandomNormal", "scale" | "RandomNormalLike", "scale" => some .float
  | "RandomNormal", "seed" | "RandomNormalLike", "seed" => some .float
  | "Scan", "body" => some .graph
  | "Scan", "num_scan_inputs" => some .int
  | "Scan", "directions" | "Scan", "scan_input_directions" => some .ints
  | "Scan", "scan_output_directions" => some .ints
  | "Scan", "scan_input_axes" | "Scan", "scan_output_axes" => some .ints
  | "STFT", "onesided" => some .int
  | _, _ => none

/-- A node has the inputs that its operation cannot do without, and its
attributes are of the kinds that the operation defines. -/
structure NodeOf.Furnished {G : Type} (node : NodeOf G) : Prop where
  inputs : requiredInputs node.op ≤ node.inputs.length
  attributes : ∀ entry ∈ node.attributes,
    (definedKind? node.op entry.1).all (· == entry.2.kind) = true

/-- Every node of a graph is furnished, at any depth. -/
def Graph.Furnished (graph : Graph) : Prop :=
  ∀ level ∈ graph.levels, ∀ node ∈ level.nodes, node.Furnished

instance {G : Type} (node : NodeOf G) : Decidable node.Furnished :=
  decidable_of_iff
    (requiredInputs node.op ≤ node.inputs.length
      ∧ ∀ entry ∈ node.attributes, (definedKind? node.op entry.1).all (· == entry.2.kind) = true)
    ⟨fun h => ⟨h.1, h.2⟩, fun h => ⟨h.inputs, h.attributes⟩⟩

instance (graph : Graph) : Decidable graph.Furnished :=
  inferInstanceAs (Decidable (∀ level ∈ graph.levels, ∀ node ∈ level.nodes, node.Furnished))

theorem Graph.Furnished.node {G : Type} {graph : Graph} {node : NodeOf G} (h : graph.Furnished)
    (hnode : graph.HasNode node) : node.Furnished := by
  obtain ⟨level, hlevel, hbare⟩ := hnode
  obtain ⟨hinputs, hattributes⟩ := h level hlevel node.bare hbare
  refine ⟨hinputs, fun entry hentry => ?_⟩
  have := hattributes _ (List.mem_map_of_mem hentry)
  rwa [AttributeOf.kind_map] at this

-- ============================================================== attributes

namespace NodeOf

variable {G : Type} {node : NodeOf G} {values : Attributes} {name : String}
  {value : AttributeValue}

/-- The map of attributes with one more of them. -/
def readAttribute (values : Attributes) (entry : String × AttributeOf G) :
    Except AttributeError Attributes := do
  match ← entry.2.value? with
  | some value => return values.insert entry.1 value
  | none => return values

theorem values_eq_foldlM (node : NodeOf G) :
    node.values = node.attributes.foldlM readAttribute .empty := rfl

theorem find?_of_foldlM {entries : List (String × AttributeOf G)} {before : Attributes}
    (h : entries.foldlM readAttribute before = .ok values) (hvalue : values.find? name = some value) :
    before.find? name = some value
      ∨ ∃ a, (name, a) ∈ entries ∧ a.value? = .ok (some value) := by
  induction entries generalizing before with
  | nil =>
      cases h
      exact Or.inl hvalue
  | cons entry entries ih =>
      rw [List.foldlM_cons] at h
      obtain ⟨after, hstep, hrest⟩ := Except.bind_eq_ok.1 h
      obtain ⟨given, hgiven, hstep⟩ := Except.bind_eq_ok.1 hstep
      rcases ih hrest with hfound | ⟨a, ha, hread⟩
      · cases given with
        | none =>
            cases hstep
            exact Or.inl hfound
        | some first =>
            cases hstep
            rw [NameMap.find?_insert] at hfound
            split at hfound
            · next heq =>
                cases hfound
                exact Or.inr ⟨entry.2, heq ▸ List.mem_cons_self, hgiven⟩
            · exact Or.inl hfound
      · exact Or.inr ⟨a, List.mem_cons_of_mem _ ha, hread⟩

/-- The value of an attribute is that of one of its name. -/
theorem exists_attribute (h : node.values = .ok values) (hvalue : values.find? name = some value) :
    ∃ a, (name, a) ∈ node.attributes ∧ a.value? = .ok (some value) := by
  rw [values_eq_foldlM] at h
  rcases find?_of_foldlM h hvalue with hempty | hfound
  · cases hempty
  · exact hfound

namespace Furnished

variable (h : node.Furnished) (hvalues : node.values = .ok values)
  (hvalue : values.find? name = some value)

include h hvalues hvalue

/-- An attribute has the kind that the operation defines. -/
theorem exists_kind {kind : AttributeKind} (hkind : definedKind? node.op name = some kind) :
    ∃ a : AttributeOf G, a.kind = kind ∧ a.value? = .ok (some value) := by
  obtain ⟨a, ha, hread⟩ := exists_attribute hvalues hvalue
  have hdefined := h.attributes _ ha
  rw [hkind, Option.all_some, beq_iff_eq] at hdefined
  exact ⟨a, hdefined.symm, hread⟩

theorem exists_ints (hkind : definedKind? node.op name = some .ints) :
    ∃ is, value = .ints is := by
  obtain ⟨a, ha, hread⟩ := h.exists_kind hvalues hvalue hkind
  cases a <;> cases ha
  cases hread
  exact ⟨_, rfl⟩

end Furnished

end NodeOf

end OnnxLowering
