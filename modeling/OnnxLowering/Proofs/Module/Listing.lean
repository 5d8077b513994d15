/-
Modules in print: a line for every input, then one for every node, and
last what is returned. `Listed` says that such a listing is in order:
there are no other inputs than the ones named, whatever a line refers to
stands on an earlier line of the right kind, and the tensors and loops
are there. It follows from what is said of inputs and nodes by their own
numbers (`Sound`), and it still holds when the module has been made the
body of a loop.
-/
import OnnxLowering.Proofs.Scan.Body

namespace OnnxLowering

-- ============================================================= references

/-- A reference to one of so many inputs and nodes. -/
def Ref.Within (inputs nodes : Nat) : Ref → Prop
  | .input i => i < inputs
  | .node i => i < nodes

theorem Ref.Within.mono {inputs inputs' nodes nodes' : Nat} {ref : Ref}
    (h : ref.Within inputs nodes) (hinputs : inputs ≤ inputs') (hnodes : nodes ≤ nodes') :
    ref.Within inputs' nodes' := by
  cases ref with
  | input i => exact Nat.lt_of_lt_of_le h hinputs
  | node i => exact Nat.lt_of_lt_of_le h hnodes

theorem Results.refs_map (f : Ref → Ref) (results : Results) :
    (results.map f).refs = results.refs.map f := by
  cases results <;> rfl

theorem Action.refs_map (f : Ref → Ref) (action : Action) :
    (action.map f).refs = action.refs.map f := by
  cases action with
  | yield results => exact results.refs_map f
  | _ => rfl

/-- What an action refers to by name is there, and it returns nothing. -/
def Action.Finds {L : Type} (attributes : NameMap Attribute) (loops : NameMap L) : Action → Prop
  | .load name => attributes.contains name = true
  | .apply .. => True
  | .call name _ => loops.contains name = true
  | .yield _ => False

theorem Action.Finds.map {L : Type} {attributes : NameMap Attribute} {loops : NameMap L}
    {action : Action} (h : action.Finds attributes loops) (f : Ref → Ref) :
    (action.map f).Finds attributes loops := by
  cases action <;> exact h

-- =============================================================== listings

inductive Line where
  /-- An input, with the name of the value that it is for. -/
  | placeholder (name : Option String)
  | node (action : Action)

namespace Line

def refs : Line → List Ref
  | placeholder _ => []
  | node action => action.refs

/-- The name of the value that an input is for. -/
def label? : Line → Option (Option String)
  | placeholder name => some name
  | node _ => none

/-- A line is of the kind that a reference is to. -/
def Is : Line → Ref → Prop
  | placeholder _, .input _ => True
  | node _, .node _ => True
  | _, _ => False

end Line

namespace ModuleOf

variable {L : Type}

def listing (m : ModuleOf L) : List Line :=
  m.inputs.map (fun input => .placeholder input.label.name)
    ++ m.nodes.map (fun node => .node node.action) ++ [.node (.yield m.results)]

/-- The listing of a module is in order, and its inputs are for certain
names. -/
structure Listed (m : ModuleOf L) (names : List String) : Prop where
  /-- First the inputs, then nodes that return nothing, then the one that
  does. -/
  lines : ∃ actions : List Action,
    m.listing = names.map (fun name => .placeholder (some name)) ++ actions.map .node
        ++ [.node (.yield m.results)]
      ∧ ∀ action ∈ actions, ∀ results, action ≠ .yield results
  earlier : ∀ (p : Nat) line, m.listing[p]? = some line → ∀ ref ∈ line.refs,
    ref.position m.inputs.length < p
      ∧ ∃ source, m.listing[ref.position m.inputs.length]? = some source ∧ source.Is ref
  tensors : ∀ name, .node (.load name) ∈ m.listing → m.attributes.contains name = true
  loops : ∀ name operands, .node (.call name operands) ∈ m.listing → m.loops.contains name = true

/-- Exactly one line reads an input, and squeezes it. -/
def OnlySqueezed (m : ModuleOf L) (i : Nat) : Prop :=
  ∃ p axis, m.listing[p]? = some (.node (.apply (.squeeze axis) [.input i]))
    ∧ ∀ (q : Nat) line, m.listing[q]? = some line → .input i ∈ line.refs → q = p

/-- Every node refers to inputs and earlier nodes, and to tensors and loops
that are there. -/
structure Sound (m : ModuleOf L) : Prop where
  operands : ∀ (i : Nat) node, m.nodes[i]? = some node → ∀ ref ∈ node.action.refs,
    ref.Within m.inputs.length i
  found : ∀ node ∈ m.nodes, node.action.Finds m.attributes m.loops
  results : ∀ ref ∈ m.results.refs, ref.Within m.inputs.length m.nodes.length

variable {m : ModuleOf L} {names : List String}

/-- A line of the listing is that of an input, of a node, or the last. -/
theorem getElem?_listing {p : Nat} {line : Line} (h : m.listing[p]? = some line) :
    (∃ input, m.inputs[p]? = some input ∧ line = .placeholder input.label.name)
      ∨ (∃ i node, p = m.inputs.length + i ∧ m.nodes[i]? = some node ∧ line = .node node.action)
      ∨ (p = m.inputs.length + m.nodes.length ∧ line = .node (.yield m.results)) := by
  unfold listing at h
  by_cases hinput : p < m.inputs.length
  · rw [List.append_assoc, List.getElem?_append_left (by rwa [List.length_map]),
      List.getElem?_map, Option.map_eq_some_iff] at h
    obtain ⟨input, hinput, hline⟩ := h
    exact .inl ⟨input, hinput, hline.symm⟩
  · obtain ⟨i, rfl⟩ := Nat.exists_eq_add_of_le (Nat.le_of_not_lt hinput)
    rw [List.append_assoc, List.getElem?_append_right (by rw [List.length_map]; omega),
      List.length_map, Nat.add_sub_cancel_left] at h
    by_cases hnode : i < m.nodes.length
    · rw [List.getElem?_append_left (by rwa [List.length_map]), List.getElem?_map,
        Option.map_eq_some_iff] at h
      obtain ⟨node, hnode, hline⟩ := h
      exact .inr (.inl ⟨i, node, rfl, hnode, hline.symm⟩)
    · rw [List.getElem?_append_right (by rw [List.length_map]; omega), List.length_map,
        List.getElem?_singleton] at h
      split at h
      · next hlast =>
          cases h
          exact .inr (.inr ⟨by omega, rfl⟩)
      · cases h

theorem getElem?_listing_node {i : Nat} {node : Node} (h : m.nodes[i]? = some node) :
    m.listing[m.inputs.length + i]? = some (.node node.action) := by
  have hi := (List.getElem?_eq_some_iff.1 h).1
  unfold listing
  rw [List.append_assoc, List.getElem?_append_right (by rw [List.length_map]; omega),
    List.length_map, Nat.add_sub_cancel_left, List.getElem?_append_left (by rwa [List.length_map]),
    List.getElem?_map, h]
  rfl

/-- The inputs are for the names. -/
theorem Listed.labels (h : m.Listed names) :
    m.inputs.map (fun input => input.label.name) = names.map some := by
  obtain ⟨actions, hlines, -⟩ := h.lines
  have hplaceholders := congrArg (List.filterMap Line.label?) hlines
  have hnode {α : Type} (f : α → Action) (xs : List α) :
      (xs.map fun x => Line.node (f x)).filterMap Line.label? = [] := by
    rw [List.filterMap_map, List.filterMap_eq_nil_iff]
    exact fun _ _ => rfl
  have hinput {α : Type} (f : α → Option String) (xs : List α) :
      (xs.map fun x => Line.placeholder (f x)).filterMap Line.label? = xs.map f := by
    rw [List.filterMap_map]
    exact congrFun (List.filterMap_eq_map (f := f)) xs
  rw [listing, List.filterMap_append, List.filterMap_append, List.filterMap_append,
    List.filterMap_append, hinput, hinput, hnode, hnode (fun action => action) actions] at hplaceholders
  simpa using hplaceholders

/-- A reference within the module is to an earlier line of its kind. -/
theorem earlier_of_within {nodes : Nat} {ref : Ref} (h : ref.Within m.inputs.length nodes)
    (hnodes : nodes ≤ m.nodes.length) :
    ref.position m.inputs.length < m.inputs.length + nodes
      ∧ ∃ source, m.listing[ref.position m.inputs.length]? = some source ∧ source.Is ref := by
  cases ref with
  | input i =>
      replace h : i < m.inputs.length := h
      refine ⟨Nat.lt_add_right _ h, .placeholder (m.inputs[i].label.name), ?_, trivial⟩
      unfold listing Ref.position
      rw [List.append_assoc, List.getElem?_append_left (by rwa [List.length_map]),
        List.getElem?_map, List.getElem?_eq_getElem h]
      rfl
  | node i =>
      replace h : i < nodes := h
      have hnode := List.getElem?_eq_getElem (Nat.lt_of_lt_of_le h hnodes)
      exact ⟨Nat.add_lt_add_left h _, _, getElem?_listing_node hnode, trivial⟩

theorem Sound.listed (h : m.Sound)
    (hnames : m.inputs.map (fun input => input.label.name) = names.map some) : m.Listed names where
  lines := by
    refine ⟨m.nodes.map Node.action, ?_, fun action haction results => ?_⟩
    · have hinputs := congrArg (List.map Line.placeholder) hnames
      rw [List.map_map, List.map_map] at hinputs
      unfold listing
      rw [List.map_map]
      exact congrArg (· ++ _ ++ _) hinputs
    · obtain ⟨node, hnode, rfl⟩ := List.mem_map.1 haction
      intro hyield
      have hfound := h.found node hnode
      rw [hyield] at hfound
      exact hfound
  earlier := by
    intro p line hline ref href
    rcases getElem?_listing hline with ⟨input, -, rfl⟩ | ⟨i, node, rfl, hnode, rfl⟩ | ⟨rfl, rfl⟩
    · cases href
    · exact earlier_of_within (h.operands i node hnode ref href)
        (Nat.le_of_lt (List.getElem?_eq_some_iff.1 hnode).1)
    · exact earlier_of_within (h.results ref href) (Nat.le_refl _)
  tensors := by
    intro name hmem
    obtain ⟨p, hline⟩ := List.mem_iff_getElem?.1 hmem
    rcases getElem?_listing hline with ⟨_, -, hload⟩ | ⟨i, node, -, hnode, hload⟩ | ⟨-, hload⟩
    · cases hload
    · have hfound := h.found node (List.mem_of_getElem? hnode)
      rw [← Line.node.inj hload] at hfound
      exact hfound
    · cases hload
  loops := by
    intro name operands hmem
    obtain ⟨p, hline⟩ := List.mem_iff_getElem?.1 hmem
    rcases getElem?_listing hline with ⟨_, -, hcall⟩ | ⟨i, node, -, hnode, hcall⟩ | ⟨-, hcall⟩
    · cases hcall
    · have hfound := h.found node (List.mem_of_getElem? hnode)
      rw [← Line.node.inj hcall] at hfound
      exact hfound
    · cases hcall

-- ============================================================== loop bodies

section

variable {first : Nat} {axes : List Int}

theorem within_squeezed {inputs nodes count : Nat} {ref : Ref} (h : ref.Within inputs nodes) :
    (squeezed first count ref).Within inputs (nodes + count) := by
  cases ref with
  | node i => exact Nat.add_lt_add_right h count
  | input i =>
      simp only [squeezed]
      split
      · next hrange =>
          show i - first < nodes + count
          omega
      · exact h

/-- Nothing that has been redirected refers to a squeezed input. -/
theorem squeezed_ne_input {count i : Nat} (hi : first ≤ i ∧ i < first + count) (ref : Ref) :
    squeezed first count ref ≠ .input i := by
  cases ref with
  | node j => exact fun h => nomatch h
  | input j =>
      simp only [squeezed]
      split
      · exact fun h => nomatch h
      · next hrange =>
          intro h
          cases h
          exact hrange hi

/-- A node of a module with squeezed inputs squeezes one of them, or is
one of the nodes from before. -/
theorem getElem?_squeezeInputs {i : Nat} {node : Node}
    (h : (m.squeezeInputs first axes).nodes[i]? = some node) :
    (i < axes.length ∧ ∃ axis, node = ⟨.apply (.squeeze axis) [.input (first + i)], {}⟩)
      ∨ ∃ j old, i = j + axes.length ∧ m.nodes[j]? = some old
          ∧ node = ⟨old.action.map (squeezed first axes.length), old.label⟩ := by
  have hlength : (axes.zipIdx.map fun entry : Int × Nat =>
      (⟨.apply (.squeeze entry.1) [.input (first + entry.2)], {}⟩ : Node)).length = axes.length := by
    rw [List.length_map, List.length_zipIdx]
  unfold squeezeInputs at h
  by_cases hi : i < axes.length
  · rw [List.getElem?_append_left (hlength.symm ▸ hi), List.getElem?_map, List.getElem?_zipIdx,
      Option.map_map, Option.map_eq_some_iff] at h
    obtain ⟨axis, -, rfl⟩ := h
    exact .inl ⟨hi, axis, by rw [Function.comp_apply, Nat.zero_add]⟩
  · obtain ⟨j, rfl⟩ := Nat.exists_eq_add_of_le' (Nat.le_of_not_lt hi)
    rw [List.getElem?_append_right (hlength.symm ▸ Nat.le_of_not_lt hi), hlength,
      Nat.add_sub_cancel, List.getElem?_map, Option.map_eq_some_iff] at h
    obtain ⟨old, hold, rfl⟩ := h
    exact .inr ⟨j, old, rfl, hold, rfl⟩

theorem length_squeezeInputs : (m.squeezeInputs first axes).nodes.length
    = m.nodes.length + axes.length := by
  show (_ ++ _ : List Node).length = _
  rw [List.length_append, List.length_map, List.length_zipIdx, List.length_map, Nat.add_comm]

theorem Sound.squeezeInputs (h : m.Sound) (hbound : first + axes.length ≤ m.inputs.length) :
    (m.squeezeInputs first axes).Sound where
  operands := by
    intro i node hnode ref href
    rcases getElem?_squeezeInputs hnode with ⟨hi, axis, rfl⟩ | ⟨j, old, rfl, hold, rfl⟩
    · obtain rfl := List.mem_singleton.1 href
      show first + i < m.inputs.length
      omega
    · rw [Action.refs_map] at href
      obtain ⟨ref', href', rfl⟩ := List.mem_map.1 href
      exact within_squeezed (h.operands j old hold ref' href')
  found := by
    intro node hnode
    obtain ⟨i, hi⟩ := List.mem_iff_getElem?.1 hnode
    rcases getElem?_squeezeInputs hi with ⟨-, axis, rfl⟩ | ⟨j, old, -, hold, rfl⟩
    · trivial
    · exact (h.found old (List.mem_of_getElem? hold)).map _
  results := by
    intro ref href
    replace href : ref ∈ (m.results.map (squeezed first axes.length)).refs := href
    rw [Results.refs_map] at href
    obtain ⟨ref', href', rfl⟩ := List.mem_map.1 href
    rw [length_squeezeInputs]
    exact within_squeezed (h.results ref' href')

/-- A node of a module with unsqueezed results is one from before, or
unsqueezes a result. -/
theorem getElem?_unsqueezeResults {i : Nat} {node : Node}
    (h : (m.unsqueezeResults first axes).nodes[i]? = some node) :
    m.nodes[i]? = some node
      ∨ m.nodes.length ≤ i ∧ ∃ axis, ∃ ref ∈ m.results.refs,
          node = ⟨.apply (.unsqueeze axis) [ref], {}⟩ := by
  unfold unsqueezeResults at h
  by_cases hi : i < m.nodes.length
  · rw [List.getElem?_append_left hi] at h
    exact .inl h
  · rw [List.getElem?_append_right (Nat.le_of_not_lt hi), List.getElem?_map,
      Option.map_eq_some_iff] at h
    obtain ⟨⟨ref, axis⟩, hentry, rfl⟩ := h
    have hmem := (List.of_mem_zip (List.mem_of_getElem? hentry)).1
    exact .inr ⟨Nat.le_of_not_lt hi, axis, ref, List.mem_of_mem_drop hmem, rfl⟩

/-- A result is one from before, or the node that unsqueezes it. -/
theorem mem_refs_unsqueezeResults {ref : Ref} (h : ref ∈ (m.unsqueezeResults first axes).results.refs) :
    ref ∈ m.results.refs
      ∨ ∃ i, ref = .node i ∧ i < (m.unsqueezeResults first axes).nodes.length := by
  replace h : ref ∈ m.results.refs.take first ++ (List.range (List.map _ _).length).map _ := h
  rcases List.mem_append.1 h with h | h
  · exact .inl (List.mem_of_mem_take h)
  · obtain ⟨i, hi, rfl⟩ := List.mem_map.1 h
    refine .inr ⟨_, rfl, ?_⟩
    show _ < (m.nodes ++ _ : List Node).length
    rw [List.length_append]
    exact Nat.add_lt_add_left (List.mem_range.1 hi) _

theorem Sound.unsqueezeResults (h : m.Sound) : (m.unsqueezeResults first axes).Sound where
  operands := by
    intro i node hnode ref href
    rcases getElem?_unsqueezeResults hnode with hold | ⟨hi, axis, ref', href', rfl⟩
    · exact h.operands i node hold ref href
    · obtain rfl := List.mem_singleton.1 href
      exact (h.results ref href').mono (Nat.le_refl _) hi
  found := by
    intro node hnode
    obtain ⟨i, hi⟩ := List.mem_iff_getElem?.1 hnode
    rcases getElem?_unsqueezeResults hi with hold | ⟨-, axis, ref', -, rfl⟩
    · exact h.found node (List.mem_of_getElem? hold)
    · trivial
  results := by
    intro ref href
    rcases mem_refs_unsqueezeResults href with hold | ⟨i, rfl, hi⟩
    · refine (h.results ref hold).mono (Nat.le_refl _) ?_
      show _ ≤ (m.nodes ++ _ : List Node).length
      rw [List.length_append]
      exact Nat.le_add_right _ _
    · exact hi

end

section

variable {inputs : List Input} {first i : Nat} {inAxes outAxes : List Int}

theorem Sound.loopBody (h : m.Sound) (hlength : inputs.length = m.inputs.length)
    (hbound : first + inAxes.length ≤ m.inputs.length) :
    (m.loopBody inputs first inAxes outAxes).Sound := by
  have hinputs : ({ m with inputs } : ModuleOf L).Sound :=
    ⟨hlength ▸ h.operands, h.found, hlength ▸ h.results⟩
  refine (hinputs.squeezeInputs ?_).unsqueezeResults
  rwa [hlength]

/-- In the body of a loop nothing reads a squeezed input but the node
that squeezes it. -/
theorem onlySqueezed_loopBody (hi : first ≤ i ∧ i < first + inAxes.length) :
    (m.loopBody inputs first inAxes outAxes).OnlySqueezed i := by
  have hredirected (old : Action) : .input i ∉ (old.map (squeezed first inAxes.length)).refs := by
    intro href
    rw [Action.refs_map] at href
    obtain ⟨ref, -, href⟩ := List.mem_map.1 href
    exact squeezed_ne_input hi ref href
  have hresults : .input i ∉ (({ m with inputs } : ModuleOf L).squeezeInputs first
      inAxes).results.refs := by
    intro href
    replace href : Ref.input i ∈ (m.results.map (squeezed first inAxes.length)).refs := href
    rw [Results.refs_map] at href
    obtain ⟨ref, -, href⟩ := List.mem_map.1 href
    exact squeezed_ne_input hi ref href
  have hj : i - first < inAxes.length := by omega
  refine ⟨inputs.length + (i - first), inAxes[i - first], ?_, fun q line hline href => ?_⟩
  · have hnode : (m.loopBody inputs first inAxes outAxes).nodes[i - first]?
        = some ⟨.apply (.squeeze inAxes[i - first]) [.input i], {}⟩ := by
      have hsqueeze : (({ m with inputs } : ModuleOf L).squeezeInputs first inAxes).nodes[i - first]?
          = some ⟨.apply (.squeeze inAxes[i - first]) [.input i], {}⟩ := by
        unfold squeezeInputs
        rw [List.getElem?_append_left (by rwa [List.length_map, List.length_zipIdx]),
          List.getElem?_map, List.getElem?_zipIdx, List.getElem?_eq_getElem hj, Option.map_some,
          Option.map_some, Nat.zero_add]
        simp only [Nat.add_sub_cancel' hi.1]
      unfold ModuleOf.loopBody ModuleOf.unsqueezeResults
      rw [List.getElem?_append_left (List.getElem?_eq_some_iff.1 hsqueeze).1]
      exact hsqueeze
    exact getElem?_listing_node hnode
  · rcases getElem?_listing hline with ⟨_, -, rfl⟩ | ⟨j, node, rfl, hnode, rfl⟩ | ⟨rfl, rfl⟩
    · cases href
    · rcases getElem?_unsqueezeResults hnode with hold | ⟨-, axis, ref, href', rfl⟩
      · rcases getElem?_squeezeInputs hold with ⟨hj', axis, rfl⟩ | ⟨_, old, -, -, rfl⟩
        · have hsame : Ref.input i = .input (first + j) := List.mem_singleton.1 href
          cases hsame
          show inputs.length + j = _
          omega
        · exact absurd href (hredirected old.action)
      · have hsame : Ref.input i = ref := List.mem_singleton.1 href
        rw [← hsame] at href'
        exact absurd href' hresults
    · rcases mem_refs_unsqueezeResults href with hold | ⟨_, hnode, -⟩
      · exact absurd hold hresults
      · cases hnode

end

end ModuleOf

end OnnxLowering
