/-
Values of a module that are the same tensor in every run. A node that
reads a tensor of the module has one (`Loads.always`), whatever the
arguments are and however far the run gets; and the node still has it
when the module has been made the body of a loop, so in every iteration.
-/
import OnnxLowering.Proofs.Scan.Body

namespace OnnxLowering

/-- The names of the tensors that nodes read. -/
def loadsOf (nodes : List Node) : List String :=
  nodes.filterMap fun node =>
    match node.action with
    | .load name => some name
    | _ => none

theorem mem_loadsOf {nodes : List Node} {i : Nat} {node : Node} {place : String}
    (hnode : nodes[i]? = some node) (haction : node.action = .load place) : place ∈ loadsOf nodes :=
  List.mem_filterMap.2 ⟨node, List.mem_of_getElem? hnode, by rw [haction]⟩

/-- No tensor is read by two nodes. -/
abbrev LoadsOnce (nodes : List Node) : Prop := (loadsOf nodes).Nodup

theorem LoadsOnce.of_prefix {nodes others : List Node} (h : LoadsOnce others)
    (hshorter : nodes <+: others) : LoadsOnce nodes := by
  obtain ⟨rest, rfl⟩ := hshorter
  rw [LoadsOnce, loadsOf, List.filterMap_append] at h
  exact (List.nodup_append.1 h).1

/-- A node more reads a tensor that no other one reads. -/
theorem LoadsOnce.not_mem {nodes : List Node} {place : String} {label : Label}
    (h : LoadsOnce (nodes ++ [⟨.load place, label⟩])) : place ∉ loadsOf nodes := by
  rw [LoadsOnce, loadsOf, List.filterMap_append] at h
  exact fun hmem => (List.nodup_append.1 h).2.2 place hmem place List.mem_cons_self rfl

/-- A node reads a certain tensor. -/
def Loads (nodes : List Node) (attributes : NameMap Attribute) (ref : Ref) (t : Tensor) : Prop :=
  ∃ (i : Nat) (node : Node) (place : String) (trainable : Bool), ref = .node i
    ∧ nodes[i]? = some node ∧ node.action = .load place ∧ attributes.find? place = some ⟨t, trainable⟩

/-- More nodes, and one more tensor, of a name that is not read yet. -/
theorem Loads.extend {nodes nodes' : List Node} {attributes attributes' : NameMap Attribute}
    {ref : Ref} {t : Tensor} (h : Loads nodes attributes ref t) (hnodes : nodes <+: nodes')
    (hsame : ∀ place ∈ loadsOf nodes, attributes'.find? place = attributes.find? place) :
    Loads nodes' attributes' ref t := by
  obtain ⟨i, node, place, trainable, rfl, hnode, haction, hplace⟩ := h
  refine ⟨i, node, place, trainable, rfl, ?_, haction,
    (hsame place (mem_loadsOf hnode haction)).trans hplace⟩
  obtain ⟨rest, rfl⟩ := hnodes
  rw [List.getElem?_append_left (List.getElem?_eq_some_iff.1 hnode).1, hnode]

namespace ModuleOf

/-- The values of the first nodes in a run. -/
def firstValues (m : ModuleOf Meaning) (arguments : List Operand) (count : Nat) :
    Except RunError (List Value) :=
  (m.nodes.take count).foldlM (fun done node => do
    return done
      ++ [← m.evalNode (m.argument? arguments) (Arguments.bind m.parameters arguments) done node]) []

/-- In every run, as far as it gets, a value is a certain tensor. -/
def Always (m : Module) (ref : Ref) (t : Tensor) : Prop :=
  ∃ i, ref = .node i ∧ i < m.nodes.length ∧ ∀ arguments count done, i < count →
    (m.map Loop.meaning).firstValues arguments count = .ok done → done[i]? = some (.one (some t))

theorem Always.of_loads {m : Module} {ref : Ref} {t : Tensor}
    (h : Loads m.nodes m.attributes ref t) : m.Always ref t := by
  obtain ⟨i, node, place, trainable, rfl, hnode, haction, hplace⟩ := h
  refine ⟨i, rfl, (List.getElem?_eq_some_iff.1 hnode).1, fun arguments count done hi hdone => ?_⟩
  have hvalue (done : List Value) : (m.map Loop.meaning).evalNode
      ((m.map Loop.meaning).argument? arguments)
      (Arguments.bind (m.map Loop.meaning).parameters arguments)
      done node = .ok (.one (some t)) := by
    unfold evalNode
    rw [haction]
    show Except.ok (Value.one ((m.attributes.find? place).map Attribute.tensor)) = _
    rw [hplace]
    rfl
  have htake : ((m.map Loop.meaning).nodes.take count)[i]? = some node := by
    rw [List.getElem?_take_of_lt hi]
    exact hnode
  obtain ⟨before, value, heval, hget⟩ := Except.getElem?_of_foldlM hdone htake
  rw [hvalue] at heval
  cases heval
  rwa [List.length_nil, Nat.zero_add] at hget

-- ============================================================ loop bodies

variable {L : Type} {m : ModuleOf L} {ref : Ref} {t : Tensor} {first : Nat} {axes : List Int}

theorem loads_squeezeInputs (h : Loads m.nodes m.attributes ref t) :
    Loads (m.squeezeInputs first axes).nodes m.attributes (squeezed first axes.length ref) t := by
  obtain ⟨i, node, place, trainable, rfl, hnode, haction, hplace⟩ := h
  refine ⟨i + axes.length, { node with action := node.action.map (squeezed first axes.length) }, place,
    trainable, rfl, ?_, ?_, hplace⟩
  · show (List.map _ axes.zipIdx ++ List.map _ m.nodes)[_]? = _
    rw [List.getElem?_append_right (by rw [List.length_map, List.length_zipIdx]; omega),
      List.length_map, List.length_zipIdx, Nat.add_sub_cancel, List.getElem?_map, hnode]
    rfl
  · show node.action.map _ = _
    rw [haction]
    rfl

theorem loads_unsqueezeResults (h : Loads m.nodes m.attributes ref t) :
    Loads (m.unsqueezeResults first axes).nodes m.attributes ref t :=
  h.extend (List.prefix_append _ _) fun _ _ => rfl

/-- The node that reads a tensor still does so in the body of a loop,
behind the nodes that squeeze the scan inputs. -/
theorem loads_scanBody {description : String} {plan plan' : Handler.ScanPlan} {body m : Module}
    {shapes : List (Option KnownShape)}
    (h : Handler.scanBody description plan body shapes = .ok (m, plan'))
    (hloads : Loads body.nodes body.attributes ref t) :
    Loads m.nodes m.attributes (squeezed plan.states plan'.inputAxes.length ref) t := by
  obtain ⟨slices, -, h⟩ := Except.bind_eq_ok.1 h
  obtain ⟨outAxes, -, h⟩ := Except.bind_eq_ok.1 h
  obtain ⟨inputs, hinputs, -⟩ := body.exists_setInputShapes
    (shapes.take plan.states ++ slices.map Prod.snd).zipIdx
  cases h
  rw [hinputs]
  exact loads_unsqueezeResults (@loads_squeezeInputs _ { body with inputs } _ _ _ _ hloads)

end ModuleOf

end OnnxLowering
