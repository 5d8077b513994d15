/-
Evaluation of modules whose names do no harm. In the textual form of a
module a parameter can hide what the form itself refers to by name, and
it can be bound to another parameter's argument. A module is `Legible`
if neither happens. Then running it is what one expects
(`run_of_legible`): every input has its own argument, and every node is
evaluated from the values of the inputs and of the nodes before it, and
from nothing else.
-/
import OnnxLowering.Module.Run
import OnnxLowering.Proofs.Except
import OnnxLowering.Proofs.Lists

namespace OnnxLowering

-- ================================================================ words

namespace Op

/-- The word that the textual form of a number is, if it is no numeral. -/
def numberWord (pattern : Nat) : List String :=
  match BinaryFormat.double.decode pattern with
  | .nan => [Reserved.undefinedNumber]
  | .infinite _ => [Reserved.infiniteNumber]
  | .finite .. => []

/-- What the textual form of an operation refers to by name. -/
def words : Op → List String
  | sqrt | squeeze _ | unsqueeze _ => [Reserved.library]
  | random _ _ mean scale seed =>
      Reserved.library :: (mean :: scale :: seed.toList).flatMap numberWord
  | randomLike dtype mean scale seed =>
      (if dtype.isSome then [Reserved.library] else [])
        ++ (mean :: scale :: seed.toList).flatMap numberWord
  | _ => []

/-- An operation by itself, with nothing hidden. -/
def eval (op : Op) (values : List Value) : Except RunError Value :=
  op.apply (fun _ => none) values

variable {hidden : String → Option Operand}

theorem quantity_of_visible {pattern : Nat}
    (h : ∀ word ∈ numberWord pattern, hidden word = none) :
    quantity hidden pattern = quantity (fun _ => none) pattern := by
  unfold quantity
  unfold numberWord at h
  cases hx : BinaryFormat.double.decode pattern with
  | nan =>
      rw [hx] at h
      simp only [h _ List.mem_cons_self]
  | infinite negative =>
      rw [hx] at h
      simp only [h _ List.mem_cons_self]
  | finite => rfl

theorem quantities_of_visible {mean scale : Nat} {seed : Option Nat}
    (h : ∀ word ∈ (mean :: scale :: seed.toList).flatMap numberWord, hidden word = none) :
    quantities hidden mean scale seed = quantities (fun _ => none) mean scale seed := by
  have hquantity : ∀ pattern ∈ mean :: scale :: seed.toList,
      quantity hidden pattern = quantity (fun _ => none) pattern :=
    fun pattern hpattern => quantity_of_visible fun word hword =>
      h word (List.mem_flatMap.2 ⟨pattern, hpattern, hword⟩)
  unfold quantities
  rw [hquantity mean (by simp), hquantity scale (by simp)]
  cases seed with
  | none => rfl
  | some pattern => simp only [hquantity pattern (by simp)]

/-- An operation does not see arguments whose names it does not use. -/
theorem apply_of_visible {op : Op} {values : List Value}
    (h : ∀ word ∈ op.words, hidden word = none) : op.apply hidden values = op.eval values := by
  unfold eval
  cases op with
  | random dims dtype mean scale seed =>
      have hnumbers := quantities_of_visible fun word hword =>
        h word (List.mem_cons_of_mem _ hword)
      unfold apply
      cases values with
      | nil => simp only [hnumbers]
      | cons => rfl
  | randomLike dtype mean scale seed =>
      have hnumbers := quantities_of_visible fun word hword =>
        h word (List.mem_append_right _ hword)
      unfold apply
      rcases values with _ | ⟨a, _ | ⟨b, rest⟩⟩
      · rfl
      · simp only [hnumbers]
      · rfl
  | item index => rcases values with _ | ⟨_ | _, _ | ⟨b, rest⟩⟩ <;> rfl
  | _ => rcases values with _ | ⟨a, _ | ⟨b, _ | ⟨c, _ | ⟨d, rest⟩⟩⟩⟩ <;> rfl

theorem hiddenFault?_of_visible {op : Op} (h : ∀ word ∈ op.words, hidden word = none) :
    (hidden Reserved.library).bind op.hiddenFault? = none := by
  cases hlibrary : hidden Reserved.library with
  | none => rfl
  | some operand =>
      have hnot : Reserved.library ∉ op.words := fun hmem => by
        rw [h _ hmem] at hlibrary
        cases hlibrary
      cases op with
      | sqrt => exact absurd List.mem_cons_self hnot
      | squeeze axis => exact absurd List.mem_cons_self hnot
      | unsqueeze axis => exact absurd List.mem_cons_self hnot
      | random dims dtype mean scale seed => exact absurd List.mem_cons_self hnot
      | randomLike dtype mean scale seed =>
          cases dtype with
          | none => rfl
          | some dtype => exact absurd (List.mem_append_left _ List.mem_cons_self) hnot
      | _ => rfl

/-- A hidden library is a fault of every operation that refers to it. -/
theorem exists_hiddenFault?_of_mem {op : Op} (h : Reserved.library ∈ op.words) (argument : Operand) :
    ∃ error, op.hiddenFault? argument = some error := by
  have hnumbers : ∀ patterns : List Nat, Reserved.library ∉ patterns.flatMap numberWord := by
    intro patterns hmem
    obtain ⟨pattern, -, hpattern⟩ := List.mem_flatMap.1 hmem
    unfold numberWord at hpattern
    split at hpattern
    · exact absurd (List.mem_singleton.1 hpattern) (by decide)
    · exact absurd (List.mem_singleton.1 hpattern) (by decide)
    · cases hpattern
  cases op with
  | sqrt => exact ⟨_, rfl⟩
  | squeeze axis => exact ⟨_, rfl⟩
  | unsqueeze axis => exact ⟨_, rfl⟩
  | random dims dtype mean scale seed => exact ⟨_, rfl⟩
  | randomLike dtype mean scale seed =>
      cases dtype with
      | none => exact absurd h (hnumbers _)
      | some dtype => exact ⟨_, rfl⟩
  | _ => cases h

end Op

def Action.words : Action → List String
  | apply op _ => op.words
  | _ => []

-- =============================================================== legible

namespace ModuleOf

variable {L : Type}

/-- The names of the parameters of the textual form. -/
def parameters (m : ModuleOf L) : List String := m.inputs.map Input.name

/-- Every parameter is bound to its own argument, and none hides what the
textual form refers to by name. -/
structure Legible (m : ModuleOf L) : Prop where
  sources : Arguments.sources m.parameters = List.range m.inputs.length
  visible : ∀ node ∈ m.nodes, ∀ word ∈ node.action.words, word ∉ m.parameters

/-- A module is legible but for what the name of the library may
hide. -/
structure LegibleBesidesLibrary (m : ModuleOf L) : Prop where
  sources : Arguments.sources m.parameters = List.range m.inputs.length
  visible : ∀ node ∈ m.nodes, ∀ word ∈ node.action.words,
    word ≠ Reserved.library → word ∉ m.parameters

theorem Legible.besidesLibrary {m : ModuleOf L} (h : m.Legible) : m.LegibleBesidesLibrary where
  sources := h.sources
  visible node hnode word hword _ := h.visible node hnode word hword

theorem LegibleBesidesLibrary.legible {m : ModuleOf L} (h : m.LegibleBesidesLibrary)
    (hlibrary : Reserved.library ∉ m.parameters) : m.Legible where
  sources := h.sources
  visible node hnode word hword := by
    by_cases hname : word = Reserved.library
    · rw [hname]
      exact hlibrary
    · exact h.visible node hnode word hword hname

theorem LegibleBesidesLibrary.exists_hidden {m : ModuleOf L} (h : m.LegibleBesidesLibrary)
    (hlegible : ¬m.Legible) :
    Reserved.library ∈ m.parameters ∧ ∃ node ∈ m.nodes, Reserved.library ∈ node.action.words := by
  by_contra hnot
  refine hlegible ⟨h.sources, fun node hnode word hword hmem => ?_⟩
  by_cases hname : word = Reserved.library
  · subst hname
    exact hnot ⟨hmem, node, hnode, hword⟩
  · exact h.visible node hnode word hword hname hmem

/-- The value of a node by itself, with nothing hidden. -/
def valueOf (m : ModuleOf Meaning) (inputs : List Operand) (done : List Value)
    (node : Node) : Except RunError Value :=
  m.evalNode (fun _ => none) inputs done node

/-- The values of nodes that come after others, together with the values
of these. -/
def valuesFrom (m : ModuleOf Meaning) (inputs : List Operand) (done : List Value)
    (nodes : List Node) : Except RunError (List Value) :=
  nodes.foldlM (fun done node => do return done ++ [← m.valueOf inputs done node]) done

/-- What a module returns whose nodes have certain values. -/
def returns (m : ModuleOf L) (inputs : List Operand) (done : List Value) : Output :=
  match m.results with
  | .single ref => .single (ref.value inputs done).operand
  | .tuple refs => .tuple (refs.map fun ref => (ref.value inputs done).operand)

variable {m : ModuleOf Meaning} {inputs : List Operand} {done : List Value}

@[simp] theorem valuesFrom_nil : m.valuesFrom inputs done [] = .ok done := rfl

theorem valuesFrom_cons (node : Node) (nodes : List Node) :
    m.valuesFrom inputs done (node :: nodes) = (do
      let value ← m.valueOf inputs done node
      m.valuesFrom inputs (done ++ [value]) nodes) := by
  unfold valuesFrom
  rw [List.foldlM_cons, bind_assoc]
  rfl

theorem valuesFrom_append (nodes others : List Node) :
    m.valuesFrom inputs done (nodes ++ others) = (do
      m.valuesFrom inputs (← m.valuesFrom inputs done nodes) others) :=
  List.foldlM_append

/-- There is one value for each node, after the values from before. -/
theorem valuesFrom_extends {nodes : List Node} {values : List Value}
    (h : m.valuesFrom inputs done nodes = .ok values) :
    ∃ new, values = done ++ new ∧ new.length = nodes.length :=
  Except.exists_append_of_foldlM h

theorem argument?_of_notMem {arguments : List Operand} {name : String}
    (h : name ∉ m.parameters) : m.argument? arguments name = none := by
  unfold argument?
  rw [List.lookup_eq_none_iff]
  intro pair hpair
  have hmem := (List.of_mem_zip hpair).1
  exact bne_iff_ne.2 fun heq => h (heq ▸ hmem)

theorem exists_argument? {arguments : List Operand} {name : String} (h : name ∈ m.parameters)
    (hlength : arguments.length = m.inputs.length) :
    ∃ operand, m.argument? arguments name = some operand := by
  have hnames : (m.parameters.zip arguments).map Prod.fst = m.parameters := by
    refine List.map_fst_zip (Nat.le_of_eq ?_)
    rw [parameters, List.length_map, hlength]
  rw [← hnames] at h
  obtain ⟨pair, hpair, rfl⟩ := List.mem_map.1 h
  exact Option.isSome_iff_exists.1 (List.lookup_isSome_iff.2 ⟨pair, hpair, BEq.rfl⟩)

/-- In a legible module no node sees an argument by its name. -/
theorem Legible.evalNode (h : m.Legible) {node : Node} (hnode : node ∈ m.nodes)
    (arguments : List Operand) :
    m.evalNode (m.argument? arguments) inputs done node = m.valueOf inputs done node := by
  have hvisible (word : String) (hword : word ∈ node.action.words) :
      m.argument? arguments word = none := argument?_of_notMem (h.visible node hnode word hword)
  unfold valueOf ModuleOf.evalNode
  cases haction : node.action with
  | apply op operands =>
      rw [haction] at hvisible
      simp only [Op.hiddenFault?_of_visible hvisible]
      exact Op.apply_of_visible hvisible
  | _ => rfl

/-- In a legible module every input has its own argument. -/
theorem Legible.bind (h : m.Legible) {arguments : List Operand}
    (hlength : arguments.length = m.inputs.length) :
    Arguments.bind (m.inputs.map Input.name) arguments = arguments := by
  unfold Arguments.bind
  rw [show Arguments.sources (m.inputs.map Input.name) = List.range m.inputs.length from
    h.sources, ← hlength]
  exact filterMap_range_getElem? arguments

theorem Legible.evalNodes (h : m.Legible) (arguments : List Operand) :
    m.evalNodes (m.argument? arguments) inputs = m.valuesFrom inputs [] m.nodes := by
  have hnodes : ∀ nodes : List Node, nodes ⊆ m.nodes → ∀ done,
      nodes.foldlM (fun done node => do
        return done ++ [← m.evalNode (m.argument? arguments) inputs done node]) done
        = m.valuesFrom inputs done nodes := by
    intro nodes hsub
    induction nodes with
    | nil => exact fun done => rfl
    | cons node nodes ih =>
        intro done
        rw [List.foldlM_cons, valuesFrom_cons, h.evalNode (hsub List.mem_cons_self), bind_assoc]
        simp only [pure_bind, ih fun other hother => hsub (List.mem_cons_of_mem _ hother)]
  exact hnodes m.nodes (List.Subset.refl _) []

/-- How a legible module runs. -/
theorem run_of_legible (h : m.Legible) {arguments : List Operand}
    (hlength : arguments.length = m.inputs.length) :
    m.run arguments = (do
      let done ← m.valuesFrom arguments [] m.nodes
      return m.returns arguments done) := by
  unfold run
  simp only [hlength, h.bind hlength, h.evalNodes arguments, if_true, returns]
  cases m.results <;> rfl

/-- There is one operand for each result. -/
theorem length_operands_of_run_eq_ok {arguments : List Operand} {output : Output}
    (h : m.run arguments = .ok output) : output.operands.length = m.results.refs.length := by
  unfold run at h
  by_cases hlength : arguments.length = m.inputs.length
  · rw [if_pos hlength] at h
    obtain ⟨done, -, hreturn⟩ := Except.bind_eq_ok.1 h
    cases hresults : m.results with
    | single ref =>
        rw [hresults] at hreturn
        cases hreturn
        rfl
    | tuple refs =>
        rw [hresults] at hreturn
        cases hreturn
        exact List.length_map _
  · rw [if_neg hlength] at h
    cases h

/-- A module that returns has had as many arguments as inputs, and all
its nodes have had values. -/
theorem evalNodes_of_run_eq_ok {arguments : List Operand} {output : Output}
    (h : m.run arguments = .ok output) :
    arguments.length = m.inputs.length ∧
      ∃ done, m.evalNodes (m.argument? arguments)
        (Arguments.bind (m.inputs.map Input.name) arguments) = .ok done := by
  unfold run at h
  by_cases hlength : arguments.length = m.inputs.length
  · rw [if_pos hlength] at h
    obtain ⟨done, hdone, -⟩ := Except.bind_eq_ok.1 h
    exact ⟨hlength, done, hdone⟩
  · rw [if_neg hlength] at h
    cases h

/-- Where all nodes have values, each one has. -/
theorem exists_evalNode_eq_ok {hidden : String → Option Operand} {values : List Value}
    {nodes : List Node}
    (h : nodes.foldlM (fun done node => do
      return done ++ [← m.evalNode hidden inputs done node]) done = .ok values)
    {node : Node} (hnode : node ∈ nodes) :
    ∃ done value, m.evalNode hidden inputs done node = .ok value := by
  induction nodes generalizing done with
  | nil => cases hnode
  | cons first rest ih =>
      rw [List.foldlM_cons, bind_assoc] at h
      obtain ⟨value, hvalue, h⟩ := Except.bind_eq_ok.1 h
      rcases List.mem_cons.1 hnode with rfl | hrest
      · exact ⟨done, value, hvalue⟩
      · exact ih h hrest

/-- A module does not run whose nodes need the library if a parameter
hides it. -/
theorem run_ne_ok_of_hidden {node : Node} (hnode : node ∈ m.nodes)
    (hword : Reserved.library ∈ node.action.words) (hlibrary : Reserved.library ∈ m.parameters)
    (arguments : List Operand) (output : Output) : m.run arguments ≠ .ok output := by
  intro h
  obtain ⟨hlength, values, hvalues⟩ := evalNodes_of_run_eq_ok h
  obtain ⟨done, value, hvalue⟩ := exists_evalNode_eq_ok hvalues hnode
  obtain ⟨argument, hargument⟩ := exists_argument? hlibrary hlength
  cases haction : node.action with
  | apply op operands =>
      rw [haction] at hword
      obtain ⟨error, herror⟩ := Op.exists_hiddenFault?_of_mem hword argument
      unfold evalNode at hvalue
      rw [haction] at hvalue
      simp only [hargument, Option.bind_some, herror] at hvalue
      cases hvalue
  | _ =>
      rw [haction] at hword
      cases hword

/-- With another number of arguments a module does not run. -/
theorem run_of_length_ne {arguments : List Operand}
    (hlength : arguments.length ≠ m.inputs.length) :
    m.run arguments = .error .argumentCount := by
  unfold run
  rw [if_neg hlength]
  rfl

end ModuleOf

end OnnxLowering
