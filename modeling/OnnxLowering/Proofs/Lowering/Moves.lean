/-
The moves of the lowering. Whatever a handler does to the scope of its
graph, it does in moves of five kinds: it asks for the value of a name,
appends an operation, puts a loop on the module and calls it, stores a
constant, or gives a name to a value. `Move` says so, relative to rules
about which names may be read and given and which loops may be put on the
module; what every move preserves, a whole run preserves
(`Moves.preserve`).
-/
import Mathlib.Logic.Relation
import OnnxLowering.Proofs.Handler.Steps
import OnnxLowering.Proofs.Module.Listing

namespace OnnxLowering

namespace Scope

/-- A value of the module is there. -/
def Has (scope : Scope) (ref : Ref) : Prop := ref.Within scope.inputs.length scope.nodes.length

/-- All values that names stand for are there. -/
structure Tied (scope : Scope) : Prop where
  bindings : ∀ name ref, scope.bindings.find? name = some ref → scope.Has ref
  constants : ∀ name ref, scope.constants.find? name = some ref → scope.Has ref

/-- The scope with one node more. -/
def append (scope : Scope) (action : Action) (label : Label) (nodeNames : List String)
    (supply : NameSupply) : Scope :=
  { scope with nodes := scope.nodes ++ [⟨action, label⟩], nodeNames, supply }

/-- The scope with a loop and its call. -/
def run (scope : Scope) (name : String) (loop : Loop) (operands : List Ref) (label : Label)
    (nodeNames : List String) (supply : NameSupply) (loopCounters : Counters) : Scope :=
  { scope with
    loops := scope.loops.insert name loop
    nodes := scope.nodes ++ [⟨.call name operands, label⟩]
    nodeNames, supply, loopCounters }

end Scope

/-- What moves may do: which names they may read, under which they may
store a constant and to which they may give a value at a given point, and
which loops they may call. -/
structure Rules where
  reads : String → Prop
  constants : Scope → String → Prop := fun _ _ => False
  outputs : Scope → String → Prop := fun _ _ => False
  loops : Loop → Prop

/-- The rules for moves that only read. -/
def Rules.reading (rules : Rules) : Rules where
  reads := rules.reads
  loops := rules.loops

inductive Move (outer : Scopes) (rules : Rules) : Scope → Scope → Prop
  | value {scope scope' : Scope} {name : String} {ref : Ref} (read : rules.reads name)
      (gets : scope.Gets outer name ref scope') : Move outer rules scope scope'
  | apply {scope : Scope} {op : Op} {operands : List Ref} {label : Label}
      {nodeNames : List String} {supply : NameSupply} (there : ∀ ref ∈ operands, scope.Has ref) :
      Move outer rules scope (scope.append (.apply op operands) label nodeNames supply)
  | call {scope : Scope} {name : String} {loop : Loop} {operands : List Ref} {label : Label}
      {nodeNames : List String} {supply : NameSupply} {loopCounters : Counters}
      (allowed : rules.loops loop) (there : ∀ ref ∈ operands, scope.Has ref) :
      Move outer rules scope (scope.run name loop operands label nodeNames supply loopCounters)
  | constant {scope scope' : Scope} {name : String} {t : Tensor}
      (given : rules.constants scope name) (stores : scope.Stores name t scope') :
      Move outer rules scope scope'
  | output {scope : Scope} {name : String} {ref : Ref} (given : rules.outputs scope name)
      (there : scope.Has ref) : Move outer rules scope (scope.bind name ref)
  /-- A constant that has just been stored under a name. -/
  | settle {scope : Scope} {name : String} {ref : Ref}
      (stored : scope.constants.find? name = some ref) (known : scope.tensors.contains name = true) :
      Move outer rules scope (scope.bind name ref)

/-- Any number of moves. -/
abbrev Moves (outer : Scopes) (rules : Rules) : Scope → Scope → Prop :=
  Relation.ReflTransGen (Move outer rules)

variable {outer : Scopes} {rules : Rules} {scope scope' scope'' : Scope} {name : String} {ref : Ref}
  {reads gives : List String}

/-- What every move preserves is preserved by any number of them. -/
theorem Moves.preserve {P : Scope → Prop} (h : Moves outer rules scope scope')
    (hstep : ∀ scope scope', Move outer rules scope scope' → P scope → P scope') (hscope : P scope) :
    P scope' := by
  induction h with
  | refl => exact hscope
  | tail _ hmove ih => exact hstep _ _ hmove ih

-- ================================================================= growth

theorem Scope.defines_of_contains_tensors (h : scope.tensors.contains name = true) :
    scope.defines name = true := by
  rw [Scope.defines, h, Bool.or_true, Bool.true_or]

/-- The names that rules speak of are among certain names. -/
structure Rules.Within (rules : Rules) (reads gives : List String) : Prop where
  reads : ∀ name, rules.reads name → name ∈ reads
  constants : ∀ scope name, rules.constants scope name → name ∈ gives
  outputs : ∀ scope name, rules.outputs scope name → name ∈ gives

theorem Move.grows (h : Move outer rules scope scope') (within : rules.Within reads gives) :
    scope.Grows outer reads gives scope' := by
  cases h with
  | value read gets => exact gets.grows (within.reads _ read)
  | apply _ => exact .of_nodes fun _ _ => ⟨rfl, rfl⟩
  | call _ _ =>
      refine .of_nodes fun other hother => ⟨rfl, NameMap.find?_insert_of_ne _ _ ?_⟩
      rintro rfl
      exact hother List.mem_cons_self
  | constant given stores => exact .of_stores stores (.inr (.inr (within.constants _ _ given)))
  | output given _ => exact .bind _ (.inr (.inr (within.outputs _ _ given)))
  | settle _ known => exact .bind _ (.inl (Scope.defines_of_contains_tensors known))

theorem Moves.grows (h : Moves outer rules scope scope') (within : rules.Within reads gives) :
    scope.Grows outer reads gives scope' := by
  induction h with
  | refl => exact .refl _
  | tail _ hmove ih => exact ih.trans (hmove.grows within)

/-- What moves do that only read, moves may do. -/
theorem Move.of_reading (h : Move outer rules.reading scope scope') : Move outer rules scope scope' := by
  cases h with
  | value read gets => exact .value read gets
  | apply there => exact .apply there
  | call allowed there => exact .call allowed there
  | constant given _ => exact given.elim
  | output given _ => exact given.elim
  | settle stored known => exact .settle stored known

theorem Moves.of_reading (h : Moves outer rules.reading scope scope') :
    Moves outer rules scope scope' := by
  induction h with
  | refl => exact .refl
  | tail _ hmove ih => exact ih.tail hmove.of_reading

theorem Rules.within_reading (h : ∀ name, rules.reads name → name ∈ reads) :
    rules.reading.Within reads [] where
  reads := h
  constants _ _ given := given.elim
  outputs _ _ given := given.elim

-- ================================================================= values

namespace Scope

/-- What is there stays there. -/
def Extends (scope scope' : Scope) : Prop :=
  scope.inputs <+: scope'.inputs ∧ scope.nodes <+: scope'.nodes

theorem Has.extend (h : scope.Has ref) (hextends : scope.Extends scope') : scope'.Has ref :=
  h.mono hextends.1.length_le hextends.2.length_le

theorem label_eq_of_extends (hextends : scope.Extends scope') (h : scope.Has ref) :
    scope'.label ref = scope.label ref := by
  obtain ⟨⟨inputs, hinputs⟩, nodes, hnodes⟩ := hextends
  cases ref with
  | input i => simp only [Scope.label, ← hinputs, List.getElem?_append_left h]
  | node i => simp only [Scope.label, ← hnodes, List.getElem?_append_left h]

theorem Grows.extends (h : scope.Grows outer reads gives scope') :
    scope.Extends scope' := by
  obtain ⟨nodes, hnodes, -⟩ := h.nodes
  obtain ⟨names, inputs, -, hinputs, -⟩ := h.captured
  exact ⟨⟨inputs, hinputs.symm⟩, ⟨nodes, hnodes.symm⟩⟩

/-- More values, and a name more that stands for one. -/
theorem Tied.insert (tied : scope.Tied) (hextends : scope.Extends scope') (hthere : scope'.Has ref)
    (hbindings : scope'.bindings = scope.bindings ∨ scope'.bindings = scope.bindings.insert name ref)
    (hconstants : scope'.constants = scope.constants
      ∨ scope'.constants = scope.constants.insert name ref) : scope'.Tied := by
  have hinsert {before after : NameMap Ref}
      (hbefore : ∀ other ref', before.find? other = some ref' → scope.Has ref')
      (hafter : after = before ∨ after = before.insert name ref) {other : String} {ref' : Ref}
      (hother : after.find? other = some ref') : scope'.Has ref' := by
    rcases hafter with rfl | rfl
    · exact (hbefore other ref' hother).extend hextends
    · rw [NameMap.find?_insert] at hother
      split at hother
      · cases hother
        exact hthere
      · exact (hbefore other ref' hother).extend hextends
  exact ⟨fun _ _ => hinsert tied.bindings hbindings, fun _ _ => hinsert tied.constants hconstants⟩

theorem Tied.extend (tied : scope.Tied) (hextends : scope.Extends scope')
    (hbindings : scope'.bindings = scope.bindings) (hconstants : scope'.constants = scope.constants) :
    scope'.Tied :=
  ⟨fun other ref' hother => (tied.bindings other ref' (hbindings ▸ hother)).extend hextends,
    fun other ref' hother => (tied.constants other ref' (hconstants ▸ hother)).extend hextends⟩

theorem Stores.extends {t : Tensor} (stores : scope.Stores name t scope') :
    scope.Extends scope' ∧ scope'.Has (.node scope.nodes.length)
      ∧ scope'.bindings = scope.bindings
      ∧ scope'.constants = scope.constants.insert name (.node scope.nodes.length) := by
  obtain ⟨place, trainable, label, nodeNames, supply, attributeCounters, -, rfl⟩ := stores
  refine ⟨⟨List.prefix_rfl, List.prefix_append _ _⟩, ?_, rfl, rfl⟩
  show _ < (scope.nodes ++ [_]).length
  rw [List.length_append]
  exact Nat.lt_succ_self _

theorem Stores.tensors_eq {t : Tensor} (stores : scope.Stores name t scope') :
    scope'.tensors = scope.tensors.insert name t := by
  obtain ⟨place, trainable, label, nodeNames, supply, attributeCounters, -, rfl⟩ := stores
  rfl

theorem Stores.tied {t : Tensor} (stores : scope.Stores name t scope') (tied : scope.Tied) :
    scope'.Tied :=
  have ⟨hextends, hthere, hbindings, hconstants⟩ := stores.extends
  tied.insert hextends hthere (.inl hbindings) (.inr hconstants)

theorem Tied.bind (tied : scope.Tied) (hthere : scope.Has ref) : (scope.bind name ref).Tied :=
  tied.insert ⟨List.prefix_rfl, List.prefix_rfl⟩ hthere (.inr rfl) (.inl rfl)

/-- The value that a name gets is there, and so are all others. -/
theorem Gets.tied (gets : scope.Gets outer name ref scope') (tied : scope.Tied) :
    scope'.Tied ∧ scope'.Has ref := by
  cases gets with
  | bound h => exact ⟨tied, tied.bindings name ref h⟩
  | constant h => exact ⟨tied, tied.constants name ref h⟩
  | initial _ _ stores => exact ⟨stores.tied tied, stores.extends.2.1⟩
  | known _ stores => exact ⟨(stores.tied tied).bind stores.extends.2.1, stores.extends.2.1⟩
  | copied _ _ _ stores => exact ⟨(stores.tied tied).bind stores.extends.2.1, stores.extends.2.1⟩
  | captured _ _ _ captures =>
      obtain ⟨inputName, label, inputCounters, supply, -, -, rfl⟩ := captures
      have hlast : Has { scope with
          inputs := scope.inputs ++ [⟨inputName, label⟩]
          bindings := scope.bindings.insert name (.input scope.inputs.length)
          outerInputs := scope.outerInputs ++ [name]
          inputCounters, supply } (.input scope.inputs.length) := by
        show _ < (scope.inputs ++ [_]).length
        rw [List.length_append]
        exact Nat.lt_succ_self _
      exact ⟨tied.insert ⟨List.prefix_append _ _, List.prefix_rfl⟩ hlast (.inr rfl) (.inl rfl), hlast⟩

end Scope

theorem Move.extends (h : Move outer rules scope scope') : scope.Extends scope' := by
  cases h with
  | @value _ name _ _ gets =>
      have hgrows : scope.Grows outer [name] [] scope' := gets.grows List.mem_cons_self
      exact hgrows.extends
  | apply _ => exact ⟨List.prefix_rfl, List.prefix_append _ _⟩
  | call _ _ => exact ⟨List.prefix_rfl, List.prefix_append _ _⟩
  | constant _ stores => exact stores.extends.1
  | output _ _ => exact ⟨List.prefix_rfl, List.prefix_rfl⟩
  | settle _ _ => exact ⟨List.prefix_rfl, List.prefix_rfl⟩

theorem Move.tied (h : Move outer rules scope scope') (tied : scope.Tied) : scope'.Tied := by
  have hextends := h.extends
  cases h with
  | value _ gets => exact (gets.tied tied).1
  | apply _ => exact tied.extend hextends rfl rfl
  | call _ _ => exact tied.extend hextends rfl rfl
  | constant _ stores => exact stores.tied tied
  | output _ there => exact tied.bind there
  | settle stored _ => exact tied.bind (tied.constants _ _ stored)

theorem Moves.extends (h : Moves outer rules scope scope') : scope.Extends scope' := by
  induction h with
  | refl => exact ⟨List.prefix_rfl, List.prefix_rfl⟩
  | tail _ hmove ih =>
      exact ⟨ih.1.trans hmove.extends.1, ih.2.trans hmove.extends.2⟩

theorem Moves.tied (h : Moves outer rules scope scope') (tied : scope.Tied) : scope'.Tied :=
  h.preserve (fun _ _ hmove htied => hmove.tied htied) tied

-- ============================================================ many at once

/-- Names are read one after the other. -/
theorem Scope.GetsAll.moves {names : List String} {refs : List Ref}
    (h : scope.GetsAll outer names refs scope') (hreads : ∀ name ∈ names, rules.reads name)
    (tied : scope.Tied) : Moves outer rules scope scope' ∧ ∀ ref ∈ refs, scope'.Has ref := by
  induction h with
  | nil => exact ⟨.refl, fun _ hmem => nomatch hmem⟩
  | cons first rest ih =>
      rw [List.forall_mem_cons] at hreads
      obtain ⟨hmiddle, href⟩ := first.tied tied
      obtain ⟨hmoves, hrefs⟩ := ih hreads.2 hmiddle
      refine ⟨.head (.value hreads.1 first) hmoves, ?_⟩
      exact List.forall_mem_cons.2 ⟨href.extend hmoves.extends, hrefs⟩

/-- Operations are appended one after the other. -/
theorem Moves.apply_all {α : Type} {node : α → Node} (xs : List α)
    (h : ∀ x, ∃ op operands, (node x).action = .apply op operands ∧ ∀ ref ∈ operands, scope.Has ref) :
    Moves outer rules scope { scope with nodes := scope.nodes ++ xs.map node } := by
  induction xs generalizing scope with
  | nil =>
      rw [List.map_nil, List.append_nil]
  | cons x xs ih =>
      obtain ⟨op, operands, haction, hthere⟩ := h x
      have hfirst : Move outer rules scope
          (scope.append (.apply op operands) (node x).label scope.nodeNames scope.supply) :=
        .apply hthere
      have hnode : (⟨.apply op operands, (node x).label⟩ : Node) = node x :=
        haction ▸ rfl
      have hrest := @ih (scope.append (.apply op operands) (node x).label scope.nodeNames
        scope.supply) fun y => by
          obtain ⟨op', operands', haction', hthere'⟩ := h y
          exact ⟨op', operands', haction', fun ref href => (hthere' ref href).extend hfirst.extends⟩
      refine .head hfirst ?_
      rw [List.map_cons, ← hnode]
      simp only [Scope.append, List.append_assoc, List.singleton_append] at hrest ⊢
      exact hrest

/-- Outputs get their values one after the other. -/
theorem Moves.bound {pairs : List (String × Ref)}
    (h : ∀ pair ∈ pairs, pair.1.isEmpty = false → scope.Has pair.2
      ∧ ∀ bindings, rules.outputs { scope with bindings } pair.1) :
    Moves outer rules scope { scope with bindings := bound scope.bindings pairs } := by
  induction pairs generalizing scope with
  | nil => exact .refl
  | cons pair pairs ih =>
      rw [List.forall_mem_cons] at h
      obtain ⟨name, ref⟩ := pair
      rw [bound_cons]
      by_cases hempty : name.isEmpty = true
      · rw [if_pos hempty]
        exact ih h.2
      · rw [if_neg hempty]
        obtain ⟨hthere, hgiven⟩ := h.1 (Bool.eq_false_iff.2 hempty)
        refine .head (.output (hgiven scope.bindings) hthere) ?_
        refine @ih (scope.bind name ref) fun other hother hname => ?_
        obtain ⟨hthere', hgiven'⟩ := h.2 other hother hname
        exact ⟨hthere'.extend ⟨List.prefix_rfl, List.prefix_rfl⟩, hgiven'⟩

end OnnxLowering
