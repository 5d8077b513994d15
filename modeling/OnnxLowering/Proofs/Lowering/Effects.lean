/-
What a handler does to a scope, one effect after another. A handler asks
for the values of names, stores a tensor, appends nodes on behalf of its
node, and may put a loop on the module; nothing else in the scope changes
(`Effect.Happens`). Which effects there are, and in which order, is fixed
by the node, and by the graph inside if there is one: knowing more or less
about shapes never changes it.

`Does` says so of a step: whatever comes of it, if it succeeds, its effects
have happened. A property of scopes that every effect keeps is kept by
every step (`Effects.keeps`).
-/
import OnnxLowering.Proofs.Lowering.Asking
import OnnxLowering.Proofs.Lowering.Frame

namespace OnnxLowering

/-- What can happen to a scope while a node is lowered. -/
inductive Effect where
  /-- The value of a name is asked for. -/
  | value (name : String)
  /-- A tensor is stored that cannot be trained. -/
  | store (source : String) (tensor : Tensor)
  /-- A node is appended for one of the outputs. -/
  | node (output : Nat) (typed : Bool)
  /-- A loop is put on the module. -/
  | loop
deriving DecidableEq

variable {context : Context} {node : NodeOf Importer}

/-- An effect has happened to a scope, on behalf of a node. -/
inductive Effect.Happens (context : Context) (node : NodeOf Importer) : Effect → Scope → Scope → Prop
  | value {name : String} {scope scope' : Scope} {ref : Ref} {log log' : List LogRecord}
      (h : Lower.value name context ⟨scope, log⟩ = .ok ref ⟨scope', log'⟩) :
      Happens context node (.value name) scope scope'
  | store {source : String} {t : Tensor} {scope scope' : Scope} {ref : Ref}
      {log log' : List LogRecord}
      (h : Lower.materialise source t (some false) context ⟨scope, log⟩ = .ok ref ⟨scope', log'⟩) :
      Happens context node (.store source t) scope scope'
  | node {scope : Scope} {output : Nat} {typed : Bool} {action : Action} {nodeNames : List String}
      {supply : NameSupply} : Happens context node (.node output typed) scope { scope with
        nodes := scope.nodes ++ [⟨action, Lower.labelOf scope node output typed⟩]
        nodeNames, supply }
  | loop {scope : Scope} {loops : NameMap Loop} {loopCounters : Counters} :
      Happens context node .loop scope { scope with loops, loopCounters }

/-- Effects have happened to a scope, one after another. -/
inductive Effects (context : Context) (node : NodeOf Importer) : List Effect → Scope → Scope → Prop
  | nil {scope : Scope} : Effects context node [] scope scope
  | cons {effect : Effect} {effects : List Effect} {scope middle scope' : Scope}
      (first : effect.Happens context node scope middle)
      (rest : Effects context node effects middle scope') :
      Effects context node (effect :: effects) scope scope'

theorem Effects.append {effects effects' : List Effect} {scope middle scope' : Scope}
    (h : Effects context node effects scope middle) (h' : Effects context node effects' middle scope') :
    Effects context node (effects ++ effects') scope scope' := by
  induction h with
  | nil => exact h'
  | cons first _ ih => exact .cons first (ih h')

/-- Nodes are appended, one for each of some outputs. -/
theorem Effects.of_nodes {outputs : List Nat} {action : Nat → Action} {scope : Scope} :
    Effects context node (outputs.map (Effect.node · true)) scope { scope with
      nodes := scope.nodes
        ++ outputs.map fun output => ⟨action output, Lower.labelOf scope node output true⟩ } := by
  induction outputs generalizing scope with
  | nil =>
      rw [List.map_nil, List.map_nil, List.append_nil]
      exact .nil
  | cons output outputs ih =>
      have hrest := @ih { scope with
        nodes := scope.nodes ++ [⟨action output, Lower.labelOf scope node output true⟩] }
      simp only [List.append_assoc, List.singleton_append] at hrest
      exact .cons .node hrest

/-- A loop is put on the module, with its call and a node for each of some
outputs. -/
theorem Effects.of_loop {outputs : List Nat} {call : Action} {action : Nat → Action} {scope : Scope}
    {loops : NameMap Loop} {loopCounters : Counters} {nodeNames : List String} {supply : NameSupply} :
    Effects context node (.loop :: .node 0 false :: outputs.map (Effect.node · true)) scope { scope with
      loops, loopCounters
      nodes := scope.nodes ++ ⟨call, Lower.labelOf scope node 0 false⟩
        :: outputs.map fun output => ⟨action output, Lower.labelOf scope node output true⟩
      nodeNames, supply } := by
  have hrest := @Effects.of_nodes context node outputs action { scope with
    loops, loopCounters, nodeNames, supply
    nodes := scope.nodes ++ [⟨call, Lower.labelOf scope node 0 false⟩] }
  simp only [List.append_assoc, List.singleton_append] at hrest
  exact .cons (@Effect.Happens.loop context node scope loops loopCounters)
    (.cons (@Effect.Happens.node context node _ 0 false call nodeNames supply) hrest)

/-- What every effect keeps is kept. -/
theorem Effects.keeps {P : Scope → Prop} {effects : List Effect} {scope scope' : Scope}
    (hkeeps : ∀ {effect : Effect} {scope scope' : Scope},
      effect.Happens context node scope scope' → P scope → P scope')
    (h : Effects context node effects scope scope') (hscope : P scope) : P scope' := by
  induction h with
  | nil => exact hscope
  | cons first _ ih => exact ih (hkeeps first hscope)


namespace Lower

variable {α β : Type} {x : Lower α} {f : α → Lower β} {effect : Effect} {effects : List Effect}
  {after : α → Scope → Prop} {afterAll : β → Scope → Prop}

/-- If a step succeeds, the effects have happened, and its value and the
scope it leaves are in a relation. -/
def Does (context : Context) (node : NodeOf Importer) (x : Lower α) (effects : List Effect)
    (after : α → Scope → Prop) : Prop :=
  ∀ session a session', x context session = .ok a session' →
    Effects context node effects session.scope session'.scope ∧ after a session'.scope

namespace Does

theorem pure {a : α} (h : ∀ scope, after a scope) : (pure a : Lower α).Does context node [] after := by
  intro session b session' hrun
  obtain ⟨rfl, rfl⟩ := pure_eq_ok.1 hrun
  exact ⟨.nil, h _⟩

theorem throw {error : LowerError} : (throw error : Lower α).Does context node effects after :=
  fun _ _ _ hrun => nomatch hrun

/-- One effect, and what comes after it. -/
theorem cons (h : x.Does context node [effect] after)
    (hf : ∀ a, (f a).Does context node effects afterAll) :
    (x >>= f).Does context node (effect :: effects) afterAll := by
  intro session b session' hrun
  obtain ⟨a, middle, hfirst, hrest⟩ := bind_eq_ok.1 hrun
  obtain ⟨heffects, -⟩ := h _ _ _ hfirst
  obtain ⟨hothers, hafter⟩ := hf a _ _ _ hrest
  exact ⟨heffects.append hothers, hafter⟩

/-- A step that only reads, and what comes after it. -/
theorem skip_of (h : x.Reads) (hf : ∀ a session left, x context session = .ok a left →
      (f a).Does context node effects afterAll) : (x >>= f).Does context node effects afterAll := by
  intro session b session' hrun
  obtain ⟨a, middle, hfirst, hrest⟩ := bind_eq_ok.1 hrun
  rw [← h.scope_of_ok hfirst]
  exact hf a _ _ hfirst _ _ _ hrest

theorem skip (h : x.Reads) (hf : ∀ a, (f a).Does context node effects afterAll) :
    (x >>= f).Does context node effects afterAll := skip_of h fun a _ _ _ => hf a

/-- A value that is made of that of the last step. -/
theorem returns {g : α → β} (h : x.Does context node effects after)
    (hafter : ∀ a scope, after a scope → afterAll (g a) scope) :
    (x >>= fun a => Pure.pure (g a)).Does context node effects afterAll := by
  intro session b session' hrun
  obtain ⟨a, middle, hfirst, hrest⟩ := bind_eq_ok.1 hrun
  obtain ⟨rfl, rfl⟩ := pure_eq_ok.1 hrest
  obtain ⟨heffects, ha⟩ := h _ _ _ hfirst
  exact ⟨heffects, hafter a _ ha⟩

theorem guard {c : Prop} [Decidable c] {error : LowerError} (h : x.Does context node effects after) :
    (if c then (MonadExcept.throw error : Lower PUnit) >>= fun _ => x else x).Does context node
      effects after :=
  fun session a session' hrun => h session a session' (guard_eq_ok.1 hrun).2

theorem guard' {c : Prop} [Decidable c] {error : LowerError} (h : x.Does context node effects after) :
    (if c then x else (MonadExcept.throw error : Lower PUnit) >>= fun _ => x).Does context node
      effects after :=
  fun session a session' hrun => h session a session' (guard_eq_ok'.1 hrun).2

end Does

-- ================================================================ primitives

theorem inputName_reads {index : Nat} : (inputName node index).Reads := by
  unfold inputName
  cases node.inputs[index]? with
  | none => exact .throw _
  | some name => exact .pure name

theorem value_does {name : String} : (value name).Does context node [.value name]
    fun ref scope => scope.Stands name ref :=
  fun _ _ _ hrun => ⟨.cons (.value hrun) .nil, stands_of_value hrun⟩

theorem mapM_value_does {names : List String} : (names.mapM value).Does context node
    (names.map Effect.value) fun _ _ => True := by
  induction names with
  | nil => exact .pure fun _ => trivial
  | cons name names ih =>
      rw [List.mapM_cons]
      exact value_does.cons fun ref => ih.returns fun _ _ _ => trivial

/-- The value of an input is asked for under its name. -/
theorem input_does {index : Nat} : (input node index).Does context node
    [.value (node.inputs.getD index "")]
    fun ref scope => scope.Stands (node.inputs.getD index "") ref := by
  refine .skip_of inputName_reads fun name session left hname => ?_
  obtain ⟨hname, -⟩ := inputName_eq_ok hname
  rw [List.getD_eq_getElem?_getD, hname]
  exact value_does

/-- A tensor that is stored is read by the last node of the scope. -/
theorem materialise_does {source : String} {t : Tensor} :
    (materialise source t (some false)).Does context node [.store source t]
      fun ref scope => ∃ k, ref = .node k ∧ k + 1 = scope.nodes.length := by
  intro session ref session' hrun
  obtain ⟨rfl, stores⟩ := materialise_eq_ok hrun
  obtain ⟨place, trainable, label, nodeNames, supply, attributeCounters, -, hscope⟩ := stores
  refine ⟨.cons (.store hrun) .nil, ?_⟩
  rw [hscope]
  exact ⟨_, rfl, by simp⟩

/-- An operation is appended as the last node. -/
theorem apply_does {op : Op} {operands : List Ref} {output : Nat} :
    (apply node op operands output).Does context node [.node output true]
      fun ref scope => ∃ k, ref = .node k ∧ k + 1 = scope.nodes.length := by
  intro session ref session' hrun
  unfold apply at hrun
  rw [bind_apply, scope_apply] at hrun
  simp only [addNode_apply, Scope.addNode_eq] at hrun
  cases hrun
  exact ⟨.cons .node .nil, _, rfl, by simp⟩

end Lower

end OnnxLowering
