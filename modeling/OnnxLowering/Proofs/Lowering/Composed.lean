/-
What the lowering is composed of. Whatever happens to the scope of a graph
happens in a few steps: a value is asked for, a tensor is stored or known,
a node or an input is appended, a loop is put on the module, a name gets a
value, the module is finished. `Composed` says of a computation that it is
put together from these steps, each of which may fail, and from others that
only read. The handlers are, and so is the lowering of a whole graph
(`lowerGraph_composed`).

A composed computation changes its scope by `Step`s, whether it succeeds or
fails (`Composed.steps`). So what every one of them keeps is kept by
whatever anyone composes.
-/
import OnnxLowering.Proofs.Lowering.Resolution

namespace OnnxLowering

-- ================================================================= changes

/-- A change to a scope. Only certain names are given a value or a tensor;
what no name stands for may change in any way. -/
inductive Scope.Step (context : Context) (gives : String → Prop) : Scope → Scope → Prop
  | value {scope scope' : Scope} {name : String} {ref : Ref} {log log' : List LogRecord}
      (h : Lower.value name context ⟨scope, log⟩ = .ok ref ⟨scope', log'⟩) :
      Step context gives scope scope'
  | constant {scope scope' : Scope} {source : String} {t : Tensor} (given : gives source)
      (stores : scope.Stores source t scope') : Step context gives scope scope'
  | bound {scope : Scope} {name : String} {ref : Ref} (given : gives name) :
      Step context gives scope (scope.bind name ref)
  | known {scope : Scope} {name : String} {t : Tensor} :
      Step context gives scope { scope with tensors := scope.tensors.insert name t }
  | input {scope scope' : Scope} {name : String} (given : gives name)
      (feeds : scope.Feeds name scope') : Step context gives scope scope'
  | module {scope : Scope} {nodes : List Node} {nodeNames : List String} {supply : NameSupply}
      {loops : NameMap Loop} {finished : Option (List String)}
      {attributeCounters loopCounters : Counters} :
      Step context gives scope { scope with
        nodes, nodeNames, supply, loops, finished, attributeCounters, loopCounters }

/-- Any number of changes. -/
abbrev Scope.Steps (context : Context) (gives : String → Prop) : Scope → Scope → Prop :=
  Relation.ReflTransGen (Scope.Step context gives)

/-- What every change keeps is kept by any number of them. -/
theorem Scope.Steps.keep {P : Scope → Prop} {context : Context} {gives : String → Prop}
    {scope scope' : Scope} (h : Scope.Steps context gives scope scope')
    (hstep : ∀ {scope scope' : Scope}, Scope.Step context gives scope scope' → P scope → P scope')
    (hscope : P scope) : P scope' := by
  induction h with
  | refl => exact hscope
  | tail _ step ih => exact hstep step ih

namespace Lower

-- ============================================================= composition

/-- A value that a computation can return. -/
def Returns {α : Type} (x : Lower α) (a : α) : Prop :=
  ∃ context session session', x context session = .ok a session'

/-- A computation that is put together from the steps of the lowering, and
gives a value or a constant to certain names only. -/
inductive Composed (gives : String → Prop) : {α : Type} → Lower α → Prop
  | reads {α : Type} {x : Lower α} (h : x.Reads) : Composed gives x
  | sequence {α β : Type} {x : Lower α} {f : α → Lower β} (first : Composed gives x)
      (rest : ∀ a, x.Returns a → Composed gives (f a)) : Composed gives (x >>= f)
  | value (name : String) : Composed gives (value name)
  | materialise {source : String} (given : gives source) (t : Tensor) (trainable : Option Bool) :
      Composed gives (materialise source t trainable)
  | bound {name : String} (given : gives name) (ref : Ref) : Composed gives (Lower.bind name ref)
  | known (name : String) (t : Tensor) :
      Composed gives (modifyScope fun scope => { scope with tensors := scope.tensors.insert name t })
  | input {info : ValueInfo} (given : gives info.name) : Composed gives (addGraphInput info)
  | addNode (action : Action) (label : Label) : Composed gives (addNode action label)
  | registerLoop (base : String) (loop : Loop) : Composed gives (registerLoop base loop)
  | finished : Composed gives (modifyScope fun scope => { scope with finished := some scope.calls })

section

variable {α β : Type} {gives : String → Prop} {x : Lower α} {context : Context}
  {session session' : Session}

theorem last_bind (x : Lower α) (f : α → Lower β) :
    (x >>= f).last context session = match x context session with
      | .ok a session => (f a).last context session
      | .error _ session => session := by
  unfold last
  rw [bind_apply]
  cases x context session <;> rfl

theorem Reads.last_scope (h : x.Reads) : (x.last context session).scope = session.scope := by
  have hscopes := h context session
  unfold scopesAfter at hscopes
  unfold last
  cases hx : x context session with
  | ok a session' =>
      rw [hx] at hscopes
      exact (List.cons.inj hscopes).1
  | error error session' =>
      rw [hx] at hscopes
      exact (List.cons.inj hscopes).1

/-- A failed step has used up a name at most. -/
theorem materialise_eq_error {source : String} {t : Tensor} {trainable : Option Bool}
    {error : LowerError} (h : materialise source t trainable context session = .error error session') :
    session'.scope = session.scope.takeAttribute (Identifier.sanitize source) := by
  rw [materialise_apply] at h
  simp only at h
  split at h
  · cases h
    rfl
  · split at h <;> cases h
    rfl

/-- A tensor of a name is stored and bound to it, or its name on the module
is used up. -/
theorem materialise_bind_eq_error {name : String} {t : Tensor} {trainable : Option Bool}
    {error : LowerError}
    (h : (do
        let ref ← materialise name t trainable
        Lower.bind name ref
        return ref) context session = .error error session') :
    session'.scope = session.scope.takeAttribute (Identifier.sanitize name) := by
  rcases bind_eq_error.1 h with h | ⟨ref, middle, -, h⟩
  · exact materialise_eq_error h
  · cases h

theorem capture_eq_error {name : String} {error : LowerError}
    (h : capture name context session = .error error session') :
    session'.scope = session.scope.takeAttribute (Identifier.sanitize name) := by
  unfold capture at h
  rw [bind_apply, read_apply] at h
  simp only at h
  cases htensor : Scopes.tensor? context.outer name with
  | some t =>
      rw [htensor] at h
      exact materialise_bind_eq_error h
  | none =>
      rw [htensor] at h
      cases h

theorem value_eq_error {name : String} {error : LowerError}
    (h : value name context session = .error error session') :
    session'.scope = session.scope
      ∨ session'.scope = session.scope.takeAttribute (Identifier.sanitize name) := by
  cases hname : name.isEmpty with
  | true =>
      unfold value at h
      rw [if_pos hname] at h
      cases h
      exact .inl rfl
  | false =>
      rw [value_apply hname] at h
      cases hresolve : session.scope.resolve context.outer name with
      | value ref =>
          rw [hresolve] at h
          cases h
      | initial t =>
          rw [hresolve] at h
          exact .inr (materialise_eq_error h)
      | known t =>
          rw [hresolve] at h
          exact .inr (materialise_bind_eq_error h)
      | copied t =>
          rw [hresolve] at h
          exact .inr (materialise_bind_eq_error h)
      | captured =>
          rw [hresolve] at h
          exact .inr (capture_eq_error h)
      | unknown =>
          rw [hresolve] at h
          cases h
          exact .inl rfl

/-- Using up a name changes nothing that a name stands for. -/
theorem takeAttribute_steps (scope : Scope) (base : String) :
    Scope.Steps context gives scope (scope.takeAttribute base) := .single .module

theorem value_steps (name : String) :
    Scope.Steps context gives session.scope ((value name).last context session).scope := by
  unfold last
  cases hx : value name context session with
  | ok ref session' => exact .single (.value hx)
  | error error session' =>
      rcases value_eq_error hx with hscope | hscope
      · simp only [hscope]
        exact .refl
      · simp only [hscope]
        exact takeAttribute_steps _ _

theorem materialise_steps {source : String} (given : gives source) (t : Tensor)
    (trainable : Option Bool) : Scope.Steps context gives session.scope
      ((materialise source t trainable).last context session).scope := by
  unfold last
  cases hx : materialise source t trainable context session with
  | ok ref session' => exact .single (.constant given (materialise_eq_ok hx).2)
  | error error session' =>
      simp only [materialise_eq_error hx]
      exact takeAttribute_steps _ _

theorem registerLoop_steps (base : String) (loop : Loop) :
    Scope.Steps context gives session.scope
      ((registerLoop base loop).last context session).scope := by
  unfold last
  rw [registerLoop_apply]
  by_cases hadmits : (session.scope.takeLoop (Identifier.sanitize base)).admitsLoop
      (loopName session.scope base) = true
  · simp only [hadmits, if_true]
    exact .single .module
  · simp only [hadmits]
    exact .single .module

/-- What a composed computation does to its scope, it does by steps, whether
it succeeds or fails. -/
theorem Composed.steps (h : Composed gives x) (session : Session) :
    Scope.Steps context gives session.scope (x.last context session).scope := by
  induction h generalizing session with
  | reads h => rw [h.last_scope]
  | @sequence _ _ x f _ _ hfirst hrest =>
      have hx := hfirst session
      rw [last_bind]
      unfold last at hx
      cases hrun : x context session with
      | ok a middle =>
          rw [hrun] at hx
          exact hx.trans (hrest a ⟨context, session, middle, hrun⟩ middle)
      | error error middle =>
          rw [hrun] at hx
          exact hx
  | value name => exact value_steps name
  | materialise given t trainable => exact materialise_steps given t trainable
  | bound given ref => exact .single (.bound given)
  | known name t => exact .single .known
  | @input info given =>
      cases hx : addGraphInput info context session with
      | ok u session' =>
          unfold last
          rw [hx]
          exact .single (.input given (addGraphInput_eq_ok hx))
      | error error session' => cases hx
  | addNode action label =>
      unfold last
      rw [addNode_apply, Scope.addNode_eq]
      exact .single .module
  | registerLoop base loop => exact registerLoop_steps base loop
  | finished => exact .single .module

theorem Composed.steps_of_ok {a : α} (h : Composed gives x) (hx : x context session = .ok a session') :
    Scope.Steps context gives session.scope session'.scope := by
  have hsteps := @h.steps _ _ _ context session
  rwa [last, hx] at hsteps

end

end Lower

end OnnxLowering
