/-
Single steps of the lowering, as functions of a context and a session.
Every primitive has an equation for what it returns and leaves behind,
and `bind_eq_ok` takes a successful sequence of steps apart. Proofs about
handlers go through these and never look at the monad.
-/
import Mathlib.Tactic.Common
import OnnxLowering.Proofs.Except
import OnnxLowering.Proofs.Lists
import OnnxLowering.Lowering.Graph

namespace OnnxLowering

-- ============================================================= appending

namespace Scope

theorem addNode_eq (scope : Scope) (action : Action) (label : Label) :
    scope.addNode action label = (.node scope.nodes.length,
      { scope with
          nodes := scope.nodes ++ [⟨action, label⟩]
          nodeNames := scope.nodeNames ++ [(scope.supply.create action.wish).1]
          supply := (scope.supply.create action.wish).2 }) := by
  unfold addNode
  generalize scope.supply.create action.wish = created
  rfl

theorem addInput_eq (scope : Scope) (source preferred : String) :
    scope.addInput source preferred =
      let name := (scope.inputCounters.take (Identifier.sanitize preferred)).1
      (.input scope.inputs.length,
        { scope with
            inputs := scope.inputs ++ [⟨name, { name := some source, identifier := some name }⟩]
            inputCounters := (scope.inputCounters.take (Identifier.sanitize preferred)).2
            supply := (scope.supply.create (variableWish name)).2 }) := by
  unfold addInput
  generalize scope.inputCounters.take (Identifier.sanitize preferred) = taken
  generalize hcreated : scope.supply.create (variableWish taken.1) = created
  simp only [hcreated]

end Scope

namespace Lower

variable {α β : Type} {context : Context} {session session' : Session}

-- ============================================================ sequencing

theorem bind_apply (x : Lower α) (f : α → Lower β) :
    (x >>= f) context session =
      match x context session with
      | .ok a session => f a context session
      | .error error session => .error error session := by
  show EStateM.bind (x context) (fun a => f a context) session = _
  unfold EStateM.bind
  cases x context session <;> rfl

theorem map_apply (f : α → β) (x : Lower α) :
    (f <$> x) context session =
      match x context session with
      | .ok a session => .ok (f a) session
      | .error error session => .error error session := by
  show EStateM.map f (x context) session = _
  unfold EStateM.map
  cases x context session <;> rfl

/-- A sequence of two steps succeeds if the first does, and then the
second where the first has ended. -/
theorem bind_eq_ok {x : Lower α} {f : α → Lower β} {b : β} :
    (x >>= f) context session = .ok b session' ↔
      ∃ a middle, x context session = .ok a middle ∧ f a context middle = .ok b session' := by
  rw [bind_apply]
  constructor
  · intro h
    cases hx : x context session with
    | ok a middle =>
        rw [hx] at h
        exact ⟨a, middle, rfl, h⟩
    | error error middle =>
        rw [hx] at h
        cases h
  · rintro ⟨a, middle, hx, hf⟩
    rw [hx]
    exact hf

theorem map_eq_ok {f : α → β} {x : Lower α} {b : β} :
    (f <$> x) context session = .ok b session' ↔
      ∃ a, x context session = .ok a session' ∧ f a = b := by
  rw [map_apply]
  cases hx : x context session with
  | ok a middle =>
      constructor
      · intro h
        cases h
        exact ⟨a, rfl, rfl⟩
      · rintro ⟨_, h, rfl⟩
        cases h
        rfl
  | error error middle => exact ⟨fun h => (nomatch h), fun ⟨_, h, _⟩ => (nomatch h)⟩

@[simp] theorem pure_apply (a : α) :
    (pure a : Lower α) context session = .ok a session := rfl

@[simp] theorem throw_apply (error : LowerError) :
    (throw error : Lower α) context session = .error error session := rfl

theorem pure_eq_ok {a b : α} :
    (pure a : Lower α) context session = .ok b session' ↔ a = b ∧ session = session' := by
  rw [pure_apply]
  constructor
  · intro h
    cases h
    exact ⟨rfl, rfl⟩
  · rintro ⟨rfl, rfl⟩
    rfl

theorem ite_apply {c : Prop} [Decidable c] (x y : Lower α) :
    (if c then x else y) context session
      = if c then x context session else y context session := by
  split <;> rfl

/-- A step that comes after a check succeeds if the check lets pass and
the step succeeds. -/
theorem guard_eq_ok {c : Prop} [Decidable c] {error : LowerError} {x : Lower α} {a : α} :
    (if c then (throw error : Lower PUnit) >>= fun _ => x else x) context session
        = .ok a session' ↔
      ¬ c ∧ x context session = .ok a session' := by
  by_cases hc : c
  · rw [if_pos hc]
    exact ⟨fun h => (nomatch h), fun h => absurd hc h.1⟩
  · rw [if_neg hc]
    exact ⟨fun h => ⟨hc, h⟩, fun h => h.2⟩

theorem guard_eq_ok' {c : Prop} [Decidable c] {error : LowerError} {x : Lower α} {a : α} :
    (if c then x else (throw error : Lower PUnit) >>= fun _ => x) context session
        = .ok a session' ↔
      c ∧ x context session = .ok a session' := by
  by_cases hc : c
  · rw [if_pos hc]
    exact ⟨fun h => ⟨hc, h⟩, fun h => h.2⟩
  · rw [if_neg hc]
    exact ⟨fun h => (nomatch h), fun h => absurd h.1 hc⟩

/-- Whether a step succeeds. -/
def succeeds (x : Lower α) (context : Context) (session : Session) : Bool :=
  match x context session with
  | .ok .. => true
  | .error .. => false

theorem exists_of_succeeds {x : Lower α} (h : x.succeeds context session = true) :
    ∃ a session', x context session = .ok a session' := by
  unfold succeeds at h
  cases hx : x context session with
  | ok a session' => exact ⟨a, session', rfl⟩
  | error error session' =>
      rw [hx] at h
      cases h

/-- The session that a step leaves behind. -/
def last (x : Lower α) (context : Context) (session : Session) : Session :=
  match x context session with
  | .ok _ session => session
  | .error _ session => session

/-- Whether a step succeeds with a value that passes a test. -/
def succeedsWith (x : Lower α) (test : α → Bool) (context : Context) (session : Session) : Bool :=
  match x context session with
  | .ok a _ => test a
  | .error .. => false

theorem exists_of_succeedsWith {x : Lower α} {test : α → Bool}
    (h : x.succeedsWith test context session = true) :
    ∃ a, x context session = .ok a (x.last context session) ∧ test a = true := by
  unfold succeedsWith at h
  unfold last
  cases hx : x context session with
  | ok a session' =>
      rw [hx] at h
      exact ⟨a, rfl, h⟩
  | error error session' =>
      rw [hx] at h
      cases h

-- ============================================================ primitives

@[simp] theorem read_apply :
    (read : Lower Context) context session = .ok context session := rfl

@[simp] theorem opset_apply : opset context session = .ok context.opset session := rfl

@[simp] theorem scope_apply : scope context session = .ok session.scope session := rfl

@[simp] theorem scopes_apply :
    scopes context session = .ok (session.scope :: context.outer) session := rfl

@[simp] theorem modifyScope_apply (f : Scope → Scope) :
    modifyScope f context session = .ok () { session with scope := f session.scope } := rfl

@[simp] theorem report_apply (record : LogRecord) :
    report record context session
      = .ok () { session with log := session.log ++ [record] } := rfl

@[simp] theorem withScope_apply (f : Scope → α × Scope) :
    withScope f context session
      = .ok (f session.scope).1 { session with scope := (f session.scope).2 } := rfl

@[simp] theorem addNode_apply (action : Action) (label : Label) :
    addNode action label context session
      = .ok (.node session.scope.nodes.length)
          { session with scope := (session.scope.addNode action label).2 } := by
  rw [addNode, withScope_apply, Scope.addNode_eq]

@[simp] theorem bind_name_apply (name : String) (ref : Ref) :
    Lower.bind name ref context session
      = .ok () { session with scope := session.scope.bind name ref } := rfl

theorem bindOutput_apply (name : String) (ref : Ref) :
    bindOutput name ref context session
      = .ok () { session with
          scope := if name.isEmpty then session.scope else session.scope.bind name ref } := by
  unfold bindOutput
  cases name.isEmpty <;> rfl

theorem ofExcept_eq_ok {ε : Type} {wrap : ε → LowerError} {x : Except ε α} {a : α} :
    ofExcept wrap x context session = .ok a session' ↔ x = .ok a ∧ session = session' := by
  cases x with
  | ok b =>
      rw [ofExcept, pure_eq_ok]
      exact ⟨fun h => ⟨by rw [h.1], h.2⟩, fun h => ⟨Except.ok.inj h.1, h.2⟩⟩
  | error e => exact ⟨fun h => (nomatch h), fun h => (nomatch h.1)⟩

end Lower

-- ============================================================= constants

namespace Scope

/-- The scope after a name of the given base has been handed out to a
tensor. -/
def takeAttribute (scope : Scope) (base : String) : Scope :=
  { scope with attributeCounters := (scope.attributeCounters.take base).2 }

/-- The scope after a name of the given base has been handed out to a
loop. -/
def takeLoop (scope : Scope) (base : String) : Scope :=
  { scope with loopCounters := (scope.loopCounters.take base).2 }

/-- The scope with a tensor of the name `source` stored on the module
under `name`, and a node that reads it. -/
def store (scope : Scope) (source name : String) (tensor : Tensor) (trainable : Bool) :
    Scope :=
  let label : Label :=
    { name := some source
      op := some "Constant"
      shape := some (some tensor.shape.known)
      dtype := some (some tensor.dtype) }
  { (scope.addNode (.load name) label).2 with
      attributes := scope.attributes.insert name ⟨tensor, trainable⟩
      constants := scope.constants.insert source (.node scope.nodes.length)
      tensors := scope.tensors.insert source tensor }

end Scope

namespace Lower

variable {context : Context} {session : Session}

/-- The name under which a tensor is about to be stored. -/
def attributeName (scope : Scope) (source : String) : String :=
  (scope.attributeCounters.take (Identifier.sanitize source)).1

/-- The name under which a loop is about to be put on the module. -/
def loopName (scope : Scope) (base : String) : String :=
  (scope.loopCounters.take (Identifier.sanitize base)).1

/-- A constant is stored under the next name of its base, unless it
cannot be trained as asked or the name is taken; the name is used up in
any case. -/
theorem materialise_apply (source : String) (tensor : Tensor) (trainable : Option Bool) :
    materialise source tensor trainable context session =
      let name := attributeName session.scope source
      let taken := session.scope.takeAttribute (Identifier.sanitize source)
      let flag := trainable.getD tensor.dtype.isDifferentiable
      if flag && !tensor.dtype.isDifferentiable then
        .error .notTrainable { session with scope := taken }
      else if taken.admitsAttribute name flag then
        .ok (.node session.scope.nodes.length)
          { session with scope := taken.store source name tensor flag }
      else .error (.nameTaken name) { session with scope := taken } := by
  simp only [materialise, bind_apply, withScope_apply, scope_apply, ite_apply, throw_apply,
    modifyScope_apply, addNode_apply, pure_apply, attributeName, Scope.takeAttribute,
    Scope.store, Scope.addNode_eq]

/-- A constant that is not to be trained is only refused because of its
name. -/
theorem materialise_of_untrained {source : String} {tensor : Tensor} {trainable : Option Bool}
    (h : trainable.getD false = false) :
    materialise source tensor trainable context session =
      let name := attributeName session.scope source
      let taken := session.scope.takeAttribute (Identifier.sanitize source)
      let flag := trainable.getD tensor.dtype.isDifferentiable
      if taken.admitsAttribute name flag then
        .ok (.node session.scope.nodes.length)
          { session with scope := taken.store source name tensor flag }
      else .error (.nameTaken name) { session with scope := taken } := by
  have hflag : ¬ (trainable.getD tensor.dtype.isDifferentiable
      && !tensor.dtype.isDifferentiable) = true := by
    cases trainable with
    | none => simp
    | some flag =>
        obtain rfl : flag = false := h
        simp
  rw [materialise_apply]
  exact if_neg hflag

/-- A loop gets the next name of its base, unless that name is taken; the
name is used up in any case. -/
theorem registerLoop_apply (base : String) (loop : Loop) :
    registerLoop base loop context session =
      let name := loopName session.scope base
      let taken := session.scope.takeLoop (Identifier.sanitize base)
      if taken.admitsLoop name then
        .ok name { session with scope := { taken with loops := taken.loops.insert name loop } }
      else .error (.nameTaken name) { session with scope := taken } := by
  simp only [registerLoop, bind_apply, withScope_apply, scope_apply, ite_apply, throw_apply,
    modifyScope_apply, pure_apply]
  rfl

end Lower

-- ================================================================== nodes

/-- The names that stand for values once some more do; an empty name
stands for none. -/
def bound (bindings : NameMap Ref) (pairs : List (String × Ref)) : NameMap Ref :=
  pairs.foldl (fun bindings (name, ref) =>
    if name.isEmpty then bindings else bindings.insert name ref) bindings

theorem bound_cons (bindings : NameMap Ref) (name : String) (ref : Ref)
    (pairs : List (String × Ref)) :
    bound bindings ((name, ref) :: pairs)
      = bound (if name.isEmpty then bindings else bindings.insert name ref) pairs := rfl

theorem find?_bound_of_ne {bindings : NameMap Ref} {pairs : List (String × Ref)} {name : String}
    (h : ∀ pair ∈ pairs, pair.1 ≠ name) :
    (bound bindings pairs).find? name = bindings.find? name := by
  induction pairs generalizing bindings with
  | nil => rfl
  | cons pair pairs ih =>
      rw [List.forall_mem_cons] at h
      rw [bound_cons, ih h.2]
      split
      · rfl
      · exact NameMap.find?_insert_of_ne _ _ h.1.symm

/-- A name stands for the last value that it gets. -/
theorem find?_bound {bindings : NameMap Ref} {pairs : List (String × Ref)} {i : Nat} {name : String}
    {ref : Ref} (hi : pairs[i]? = some (name, ref)) (hname : name.isEmpty = false)
    (hlast : ∀ pair ∈ pairs.drop (i + 1), pair.1 ≠ name) :
    (bound bindings pairs).find? name = some ref := by
  induction pairs generalizing bindings i with
  | nil => cases hi
  | cons pair pairs ih =>
      cases i with
      | zero =>
          cases hi
          replace hlast : ∀ pair ∈ pairs, pair.1 ≠ name := hlast
          rw [bound_cons, find?_bound_of_ne hlast]
          simp [hname]
      | succ i => exact ih hi hlast

/-- The names that a result gives a value to, with the value. -/
def Result.pairs {G : Type} (node : NodeOf G) : Result → List (String × Ref)
  | .one ref => (node.namedOutputs.take 1).map (·, ref)
  | .many refs => node.outputs.zip refs
  | _ => []

namespace Lower

variable {G : Type} {node : NodeOf G} {context : Context} {session session' : Session}

theorem forIn_bindOutput_eq_ok {pairs : List (String × Ref)} {u : PUnit}
    (h : (forIn pairs PUnit.unit fun pair _ => do
        bindOutput pair.1 pair.2
        pure (ForInStep.yield PUnit.unit) : Lower PUnit) context session = .ok u session') :
    session' = { session with
      scope := { session.scope with bindings := bound session.scope.bindings pairs } } := by
  induction pairs generalizing session with
  | nil =>
      rw [List.forIn_nil] at h
      cases h
      rfl
  | cons pair pairs ih =>
      rw [List.forIn_cons] at h
      obtain ⟨_, middle, hbind, h⟩ := bind_eq_ok.1 h
      obtain ⟨_, _, hpair, hyield⟩ := bind_eq_ok.1 hbind
      cases hyield
      rw [bindOutput_apply] at hpair
      rw [@ih middle h]
      cases hpair
      by_cases hempty : pair.1.isEmpty = true
      · simp only [bound, List.foldl_cons, hempty, if_true]
      · simp only [bound, List.foldl_cons, hempty, if_false, Bool.false_eq_true, Scope.bind]

/-- The outputs of a node stand for the values of its result. -/
theorem bindResult_eq_ok {result : Result} {u : Unit}
    (h : bindResult node result context session = .ok u session') :
    session' = { session with scope := { session.scope with
      bindings := bound session.scope.bindings (result.pairs node) } } := by
  cases result with
  | nothing =>
      cases h
      rfl
  | one ref =>
      unfold bindResult bindOne at h
      cases houtputs : node.namedOutputs with
      | nil =>
          rw [houtputs] at h
          cases h
          rw [Result.pairs, houtputs]
          rfl
      | cons name others =>
          rw [houtputs] at h
          obtain ⟨_, _, hbind, h⟩ := bind_eq_ok.1 h
          cases hbind
          obtain ⟨_, _, hscope, h⟩ := bind_eq_ok.1 h
          cases hscope
          have hname : name.isEmpty = false := by
            have hmem : name ∈ node.namedOutputs := houtputs ▸ List.mem_cons_self
            exact Bool.not_inj (List.mem_filter.1 hmem).2
          rw [Result.pairs, houtputs]
          split at h
          · cases h
          · cases h
            simp only [bound, List.take_succ_cons, List.take_zero, List.map_cons, List.map_nil,
              List.foldl_cons, List.foldl_nil, hname, Bool.false_eq_true, if_false]
            rfl
  | many refs =>
      unfold bindResult bindMany at h
      obtain ⟨-, h⟩ := guard_eq_ok.1 h
      obtain ⟨_, _, hfor, h⟩ := bind_eq_ok.1 h
      cases h
      exact forIn_bindOutput_eq_ok hfor
  | unsupported => cases h

/-- There are values for all outputs of a node. -/
theorem length_outputs_le {refs : List Ref} {u : Unit}
    (h : bindResult node (.many refs) context session = .ok u session') :
    node.outputs.length ≤ refs.length := by
  unfold bindResult bindMany at h
  obtain ⟨hcount, -⟩ := guard_eq_ok.1 h
  omega

/-- The handler of a node is the one that the registry has for it. -/
theorem handlerOf_eq_ok {handlers : Handlers} {handler : Handler} :
    handlerOf handlers node context session = .ok handler session' ↔
      defaultDomains.contains node.domain = true
        ∧ (∃ version, handlers.find? node.op context.opset = some (version, handler))
        ∧ session = session' := by
  unfold handlerOf
  rw [guard_eq_ok']
  refine and_congr_right fun _ => ?_
  simp only [bind_apply, opset_apply]
  cases hfind : handlers.find? node.op context.opset with
  | none =>
      refine ⟨fun h => ?_, fun ⟨⟨_, h⟩, _⟩ => nomatch h⟩
      simp only at h
      split at h <;> cases h
  | some entry =>
      constructor
      · intro h
        obtain ⟨rfl, rfl⟩ := pure_eq_ok.1 h
        exact ⟨⟨entry.1, rfl⟩, rfl⟩
      · rintro ⟨⟨version, h⟩, rfl⟩
        cases h
        rfl

/-- How a node is lowered: by its handler, whose result is then bound. -/
theorem lowerNode_bindResult {handlers : Handlers} {node : NodeOf Importer} {u : Unit}
    (h : lowerNode handlers node context session = .ok u session') :
    defaultDomains.contains node.domain = true
      ∧ ∃ version handler result log middle,
        handlers.find? node.op context.opset = some (version, handler)
        ∧ handler node context { session with log } = .ok result middle
        ∧ bindResult node result context middle = .ok u session' := by
  unfold lowerNode at h
  obtain ⟨handler, _, hhandler, h⟩ := bind_eq_ok.1 h
  obtain ⟨hdomain, ⟨version, hfind⟩, rfl⟩ := handlerOf_eq_ok.1 hhandler
  obtain ⟨_, _, hopset, h⟩ := bind_eq_ok.1 h
  cases hopset
  obtain ⟨_, _, hreport, h⟩ := bind_eq_ok.1 h
  cases hreport
  obtain ⟨result, middle, hresult, h⟩ := bind_eq_ok.1 h
  exact ⟨hdomain, version, handler, result, _, middle, hfind, hresult, h⟩

/-- Then the outputs of the node stand for the result. -/
theorem lowerNode_eq_ok {handlers : Handlers} {node : NodeOf Importer} {u : Unit}
    (h : lowerNode handlers node context session = .ok u session') :
    defaultDomains.contains node.domain = true
      ∧ ∃ version handler result log middle,
        handlers.find? node.op context.opset = some (version, handler)
        ∧ handler node context { session with log } = .ok result middle
        ∧ session' = { middle with scope := { middle.scope with
            bindings := bound middle.scope.bindings (result.pairs node) } } := by
  obtain ⟨hdomain, version, handler, result, log, middle, hfind, hresult, hbind⟩ :=
    lowerNode_bindResult h
  exact ⟨hdomain, version, handler, result, log, middle, hfind, hresult, bindResult_eq_ok hbind⟩

theorem lowerNodes_cons_eq_ok {handlers : Handlers} {node : NodeOf Importer}
    {nodes : List (NodeOf Importer)} {u : Unit}
    (h : lowerNodes handlers (node :: nodes) context session = .ok u session') :
    ∃ middle, lowerNode handlers node context session = .ok () middle
      ∧ lowerNodes handlers nodes context middle = .ok () session' := by
  obtain ⟨_, middle, hfirst, h⟩ := bind_eq_ok.1 h
  exact ⟨middle, hfirst, h⟩

end Lower

end OnnxLowering
