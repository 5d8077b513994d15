/-
What can escape. Most errors of the lowering are found and explained by
it, but some come through from what it uses: a stored tensor that cannot
be read, a text that is none, a number without an integer part, and names
that cannot be used or that two things of one module have. `Escapes`
lists these, each with its cause in the graph.

`Ends` is partial correctness with errors: where a step may start, what
it leaves behind if it succeeds, and how it may fail. The steps of the
lowering keep a scope `Traced`: whatever is stored on the module has a
name made from one of the graph, and what is known is known from the
graph. So a step that fails over a name fails over one made from a name
of the graph.
-/
import OnnxLowering.Handler.Spectrum
import OnnxLowering.Proofs.Graph.Levels
import OnnxLowering.Proofs.Lowering.Frame
import OnnxLowering.Proofs.Naming.Supply

namespace OnnxLowering

-- ================================================================= causes

/-- What is given a name made from another one. -/
inductive Role where
  | input
  | tensor
  | loop
deriving DecidableEq, Repr

namespace Graph

variable (graph : Graph)

/-- A name that names in a role are made from: one of the graph, one for
what is read from outside, or the name for what has none. -/
inductive Source : Role → String → Prop
  | mentioned {role : Role} {name : String} (h : graph.Mentions name) : Source role name
  | outer {name : String} (h : graph.Mentions name) : Source .input ("outer_" ++ name)
  | tensor : Source .tensor "const"
  | loop : Source .loop "scan"

/-- A name is made from an identifier and a number, in a role. -/
def MadeFrom (role : Role) (base : String) (number : Nat) (name : String) : Prop :=
  (∃ source, graph.Source role source ∧ Identifier.sanitize source = base)
    ∧ Counters.numbered base number = name

def Makes (role : Role) (name : String) : Prop := ∃ base number, graph.MadeFrom role base number name

/-- A name is made in one role from different identifiers or numbers. -/
def MakesTwice (role : Role) (name : String) : Prop :=
  ∃ base number base' number', graph.MadeFrom role base number name
    ∧ graph.MadeFrom role base' number' name ∧ (base, number) ≠ (base', number')

/-- An error over a name: something that is put on a module has a name
that the module uses for itself or that its textual form cannot have, or
two things on one module have the same name. -/
inductive NameFault : LowerError → Prop
  | member {role : Role} {name : String} (made : graph.Makes role name)
      (reserved : Reserved.members.contains name = true) : NameFault (.nameTaken name)
  | operation {name : String} (made : graph.Makes .tensor name)
      (reserved : Reserved.finishedOperations.contains name = true) : NameFault (.nameTaken name)
  | shared {name : String} (tensor : graph.Makes .tensor name) (loop : graph.Makes .loop name) :
      NameFault (.nameTaken name)
  | twoTensors {name : String} (twice : graph.MakesTwice .tensor name) : NameFault (.nameTaken name)
  | data {role : Role} {name : String} (made : graph.Makes role name)
      (reserved : (Reserved.finishedGraph ++ Reserved.finishedData).contains name = true) :
      NameFault (.reservedMember name)
  | hidden {role : Role} {name : String} (made : graph.Makes role name)
      (reserved : (Reserved.finishedBlanks ++ Reserved.finishedOperations
        ++ [Reserved.finishedText, Reserved.finishedCall]).contains name = true) :
      NameFault (.hiddenMember name)
  | parameter {name : String} (made : graph.Makes .input name)
      (illegal : Reserved.isIllegalParameter name = true) : NameFault (.illegalName name)
  | twoParameters {name : String} (twice : graph.MakesTwice .input name) :
      NameFault (.illegalName name)
  | keyword {role : Role} {name : String} (made : graph.Makes role name)
      (reserved : Reserved.keywords.contains name = true) : NameFault (.illegalName name)
  | variable {name : String} (made : graph.Makes .input name) : NameFault (.repeatedName name)

/-- An error that the lowering does not find itself, and what causes it
in the graph. -/
inductive Escapes : LowerError → Prop
  | payload {payload : Payload} {error : PayloadError} (stored : graph.HasPayload payload)
      (unreadable : payload.toTensor = .error error) : Escapes (.payload error)
  | text {node : NodeOf Unit} {name : String} {bytes : List UInt8} {error : AttributeError}
      (hasNode : graph.HasNode node) (mem : (name, .text bytes) ∈ node.attributes)
      (unreadable : decodeText bytes = .error error) : Escapes (.argument error)
  | number {node : NodeOf Unit} {t : Tensor} {error : AttributeError}
      (hasNode : graph.HasNode node) (op : node.op = "STFT") (known : graph.HasTensor t)
      (size : t.data.size = 1)
      (unreadable : Handler.integerElement t.dtype (t.data.getD 0 0) = .error error) :
      Escapes (.argument error)
  | name {error : LowerError} (fault : graph.NameFault error) : Escapes error

/-- An error that the lowering has found itself, or one that escapes. -/
def Expects (error : LowerError) : Prop := error.isConversion = true ∨ graph.Escapes error

end Graph

-- ================================================================== steps

namespace Lower

variable {α β : Type}

/-- A step that starts in a scope with a property either returns a value
and leaves a scope that it has a property with, or fails with one of
certain errors. -/
def Ends (context : Context) (errors : LowerError → Prop) (before : Scope → Prop) (x : Lower α)
    (after : α → Scope → Prop) : Prop :=
  ∀ session, before session.scope →
    match x context session with
    | .ok a session' => after a session'.scope
    | .error error _ => errors error

namespace Ends

variable {context : Context} {errors : LowerError → Prop} {before : Scope → Prop} {x : Lower α}
  {after : α → Scope → Prop}

theorem bind {middle : α → Scope → Prop} {f : α → Lower β} {after : β → Scope → Prop}
    (h : x.Ends context errors before middle)
    (hf : ∀ a, (f a).Ends context errors (middle a) after) :
    (x >>= f).Ends context errors before after := by
  intro session hbefore
  have hx := h session hbefore
  rw [bind_apply]
  cases hrun : x context session with
  | ok a session' =>
      rw [hrun] at hx
      exact hf a session' hx
  | error error session' =>
      rw [hrun] at hx
      exact hx

theorem map {f : α → β} {after : β → Scope → Prop}
    (h : x.Ends context errors before fun a => after (f a)) :
    (f <$> x).Ends context errors before after := by
  intro session hbefore
  have hx := h session hbefore
  rw [map_apply]
  cases hrun : x context session with
  | ok a session' =>
      rw [hrun] at hx
      exact hx
  | error error session' =>
      rw [hrun] at hx
      exact hx

theorem weaken {after' : α → Scope → Prop} (h : x.Ends context errors before after)
    (hafter : ∀ a scope, after a scope → after' a scope) :
    x.Ends context errors before after' := by
  intro session hbefore
  have hx := h session hbefore
  cases hrun : x context session with
  | ok a session' =>
      rw [hrun] at hx
      exact hafter a _ hx
  | error error session' =>
      rw [hrun] at hx
      exact hx

theorem pure {a : α} (h : ∀ scope, before scope → after a scope) :
    (pure a : Lower α).Ends context errors before after := fun session => h session.scope

theorem throw {error : LowerError} (h : errors error) :
    (throw error : Lower α).Ends context errors before after := fun _ _ => h

/-- A check in front of a step. -/
theorem guard {c : Prop} [Decidable c] {error : LowerError} (herror : c → errors error)
    (h : ¬ c → x.Ends context errors before after) :
    (if c then (MonadExcept.throw error : Lower PUnit) >>= fun _ => x else x).Ends context errors
      before after := by
  split
  · next hc => exact fun _ _ => herror hc
  · next hc => exact h hc

theorem guard' {c : Prop} [Decidable c] {error : LowerError} (herror : ¬ c → errors error)
    (h : c → x.Ends context errors before after) :
    (if c then x else (MonadExcept.throw error : Lower PUnit) >>= fun _ => x).Ends context errors
      before after := by
  split
  · next hc => exact h hc
  · next hc => exact fun _ _ => herror hc

/-- What a step needs besides a property of the scope. -/
theorem of_and {p : Prop} (h : p → x.Ends context errors before after) :
    x.Ends context errors (fun scope => before scope ∧ p) after :=
  fun session hbefore => h hbefore.2 session hbefore.1

theorem read :
    (read : Lower Context).Ends context errors before fun a scope => before scope ∧ a = context :=
  fun _ h => ⟨h, rfl⟩

theorem opset :
    opset.Ends context errors before fun a scope => before scope ∧ a = context.opset :=
  fun _ h => ⟨h, rfl⟩

theorem scope :
    Lower.scope.Ends context errors before fun a scope => before scope ∧ before a :=
  fun _ h => ⟨h, h⟩

theorem scopes :
    Lower.scopes.Ends context errors before fun a scope =>
      before scope ∧ ∃ first, before first ∧ a = first :: context.outer :=
  fun _ h => ⟨h, _, h, rfl⟩

theorem report (record : LogRecord) : (report record).Ends context errors before fun _ => before :=
  fun _ h => h

theorem modifyScope {f : Scope → Scope} {after : Scope → Prop}
    (h : ∀ scope, before scope → after (f scope)) :
    (modifyScope f).Ends context errors before fun _ => after := fun session => h session.scope

theorem withScope {f : Scope → α × Scope}
    (h : ∀ scope, before scope → after (f scope).1 (f scope).2) :
    (withScope f).Ends context errors before after := fun session => h session.scope

theorem ofExcept {ε : Type} {wrap : ε → LowerError} {result : Except ε α}
    (h : ∀ error, result = .error error → errors (wrap error)) :
    (ofExcept wrap result).Ends context errors before fun a scope =>
      before scope ∧ result = .ok a := by
  intro session hbefore
  cases result with
  | ok a => exact ⟨hbefore, rfl⟩
  | error error => exact h error rfl

theorem mapM {f : α → Lower β} {as : List α}
    (h : ∀ a ∈ as, (f a).Ends context errors before fun _ => before) :
    (as.mapM f).Ends context errors before fun _ => before := by
  induction as with
  | nil => exact .pure fun _ hbefore => hbefore
  | cons a as ih =>
      rw [List.forall_mem_cons] at h
      rw [List.mapM_cons]
      exact h.1.bind fun _ => (ih h.2).bind fun _ => .pure fun _ hbefore => hbefore

/-- A step of a loop that goes on. -/
theorem yields {x : Lower PUnit} (h : x.Ends context errors before fun _ => before) :
    (do
      x
      return ForInStep.yield PUnit.unit : Lower (ForInStep PUnit)).Ends context errors before
        fun step scope => before scope ∧ step = ForInStep.yield PUnit.unit :=
  h.bind fun _ => .pure fun _ hbefore => ⟨hbefore, rfl⟩

theorem forIn {f : α → Lower (ForInStep PUnit)} {as : List α}
    (h : ∀ a ∈ as, (f a).Ends context errors before fun step scope =>
      before scope ∧ step = ForInStep.yield PUnit.unit) :
    (forIn as PUnit.unit fun a _ => f a : Lower PUnit).Ends context errors before
      fun _ => before := by
  induction as with
  | nil => exact .pure fun _ hbefore => hbefore
  | cons a as ih =>
      rw [List.forall_mem_cons] at h
      rw [List.forIn_cons]
      refine h.1.bind fun step => .of_and fun hstep => ?_
      subst hstep
      exact ih h.2

end Ends

end Lower

-- ================================================================== scopes

/-- What is known of a scope in the middle of a graph. Its nodes refer to
what is there; the names of its tensors, loops and inputs are made from
names of the graph, each with a number that has been counted; and what it
knows is known from the graph. -/
structure Scope.Traced (graph : Graph) (scope : Scope) : Prop where
  unfinished : scope.finished = none
  targets : ∀ name ∈ scope.targets,
    scope.attributes.contains name = true ∨ scope.loops.contains name = true
  calls : ∀ name ∈ scope.calls, scope.loops.contains name = true
  attributes : ∀ name, scope.attributes.contains name = true →
    ∃ base number, graph.MadeFrom .tensor base number name
      ∧ number < scope.attributeCounters.count base
  loops : ∀ name, scope.loops.contains name = true → graph.Makes .loop name
  inputs : ∃ tickets : List (String × Nat), tickets.Nodup
    ∧ (∀ ticket ∈ tickets, ticket.2 < scope.inputCounters.count ticket.1)
    ∧ List.Forall₂ (fun ticket name => graph.MadeFrom .input ticket.1 ticket.2 name)
      tickets (scope.inputs.map Input.name)
  nodeNames : scope.nodeNames.Nodup ∧ scope.nodeNames ⊆ scope.supply.used
  tensors : ∀ name t, scope.tensors.find? name = some t → graph.HasTensor t
  initializers : ∀ name t, scope.initializers.find? name = some t → graph.HasTensor t
  outerInputs : ∀ name ∈ scope.outerInputs, graph.Mentions name
  outputs : ∀ name ∈ scope.outputs, graph.Mentions name

/-- What scopes know is known from the graph. -/
def Scopes.Traced (graph : Graph) (scopes : Scopes) : Prop :=
  ∀ scope ∈ scopes, ∀ name t, scope.tensors.find? name = some t → graph.HasTensor t

/-- More is known of an input, and its name stays. -/
theorem Scope.names_labelInput (scope : Scope) (ref : Ref) (f : Label → Label) :
    (scope.labelInput ref f).inputs.map Input.name = scope.inputs.map Input.name := by
  cases ref with
  | node i => rfl
  | input i =>
      refine List.ext_getElem? fun j => ?_
      rw [labelInput, List.getElem?_map, List.getElem?_map, List.getElem?_modify]
      cases scope.inputs[j]? with
      | none => rfl
      | some input =>
          simp only [Option.map_some]
          split <;> rfl

namespace Scope.Traced

variable {graph : Graph} {scope : Scope}

theorem cons (h : scope.Traced graph) {outer : Scopes} (houter : outer.Traced graph) :
    Scopes.Traced graph (scope :: outer) := by
  intro other hother
  rcases List.mem_cons.1 hother with rfl | hother
  · exact h.tensors
  · exact houter other hother

theorem bind (h : scope.Traced graph) (name : String) (ref : Ref) :
    (scope.bind name ref).Traced graph :=
  ⟨h.unfinished, h.targets, h.calls, h.attributes, h.loops, h.inputs, h.nodeNames, h.tensors,
    h.initializers, h.outerInputs, h.outputs⟩

theorem feeds (h : scope.Traced graph) (names : List String) :
    Scope.Traced graph { scope with inputNames := names } :=
  ⟨h.unfinished, h.targets, h.calls, h.attributes, h.loops, h.inputs, h.nodeNames, h.tensors,
    h.initializers, h.outerInputs, h.outputs⟩

theorem reads (h : scope.Traced graph) {name : String} (hname : graph.Mentions name) :
    Scope.Traced graph { scope with outerInputs := scope.outerInputs ++ [name] } := by
  refine ⟨h.unfinished, h.targets, h.calls, h.attributes, h.loops, h.inputs, h.nodeNames, h.tensors,
    h.initializers, fun other hother => ?_, h.outputs⟩
  rcases List.mem_append.1 hother with hother | hother
  · exact h.outerInputs other hother
  · exact List.mem_singleton.1 hother ▸ hname

/-- One more node, which refers to what is there. -/
theorem addNode (h : scope.Traced graph) {action : Action} (label : Label)
    (htarget : ∀ name, action.target? = some name →
      scope.attributes.contains name = true ∨ scope.loops.contains name = true)
    (hcall : ∀ name operands, action = .call name operands →
      scope.loops.contains name = true) :
    (scope.addNode action label).2.Traced graph := by
  obtain ⟨hnew, hused⟩ := NameSupply.create_spec scope.supply action.wish
  rw [addNode_eq]
  refine ⟨h.unfinished, fun name hname => ?_, fun name hname => ?_, h.attributes, h.loops, h.inputs,
    ⟨?_, ?_⟩, h.tensors, h.initializers, h.outerInputs, h.outputs⟩
  · unfold Scope.targets at hname
    rw [List.filterMap_append, List.mem_append] at hname
    rcases hname with hname | hname
    · exact h.targets name hname
    · obtain ⟨node, hnode, hname⟩ := List.mem_filterMap.1 hname
      obtain rfl := List.mem_singleton.1 hnode
      exact htarget name hname
  · unfold Scope.calls at hname
    rw [List.filterMap_append, List.mem_append] at hname
    rcases hname with hname | hname
    · exact h.calls name hname
    · obtain ⟨node, hnode, hname⟩ := List.mem_filterMap.1 hname
      obtain rfl := List.mem_singleton.1 hnode
      cases action with
      | call other operands =>
          cases hname
          exact hcall name operands rfl
      | _ => cases hname
  · refine List.nodup_append.2 ⟨h.nodeNames.1, List.nodup_singleton _, ?_⟩
    intro name hname other hother heq
    obtain rfl := List.mem_singleton.1 hother
    exact hnew (heq ▸ h.nodeNames.2 hname)
  · show scope.nodeNames ++ [_] ⊆ (scope.supply.create action.wish).2.used
    rw [hused]
    intro name hname
    rcases List.mem_append.1 hname with hname | hname
    · exact List.mem_cons_of_mem _ (h.nodeNames.2 hname)
    · rw [List.mem_singleton.1 hname]
      exact List.mem_cons_self

/-- One more input, with the next number of its identifier. -/
theorem addInput (h : scope.Traced graph) (source : String) {preferred : String}
    (hpreferred : graph.Source .input preferred) :
    (scope.addInput source preferred).2.Traced graph := by
  obtain ⟨tickets, hnodup, hcounted, hinputs⟩ := h.inputs
  have hused := (NameSupply.create_spec scope.supply
    (variableWish (scope.inputCounters.take (Identifier.sanitize preferred)).1)).2
  rw [addInput_eq]
  refine ⟨h.unfinished, h.targets, h.calls, h.attributes, h.loops,
    ⟨tickets ++ [(Identifier.sanitize preferred,
      scope.inputCounters.count (Identifier.sanitize preferred))], ?_, ?_, ?_⟩,
    ⟨h.nodeNames.1, ?_⟩, h.tensors, h.initializers, h.outerInputs, h.outputs⟩
  · refine List.nodup_append.2 ⟨hnodup, List.nodup_singleton _, ?_⟩
    intro ticket hticket other hother heq
    rw [List.mem_singleton.1 hother] at heq
    exact Nat.ne_of_lt (hcounted ticket hticket) (by rw [heq])
  · intro ticket hticket
    show ticket.2 < (scope.inputCounters.take (Identifier.sanitize preferred)).2.count ticket.1
    rcases List.mem_append.1 hticket with hticket | hticket
    · exact Nat.lt_of_lt_of_le (hcounted ticket hticket) (Counters.count_le_count_take ..)
    · rw [List.mem_singleton.1 hticket, Counters.count_take_self]
      exact Nat.lt_succ_self _
  · rw [List.map_append]
    exact List.rel_append hinputs (.cons ⟨⟨preferred, hpreferred, rfl⟩, rfl⟩ .nil)
  · show scope.nodeNames ⊆ (scope.supply.create _).2.used
    rw [hused]
    exact fun name hname => List.mem_cons_of_mem _ (h.nodeNames.2 hname)

/-- Labels of inputs do not matter. -/
theorem labelInput (h : scope.Traced graph) (ref : Ref) (f : Label → Label) :
    (scope.labelInput ref f).Traced graph := by
  obtain ⟨tickets, hnodup, hcounted, hinputs⟩ := h.inputs
  cases ref with
  | node i => exact h
  | input i =>
      have hnames := scope.names_labelInput (.input i) f
      exact ⟨h.unfinished, h.targets, h.calls, h.attributes, h.loops,
        ⟨tickets, hnodup, hcounted, hnames ▸ hinputs⟩, h.nodeNames, h.tensors, h.initializers,
        h.outerInputs, h.outputs⟩

/-- The next number of an identifier is counted. -/
theorem takeAttribute (h : scope.Traced graph) (base : String) :
    (scope.takeAttribute base).Traced graph := by
  refine ⟨h.unfinished, h.targets, h.calls, fun name hname => ?_, h.loops, h.inputs, h.nodeNames,
    h.tensors, h.initializers, h.outerInputs, h.outputs⟩
  obtain ⟨other, number, hmade, hcount⟩ := h.attributes name hname
  exact ⟨other, number, hmade, Nat.lt_of_lt_of_le hcount (Counters.count_le_count_take ..)⟩

theorem store (h : scope.Traced graph) (source : String) {name base : String} {number : Nat} {t : Tensor}
    (trainable : Bool) (hmade : graph.MadeFrom .tensor base number name)
    (hcount : number < scope.attributeCounters.count base) (ht : graph.HasTensor t) :
    (scope.store source name t trainable).Traced graph := by
  have hstored : Scope.Traced graph { scope with
      attributes := scope.attributes.insert name ⟨t, trainable⟩
      constants := scope.constants.insert source (.node scope.nodes.length)
      tensors := scope.tensors.insert source t } := by
    refine ⟨h.unfinished, fun other hother => ?_, h.calls, fun other hother => ?_, h.loops, h.inputs,
      h.nodeNames, fun other u hother => ?_, h.initializers, h.outerInputs, h.outputs⟩
    · exact (h.targets other hother).imp_left NameMap.contains_insert_of_contains
    · rw [NameMap.contains_insert, Bool.or_eq_true, beq_iff_eq] at hother
      rcases hother with rfl | hother
      · exact ⟨base, number, hmade, hcount⟩
      · exact h.attributes other hother
    · rw [NameMap.find?_insert] at hother
      split at hother
      · cases hother
        exact ht
      · exact h.tensors other u hother
  have hnode := @addNode _ _ hstored (.load name)
    { name := some source
      op := some "Constant"
      shape := some (some t.shape.known)
      dtype := some (some t.dtype) }
    (fun other hother => by
      cases hother
      exact Or.inl (NameMap.contains_insert_self ..))
    (fun _ _ heq => nomatch heq)
  rw [addNode_eq] at hnode
  rw [Scope.store, addNode_eq]
  exact hnode

theorem registerLoop (h : scope.Traced graph) (base : String) {name : String} (loop : Loop)
    (hmade : graph.Makes .loop name) :
    Scope.Traced graph { scope.takeLoop base with loops := scope.loops.insert name loop } := by
  refine ⟨h.unfinished, fun other hother => ?_, fun other hother => ?_, h.attributes,
    fun other hother => ?_, h.inputs, h.nodeNames, h.tensors, h.initializers, h.outerInputs, h.outputs⟩
  · exact (h.targets other hother).imp_right NameMap.contains_insert_of_contains
  · exact NameMap.contains_insert_of_contains (h.calls other hother)
  · rw [NameMap.contains_insert, Bool.or_eq_true, beq_iff_eq] at hother
    rcases hother with rfl | hother
    · exact hmade
    · exact h.loops other hother

end Scope.Traced

-- ============================================================= primitives

namespace Lower

variable {graph : Graph} {context : Context}

/-- A step keeps what is known of a scope, and fails as expected. -/
abbrev Keeps {α : Type} (graph : Graph) (context : Context) (x : Lower α) : Prop :=
  x.Ends context graph.Expects (Scope.Traced graph) fun _ => Scope.Traced graph

variable (houter : Scopes.Traced graph context.outer) {name : String}

include houter

end Lower

end OnnxLowering
