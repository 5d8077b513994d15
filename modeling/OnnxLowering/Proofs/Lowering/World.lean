/-
The relation between the lowering of a graph and its meaning. A scope
under construction is seen from the finished module and its arguments, a
`World`: the nodes of the scope are the first nodes of that module, so
they have values there already, and `World.advance` gives values to the
nodes that a step appends.

`World.Holds` is the invariant: every name that the scope defines stands
for a tensor in the environment, and all references that the scope has
for the name have this tensor as their value. It also relates what is
known of names before the module runs: which of them are constants, and
what their shapes are known to be (`Seen`).
-/
import OnnxLowering.Proofs.Graph.Reference
import OnnxLowering.Proofs.Lowering.Growth

namespace OnnxLowering

-- ========================================================== what is known

/-- A known shape is among some shapes; if none is known there are
none. -/
def KnownAs (known : Option KnownShape) (shapes : List KnownShape) : Prop :=
  match known with
  | none => shapes = []
  | some dims => dims ∈ shapes

/-- A constant may be known by the shape that it has. -/
def Entry.Exact (e : Entry) : Prop := e.constant = true → e.tensor.shape.known ∈ e.shapes

/-- The tensor of an entry that is known before there are others. -/
def Entry.known? (e : Entry) : Option Tensor := if e.constant then some e.tensor else none

/-- What is known of the names in scopes is true of what they stand
for. -/
def Seen (scopes : Scopes) (env : Env) : Prop :=
  ∀ name, scopes.defines name = true → ∃ e, env name = some e ∧ scopes.tensor? name = e.known?
    ∧ e.Exact ∧ KnownAs (scopes.shape? name) e.shapes

/-- What a scope itself knows of a name is true of an entry. -/
structure Scope.Knows (scope : Scope) (name : String) (e : Entry) : Prop where
  tensor : scope.tensors.find? name = e.known?
  initial : ∀ t, scope.initializers.find? name = some t → e.known? = some t
  exact : e.Exact

/-- A scope that defines a name without knowing its tensor has a value
for it. -/
theorem Scope.Knows.bound {scope : Scope} {name : String} {e : Entry} (h : scope.Knows name e)
    (hdefines : scope.defines name = true) (hunknown : scope.tensors.find? name = none) :
    ∃ ref, scope.bindings.find? name = some ref := by
  simp only [Scope.defines, NameMap.contains, hunknown, Option.isSome_none, Bool.or_false,
    Bool.or_eq_true] at hdefines
  rcases hdefines with hbinding | hinitial
  · exact Option.isSome_iff_exists.1 hbinding
  · obtain ⟨t, ht⟩ := Option.isSome_iff_exists.1 hinitial
    rw [h.tensor, h.initial t ht] at hunknown
    cases hunknown

-- ================================================================= worlds

/-- A module and its arguments. -/
structure World where
  module : ModuleOf Meaning
  inputs : List Operand

namespace World

variable (w : World)

/-- The values of the nodes that a scope has got, after those it had. -/
def advance (scope scope' : Scope) (done : List Value) : Except RunError (List Value) :=
  w.module.valuesFrom w.inputs done (scope'.nodes.drop scope.nodes.length)

/-- The nodes of a scope refer to what is on the module, and the inputs
for names from outside have the tensors of these. -/
structure Fits (outside : Env) (scope : Scope) : Prop where
  distinct : (targetsOf scope.nodes).Nodup
  attributes : ∀ name ∈ targetsOf scope.nodes,
    w.module.attributes.find? name = scope.attributes.find? name
  loops : ∀ name ∈ targetsOf scope.nodes,
    w.module.loops.find? name = (scope.loops.find? name).map Loop.meaning
  bodies : ∀ name ∈ targetsOf scope.nodes, ∀ wiring arity body,
    scope.loops.find? name = some (.mk wiring arity body) → body.Tidy
  captured : ∀ i name, scope.outerInputs[i]? = some name → ∃ e, outside name = some e
    ∧ w.inputs[scope.inputNames.length + i]? = some (some e.tensor)

/-- A reference of a scope has the tensor of an entry as its value, and
is labelled with a shape of the entry. -/
structure Denotes (scope : Scope) (done : List Value) (ref : Ref) (e : Entry) : Prop where
  valid : match ref with
    | .input i => i < scope.inputs.length
    | .node i => i < scope.nodes.length
  value : ref.value w.inputs done = .ofTensor e.tensor
  shapes : KnownAs (scope.label ref).shape.join e.shapes

/-- A scope whose nodes have values agrees with an environment. Names
that the scope does not define stand for what they do outside. -/
structure Holds (outside : Env) (scope : Scope) (done : List Value) (env : Env) : Prop where
  count : done.length = scope.nodes.length
  inputs : scope.inputs.length = scope.inputNames.length + scope.outerInputs.length
  inside : ∀ name, scope.defines name = true → ∃ e, env name = some e ∧ scope.Knows name e
    ∧ ∀ ref, scope.bindings.find? name = some ref ∨ scope.constants.find? name = some ref →
      w.Denotes scope done ref e
  outside : ∀ name, scope.defines name = false → env name = outside name
  stored : ∀ name, scope.constants.contains name = true → scope.tensors.contains name = true

variable {w} {outer : Scopes} {reads gives : List String} {scope scope' scope'' : Scope}
  {outside env : Env} {done done' : List Value} {ref : Ref} {e : Entry} {name : String}

-- ================================================================ growth

theorem advance_refl (scope : Scope) (done : List Value) : w.advance scope scope done = .ok done := by
  unfold advance
  rw [List.drop_length]
  rfl

theorem advance_of_nodes {new : List Node} (h : scope'.nodes = scope.nodes ++ new) :
    w.advance scope scope' done = w.module.valuesFrom w.inputs done new := by
  unfold advance
  rw [h, List.drop_left]

theorem advance_trans (h : scope.Grows outer reads gives scope')
    (h' : scope'.Grows outer reads gives scope'') :
    w.advance scope scope'' done = w.advance scope scope' done >>= w.advance scope' scope'' := by
  obtain ⟨new, hnew, -⟩ := h.nodes
  obtain ⟨new', hnew', -⟩ := h'.nodes
  have hboth : scope''.nodes = scope.nodes ++ (new ++ new') := by
    rw [hnew', hnew, List.append_assoc]
  rw [advance_of_nodes hboth, advance_of_nodes hnew, ModuleOf.valuesFrom_append]
  exact bind_congr fun _ => (advance_of_nodes hnew').symm

/-- Values do not change once they are there. -/
theorem prefix_of_advance (h : w.advance scope scope' done = .ok done') : done <+: done' := by
  obtain ⟨new, rfl, -⟩ := ModuleOf.valuesFrom_extends h
  exact List.prefix_append done new

/-- What is there of a module fits it if all of it does. -/
theorem Fits.of_grows (h : scope.Grows outer reads gives scope') (fits : w.Fits outside scope') :
    w.Fits outside scope := by
  obtain ⟨hdistinct, hold⟩ := h.targets fits.distinct
  refine ⟨hdistinct, fun name hname => ?_, fun name hname => ?_,
    fun name hname wiring arity body hloop => ?_, fun i name hname => ?_⟩
  · obtain ⟨hmem, hattribute, -⟩ := hold name hname
    rw [fits.attributes name hmem, hattribute]
  · obtain ⟨hmem, -, hloop⟩ := hold name hname
    rw [fits.loops name hmem, hloop]
  · obtain ⟨hmem, -, hsameLoop⟩ := hold name hname
    exact fits.bodies name hmem wiring arity body (hsameLoop.trans hloop)
  · obtain ⟨names, inputs, houter, -⟩ := h.captured
    rw [← h.inputNames]
    refine fits.captured i name ?_
    rw [houter, List.getElem?_append_left (List.getElem?_eq_some_iff.1 hname).1]
    exact hname

/-- A reference keeps its value and its label when there are more inputs,
nodes and values. -/
theorem Denotes.extend (denotes : w.Denotes scope done ref e)
    (hinputs : scope.inputs <+: scope'.inputs) (hnodes : scope.nodes <+: scope'.nodes)
    (hdone : done <+: done') : w.Denotes scope' done' ref e := by
  obtain ⟨new, rfl⟩ := hdone
  obtain ⟨nodes, hnodes⟩ := hnodes
  obtain ⟨inputs, hinputs⟩ := hinputs
  have hvalue : ref.value w.inputs (done ++ new) = .ofTensor e.tensor :=
    ModuleOf.value_append (congrArg Value.operand denotes.value) new
  have hvalid := denotes.valid
  have hlabel : scope'.label ref = scope.label ref := by
    cases ref with
    | input i => simp only [Scope.label, ← hinputs, List.getElem?_append_left hvalid]
    | node i => simp only [Scope.label, ← hnodes, List.getElem?_append_left hvalid]
  refine ⟨?_, hvalue, hlabel ▸ denotes.shapes⟩
  cases ref with
  | input i =>
      rw [← hinputs, List.length_append]
      exact Nat.lt_add_right _ hvalid
  | node i =>
      rw [← hnodes, List.length_append]
      exact Nat.lt_add_right _ hvalid

theorem Denotes.mono (denotes : w.Denotes scope done ref e)
    (h : scope.Grows outer reads gives scope') (hdone : done <+: done') :
    w.Denotes scope' done' ref e := by
  obtain ⟨nodes, hnodes, -⟩ := h.nodes
  obtain ⟨names, inputs, -, hinputs, -⟩ := h.captured
  exact denotes.extend ⟨inputs, hinputs.symm⟩ ⟨nodes, hnodes.symm⟩ hdone

/-- References depend on nothing but inputs and nodes. -/
theorem Denotes.congr (denotes : w.Denotes scope done ref e)
    (hinputs : scope'.inputs = scope.inputs) (hnodes : scope'.nodes = scope.nodes) :
    w.Denotes scope' done ref e :=
  denotes.extend (hinputs ▸ List.prefix_rfl) (hnodes ▸ List.prefix_rfl) List.prefix_rfl

-- ================================================================= names

/-- What is known of a name that a scope defines or sees. -/
theorem Holds.knows (seen : Seen outer outside) (h : w.Holds outside scope done env)
    (hname : Scopes.defines (scope :: outer) name = true) :
    ∃ e, env name = some e ∧ Scopes.tensor? (scope :: outer) name = e.known? ∧ e.Exact
      ∧ KnownAs (Scopes.shape? (scope :: outer) name) (e.known scope.declarations name) := by
  unfold Scopes.tensor? Scopes.shape? Entry.known
  cases hdefines : scope.defines name with
  | true =>
      obtain ⟨e, henv, hknows, hdenotes⟩ := h.inside name hdefines
      refine ⟨e, henv, ?_, hknows.exact, ?_⟩
      · cases htensor : scope.tensors.find? name with
        | some t => exact htensor.symm.trans hknows.tensor
        | none =>
            obtain ⟨ref, hbinding⟩ := hknows.bound hdefines htensor
            have hcontains : scope.bindings.contains name = true := by
              rw [NameMap.contains, hbinding]
              rfl
            simp only [hcontains, if_true]
            exact htensor.symm.trans hknows.tensor
      · cases (scope.declarations.find? name).bind KnownType.shape with
        | some dims => exact List.mem_singleton_self dims
        | none =>
            cases htensor : scope.tensors.find? name with
            | some t =>
                have hknown : e.known? = some t := hknows.tensor ▸ htensor
                unfold Entry.known? at hknown
                split at hknown
                · next hconstant =>
                    cases hknown
                    exact hknows.exact hconstant
                · cases hknown
            | none =>
                obtain ⟨ref, hbinding⟩ := hknows.bound hdefines htensor
                simp only [hbinding]
                exact (hdenotes ref (.inl hbinding)).shapes
  | false =>
      obtain ⟨hbinding, htensor, -⟩ := Scope.find?_of_not_defines hdefines
      rw [Scopes.defines, hdefines, Bool.false_or] at hname
      obtain ⟨e, houtside, hknown, hexact, hshape⟩ := seen name hname
      refine ⟨e, (h.outside name hdefines).trans houtside, ?_, hexact, ?_⟩
      · simp only [htensor, NameMap.contains, hbinding, Option.isSome_none, Bool.false_eq_true,
          if_false]
        exact hknown
      · cases (scope.declarations.find? name).bind KnownType.shape with
        | some dims => exact List.mem_singleton_self dims
        | none =>
            simp only [htensor, hbinding]
            exact hshape

/-- What is known of names inside a node. -/
theorem Holds.seen (seen : Seen outer outside) (h : w.Holds outside scope done env) :
    Seen (scope :: outer) (env.within scope.declarations) := by
  intro name hname
  obtain ⟨e, henv, htensor, hexact, hshape⟩ := h.knows seen hname
  refine ⟨{ e with shapes := _ }, congrArg _ henv, htensor, fun hconstant => ?_, ?_⟩
  · refine List.mem_append_right _ ?_
    rw [if_pos hconstant]
    exact List.mem_singleton_self _
  · cases hknown : Scopes.shape? (scope :: outer) name with
    | some dims =>
        rw [hknown] at hshape
        exact List.mem_append_left _ hshape
    | none =>
        rw [hknown] at hshape
        replace hshape : e.known scope.declarations name = [] := hshape
        have hnot : ¬ e.constant = true := by
          intro hconstant
          unfold Entry.known at hshape
          split at hshape
          · cases hshape
          · have hmem := hexact hconstant
            rw [hshape] at hmem
            cases hmem
        show e.known scope.declarations name ++ (if e.constant then _ else _) = []
        rw [hshape, if_neg hnot]
        rfl

end World

theorem Scopes.defines_of_tensor? {scopes : Scopes} {name : String} {t : Tensor}
    (h : scopes.tensor? name = some t) : scopes.defines name = true := by
  induction scopes with
  | nil => cases h
  | cons scope outer ih =>
      unfold Scopes.defines
      unfold Scopes.tensor? at h
      rw [Bool.or_eq_true]
      cases htensor : scope.tensors.find? name with
      | some t => exact .inl (by simp [Scope.defines, NameMap.contains, htensor])
      | none =>
          rw [htensor] at h
          simp only at h
          split at h
          · cases h
          · exact .inr (ih h)

end OnnxLowering
