/-
The answer to a name. Asking for the value of a name has one answer only:
what the name stands for in the scope itself, as a value, a constant, an
initial or a known tensor, in this order, and else what it stands for
outside. `Answers` is that case distinction with everything that decides
it, and with the name that a new input gets. So in scopes that agree on
what decides it, a name has the same answer.
-/
import OnnxLowering.Proofs.Lowering.Effects

namespace OnnxLowering

namespace Scope

/-- Nothing in a scope answers a name. -/
structure Unseen (scope : Scope) (name : String) : Prop where
  bindings : scope.bindings.find? name = none
  constants : scope.constants.find? name = none
  initializers : scope.initializers.find? name = none
  tensors : scope.tensors.find? name = none

/-- A name from outside has become an input, under the next name of its
base. -/
def Imports (scope : Scope) (name : String) (shape : Option KnownShape) (scope' : Scope) : Prop :=
  ∃ label supply, label.shape.join = shape ∧
    let taken := scope.inputCounters.take (Identifier.sanitize ("outer_" ++ name))
    scope' = { scope with
      inputs := scope.inputs ++ [⟨taken.1, label⟩]
      bindings := scope.bindings.insert name (.input scope.inputs.length)
      outerInputs := scope.outerInputs ++ [name]
      inputCounters := taken.2
      supply }

/-- The value of a name, and the scope in which it is there. -/
inductive Answers (outer : Scopes) (scope : Scope) (name : String) : Ref → Scope → Prop
  | stands {ref : Ref} (h : scope.Stands name ref) : Answers outer scope name ref scope
  | initial {t : Tensor} {scope' : Scope} (unbound : scope.bindings.find? name = none)
      (unstored : scope.constants.find? name = none) (h : scope.initializers.find? name = some t)
      (stores : scope.Stores name t scope') : Answers outer scope name (.node scope.nodes.length) scope'
  | known {t : Tensor} {scope' : Scope} (unbound : scope.bindings.find? name = none)
      (unstored : scope.constants.find? name = none)
      (plain : scope.initializers.find? name = none) (h : scope.tensors.find? name = some t)
      (stores : scope.Stores name t scope') :
      Answers outer scope name (.node scope.nodes.length)
        (scope'.bind name (.node scope.nodes.length))
  | copied {t : Tensor} {scope' : Scope} (unseen : scope.Unseen name)
      (h : outer.tensor? name = some t) (stores : scope.Stores name t scope') :
      Answers outer scope name (.node scope.nodes.length)
        (scope'.bind name (.node scope.nodes.length))
  | captured {scope' : Scope} (unseen : scope.Unseen name) (h : outer.tensor? name = none)
      (imports : scope.Imports name (outer.shape? name) scope') :
      Answers outer scope name (.input scope.inputs.length) scope'

end Scope

namespace Lower

variable {context : Context} {session session' : Session} {name : String} {ref : Ref}

theorem capture_answers (unseen : session.scope.Unseen name)
    (h : capture name context session = .ok ref session') :
    session.scope.Answers context.outer name ref session'.scope := by
  unfold capture at h
  rw [bind_apply, read_apply] at h
  simp only at h
  cases htensor : Scopes.tensor? context.outer name with
  | some t =>
      rw [htensor] at h
      obtain ⟨ref', middle, hstore, h⟩ := bind_eq_ok.1 h
      obtain ⟨rfl, hstores⟩ := materialise_eq_ok hstore
      obtain ⟨_, _, hbind, h⟩ := bind_eq_ok.1 h
      cases hbind
      cases h
      exact .copied unseen htensor hstores
  | none =>
      rw [htensor] at h
      obtain ⟨ref', middle, hinput, h⟩ := bind_eq_ok.1 h
      rw [withScope_apply, Scope.addInput_eq] at hinput
      cases hinput
      obtain ⟨_, _, hlabel, h⟩ := bind_eq_ok.1 h
      cases hlabel
      obtain ⟨_, _, hreport, h⟩ := bind_eq_ok.1 h
      cases hreport
      cases h
      refine .captured unseen htensor ?_
      simp only [Scope.labelInput, Scope.bind, modify_concat]
      refine ⟨_, _, ?_, rfl⟩
      cases Scopes.shape? context.outer name <;> rfl

theorem value_answers (h : value name context session = .ok ref session') :
    session.scope.Answers context.outer name ref session'.scope := by
  rcases value_cases h with ⟨hstands, rfl⟩ | ⟨hbinding, hconstant, -⟩
  · exact .stands hstands
  unfold value at h
  obtain ⟨-, h⟩ := guard_eq_ok.1 h
  rw [bind_apply, scope_apply] at h
  cases hinitial : session.scope.initializers.find? name with
  | some t =>
      simp only [hbinding, hconstant, hinitial] at h
      obtain ⟨rfl, hstores⟩ := materialise_eq_ok h
      exact .initial hbinding hconstant hinitial hstores
  | none =>
      cases htensor : session.scope.tensors.find? name with
      | some t =>
          simp only [hbinding, hconstant, hinitial, htensor] at h
          obtain ⟨ref', middle, hstore, h⟩ := bind_eq_ok.1 h
          obtain ⟨rfl, hstores⟩ := materialise_eq_ok hstore
          obtain ⟨_, _, hbind, h⟩ := bind_eq_ok.1 h
          cases hbind
          cases h
          exact .known hbinding hconstant hinitial htensor hstores
      | none =>
          simp only [hbinding, hconstant, hinitial, htensor] at h
          rw [bind_apply, read_apply] at h
          simp only at h
          split at h
          · exact capture_answers ⟨hbinding, hconstant, hinitial, htensor⟩ h
          · cases h

end Lower

-- ================================================================ one graph

/-- What a scope has from its graph, another one has as well. -/
structure Scope.SameGraph (scope scope' : Scope) : Prop where
  inputNames : scope'.inputNames = scope.inputNames
  declarations : scope'.declarations = scope.declarations
  initializers : scope'.initializers = scope.initializers
  outputs : scope'.outputs = scope.outputs
  users : scope'.users = scope.users

variable {scope scope' scope'' : Scope}

theorem Scope.SameGraph.refl (scope : Scope) : scope.SameGraph scope := ⟨rfl, rfl, rfl, rfl, rfl⟩

theorem Scope.SameGraph.trans (h : scope.SameGraph scope') (h' : scope'.SameGraph scope'') :
    scope.SameGraph scope'' :=
  ⟨h'.inputNames.trans h.inputNames, h'.declarations.trans h.declarations,
    h'.initializers.trans h.initializers, h'.outputs.trans h.outputs, h'.users.trans h.users⟩

theorem Scope.Stores.sameGraph {source : String} {t : Tensor} (stores : scope.Stores source t scope') :
    scope.SameGraph scope' := by
  obtain ⟨place, trainable, label, nodeNames, supply, attributeCounters, -, rfl⟩ := stores
  exact ⟨rfl, rfl, rfl, rfl, rfl⟩

theorem Scope.Answers.sameGraph {outer : Scopes} {name : String} {ref : Ref}
    (answers : scope.Answers outer name ref scope') : scope.SameGraph scope' := by
  cases answers with
  | stands _ => exact .refl _
  | initial _ _ _ stores => exact stores.sameGraph
  | known _ _ _ _ stores => exact stores.sameGraph.trans ⟨rfl, rfl, rfl, rfl, rfl⟩
  | copied _ _ stores => exact stores.sameGraph.trans ⟨rfl, rfl, rfl, rfl, rfl⟩
  | captured _ _ imports =>
      obtain ⟨label, supply, -, rfl⟩ := imports
      exact ⟨rfl, rfl, rfl, rfl, rfl⟩

theorem Effect.Happens.sameGraph {context : Context} {node : NodeOf Importer} {effect : Effect}
    (h : effect.Happens context node scope scope') : scope.SameGraph scope' := by
  cases h with
  | value h => exact (Lower.value_answers h).sameGraph
  | store h => exact (Lower.materialise_eq_ok h).2.sameGraph
  | node => exact ⟨rfl, rfl, rfl, rfl, rfl⟩
  | loop => exact ⟨rfl, rfl, rfl, rfl, rfl⟩

end OnnxLowering
