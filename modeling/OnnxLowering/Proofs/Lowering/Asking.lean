/-
Asking for a value. Only the first time does it change the scope, and
what is known of names stays the same, with one exception: a tensor that
is copied from outside has a shape of its own from then on, whatever shape
is declared there (`Gets.shape?_self`).
-/
import OnnxLowering.Proofs.Handler.Moves
import OnnxLowering.Proofs.Lowering.Alike

namespace OnnxLowering

namespace Scope

/-- The module has a value for a name already. -/
def Stands (scope : Scope) (name : String) (ref : Ref) : Prop :=
  scope.bindings.find? name = some ref
    ∨ scope.bindings.find? name = none ∧ scope.constants.find? name = some ref

/-- The initial tensors that are no constants yet are known. -/
def Stocked (scope : Scope) : Prop :=
  ∀ name t, scope.initializers.find? name = some t → scope.constants.find? name = none →
    scope.tensors.find? name = some t

variable {outer : Scopes} {scope scope' : Scope} {name other : String} {ref : Ref}

-- ============================================================== other names

/-- Only one name gets another meaning. -/
theorem Gets.find?_of_ne (gets : scope.Gets outer other ref scope') (h : name ≠ other) :
    scope'.bindings.find? name = scope.bindings.find? name
      ∧ scope'.constants.find? name = scope.constants.find? name
      ∧ scope'.tensors.find? name = scope.tensors.find? name := by
  have hstores {t : Tensor} {after : Scope} (stores : scope.Stores other t after) :
      after.bindings.find? name = scope.bindings.find? name
        ∧ after.constants.find? name = scope.constants.find? name
        ∧ after.tensors.find? name = scope.tensors.find? name := by
    obtain ⟨place, trainable, label, nodeNames, supply, attributeCounters, -, rfl⟩ := stores
    exact ⟨rfl, NameMap.find?_insert_of_ne _ _ h, NameMap.find?_insert_of_ne _ _ h⟩
  have hbinds {after : Scope} {ref : Ref} :
      (after.bind other ref).bindings.find? name = after.bindings.find? name :=
    NameMap.find?_insert_of_ne _ _ h
  cases gets with
  | bound _ => exact ⟨rfl, rfl, rfl⟩
  | constant _ => exact ⟨rfl, rfl, rfl⟩
  | initial _ _ stores => exact hstores stores
  | known _ stores => exact ⟨hbinds.trans (hstores stores).1, (hstores stores).2⟩
  | copied _ _ _ stores => exact ⟨hbinds.trans (hstores stores).1, (hstores stores).2⟩
  | captured _ _ _ captures =>
      obtain ⟨inputName, label, inputCounters, supply, -, -, rfl⟩ := captures
      exact ⟨NameMap.find?_insert_of_ne _ _ h, rfl, rfl⟩

/-- And nothing else is known of any other name. -/
theorem Gets.agree_of_ne (gets : scope.Gets outer other ref scope') (tied : scope.Tied)
    (h : name ≠ other) : Scopes.Agree (scope :: outer) (scope' :: outer) name := by
  have hgrows : scope.Grows outer [other] [] scope' := gets.grows List.mem_cons_self
  obtain ⟨hbindings, -, htensors⟩ := gets.find?_of_ne h
  refine .cons (by rw [hgrows.declarations]) htensors (by rw [hgrows.initializers]) hbindings
    (fun ref href => ?_) (.refl _ _)
  exact label_eq_of_extends hgrows.extends (tied.bindings name ref href)

-- ================================================================= the name

/-- A name that has a value stands for something. -/
theorem Gets.defines_self (gets : scope.Gets outer name ref scope') :
    Scopes.defines (scope' :: outer) name = Scopes.defines (scope :: outer) name := by
  have hgrows : scope.Grows outer [name] [] scope' := gets.grows List.mem_cons_self
  have hinside (h : scope.defines name = true) :
      Scopes.defines (scope' :: outer) name = Scopes.defines (scope :: outer) name := by
    rw [Scopes.defines, Scopes.defines, h, hgrows.kept name h]
  have houtside (h : outer.defines name = true) :
      Scopes.defines (scope' :: outer) name = Scopes.defines (scope :: outer) name := by
    rw [Scopes.defines, Scopes.defines, h, Bool.or_true, Bool.or_true]
  cases gets with
  | bound _ => rfl
  | constant _ => rfl
  | initial _ h _ =>
      refine hinside ?_
      rw [defines, NameMap.contains, NameMap.contains, NameMap.contains, h, Option.isSome_some,
        Bool.or_true]
  | known h _ =>
      exact hinside (defines_of_contains_tensors (by rw [NameMap.contains, h, Option.isSome_some]))
  | copied _ visible _ _ => exact houtside visible
  | captured _ visible _ _ => exact houtside visible

/-- What is known of its shape stays the same, or is what its value is
labelled with. -/
theorem Gets.shape?_self (gets : scope.Gets outer name ref scope') :
    Scopes.shape? (scope' :: outer) name = Scopes.shape? (scope :: outer) name
      ∨ Scopes.shape? (scope' :: outer) name = (scope'.label ref).shape.join := by
  have hgrows : scope.Grows outer [name] [] scope' := gets.grows List.mem_cons_self
  cases hdeclared : (scope.declarations.find? name).bind KnownType.shape with
  | some shape =>
      left
      simp only [Scopes.shape?, hgrows.declarations, hdeclared]
  | none =>
      have hstores {t : Tensor} {after : Scope} (stores : scope.Stores name t after) :
          Scopes.shape? (after :: outer) name = (after.label (.node scope.nodes.length)).shape.join := by
        obtain ⟨place, trainable, label, nodeNames, supply, attributeCounters, hlabel, rfl⟩ := stores
        simp only [Scopes.shape?, hdeclared, NameMap.find?_insert_self, Scope.label,
          List.getElem?_concat_length, Option.map_some, Option.getD_some, hlabel, Option.join_some]
      have hbinds {t : Tensor} {after : Scope} {ref : Ref} (stores : scope.Stores name t after) :
          Scopes.shape? (after.bind name ref :: outer) name = Scopes.shape? (after :: outer) name := by
        have htensors : after.tensors.find? name = some t := by
          rw [stores.tensors_eq, NameMap.find?_insert_self]
        simp only [Scopes.shape?, Scope.bind, htensors]
      cases gets with
      | bound _ => exact .inl rfl
      | constant _ => exact .inl rfl
      | initial _ _ stores => exact .inr (hstores stores)
      | known _ stores => exact .inr ((hbinds stores).trans (hstores stores))
      | copied _ _ _ stores => exact .inr ((hbinds stores).trans (hstores stores))
      | captured new _ _ captures =>
          obtain ⟨inputName, label, inputCounters, supply, -, -, rfl⟩ := captures
          right
          simp only [Scopes.shape?, hdeclared, (find?_of_not_defines new).2.1,
            NameMap.find?_insert_self]

/-- The first time, whether it is known to be a tensor stays the same. -/
theorem Gets.tensor?_self (gets : scope.Gets outer name ref scope') (stocked : scope.Stocked)
    (new : scope.constants.find? name = none) :
    Scopes.tensor? (scope' :: outer) name = Scopes.tensor? (scope :: outer) name := by
  have hstores {t : Tensor} {after : Scope} (stores : scope.Stores name t after) :
      after.tensors.find? name = some t := by
    rw [stores.tensors_eq, NameMap.find?_insert_self]
  cases gets with
  | bound _ => rfl
  | constant _ => rfl
  | initial _ h stores => simp only [Scopes.tensor?, hstores stores, stocked name _ h new]
  | known h stores => simp only [Scopes.tensor?, Scope.bind, hstores stores, h]
  | copied new _ h stores =>
      obtain ⟨hbindings, htensors, -⟩ := find?_of_not_defines new
      simp only [Scopes.tensor?, Scope.bind, hstores stores, htensors, NameMap.contains, hbindings,
        Option.isSome_none, Bool.false_eq_true, if_false, h]
  | captured new _ h captures =>
      obtain ⟨hbindings, htensors, -⟩ := find?_of_not_defines new
      obtain ⟨inputName, label, inputCounters, supply, -, -, rfl⟩ := captures
      simp only [Scopes.tensor?, htensors, NameMap.contains, hbindings, NameMap.find?_insert_self,
        Option.isSome_some, Option.isSome_none, if_true, Bool.false_eq_true, if_false, h]

/-- And the name has a value from then on. -/
theorem Gets.stands (gets : scope.Gets outer name ref scope')
    (unbound : scope.bindings.find? name = none) (new : scope.constants.find? name = none) :
    scope'.Stands name ref := by
  cases gets with
  | bound h => exact nomatch unbound.symm.trans h
  | constant h => exact nomatch new.symm.trans h
  | initial _ _ stores =>
      obtain ⟨-, -, hbindings, hconstants⟩ := stores.extends
      exact .inr ⟨hbindings ▸ unbound, by rw [hconstants, NameMap.find?_insert_self]⟩
  | known _ _ => exact .inl (NameMap.find?_insert_self _ _ _)
  | copied _ _ _ _ => exact .inl (NameMap.find?_insert_self _ _ _)
  | captured _ _ _ captures =>
      obtain ⟨inputName, label, inputCounters, supply, -, -, rfl⟩ := captures
      exact .inl (NameMap.find?_insert_self _ _ _)

end Scope

-- ==================================================================== stocks

section

variable {outer : Scopes} {rules : Rules} {scope scope' : Scope} {name : String}

theorem Scope.Stocked.stores {t : Tensor} (stocked : scope.Stocked)
    (stores : scope.Stores name t scope') : scope'.Stocked := by
  obtain ⟨place, trainable, label, nodeNames, supply, attributeCounters, -, rfl⟩ := stores
  intro other u hinitial hnew
  rw [NameMap.find?_insert] at hnew ⊢
  split at hnew
  · cases hnew
  · next hne =>
      rw [if_neg hne]
      exact stocked other u hinitial hnew

theorem Move.stocked (h : Move outer rules scope scope') (stocked : scope.Stocked) :
    scope'.Stocked := by
  cases h with
  | value _ gets =>
      cases gets with
      | bound _ => exact stocked
      | constant _ => exact stocked
      | initial _ _ stores => exact stocked.stores stores
      | known _ stores => exact (stocked.stores stores :)
      | copied _ _ _ stores => exact (stocked.stores stores :)
      | captured _ _ _ captures =>
          obtain ⟨inputName, label, inputCounters, supply, -, -, rfl⟩ := captures
          exact stocked
  | apply _ => exact stocked
  | call _ _ => exact stocked
  | constant _ stores => exact stocked.stores stores
  | output _ _ => exact stocked
  | settle _ _ => exact stocked

/-- What is declared does not change. -/
theorem Move.declarations_eq (h : Move outer rules scope scope') :
    scope'.declarations = scope.declarations := by
  cases h with
  | @value _ name _ _ gets =>
      have hgrows : scope.Grows outer [name] [] scope' := gets.grows List.mem_cons_self
      exact hgrows.declarations
  | constant _ stores =>
      obtain ⟨place, trainable, label, nodeNames, supply, attributeCounters, -, rfl⟩ := stores
      rfl
  | _ => rfl

end

/-- The rules for moves that may do anything. -/
def Rules.all : Rules where
  reads _ := True
  constants _ _ := True
  outputs _ _ := True
  loops _ := True

/-- Nodes are lowered by moves. -/
theorem lowerNodes_moves_all {nodes : List (NodeOf Importer)} {context : Context}
    {session session' : Session} {u : Unit}
    (h : Lower.lowerNodes Handlers.standard nodes context session = .ok u session')
    (tied : session.scope.Tied) : Moves context.outer .all session.scope session'.scope :=
  lowerNodes_moves h (fun _ _ _ => {
    reads := fun _ _ => trivial
    scans := fun _ _ _ _ _ => ⟨fun _ _ => trivial, trivial⟩
    constants := fun _ => ⟨trivial, fun _ _ => .inr fun _ => trivial⟩
    outputs := fun _ _ _ _ _ _ => trivial }) tied

-- ==================================================================== asking

namespace Lower

variable {context : Context} {session session' : Session} {name other : String} {ref : Ref}

theorem value_of_stands (hname : name.isEmpty = false) (h : session.scope.Stands name ref) :
    value name context session = .ok ref session := by
  unfold value
  rw [if_neg (by rw [hname]; exact Bool.false_ne_true)]
  rcases h with hbinding | ⟨hbinding, hconstant⟩
  · simp only [bind_apply, scope_apply, hbinding]
    rfl
  · simp only [bind_apply, scope_apply, hbinding, hconstant]
    rfl

/-- A name has a value, or gets one. -/
theorem value_cases (h : value name context session = .ok ref session') :
    session.scope.Stands name ref ∧ session' = session
      ∨ session.scope.bindings.find? name = none ∧ session.scope.constants.find? name = none
        ∧ session.scope.Gets context.outer name ref session'.scope := by
  obtain ⟨hname, hgets⟩ := value_eq_ok h
  have hstands {ref' : Ref} (hold : session.scope.Stands name ref') :
      session.scope.Stands name ref ∧ session' = session := by
    rw [value_of_stands hname hold] at h
    cases h
    exact ⟨hold, rfl⟩
  cases hbinding : session.scope.bindings.find? name with
  | some bound => exact .inl (hstands (.inl hbinding))
  | none =>
      cases hconstant : session.scope.constants.find? name with
      | some bound => exact .inl (hstands (.inr ⟨hbinding, hconstant⟩))
      | none => exact .inr ⟨rfl, rfl, hgets⟩

theorem stands_of_value (h : value name context session = .ok ref session') :
    session'.scope.Stands name ref := by
  rcases value_cases h with ⟨hstands, rfl⟩ | ⟨hbinding, hconstant, hgets⟩
  · exact hstands
  · exact hgets.stands hbinding hconstant

/-- And keeps it. -/
theorem stands_of_stands {ref' : Ref} (h : value other context session = .ok ref' session')
    (hstands : session.scope.Stands name ref) : session'.scope.Stands name ref := by
  by_cases hne : name = other
  · subst hne
    rcases value_cases h with ⟨-, rfl⟩ | ⟨hbinding, hconstant, -⟩
    · exact hstands
    · rcases hstands with hold | ⟨-, hold⟩
      · exact nomatch hbinding.symm.trans hold
      · exact nomatch hconstant.symm.trans hold
  · obtain ⟨hbindings, hconstants, -⟩ := (value_eq_ok h).2.find?_of_ne hne
    unfold Scope.Stands
    rwa [hbindings, hconstants]

/-- Which names are known to be tensors stays the same. -/
theorem tensor?_of_value (h : value name context session = .ok ref session')
    (tied : session.scope.Tied) (stocked : session.scope.Stocked) :
    Scopes.tensor? (session'.scope :: context.outer) other
      = Scopes.tensor? (session.scope :: context.outer) other := by
  by_cases hne : other = name
  · subst hne
    rcases value_cases h with ⟨-, rfl⟩ | ⟨-, hnew, hgets⟩
    · rfl
    · exact hgets.tensor?_self stocked hnew
  · exact ((value_eq_ok h).2.agree_of_ne tied hne).tensor?

/-- If what is known of the shape of a name is what its value is labelled
with, nothing else is known of any name after that. -/
theorem agree_of_value (h : value name context session = .ok ref session') (tied : session.scope.Tied)
    (stocked : session.scope.Stocked)
    (hshape : Scopes.shape? (session.scope :: context.outer) name
      = (session'.scope.label ref).shape.join) :
    Scopes.Agree (session.scope :: context.outer) (session'.scope :: context.outer) other := by
  by_cases hne : other = name
  · subst hne
    obtain ⟨-, hgets⟩ := value_eq_ok h
    exact ⟨hgets.defines_self, tensor?_of_value h tied stocked,
      hgets.shape?_self.elim id fun heq => heq.trans hshape.symm⟩
  · exact (value_eq_ok h).2.agree_of_ne tied hne

end Lower

end OnnxLowering
