/-
Names that are taken. A name that stands for something, in a scope or
around it, has a value, except that what it stands for may have to be put
on the module under a name that is taken (`value_ready`). It still stands
for something once other values have been asked for.
-/
import OnnxLowering.Proofs.Lowering.Escapes
import OnnxLowering.Proofs.Lowering.WellFormed

namespace OnnxLowering

namespace Scope

/-- A name stands for something, in a scope or around it. -/
def Offers (outer : Scopes) (scope : Scope) (name : String) : Prop :=
  name.isEmpty = false ∧ (scope.constants.contains name = true ∨ scope.defines name = true
    ∨ outer.defines name = true)

variable {outer : Scopes} {scope scope' : Scope} {name other : String} {ref : Ref}

/-- What has a value stands for something. -/
theorem Gets.offers (h : scope.Gets outer name ref scope') (hname : name.isEmpty = false) :
    scope.Offers outer name := by
  refine ⟨hname, ?_⟩
  cases h with
  | bound h => simp [Scope.defines, NameMap.contains, h]
  | constant h => simp [NameMap.contains, h]
  | initial _ h => simp [Scope.defines, NameMap.contains, h]
  | known h => simp [Scope.defines, NameMap.contains, h]
  | copied _ visible => simp [visible]
  | captured _ visible => simp [visible]

theorem Stores.contains_constants {t : Tensor} (stores : scope.Stores other t scope')
    (h : scope.constants.contains name = true) : scope'.constants.contains name = true := by
  rw [stores.extends.2.2.2]
  exact NameMap.contains_insert_of_contains h

/-- What stands for something still does so when a value has been asked
for. -/
theorem Offers.gets (h : scope.Offers outer name) (gets : scope.Gets outer other ref scope') :
    scope'.Offers outer name := by
  have hgrows : scope.Grows outer [other] [] scope' := gets.grows List.mem_cons_self
  refine ⟨h.1, ?_⟩
  rcases h.2 with hconstant | hdefined | hvisible
  · refine .inl ?_
    cases gets with
    | bound _ => exact hconstant
    | constant _ => exact hconstant
    | initial _ _ stores => exact stores.contains_constants hconstant
    | known _ stores => exact stores.contains_constants hconstant
    | copied _ _ _ stores => exact stores.contains_constants hconstant
    | captured _ _ _ captures =>
        obtain ⟨_, _, _, _, -, -, rfl⟩ := captures
        exact hconstant
  · exact .inr (.inl (hgrows.kept name hdefined))
  · exact .inr (.inr hvisible)

theorem Stores.finished_eq {t : Tensor} (stores : scope.Stores name t scope') :
    scope'.finished = scope.finished := by
  obtain ⟨_, _, _, _, _, _, -, rfl⟩ := stores
  rfl

theorem Gets.finished_eq (h : scope.Gets outer name ref scope') :
    scope'.finished = scope.finished := by
  cases h with
  | bound _ => rfl
  | constant _ => rfl
  | initial _ _ stores => exact stores.finished_eq
  | known _ stores => exact stores.finished_eq
  | copied _ _ _ stores => exact stores.finished_eq
  | captured _ _ _ captures =>
      obtain ⟨_, _, _, _, -, -, rfl⟩ := captures
      rfl

end Scope

namespace Lower

variable {context : Context} {errors : LowerError → Prop} {before : Scope → Prop} {name : String}

/-- Something cannot be put on the module, since its name is taken. -/
def Clash (error : LowerError) : Prop := ∃ name, error = .nameTaken name

section

variable (herrors : ∀ error, Clash error → errors error)

include herrors

theorem materialise_clashes {source : String} {t : Tensor} {trainable : Option Bool}
    (htrainable : trainable.getD false = false) :
    (materialise source t trainable).Ends context errors before fun _ _ => True := by
  intro session _
  rw [materialise_of_untrained htrainable]
  simp only
  by_cases hadmits : (session.scope.takeAttribute (Identifier.sanitize source)).admitsAttribute
      (attributeName session.scope source) (trainable.getD t.dtype.isDifferentiable) = true
  · rw [if_pos hadmits]
    trivial
  · rw [if_neg hadmits]
    exact herrors _ ⟨_, rfl⟩

theorem capture_clashes : (capture name).Ends context errors before fun _ _ => True := by
  unfold capture
  refine Ends.read.bind fun _ => ?_
  simp only
  split
  · exact (materialise_clashes herrors rfl).bind fun _ => fun _ _ => trivial
  · exact fun _ _ => trivial

/-- Where a name stands for something, it has a value unless this cannot be
stored. -/
theorem value_clashes (hgiven : name.isEmpty = false) :
    (value name).Ends context errors (fun scope => scope.Offers context.outer name)
      fun _ _ => True := by
  refine .guard (fun hempty => absurd hempty (by simp [hgiven])) fun _ => ?_
  refine Ends.scope.bind fun scope => .of_and fun hscope => ?_
  split
  · exact fun _ _ => trivial
  · exact fun _ _ => trivial
  · exact materialise_clashes herrors rfl
  · exact (materialise_clashes herrors rfl).bind fun _ => fun _ _ => trivial
  · next hbinding hconstant hinitial htensor =>
      have hvisible : Scopes.defines context.outer name = true := by
        simpa [Scope.defines, NameMap.contains, hbinding, hconstant, hinitial, htensor] using hscope.2
      refine Ends.read.bind fun _ => .of_and fun hcontext => ?_
      subst hcontext
      simp only [hvisible, if_true]
      exact capture_clashes herrors

end

/-- Names stand for something, and the module is not finished. -/
def Ready (outer : Scopes) (names : List String) (scope : Scope) : Prop :=
  scope.finished = none ∧ ∀ name ∈ names, scope.Offers outer name

theorem value_ready {names : List String} (herrors : ∀ error, Clash error → errors error)
    (hname : name ∈ names) :
    (value name).Ends context errors (Ready context.outer names) fun _ => Ready context.outer names := by
  intro session h
  have hends := value_clashes herrors (h.2 name hname).1 session (h.2 name hname)
  cases hvalue : value name context session with
  | error error session' =>
      rw [hvalue] at hends
      exact hends
  | ok ref session' =>
      obtain ⟨-, hgets⟩ := value_eq_ok hvalue
      exact ⟨hgets.finished_eq.trans h.1, fun other hother => (h.2 other hother).gets hgets⟩

theorem registerLoop_unfinished (herrors : ∀ error, Clash error → errors error) {base : String}
    {loop : Loop} :
    (registerLoop base loop).Ends context errors (fun scope => scope.finished = none)
      fun _ scope => scope.finished = none := by
  intro session h
  rw [registerLoop_apply]
  simp only
  by_cases hadmits : (session.scope.takeLoop (Identifier.sanitize base)).admitsLoop
      (loopName session.scope base) = true
  · rw [if_pos hadmits]
    exact h
  · rw [if_neg hadmits]
    exact herrors _ ⟨_, rfl⟩

theorem call_unfinished {node : NodeOf Importer} {operands : List Ref} {output : Nat} {typed : Bool} :
    (call node name operands output typed).Ends context errors (fun scope => scope.finished = none)
      fun _ _ => True := by
  intro session h
  unfold call
  rw [bind_apply, scope_apply]
  simp only [h, Option.any_none, Bool.false_eq_true, if_false, bind_apply, scope_apply, addNode_apply]

namespace Ends

variable {α : Type} {x : Lower α} {after : α → Scope → Prop}

/-- A step starts where less is known of the scope. -/
theorem strengthen {before' : Scope → Prop} (h : x.Ends context errors before after)
    (hbefore : ∀ scope, before' scope → before scope) : x.Ends context errors before' after :=
  fun session h' => h session (hbefore _ h')

/-- What is known of the value of a step that succeeds. -/
theorem and_ok {p : α → Prop} (h : x.Ends context errors before after)
    (hok : ∀ a session session', before session.scope → x context session = .ok a session' → p a) :
    x.Ends context errors before fun a scope => after a scope ∧ p a := by
  intro session hbefore
  have hends := h session hbefore
  cases hrun : x context session with
  | ok a session' =>
      rw [hrun] at hends
      exact ⟨hends, hok a session session' hbefore hrun⟩
  | error error session' =>
      rw [hrun] at hends
      exact hends

end Ends

end Lower

end OnnxLowering
