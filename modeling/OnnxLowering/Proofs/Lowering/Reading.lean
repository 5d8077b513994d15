/-
Reading names. The value that a name gets is the tensor that it stands
for (`Holds.gets`), whichever way it gets there: it is bound already, or
a tensor is stored for it, or it comes in from outside. Reading never
fails once the graph has been lowered.
-/
import OnnxLowering.Proofs.Lowering.World

namespace OnnxLowering.World

variable {w : World} {outer : Scopes} {scope scope' : Scope} {outside env : Env}
  {done done' : List Value} {ref : Ref} {e : Entry} {name : String} {t : Tensor}

/-- Nothing is known of a name in a scope. -/
structure Unknown (scope : Scope) (name : String) : Prop where
  tensors : scope.tensors.find? name = none
  initializers : scope.initializers.find? name = none
  constants : scope.constants.find? name = none

theorem Holds.unknown (h : w.Holds outside scope done env) (hname : scope.defines name = false) :
    Unknown scope name := by
  obtain ⟨-, htensor, hinitial⟩ := Scope.find?_of_not_defines hname
  refine ⟨htensor, hinitial, ?_⟩
  by_contra hsome
  have hstored := h.stored name (Option.isSome_iff_ne_none.2 hsome)
  rw [NameMap.contains, htensor] at hstored
  cases hstored

theorem Env.insert_eq_self (h : env name = some e) : env.insert name e = env := by
  funext other
  unfold Env.insert
  by_cases hother : other = name
  · rw [if_pos hother, hother, h]
  · rw [if_neg hother]

/-- A name is bound to a value that is what the name stands for from
then on. -/
theorem Holds.bind (h : w.Holds outside scope done env) (hdenotes : w.Denotes scope done ref e)
    (hknows : scope.Knows name e)
    (hconstants : ∀ ref', scope.constants.find? name = some ref' → w.Denotes scope done ref' e) :
    w.Holds outside (scope.bind name ref) done (env.insert name e) where
  count := h.count
  inputs := h.inputs
  inside other hother := by
    have hkept {ref' : Ref} {e' : Entry} (hdenotes' : w.Denotes scope done ref' e') :
        w.Denotes (scope.bind name ref) done ref' e' := hdenotes'.congr rfl rfl
    rw [Scope.defines_bind, Bool.or_eq_true] at hother
    by_cases hname : other = name
    · rw [hname]
      refine ⟨e, if_pos rfl, ⟨hknows.tensor, hknows.initial, hknows.exact⟩, fun ref' hbound => ?_⟩
      rcases hbound with hbound | hbound
      · rw [Scope.bind, NameMap.find?_insert_self] at hbound
        cases hbound
        exact hkept hdenotes
      · exact hkept (hconstants ref' hbound)
    · obtain ⟨e', henv, hknows', hdenotes'⟩ := h.inside other (hother.resolve_left
        fun heq => hname (eq_of_beq heq))
      refine ⟨e', (if_neg hname).trans henv, ⟨hknows'.tensor, hknows'.initial, hknows'.exact⟩,
        fun ref' hbound => hkept (hdenotes' ref' ?_)⟩
      rwa [Scope.bind, NameMap.find?_insert_of_ne _ _ hname] at hbound
  outside other hother := by
    rw [Scope.defines_bind, Bool.or_eq_false_iff] at hother
    have hne : other ≠ name := fun heq => by
      rw [heq, BEq.rfl] at hother
      cases hother.1
    exact (if_neg hne).trans (h.outside other hother.2)
  stored := h.stored

/-- Nodes without names change nothing that was there. -/
theorem Holds.of_nodes {new : List Node} {nodeNames : List String} {supply : NameSupply}
    {attributes : NameMap Attribute} {loops : NameMap Loop}
    {attributeCounters loopCounters : Counters} (h : w.Holds outside scope done env)
    (hvalues : w.module.valuesFrom w.inputs done new = .ok done') :
    w.Holds outside { scope with
      nodes := scope.nodes ++ new
      nodeNames, supply, attributes, loops, attributeCounters, loopCounters } done' env := by
  obtain ⟨values, rfl, hlength⟩ := ModuleOf.valuesFrom_extends hvalues
  refine ⟨?_, h.inputs, fun other hother => ?_, h.outside, h.stored⟩
  · rw [List.length_append, List.length_append, h.count, hlength]
  · obtain ⟨e, henv, hknows, hdenotes⟩ := h.inside other hother
    exact ⟨e, henv, ⟨hknows.tensor, hknows.initial, hknows.exact⟩, fun ref hbound =>
      (hdenotes ref hbound).extend List.prefix_rfl (List.prefix_append _ new)
        (List.prefix_append done values)⟩

/-- A name is known by its tensor from then on, and there is a value for
it. -/
theorem Holds.store (h : w.Holds outside scope done env) (hdenotes : w.Denotes scope done ref e)
    (hold : scope.defines name = true → env name = some e) (hknown : e.known? = some t)
    (hexact : e.Exact) :
    w.Holds outside { scope with
      constants := scope.constants.insert name ref
      tensors := scope.tensors.insert name t } done (env.insert name e) where
  count := h.count
  inputs := h.inputs
  inside other hother := by
    have hkept {ref' : Ref} {e' : Entry} (hdenotes' : w.Denotes scope done ref' e') :
        w.Denotes { scope with
          constants := scope.constants.insert name ref
          tensors := scope.tensors.insert name t } done ref' e' := hdenotes'.congr rfl rfl
    by_cases hname : other = name
    · subst hname
      -- what the scope had for the name is what it gets
      have hsame (hdefines : scope.defines other = true) : scope.Knows other e
          ∧ ∀ ref, scope.bindings.find? other = some ref ∨ scope.constants.find? other = some ref →
            w.Denotes scope done ref e := by
        obtain ⟨e', henv, hrest⟩ := h.inside other hdefines
        rw [hold hdefines] at henv
        cases henv
        exact hrest
      refine ⟨e, if_pos rfl, ⟨?_, fun t' ht' => ?_, hexact⟩, fun ref' hbound => ?_⟩
      · show (scope.tensors.insert other t).find? other = _
        rw [NameMap.find?_insert_self, hknown]
      · replace ht' : scope.initializers.find? other = some t' := ht'
        refine (hsame ?_).1.initial t' ht'
        simp only [Scope.defines, NameMap.contains, ht', Option.isSome_some, Bool.or_true]
      · rcases hbound with hbound | hbound
        · replace hbound : scope.bindings.find? other = some ref' := hbound
          refine hkept ((hsame ?_).2 ref' (.inl hbound))
          simp only [Scope.defines, NameMap.contains, hbound, Option.isSome_some, Bool.true_or]
        · replace hbound : (scope.constants.insert other ref).find? other = some ref' := hbound
          rw [NameMap.find?_insert_self] at hbound
          cases hbound
          exact hkept hdenotes
    · have hdefines : scope.defines other = true := by
        rw [← hother]
        simp only [Scope.defines, NameMap.contains, NameMap.find?_insert_of_ne _ _ hname]
      obtain ⟨e', henv, hknows, hdenotes'⟩ := h.inside other hdefines
      refine ⟨e', (if_neg hname).trans henv, ⟨?_, hknows.initial, hknows.exact⟩,
        fun ref' hbound => hkept (hdenotes' ref' ?_)⟩
      · exact (NameMap.find?_insert_of_ne _ _ hname).trans hknows.tensor
      · replace hbound : scope.bindings.find? other = some ref'
          ∨ (scope.constants.insert name ref).find? other = some ref' := hbound
        rwa [NameMap.find?_insert_of_ne _ _ hname] at hbound
  outside other hother := by
    replace hother : (scope.bindings.contains other || (scope.tensors.insert name t).contains other
      || scope.initializers.contains other) = false := hother
    rw [NameMap.contains_insert] at hother
    by_cases hname : other = name
    · rw [hname, BEq.rfl, Bool.true_or, Bool.or_true, Bool.true_or] at hother
      cases hother
    · rw [beq_false_of_ne hname, Bool.false_or] at hother
      exact (if_neg hname).trans (h.outside other hother)
  stored other hother := by
    replace hother : (scope.constants.insert name ref).contains other = true := hother
    show (scope.tensors.insert name t).contains other = true
    rw [NameMap.contains_insert, Bool.or_eq_true] at hother ⊢
    exact hother.imp_right (h.stored other)

/-- A tensor is stored under a name that stands for it from then on. -/
theorem Holds.stores (h : w.Holds outside scope done env) (stores : scope.Stores name t scope')
    (fits : w.Fits outside scope') (hold : scope.defines name = true → env name = some e)
    (hknown : e.known? = some t) (hexact : e.Exact) :
    ∃ done', w.advance scope scope' done = .ok done'
      ∧ w.Holds outside scope' done' (env.insert name e)
      ∧ w.Denotes scope' done' (.node scope.nodes.length) e := by
  have hconstant : e.constant = true ∧ e.tensor = t := by
    unfold Entry.known? at hknown
    split at hknown
    · next hconstant => exact ⟨hconstant, Option.some.inj hknown⟩
    · cases hknown
  obtain ⟨place, trainable, label, nodeNames, supply, attributeCounters, hlabel, rfl⟩ := stores
  have hload : w.module.valueOf w.inputs done ⟨.load place, label⟩ = .ok (.ofTensor t) := by
    have hplace := fits.attributes place (by simp [targetsOf, Action.target?])
    unfold ModuleOf.valueOf ModuleOf.evalNode
    simp only [hplace, NameMap.find?_insert_self]
    rfl
  have hvalues : w.module.valuesFrom w.inputs done [⟨.load place, label⟩]
      = .ok (done ++ [.ofTensor t]) := by
    rw [ModuleOf.valuesFrom_cons, hload]
    rfl
  have hloaded : w.Holds outside { scope with
      nodes := scope.nodes ++ [⟨.load place, label⟩]
      attributes := scope.attributes.insert place ⟨t, trainable⟩
      nodeNames, supply, attributeCounters } (done ++ [.ofTensor t]) env :=
    h.of_nodes hvalues
  have hnode : w.Denotes { scope with
      nodes := scope.nodes ++ [⟨.load place, label⟩]
      attributes := scope.attributes.insert place ⟨t, trainable⟩
      nodeNames, supply, attributeCounters } (done ++ [.ofTensor t]) (.node scope.nodes.length) e := by
    refine ⟨by simp only [List.length_append, List.length_singleton, Nat.lt_succ_self], ?_, ?_⟩
    · rw [Ref.value, List.getD_eq_getElem?_getD, ← h.count, List.getElem?_concat_length,
        hconstant.2]
      rfl
    · rw [Scope.label, List.getElem?_concat_length, Option.map_some, Option.getD_some, hlabel,
        ← hconstant.2]
      exact hexact hconstant.1
  exact ⟨_, (advance_of_nodes rfl).trans hvalues, hloaded.store hnode hold hknown hexact,
    hnode.congr rfl rfl⟩

/-- A name from outside becomes an input. -/
theorem Holds.captures {shape : Option KnownShape} (h : w.Holds outside scope done env)
    (captures : scope.Captures name shape scope') (fits : w.Fits outside scope')
    (new : scope.defines name = false) (houtside : outside name = some e) (hunknown : e.known? = none)
    (hexact : e.Exact) (hshape : KnownAs shape e.shapes) :
    w.advance scope scope' done = .ok done ∧ w.Holds outside scope' done env
      ∧ w.Denotes scope' done (.input scope.inputs.length) e := by
  have hinput := fits.captured scope.outerInputs.length name
  obtain ⟨inputName, label, inputCounters, supply, -, hlabel, rfl⟩ := captures
  obtain ⟨htensor, hinitial, hconstants⟩ := h.unknown new
  -- the input comes after those for names that came before
  let added : Scope := { scope with
    inputs := scope.inputs ++ [⟨inputName, label⟩]
    outerInputs := scope.outerInputs ++ [name]
    inputCounters, supply }
  have hadded : w.Holds outside added done env := by
    refine ⟨h.count, ?_, fun other hother => ?_, h.outside, h.stored⟩
    · show (scope.inputs ++ [_]).length = scope.inputNames.length + (scope.outerInputs ++ [name]).length
      rw [List.length_append, List.length_append, h.inputs]
      rfl
    · obtain ⟨e', henv, hknows, hdenotes⟩ := h.inside other hother
      exact ⟨e', henv, ⟨hknows.tensor, hknows.initial, hknows.exact⟩, fun ref hbound =>
        (hdenotes ref hbound).extend (List.prefix_append _ _) List.prefix_rfl List.prefix_rfl⟩
  have hdenotes : w.Denotes added done (.input scope.inputs.length) e := by
    refine ⟨by simp [added], ?_, ?_⟩
    · obtain ⟨e', houtside', hvalue⟩ := hinput (List.getElem?_concat_length)
      rw [houtside] at houtside'
      cases houtside'
      replace hvalue : w.inputs[scope.inputNames.length + scope.outerInputs.length]?
        = some (some e.tensor) := hvalue
      rw [Ref.value, List.getD_eq_getElem?_getD, h.inputs, hvalue]
      rfl
    · show KnownAs ((scope.inputs ++ [_])[scope.inputs.length]?.map Input.label |>.getD {}).shape.join _
      rw [List.getElem?_concat_length, Option.map_some, Option.getD_some, hlabel]
      exact hshape
  have henv : env name = some e := (h.outside name new).trans houtside
  have hknows : added.Knows name e :=
    ⟨htensor.trans hunknown.symm, fun t ht => (by cases hinitial.symm.trans ht), hexact⟩
  have hbound : w.Holds outside (added.bind name (.input scope.inputs.length)) done
      (env.insert name e) :=
    hadded.bind hdenotes hknows fun ref' hconstant => by cases hconstants.symm.trans hconstant
  rw [Env.insert_eq_self henv] at hbound
  exact ⟨(advance_of_nodes (List.append_nil _).symm).trans rfl, hbound, hdenotes.congr rfl rfl⟩

/-- A name is stored and bound to its value. -/
theorem Holds.stores_bind (h : w.Holds outside scope done env)
    (stores : scope.Stores name t scope')
    (fits : w.Fits outside (scope'.bind name (.node scope.nodes.length)))
    (hold : scope.defines name = true → env name = some e) (hknown : e.known? = some t)
    (hexact : e.Exact) :
    ∃ done', w.advance scope (scope'.bind name (.node scope.nodes.length)) done = .ok done'
      ∧ w.Holds outside (scope'.bind name (.node scope.nodes.length)) done' (env.insert name e)
      ∧ w.Denotes (scope'.bind name (.node scope.nodes.length)) done' (.node scope.nodes.length)
        e := by
  have hgrows : scope'.Grows [] [] [name] (scope'.bind name (.node scope.nodes.length)) :=
    .bind _ (.inr (.inr List.mem_cons_self))
  obtain ⟨done', hadvance, hstored, hdenotes⟩ :=
    h.stores stores (fits.of_grows hgrows) hold hknown hexact
  refine ⟨done', hadvance, ?_, hdenotes.congr rfl rfl⟩
  obtain ⟨e', henv, hknows, hrefs⟩ := hstored.inside name stores.defines
  cases (if_pos rfl).symm.trans henv
  have hbound := hstored.bind hdenotes hknows fun ref' hconstant => hrefs ref' (.inr hconstant)
  rwa [Env.insert_eq_self henv] at hbound

/-- The value of a name is what it stands for. -/
theorem Holds.gets (seen : Seen outer outside) (h : w.Holds outside scope done env)
    (gets : scope.Gets outer name ref scope') (fits : w.Fits outside scope') :
    ∃ e done', env name = some e ∧ w.advance scope scope' done = .ok done'
      ∧ w.Holds outside scope' done' env ∧ w.Denotes scope' done' ref e := by
  cases gets with
  | bound hbound =>
      have hdefines : scope.defines name = true := by
        simp only [Scope.defines, NameMap.contains, hbound, Option.isSome_some, Bool.true_or]
      obtain ⟨e, henv, -, hdenotes⟩ := h.inside name hdefines
      exact ⟨e, done, henv, advance_refl scope done, h, hdenotes ref (.inl hbound)⟩
  | constant hconstant =>
      have hstored := h.stored name (by rw [NameMap.contains, hconstant]; rfl)
      have hdefines : scope.defines name = true := by
        simp only [Scope.defines, hstored, Bool.or_true, Bool.true_or]
      obtain ⟨e, henv, -, hdenotes⟩ := h.inside name hdefines
      exact ⟨e, done, henv, advance_refl scope done, h, hdenotes ref (.inr hconstant)⟩
  | @initial t _ unbound hinitial stores =>
      have hdefines : scope.defines name = true := by
        simp only [Scope.defines, NameMap.contains, hinitial, Option.isSome_some, Bool.or_true]
      obtain ⟨e, henv, hknows, -⟩ := h.inside name hdefines
      obtain ⟨done', hadvance, hstored, hdenotes⟩ := h.stores stores fits (fun _ => henv)
        (hknows.initial t hinitial) hknows.exact
      rw [Env.insert_eq_self henv] at hstored
      exact ⟨e, done', henv, hadvance, hstored, hdenotes⟩
  | @known t middle htensor stores =>
      have hdefines : scope.defines name = true := by
        simp only [Scope.defines, NameMap.contains, htensor, Option.isSome_some, Bool.or_true,
          Bool.true_or]
      obtain ⟨e, henv, hknows, -⟩ := h.inside name hdefines
      obtain ⟨done', hadvance, hstored, hdenotes⟩ := h.stores_bind stores fits (fun _ => henv)
        (hknows.tensor.symm.trans htensor) hknows.exact
      rw [Env.insert_eq_self henv] at hstored
      exact ⟨e, done', henv, hadvance, hstored, hdenotes⟩
  | @copied t middle new visible htensor stores =>
      obtain ⟨e, houtside, hknown, hexact, -⟩ := seen name visible
      have henv : env name = some e := (h.outside name new).trans houtside
      obtain ⟨done', hadvance, hstored, hdenotes⟩ := h.stores_bind stores fits (fun _ => henv)
        (hknown.symm.trans htensor) hexact
      rw [Env.insert_eq_self henv] at hstored
      exact ⟨e, done', henv, hadvance, hstored, hdenotes⟩
  | captured new visible hunknown captures =>
      obtain ⟨e, houtside, hknown, hexact, hshape⟩ := seen name visible
      obtain ⟨hadvance, hcaptured, hdenotes⟩ := h.captures captures fits new houtside
        (hknown.symm.trans hunknown) hexact hshape
      exact ⟨e, done, (h.outside name new).trans houtside, hadvance, hcaptured, hdenotes⟩

end OnnxLowering.World
