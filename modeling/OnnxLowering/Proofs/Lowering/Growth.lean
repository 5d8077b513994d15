/-
What one step of the lowering can do to a scope. A scope only grows:
nodes and inputs are appended, and what the new nodes refer to is all
that changes among the tensors and loops. A new input stands for a name
from outside that was not known there and had not been read before.

`Scope.Grows` says so, over the names that are read and those that are
given on the way. Every step has a lemma that puts it there, and they
chain (`Grows.trans`).
-/
import OnnxLowering.Proofs.Graph.Scoping
import OnnxLowering.Proofs.Lowering.Steps
import OnnxLowering.Proofs.Module.Tidy

namespace OnnxLowering

namespace Scope

-- ================================================================== values

/-- A tensor of a name has been stored, and there is a node that reads
it. -/
def Stores (scope : Scope) (source : String) (t : Tensor) (scope' : Scope) : Prop :=
  ∃ place trainable label nodeNames supply attributeCounters,
    label.shape = some (some t.shape.known) ∧ scope' = { scope with
      nodes := scope.nodes ++ [⟨.load place, label⟩]
      attributes := scope.attributes.insert place ⟨t, trainable⟩
      constants := scope.constants.insert source (.node scope.nodes.length)
      tensors := scope.tensors.insert source t
      nodeNames, supply, attributeCounters }

/-- A name from outside has become an input. -/
def Captures (scope : Scope) (name : String) (shape : Option KnownShape) (scope' : Scope) : Prop :=
  ∃ inputName label inputCounters supply,
    label.name = some name ∧ label.shape.join = shape ∧ scope' = { scope with
      inputs := scope.inputs ++ [⟨inputName, label⟩]
      bindings := scope.bindings.insert name (.input scope.inputs.length)
      outerInputs := scope.outerInputs ++ [name]
      inputCounters, supply }

/-- The value of a name, and the scope in which it is there: that before,
or one with a value more. -/
inductive Gets (outer : Scopes) (scope : Scope) (name : String) : Ref → Scope → Prop
  | bound {ref : Ref} (h : scope.bindings.find? name = some ref) : Gets outer scope name ref scope
  | constant {ref : Ref} (h : scope.constants.find? name = some ref) :
      Gets outer scope name ref scope
  | initial {t : Tensor} {scope' : Scope} (unbound : scope.bindings.find? name = none)
      (h : scope.initializers.find? name = some t) (stores : scope.Stores name t scope') :
      Gets outer scope name (.node scope.nodes.length) scope'
  | known {t : Tensor} {scope' : Scope} (h : scope.tensors.find? name = some t)
      (stores : scope.Stores name t scope') :
      Gets outer scope name (.node scope.nodes.length)
        (scope'.bind name (.node scope.nodes.length))
  | copied {t : Tensor} {scope' : Scope} (new : scope.defines name = false)
      (visible : outer.defines name = true) (h : outer.tensor? name = some t)
      (stores : scope.Stores name t scope') :
      Gets outer scope name (.node scope.nodes.length)
        (scope'.bind name (.node scope.nodes.length))
  | captured {scope' : Scope} (new : scope.defines name = false)
      (visible : outer.defines name = true) (h : outer.tensor? name = none)
      (captures : scope.Captures name (outer.shape? name) scope') :
      Gets outer scope name (.input scope.inputs.length) scope'

end Scope

namespace Lower

variable {context : Context} {session session' : Session} {name : String} {ref : Ref}

theorem materialise_eq_ok {t : Tensor} {trainable : Option Bool}
    (h : materialise name t trainable context session = .ok ref session') :
    ref = .node session.scope.nodes.length ∧ session.scope.Stores name t session'.scope := by
  rw [materialise_apply] at h
  simp only at h
  split at h
  · cases h
  · split at h
    · cases h
      refine ⟨rfl, ?_⟩
      rw [Scope.store, Scope.addNode_eq]
      exact ⟨_, _, _, _, _, _, rfl, rfl⟩
    · cases h

theorem capture_eq_ok (hnew : session.scope.defines name = false)
    (hvisible : Scopes.defines context.outer name = true)
    (h : capture name context session = .ok ref session') :
    session.scope.Gets context.outer name ref session'.scope := by
  unfold capture at h
  rw [bind_apply, read_apply] at h
  simp only at h
  cases htensor : Scopes.tensor? context.outer name with
  | some t =>
      rw [htensor] at h
      obtain ⟨ref', middle, hstore, h⟩ := bind_eq_ok.1 h
      obtain ⟨rfl, hstores⟩ := materialise_eq_ok hstore
      obtain ⟨_, _, hbind, h⟩ := bind_eq_ok.1 h
      cases hbind
      cases h
      exact .copied hnew hvisible htensor hstores
  | none =>
      rw [htensor] at h
      obtain ⟨ref', middle, hinput, h⟩ := bind_eq_ok.1 h
      rw [withScope_apply, Scope.addInput_eq] at hinput
      cases hinput
      obtain ⟨_, _, hlabel, h⟩ := bind_eq_ok.1 h
      cases hlabel
      obtain ⟨_, _, hreport, h⟩ := bind_eq_ok.1 h
      cases hreport
      cases h
      refine .captured hnew hvisible htensor ?_
      simp only [Scope.labelInput, Scope.bind, modify_concat]
      refine ⟨_, _, _, _, rfl, ?_, rfl⟩
      cases Scopes.shape? context.outer name <;> rfl

/-- The ways in which a name can get a value. -/
theorem value_eq_ok (h : value name context session = .ok ref session') :
    name.isEmpty = false ∧ session.scope.Gets context.outer name ref session'.scope := by
  unfold value at h
  obtain ⟨hempty, h⟩ := guard_eq_ok.1 h
  refine ⟨Bool.eq_false_iff.2 hempty, ?_⟩
  rw [bind_apply, scope_apply] at h
  simp only at h
  cases hbinding : session.scope.bindings.find? name with
  | some bound =>
      simp only [hbinding] at h
      cases h
      exact .bound hbinding
  | none =>
      cases hconstant : session.scope.constants.find? name with
      | some bound =>
          simp only [hbinding, hconstant] at h
          cases h
          exact .constant hconstant
      | none =>
          cases hinitial : session.scope.initializers.find? name with
          | some t =>
              simp only [hbinding, hconstant, hinitial] at h
              obtain ⟨rfl, hstores⟩ := materialise_eq_ok h
              exact .initial hbinding hinitial hstores
          | none =>
              cases htensor : session.scope.tensors.find? name with
              | some t =>
                  simp only [hbinding, hconstant, hinitial, htensor] at h
                  obtain ⟨ref', middle, hstore, h⟩ := bind_eq_ok.1 h
                  obtain ⟨rfl, hstores⟩ := materialise_eq_ok hstore
                  obtain ⟨_, _, hbind, h⟩ := bind_eq_ok.1 h
                  cases hbind
                  cases h
                  exact .known htensor hstores
              | none =>
                  simp only [hbinding, hconstant, hinitial, htensor] at h
                  rw [bind_apply, read_apply] at h
                  simp only at h
                  have hnew : session.scope.defines name = false := by
                    simp only [Scope.defines, NameMap.contains, hbinding, hinitial, htensor,
                      Option.isSome_none, Bool.or_self]
                  cases hvisible : Scopes.defines context.outer name with
                  | true =>
                      rw [hvisible] at h
                      exact capture_eq_ok hnew hvisible h
                  | false =>
                      rw [hvisible] at h
                      cases h

end Lower

-- ================================================================== growth

namespace Scope

theorem find?_of_not_defines {scope : Scope} {name : String} (h : scope.defines name = false) :
    scope.bindings.find? name = none ∧ scope.tensors.find? name = none
      ∧ scope.initializers.find? name = none := by
  simp only [defines, NameMap.contains, Bool.or_eq_false_iff, Option.isSome_eq_false_iff,
    Option.isNone_iff_eq_none] at h
  exact ⟨h.1.1, h.1.2, h.2⟩

/-- A scope has become another one. On the way some names were read, and
some were given a meaning. -/
structure Grows (outer : Scopes) (reads gives : List String) (scope scope' : Scope) : Prop where
  inputNames : scope'.inputNames = scope.inputNames
  declarations : scope'.declarations = scope.declarations
  initializers : scope'.initializers = scope.initializers
  outputs : scope'.outputs = scope.outputs
  nodes : ∃ new, scope'.nodes = scope.nodes ++ new ∧
    ∀ name, name ∉ targetsOf new →
      scope'.attributes.find? name = scope.attributes.find? name
        ∧ scope'.loops.find? name = scope.loops.find? name
  /-- The new inputs stand for names from outside that were not known
  there and had not been read before. -/
  captured : ∃ (names : List String) (inputs : List Input),
    scope'.outerInputs = scope.outerInputs ++ names ∧ scope'.inputs = scope.inputs ++ inputs
      ∧ inputs.map (fun input => input.label.name) = names.map some ∧ names.Nodup
      ∧ ∀ name ∈ names, name ∈ reads ∧ scope.defines name = false
        ∧ scope'.defines name = true ∧ outer.defines name = true ∧ outer.tensor? name = none
  kept : ∀ name, scope.defines name = true → scope'.defines name = true
  origin : ∀ name, scope'.defines name = true →
    scope.defines name = true ∨ outer.defines name = true ∨ name ∈ gives

variable {outer : Scopes} {reads gives reads' gives' : List String}
  {scope scope' scope'' : Scope}

theorem Grows.refl (scope : Scope) : Grows outer reads gives scope scope where
  inputNames := rfl
  declarations := rfl
  initializers := rfl
  outputs := rfl
  nodes := ⟨[], (List.append_nil _).symm, fun _ _ => ⟨rfl, rfl⟩⟩
  captured := ⟨[], [], (List.append_nil _).symm, (List.append_nil _).symm, rfl, .nil,
    fun _ hname => nomatch hname⟩
  kept _ h := h
  origin _ h := .inl h

theorem Grows.trans (h : Grows outer reads gives scope scope')
    (h' : Grows outer reads gives scope' scope'') : Grows outer reads gives scope scope'' where
  inputNames := h'.inputNames.trans h.inputNames
  declarations := h'.declarations.trans h.declarations
  initializers := h'.initializers.trans h.initializers
  outputs := h'.outputs.trans h.outputs
  nodes := by
    obtain ⟨new, hnodes, hsame⟩ := h.nodes
    obtain ⟨new', hnodes', hsame'⟩ := h'.nodes
    refine ⟨new ++ new', by rw [hnodes', hnodes, List.append_assoc], fun name hname => ?_⟩
    rw [targetsOf_append, List.mem_append, not_or] at hname
    exact ⟨(hsame' name hname.2).1.trans (hsame name hname.1).1,
      (hsame' name hname.2).2.trans (hsame name hname.1).2⟩
  captured := by
    obtain ⟨names, inputs, houter, hinputs, hlabels, hnodup, hnames⟩ := h.captured
    obtain ⟨names', inputs', houter', hinputs', hlabels', hnodup', hnames'⟩ := h'.captured
    refine ⟨names ++ names', inputs ++ inputs', by rw [houter', houter, List.append_assoc],
      by rw [hinputs', hinputs, List.append_assoc],
      by rw [List.map_append, List.map_append, hlabels, hlabels'], ?_, fun name hname => ?_⟩
    · refine List.nodup_append.2 ⟨hnodup, hnodup', ?_⟩
      rintro name hname _ hname' rfl
      have hold := (hnames name hname).2.2.1
      rw [(hnames' name hname').2.1] at hold
      cases hold
    · rcases List.mem_append.1 hname with hname | hname
      · obtain ⟨hread, hnew, hdefined, hvisible, hunknown⟩ := hnames name hname
        exact ⟨hread, hnew, h'.kept name hdefined, hvisible, hunknown⟩
      · obtain ⟨hread, hnew, hrest⟩ := hnames' name hname
        refine ⟨hread, ?_, hrest⟩
        by_contra hold
        rw [h.kept name (Bool.not_eq_false _ ▸ hold)] at hnew
        cases hnew
  kept name hname := h'.kept name (h.kept name hname)
  origin name hname := by
    rcases h'.origin name hname with hname | hname
    · exact h.origin name hname
    · exact .inr hname

/-- More names may have been read and given. -/
theorem Grows.mono (h : Grows outer reads gives scope scope') (hreads : reads ⊆ reads')
    (hgives : gives ⊆ gives') : Grows outer reads' gives' scope scope' where
  inputNames := h.inputNames
  declarations := h.declarations
  initializers := h.initializers
  outputs := h.outputs
  nodes := h.nodes
  captured := by
    obtain ⟨names, inputs, houter, hinputs, hlabels, hnodup, hnames⟩ := h.captured
    exact ⟨names, inputs, houter, hinputs, hlabels, hnodup, fun name hname =>
      ⟨hreads (hnames name hname).1, (hnames name hname).2⟩⟩
  kept := h.kept
  origin name hname := (h.origin name hname).imp_right (Or.imp_right fun hgiven => hgives hgiven)

/-- What the nodes of a scope refer to stays there, if no two nodes refer
to the same. -/
theorem Grows.targets (h : Grows outer reads gives scope scope')
    (hdistinct : (targetsOf scope'.nodes).Nodup) :
    (targetsOf scope.nodes).Nodup ∧ ∀ name ∈ targetsOf scope.nodes, name ∈ targetsOf scope'.nodes
      ∧ scope'.attributes.find? name = scope.attributes.find? name
      ∧ scope'.loops.find? name = scope.loops.find? name := by
  obtain ⟨new, hnodes, hsame⟩ := h.nodes
  rw [hnodes, targetsOf_append] at hdistinct ⊢
  obtain ⟨hold, -, hdisjoint⟩ := List.nodup_append.1 hdistinct
  exact ⟨hold, fun name hname => ⟨List.mem_append_left _ hname,
    hsame name fun hnew => hdisjoint name hname name hnew rfl⟩⟩

-- =================================================================== steps

/-- More nodes, and what they refer to. -/
theorem Grows.of_nodes {new : List Node} {nodeNames : List String} {supply : NameSupply}
    {attributes : NameMap Attribute} {loops : NameMap Loop} {attributeCounters loopCounters : Counters}
    (hsame : ∀ name, name ∉ targetsOf new → attributes.find? name = scope.attributes.find? name
      ∧ loops.find? name = scope.loops.find? name) :
    Grows outer reads gives scope { scope with
      nodes := scope.nodes ++ new
      nodeNames, supply, attributes, loops, attributeCounters, loopCounters } where
  inputNames := rfl
  declarations := rfl
  initializers := rfl
  outputs := rfl
  nodes := ⟨new, rfl, hsame⟩
  captured := ⟨[], [], (List.append_nil _).symm, (List.append_nil _).symm, rfl, .nil,
    fun _ hname => nomatch hname⟩
  kept _ h := h
  origin _ h := .inl h

/-- More names with a meaning. -/
theorem Grows.of_names {bindings constants : NameMap Ref} {tensors : NameMap Tensor}
    (hkept : ∀ name, scope.defines name = true →
      ({ scope with bindings, constants, tensors } : Scope).defines name = true)
    (horigin : ∀ name, ({ scope with bindings, constants, tensors } : Scope).defines name = true →
      scope.defines name = true ∨ outer.defines name = true ∨ name ∈ gives) :
    Grows outer reads gives scope { scope with bindings, constants, tensors } where
  inputNames := rfl
  declarations := rfl
  initializers := rfl
  outputs := rfl
  nodes := ⟨[], (List.append_nil _).symm, fun _ _ => ⟨rfl, rfl⟩⟩
  captured := ⟨[], [], (List.append_nil _).symm, (List.append_nil _).symm, rfl, .nil,
    fun _ hname => nomatch hname⟩
  kept := hkept
  origin := horigin

theorem defines_bind (scope : Scope) (name other : String) (ref : Ref) :
    (scope.bind name ref).defines other = (other == name || scope.defines other) := by
  simp only [defines, bind, NameMap.contains_insert, Bool.or_assoc]

theorem Grows.bind {name : String} (ref : Ref)
    (h : scope.defines name = true ∨ outer.defines name = true ∨ name ∈ gives) :
    Grows outer reads gives scope (scope.bind name ref) := by
  refine .of_names (fun other hother => ?_) fun other hother => ?_
  · show (scope.bind name ref).defines other = true
    rw [defines_bind, hother, Bool.or_true]
  · replace hother : (scope.bind name ref).defines other = true := hother
    rw [defines_bind, Bool.or_eq_true] at hother
    rcases hother with hother | hother
    · rw [eq_of_beq hother]
      exact h
    · exact .inl hother

theorem Grows.of_stores {source : String} {t : Tensor} (stores : scope.Stores source t scope')
    (h : scope.defines source = true ∨ outer.defines source = true ∨ source ∈ gives) :
    Grows outer reads gives scope scope' := by
  obtain ⟨place, trainable, label, nodeNames, supply, attributeCounters, -, rfl⟩ := stores
  have hnode : Grows outer reads gives scope { scope with
      nodes := scope.nodes ++ [⟨.load place, label⟩]
      attributes := scope.attributes.insert place ⟨t, trainable⟩
      nodeNames, supply, attributeCounters } := .of_nodes fun name hname =>
    ⟨NameMap.find?_insert_of_ne _ _ fun heq => hname (heq ▸ List.mem_cons_self), rfl⟩
  refine hnode.trans (.of_names (fun other hother => ?_) fun other hother => ?_)
  · replace hother : scope.defines other = true := hother
    show (scope.bindings.contains other || (scope.tensors.insert source t).contains other
      || scope.initializers.contains other) = true
    rw [NameMap.contains_insert]
    simp only [defines, Bool.or_eq_true] at hother ⊢
    rcases hother with (hother | hother) | hother
    · exact .inl (.inl hother)
    · exact .inl (.inr (.inr hother))
    · exact .inr hother
  · replace hother : (scope.bindings.contains other || (scope.tensors.insert source t).contains other
      || scope.initializers.contains other) = true := hother
    rw [NameMap.contains_insert] at hother
    show scope.defines other = true ∨ _
    simp only [defines, Bool.or_eq_true] at hother ⊢
    rcases hother with (hother | hother | hother) | hother
    · exact .inl (.inl (.inl hother))
    · rw [eq_of_beq hother]
      simpa only [defines, Bool.or_eq_true] using h
    · exact .inl (.inl (.inr hother))
    · exact .inl (.inr hother)

theorem Grows.of_captures {name : String} {shape : Option KnownShape}
    (captures : scope.Captures name shape scope') (hname : name ∈ reads)
    (hnew : scope.defines name = false) (hvisible : outer.defines name = true)
    (hunknown : outer.tensor? name = none) : Grows outer reads gives scope scope' := by
  obtain ⟨inputName, label, inputCounters, supply, hsource, -, rfl⟩ := captures
  have hbind : Grows outer reads gives scope (scope.bind name (.input scope.inputs.length)) :=
    .bind _ (.inr (.inl hvisible))
  refine ⟨rfl, rfl, rfl, rfl, ⟨[], (List.append_nil _).symm, fun _ _ => ⟨rfl, rfl⟩⟩,
    ⟨[name], [⟨inputName, label⟩], rfl, rfl, ?_, List.pairwise_singleton _ _, fun other hother => ?_⟩,
    hbind.kept, hbind.origin⟩
  · rw [List.map_singleton, List.map_singleton, hsource]
  · rw [List.mem_singleton.1 hother]
    refine ⟨hname, hnew, ?_, hvisible, hunknown⟩
    show (scope.bind name (.input scope.inputs.length)).defines name = true
    rw [defines_bind, BEq.rfl, Bool.true_or]

theorem Stores.defines {source : String} {t : Tensor} (stores : scope.Stores source t scope') :
    scope'.defines source = true := by
  obtain ⟨place, trainable, label, nodeNames, supply, attributeCounters, -, rfl⟩ := stores
  simp only [Scope.defines, NameMap.contains_insert, BEq.rfl, Bool.true_or, Bool.or_true]

/-- A name that gets a value has been read. -/
theorem Gets.grows {name : String} {ref : Ref} (h : scope.Gets outer name ref scope')
    (hname : name ∈ reads) : Grows outer reads gives scope scope' := by
  cases h with
  | bound h => exact .refl _
  | constant h => exact .refl _
  | initial _ h stores =>
      refine .of_stores stores (.inl ?_)
      simp only [defines, NameMap.contains, h, Option.isSome_some, Bool.or_true]
  | known h stores =>
      refine (Grows.of_stores stores (.inl ?_)).trans (.bind _ (.inl stores.defines))
      simp only [defines, NameMap.contains, h, Option.isSome_some, Bool.or_true, Bool.true_or]
  | copied new visible h stores =>
      exact (Grows.of_stores stores (.inr (.inl visible))).trans (.bind _ (.inl stores.defines))
  | captured new visible h captures => exact .of_captures captures hname new visible h

end Scope

end OnnxLowering
