/-
The names on a module are identifiers. Whatever is called by name in the
textual form of a module, its inputs, tensors and loops, has got its name
from a counter, which was asked for the identifier that some name of the
graph comes to; and an identifier with a number behind it is one as well.

Where a name comes from is lost in the steps that a scope goes through, so
the induction is over how a computation is composed: nothing but the
computations that ask a counter adds a name.
-/
import OnnxLowering.Proofs.Handler.Composed
import OnnxLowering.Proofs.Lowering.Escapes
import OnnxLowering.Proofs.Text.Identifier

namespace OnnxLowering

open Identifier (IsIdentifier)

/-- The names on a module are identifiers. -/
structure ModuleOf.Identified {L : Type} (m : ModuleOf L) : Prop where
  inputs : ∀ name ∈ m.inputs.map Input.name, IsIdentifier name
  attributes : ∀ name, m.attributes.contains name = true → IsIdentifier name
  loops : ∀ name, m.loops.contains name = true → IsIdentifier name

/-- One more name, which a counter has handed out. -/
theorem isIdentifier_of_insert {β : Type} {entries : NameMap β} {counters : Counters}
    {wish name : String} {value : β}
    (hentries : ∀ name, entries.contains name = true → IsIdentifier name)
    (h : (entries.insert (counters.take (Identifier.sanitize wish)).1 value).contains name = true) :
    IsIdentifier name := by
  rw [NameMap.contains_insert, Bool.or_eq_true, beq_iff_eq] at h
  rcases h with rfl | h
  · exact Identifier.isIdentifier_take counters wish
  · exact hentries name h

-- ================================================================ scopes

namespace Scope

/-- The names on the module so far are identifiers. -/
def Identified (scope : Scope) : Prop := (scope.module (.tuple [])).Identified

variable {scope : Scope}

theorem Identified.bind (h : scope.Identified) (name : String) (ref : Ref) :
    (scope.bind name ref).Identified := h

theorem Identified.store (h : scope.Identified) (source : String) (t : Tensor) (trainable : Bool) :
    ((scope.takeAttribute (Identifier.sanitize source)).store source
      (Lower.attributeName scope source) t trainable).Identified where
  inputs := h.inputs
  attributes _ hname := isIdentifier_of_insert h.attributes hname
  loops := h.loops

theorem Identified.registerLoop (h : scope.Identified) (base : String) (loop : Loop) :
    Identified { scope.takeLoop (Identifier.sanitize base) with
      loops := scope.loops.insert (Lower.loopName scope base) loop } where
  inputs := h.inputs
  attributes := h.attributes
  loops _ hname := isIdentifier_of_insert h.loops hname

theorem Identified.addInput (h : scope.Identified) (source preferred : String) :
    (scope.addInput source preferred).2.Identified := by
  rw [addInput_eq]
  refine ⟨fun name hname => ?_, h.attributes, h.loops⟩
  replace hname : name ∈ (scope.inputs ++ [_]).map Input.name := hname
  rw [List.map_append, List.mem_append, List.map_singleton, List.mem_singleton] at hname
  rcases hname with hname | rfl
  · exact h.inputs name hname
  · exact Identifier.isIdentifier_take scope.inputCounters preferred

theorem Identified.labelInput (h : scope.Identified) (ref : Ref) (f : Label → Label) :
    (scope.labelInput ref f).Identified := by
  have hnames := scope.names_labelInput ref f
  cases ref with
  | node i => exact h
  | input i => exact ⟨fun name hname => h.inputs name (hnames ▸ hname), h.attributes, h.loops⟩

end Scope

-- =========================================================== computations

namespace Lower

variable {α : Type} {context : Context}

/-- A computation adds identifiers only. -/
abbrev Identifies (context : Context) (x : Lower α) : Prop :=
  x.Ends context (fun _ => True) Scope.Identified fun _ => Scope.Identified

theorem materialise_identifies (source : String) (t : Tensor) (trainable : Option Bool) :
    (materialise source t trainable).Identifies context := by
  intro session h
  rw [materialise_apply]
  simp only
  by_cases hflag : (trainable.getD t.dtype.isDifferentiable && !t.dtype.isDifferentiable) = true
  · rw [if_pos hflag]
    trivial
  · rw [if_neg hflag]
    by_cases hadmits : (session.scope.takeAttribute (Identifier.sanitize source)).admitsAttribute
        (attributeName session.scope source) (trainable.getD t.dtype.isDifferentiable) = true
    · rw [if_pos hadmits]
      exact h.store source t _
    · rw [if_neg hadmits]
      trivial

theorem registerLoop_identifies (base : String) (loop : Loop) :
    (registerLoop base loop).Identifies context := by
  intro session h
  rw [registerLoop_apply]
  simp only
  by_cases hadmits : (session.scope.takeLoop (Identifier.sanitize base)).admitsLoop
      (loopName session.scope base) = true
  · rw [if_pos hadmits]
    exact h.registerLoop base loop
  · rw [if_neg hadmits]
    trivial

/-- A tensor of a name is stored and bound to it. -/
theorem materialise_bind_identifies (name : String) (t : Tensor) :
    (do
      let ref ← materialise name t (some false)
      Lower.bind name ref
      return ref : Lower Ref).Identifies context :=
  (materialise_identifies name t _).bind fun ref =>
    (Ends.modifyScope fun _ h => h.bind name ref).bind fun _ => .pure fun _ h => h

theorem addInput_identifies (source preferred : String) :
    (withScope (·.addInput source preferred)).Identifies context :=
  Ends.withScope fun _ h => h.addInput source preferred

theorem capture_identifies (name : String) : (capture name).Identifies context := by
  unfold capture
  refine Ends.read.bind fun _ => .of_and fun _ => ?_
  simp only
  split
  · exact materialise_bind_identifies name _
  · exact (addInput_identifies _ _).bind fun ref =>
      (Ends.modifyScope fun _ h => (h.labelInput ref _).bind name ref).bind fun _ =>
        (Ends.report _).bind fun _ => .pure fun _ h => h

theorem value_identifies (name : String) : (value name).Identifies context := by
  unfold value
  refine .guard (fun _ => trivial) fun _ => Ends.scope.bind fun _ => .of_and fun _ => ?_
  split
  · exact .pure fun _ h => h
  · exact .pure fun _ h => h
  · exact materialise_identifies name _ _
  · exact materialise_bind_identifies name _
  · refine Ends.read.bind fun _ => .of_and fun _ => ?_
    split
    · exact capture_identifies name
    · exact .throw trivial

theorem addGraphInput_identifies (info : ValueInfo) : (addGraphInput info).Identifies context :=
  (addInput_identifies _ _).bind fun ref =>
    Ends.modifyScope fun _ h => (h.labelInput ref _).bind info.name ref

/-- Whatever is composed adds identifiers only. -/
theorem Composed.identifies {gives : String → Prop} {x : Lower α} (h : Composed gives x) :
    x.Identifies context := by
  induction h with
  | @reads _ x h =>
      intro session hscope
      cases hx : x context session with
      | ok a session' =>
          show session'.scope.Identified
          rw [h.scope_of_ok hx]
          exact hscope
      | error error session' => trivial
  | @sequence _ _ x f _ _ hfirst hrest =>
      intro session hscope
      have hx := hfirst session hscope
      rw [bind_apply]
      cases hrun : x context session with
      | ok a middle =>
          rw [hrun] at hx
          exact hrest a ⟨context, session, middle, hrun⟩ middle hx
      | error error middle => trivial
  | value name => exact value_identifies name
  | materialise _ t trainable => exact materialise_identifies _ t trainable
  | bound _ ref => exact Ends.modifyScope fun _ h => h.bind _ ref
  | known name t => exact Ends.modifyScope fun _ h => h
  | input _ => exact addGraphInput_identifies _
  | addNode action label =>
      intro session hscope
      rw [addNode_apply, Scope.addNode_eq]
      exact ⟨hscope.inputs, hscope.attributes, hscope.loops⟩
  | registerLoop base loop => exact registerLoop_identifies base loop
  | finished => exact Ends.modifyScope fun _ h => h

theorem Composed.identified {gives : String → Prop} {x : Lower α} (h : Composed gives x)
    {session session' : Session} {a : α} (hx : x context session = .ok a session')
    (hscope : session.scope.Identified) : session'.scope.Identified := by
  have hends := @h.identifies _ context _ _ session hscope
  rwa [hx] at hends

-- ================================================================ modules

/-- The module of a graph has the names that its scope has got. -/
theorem lowerGraph_identified {graph : GraphOf Importer} {asTuple : Bool}
    {session session' : Session} {m : Module} (hscope : session.scope.Identified)
    (h : lowerGraph Handlers.standard graph asTuple context session = .ok m session') :
    m.Identified := by
  unfold lowerGraph at h
  obtain ⟨_, fed, hfed, h⟩ := bind_eq_ok.1 h
  obtain ⟨_, last, hnodes, h⟩ := bind_eq_ok.1 h
  obtain ⟨r, ended, hresults, h⟩ := bind_eq_ok.1 h
  have hinputs : Composed (fun _ => True) (addGraphInputs graph.inputs) :=
    addGraphInputs_composed fun _ _ => trivial
  have hcomposed : Composed (fun _ => True) (lowerNodes Handlers.standard graph.nodes) :=
    lowerNodes_composed fun _ _ => ⟨fun _ => trivial, fun _ _ => trivial⟩
  have hlast := hcomposed.identified hnodes (hinputs.identified hfed hscope)
  have hended := (@results_composed (fun _ => True) asTuple).identified hresults hlast
  obtain ⟨rfl, -⟩ := finish_eq_ok h
  exact ⟨hended.inputs, hended.attributes, hended.loops⟩

end Lower

theorem identified_of_ofGraph {G : Type} {graph : GraphOf G} {start : Scope}
    (h : Scope.ofGraph graph = .ok start) : start.Identified := by
  obtain ⟨initial, -, rfl⟩ := ofGraph_eq_ok h
  exact ⟨fun _ hname => absurd hname List.not_mem_nil, fun _ hname => (nomatch hname),
    fun _ hname => (nomatch hname)⟩

/-- Every name on a lowered module is an identifier, whatever the names in
the graph are: of a whole graph, and of one inside a node, wherever that
stands. -/
theorem lowered_identified (graph : Graph) :
    (∀ opset asTuple m, (graph.lower Handlers.standard opset asTuple).1 = .ok m → m.Identified)
    ∧ ∀ context subgraph, ((graph.fold Handlers.standard.importer).lower context).1 = .ok subgraph →
      subgraph.module.Identified := by
  refine ⟨fun opset asTuple m h => ?_, fun context subgraph h => ?_⟩
  · obtain ⟨start, session', hstart, h⟩ := runIn_eq_ok h
    exact Lower.lowerGraph_identified (identified_of_ofGraph hstart) h
  · rw [Graph.fold_eq] at h
    obtain ⟨start, session', hstart, h⟩ := runIn_eq_ok h
    obtain ⟨m, middle, hlowered, h⟩ := Lower.bind_eq_ok.1 h
    obtain ⟨_, _, hscope, h⟩ := Lower.bind_eq_ok.1 h
    cases hscope
    obtain ⟨rfl, rfl⟩ := Lower.pure_eq_ok.1 h
    exact Lower.lowerGraph_identified (identified_of_ofGraph hstart) hlowered

end OnnxLowering
