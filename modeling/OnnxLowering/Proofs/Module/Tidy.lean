/-
Modules whose names do no harm at any depth. Besides that the module and
the bodies of its loops are legible, no two nodes of one module refer to
the same tensor or loop.
-/
import OnnxLowering.Proofs.Module.Evaluation

namespace OnnxLowering

/-- The tensors and loops that nodes refer to. -/
def targetsOf (nodes : List Node) : List String := nodes.filterMap fun node => node.action.target?

theorem targetsOf_append (nodes others : List Node) :
    targetsOf (nodes ++ others) = targetsOf nodes ++ targetsOf others := List.filterMap_append

namespace ModuleOf

inductive Tidy : Module → Prop
  | mk {m : Module} (legible : m.Legible) (distinct : (targetsOf m.nodes).Nodup)
      (bodies : ∀ name ∈ targetsOf m.nodes, ∀ wiring arity body,
        m.loops.find? name = some (.mk wiring arity body) → Tidy body) : Tidy m

variable {m : Module}

theorem Tidy.legible (h : m.Tidy) : m.Legible := by
  cases h with
  | mk legible _ _ => exact legible

theorem Tidy.distinct (h : m.Tidy) : (targetsOf m.nodes).Nodup := by
  cases h with
  | mk _ distinct _ => exact distinct

theorem Tidy.body (h : m.Tidy) {name : String} (hname : name ∈ targetsOf m.nodes)
    {wiring : Wiring} {arity : Nat} {body : Module}
    (hloop : m.loops.find? name = some (.mk wiring arity body)) : body.Tidy := by
  cases h with
  | mk _ _ bodies => exact bodies name hname wiring arity body hloop

/-- In a module without loops only its own names can do harm. -/
theorem Tidy.of_no_loops (legible : m.Legible) (distinct : (targetsOf m.nodes).Nodup)
    (hloops : ∀ name, m.loops.find? name = none) : m.Tidy :=
  .mk legible distinct fun name _ _ _ _ hloop => nomatch (hloops name).symm.trans hloop

/-- Whether a module without loops is tidy. -/
def harmless (m : Module) : Bool :=
  decide (Arguments.sources m.parameters = List.range m.inputs.length)
    && m.nodes.all (fun node => node.action.words.all (!m.parameters.contains ·))
    && decide (targetsOf m.nodes).Nodup && m.loops.entries.isEmpty

theorem Tidy.of_harmless (h : m.harmless = true) : m.Tidy := by
  simp only [harmless, Bool.and_eq_true, decide_eq_true_eq, List.all_eq_true, Bool.not_eq_true',
    ← Bool.not_eq_true, List.contains_iff_mem, List.isEmpty_iff] at h
  obtain ⟨⟨⟨hsources, hvisible⟩, hdistinct⟩, hloops⟩ := h
  refine .of_no_loops ⟨hsources, hvisible⟩ hdistinct fun name => ?_
  rw [NameMap.find?, hloops]
  rfl

/-- A module is tidy whose loops have none in their bodies, if its own names
do no harm and those in the bodies do not. -/
theorem Tidy.of_harmless_bodies (h : ({ m with loops := .empty } : Module).harmless = true)
    (hbodies : ∀ name wiring arity body, (name, Loop.mk wiring arity body) ∈ m.loops.entries →
      body.harmless = true) : m.Tidy := by
  have hown := Tidy.of_harmless h
  refine .mk ⟨hown.legible.sources, hown.legible.visible⟩ hown.distinct
    fun name _ wiring arity body hloop => .of_harmless (hbodies name wiring arity body ?_)
  obtain ⟨before, after, hentries, -⟩ := List.lookup_eq_some_iff.1 hloop
  rw [hentries]
  exact List.mem_append_right _ List.mem_cons_self

end ModuleOf

end OnnxLowering
