/-
What the loop that a scan becomes returns (`scan_returns_iff`): the
states after the last step, and the values of all steps stacked. The one
condition is that no parameter of the body hides the library that the
loop's own nodes refer to by name; a body that never uses the library
does what it should by itself, but not in the loop.
-/
import OnnxLowering.Handler.Standard
import OnnxLowering.Proofs.Scan.Node

namespace OnnxLowering

namespace Handler.ScanPlan

variable {plan : ScanPlan} {module : Module} {states scans outer : List Tensor} {ks : List Nat}
  {size : Nat} {s y : Nat → List Tensor}

/-- A run of a scan: `s t` are the states before step `t`, and `y t` the
values of the step. The module of the body gives them, from the elements
that the step reads and the values from outside. The values of one
output can be stacked. -/
structure Unrolls (plan : ScanPlan) (module : Module) (states scans outer : List Tensor)
    (ks : List Nat) (size : Nat) (s y : Nat → List Tensor) : Prop where
  positive : 1 ≤ size
  dimensions : plan.dimensions scans = .ok ks
  sizes : ∀ entry ∈ scans.zip ks, entry.1.shape.getD entry.2 0 = size
  first : s 0 = states
  stateCount : ∀ t ≤ size, (s t).length = plan.states
  valueCount : ∀ t < size, (y t).length = plan.outputAxes.length
  step : ∀ t < size, ∃ output,
    module.eval (operands (s t) (plan.elements scans ks size t) outer) = .ok output
      ∧ output.Are (s (t + 1) ++ y t)
  stackable : ∀ entry ∈ (plan.outputAxes.zip plan.outputDirections).zipIdx,
    Tensor.Stackable entry.1.1 (arrange entry.1.2 (column ((List.range size).map y) entry.2))
  addressable : (∀ scan ∈ scans, scan.Addressable) ∧ ∀ t < size, ∀ value ∈ y t, value.Addressable

/-- The body of a scan as far as it is known from a run. -/
def traced (plan : ScanPlan) (scans : List Tensor) (ks : List Nat) (size : Nat)
    (s y : Nat → List Tensor) : Body := fun xs =>
  match (List.range size).find? fun t => xs = s t ++ plan.elements scans ks size t with
  | some t => .ok (s (t + 1) ++ y t)
  | none => .unspecified

theorem traced_eq_ok {xs values : List Tensor}
    (h : plan.traced scans ks size s y xs = .ok values) :
    ∃ t < size, xs = s t ++ plan.elements scans ks size t ∧ values = s (t + 1) ++ y t := by
  unfold traced at h
  split at h
  · next t hfind =>
      have hprop := List.find?_some hfind
      have hmem := List.mem_of_find?_eq_some hfind
      cases h
      exact ⟨t, List.mem_range.1 hmem, of_decide_eq_true hprop, rfl⟩
  · cases h

theorem Unrolls.traced (h : plan.Unrolls module states scans outer ks size s y) {t : Nat}
    (ht : t < size) :
    plan.traced scans ks size s y (s t ++ plan.elements scans ks size t)
      = .ok (s (t + 1) ++ y t) := by
  cases hcase : plan.traced scans ks size s y (s t ++ plan.elements scans ks size t) with
  | ok values =>
      obtain ⟨t', ht', hsame, rfl⟩ := traced_eq_ok hcase
      obtain ⟨output, heval, hare⟩ := h.step t ht
      obtain ⟨output', heval', hare'⟩ := h.step t' ht'
      have hoperands : operands (s t) (plan.elements scans ks size t) outer
          = operands (s t') (plan.elements scans ks size t') outer := by
        rw [operands, operands, hsame]
      rw [hoperands, heval'] at heval
      cases heval
      rw [Output.Are.inj hare hare']
  | failed =>
      unfold ScanPlan.traced at hcase
      split at hcase <;> cases hcase
  | unspecified =>
      unfold ScanPlan.traced at hcase
      split at hcase
      · cases hcase
      · next hfind =>
          have hnone := List.find?_eq_none.1 hfind t (List.mem_range.2 ht)
          exact absurd (decide_eq_true rfl) hnone

theorem mem_arrange {α : Type} {direction : Int} {values : List α} {value : α} :
    value ∈ arrange direction values ↔ value ∈ values := by
  unfold arrange
  split
  · exact Iff.rfl
  · exact List.mem_reverse

theorem mem_column {rows : List (List Tensor)} {j : Nat} {value : Tensor} :
    value ∈ column rows j ↔ ∃ row ∈ rows, row[j]? = some value := List.mem_filterMap

/-- The values of a step can be given one more dimension. -/
theorem Unrolls.unsqueeze (h : plan.Unrolls module states scans outer ks size s y)
    (hdirections : plan.outputDirections.length = plan.outputAxes.length) {t : Nat}
    (ht : t < size) : ∃ us, ((y t).zip plan.outputAxes).mapM
      (fun entry => Outcome.ofExcept (entry.1.unsqueeze entry.2)) = .ok us := by
  have hall : ∀ entry ∈ (y t).zip plan.outputAxes,
      ∃ u, Outcome.ofExcept (entry.1.unsqueeze entry.2) = .ok u := by
    intro entry hentry
    obtain ⟨j, hentry⟩ := List.mem_iff_getElem?.1 hentry
    obtain ⟨hvalue, haxis⟩ := List.getElem?_zip_eq_some.1 hentry
    obtain ⟨direction, hdirection⟩ : ∃ direction, plan.outputDirections[j]? = some direction :=
      ⟨_, List.getElem?_eq_getElem (hdirections ▸ (List.getElem?_eq_some_iff.1 haxis).1)⟩
    have hzip : (plan.outputAxes.zip plan.outputDirections)[j]? = some (entry.2, direction) :=
      List.getElem?_zip_eq_some.2 ⟨haxis, hdirection⟩
    have houtput : ((plan.outputAxes.zip plan.outputDirections).zipIdx)[j]?
        = some ((entry.2, direction), j) := by
      rw [List.getElem?_zipIdx, hzip, Nat.zero_add]
      rfl
    have hmem : entry.1 ∈ arrange direction (column ((List.range size).map y) j) :=
      mem_arrange.2 (mem_column.2
        ⟨y t, List.mem_map_of_mem (List.mem_range.2 ht), hvalue⟩)
    obtain ⟨k, hk⟩ := (h.stackable _ (List.mem_of_getElem? houtput)).resolve hmem
    have hword := Tensor.isWord_of_resolveAxis
      (h.addressable.2 t ht _ (List.mem_of_getElem? hvalue)).1 hk
    exact ⟨_, Outcome.ofExcept_eq_ok.2 (Tensor.unsqueeze_eq_ok.2 ⟨hword, k, hk, rfl⟩)⟩
  obtain ⟨us, hus⟩ := exists_forall₂ hall
  exact ⟨us, Outcome.mapM_eq_ok.2 hus⟩

/-- The steps of a run are those of the scan. -/
theorem Unrolls.advance (h : plan.Unrolls module states scans outer ks size s y)
    (hdirections : plan.outputDirections.length = plan.outputAxes.length) {t : Nat}
    (ht : t < size) (rows : List (List Tensor)) :
    plan.advance (plan.traced scans ks size s y) scans ks size ⟨s t, rows⟩ t
      = .ok ⟨s (t + 1), rows ++ [y t]⟩ := by
  have hcount : plan.states = (s (t + 1)).length := (h.stateCount (t + 1) ht).symm
  obtain ⟨us, hus⟩ := h.unsqueeze hdirections ht
  unfold ScanPlan.advance
  rw [h.traced ht, Outcome.ok_bind, hcount, List.drop_left, List.take_left,
    Outcome.require_bind_eq_ok]
  refine ⟨h.addressable.2 t ht, ?_⟩
  rw [hus]
  rfl

theorem Unrolls.foldlM (h : plan.Unrolls module states scans outer ks size s y)
    (hdirections : plan.outputDirections.length = plan.outputAxes.length) {n : Nat}
    (hn : n ≤ size) :
    (List.range n).foldlM (plan.advance (plan.traced scans ks size s y) scans ks size)
      ⟨states, []⟩ = .ok ⟨s n, (List.range n).map y⟩ := by
  induction n with
  | zero =>
      rw [h.first]
      rfl
  | succ n ih =>
      rw [List.range_succ, List.foldlM_append, ih (Nat.le_of_succ_le hn), Outcome.ok_bind,
        List.foldlM_cons, h.advance hdirections hn, List.map_append]
      rfl

theorem Unrolls.steps (h : plan.Unrolls module states scans outer ks size s y)
    (hne : plan.inputAxes ≠ []) (hscans : scans.length = plan.inputAxes.length) :
    steps ((scans.zip ks).map fun entry => entry.1.shape.getD entry.2 0) = .ok size := by
  have hks : ks.length = scans.length := by
    rw [← (Outcome.mapM_eq_ok.1 h.dimensions).length_eq, List.length_zip, hscans, Nat.min_self]
  refine steps_eq_ok.2 ⟨?_, List.forall_mem_map.2 h.sizes⟩
  rw [← List.length_pos_iff, List.length_map, List.length_zip, hks, hscans, Nat.min_self,
    List.length_pos_iff]
  exact hne

/-- A run says what the scan means. -/
theorem Unrolls.run (h : plan.Unrolls module states scans outer ks size s y)
    (hscans : scans.length = plan.inputAxes.length) (hne : plan.inputAxes ≠ [])
    (hdirections : plan.outputDirections.length = plan.outputAxes.length) :
    ∃ zs, plan.stacked ((List.range size).map y) = .ok zs
      ∧ plan.run (plan.traced scans ks size s y) (states ++ scans) = .ok (s size ++ zs) := by
  have hall : ∀ entry ∈ (plan.outputAxes.zip plan.outputDirections).zipIdx, ∃ z,
      Tensor.stack entry.1.1 (arrange entry.1.2 (column ((List.range size).map y) entry.2))
        = .ok z := by
    intro entry hentry
    refine Tensor.exists_stack ?_ (h.stackable entry hentry)
    obtain ⟨j, hentry⟩ := List.mem_iff_getElem?.1 hentry
    rw [List.getElem?_zipIdx, Option.map_eq_some_iff] at hentry
    obtain ⟨⟨axis, direction⟩, hzip, rfl⟩ := hentry
    obtain ⟨haxis, -⟩ := List.getElem?_zip_eq_some.1 hzip
    have hj : j < (y 0).length := by
      rw [h.valueCount 0 h.positive]
      exact (List.getElem?_eq_some_iff.1 haxis).1
    have hmem : (y 0)[j] ∈ arrange direction (column ((List.range size).map y) (0 + j)) := by
      rw [Nat.zero_add, mem_arrange, mem_column]
      exact ⟨y 0, List.mem_map_of_mem (List.mem_range.2 h.positive), List.getElem?_eq_getElem hj⟩
    exact List.ne_nil_of_mem hmem
  obtain ⟨zs, hzs⟩ := exists_forall₂ hall
  have hstates : states.length = plan.states := by
    rw [← h.first, h.stateCount 0 (Nat.zero_le _)]
  refine ⟨zs, Outcome.mapM_eq_ok.2 hzs, ?_⟩
  unfold ScanPlan.run
  rw [List.drop_left' hstates, List.take_left' hstates, Outcome.require_bind_eq_ok]
  refine ⟨h.addressable.1, ?_⟩
  rw [h.dimensions, Outcome.ok_bind, h.steps hne hscans, Outcome.ok_bind,
    h.foldlM hdirections (Nat.le_refl _), Outcome.ok_bind, stacked, Outcome.mapM_eq_ok.2 hzs]
  rfl

end Handler.ScanPlan

/-- A loop does not run if its body does not and it has to. -/
theorem Wiring.run_ne_ok {wiring : Wiring} {arity : Nat} {body : Wiring.Body}
    {inputs outputs : List Operand} (hbody : ∀ arguments values, body arguments ≠ .ok values)
    (hcount : wiring.iterations inputs ≠ .ok 0) :
    wiring.run arity body inputs ≠ .ok outputs := by
  intro h
  obtain ⟨arguments, -, h⟩ := Except.bind_eq_ok.1 h
  obtain ⟨count, hiterations, h⟩ := Except.bind_eq_ok.1 h
  obtain ⟨state, hstate, -⟩ := Except.bind_eq_ok.1 h
  cases count with
  | zero => exact hcount hiterations
  | succ count =>
      obtain ⟨_, hstep, -⟩ := Except.bind_eq_ok.1 hstate
      obtain ⟨_, -, hstep⟩ := Except.bind_eq_ok.1 hstep
      obtain ⟨values, hvalues, -⟩ := Except.bind_eq_ok.1 hstep
      exact hbody _ values hvalues

namespace Handler

section

variable {description : String} {plan loopPlan : ScanPlan} {body loopModule : Module}
  {shapes : List (Option KnownShape)} {states scans outer : List Tensor} {ks : List Nat}
  {size : Nat} {s y : Nat → List Tensor}

/-- Ranks that are as known are so where axes count from the end. -/
theorem ScanPlan.fitsAt_inputs (hshapes : shapes.length = plan.inputCount)
    (hinputs : List.Forall₂ KnownShape.Fits (shapes.drop plan.states) scans) :
    List.Forall₂ KnownShape.FitsAt ((shapes.drop plan.states).zip plan.inputAxes) scans := by
  have hlength : (shapes.drop plan.states).length = plan.inputAxes.length := by
    rw [List.length_drop, hshapes, ScanPlan.inputCount]
    omega
  have hzip := forall₂_zip_of_left hinputs hlength
  refine hzip.imp fun entry t hfits => ?_
  show KnownShape.FitsAt entry t
  exact fun _ => hfits

/-- The loop does not run if a parameter of the body hides the library. -/
theorem ScanPlan.Unrolls.meaning_ne_ok (hrun : plan.Unrolls body states scans outer ks size s y)
    (hshapes : shapes.length = plan.inputCount)
    (h : scanBody description plan body shapes = .ok (loopModule, loopPlan))
    (hne : plan.inputAxes ≠ [])
    (hdirections : plan.inputDirections.length = plan.inputAxes.length)
    (hinputs : List.Forall₂ KnownShape.Fits (shapes.drop plan.states) scans)
    (hlibrary : Reserved.library ∈ body.parameters) {arity : Nat} {outputs : List Operand} :
    (Loop.mk (loopPlan.wiring outer.length) arity loopModule).meaning
      (ScanPlan.operands states scans outer) ≠ .ok outputs := by
  obtain ⟨inputs, inAxes, outAxes, hnames, rfl, rfl, hslices, -⟩ := scanBody_eq_ok hshapes h
  have hscans : scans.length = plan.inputAxes.length := by
    rw [← hinputs.length_eq, List.length_drop, hshapes, ScanPlan.inputCount]
    omega
  have hstates : states.length = plan.states := by
    rw [← hrun.first, hrun.stateCount 0 (Nat.zero_le _)]
  have hinAxes : inAxes ≠ [] := by
    rw [← List.length_pos_iff, ← hslices.length_eq, List.length_zip, hinputs.length_eq, hscans,
      Nat.min_self, List.length_pos_iff]
    exact hne
  have hbody (arguments values : List Operand) :
      (((body.map Loop.meaning).loopBody inputs plan.states inAxes outAxes).run arguments).map
        Output.operands ≠ .ok values := by
    intro hreturn
    obtain ⟨output, hreturn, -⟩ := Except.map_eq_ok.1 hreturn
    exact ModuleOf.run_loopBody_ne_ok hnames hlibrary hinAxes arguments output hreturn
  unfold Loop.meaning
  rw [Loop.fold_mk]
  refine Wiring.run_ne_ok hbody fun hzero => ?_
  obtain ⟨ks', hks', hsteps⟩ := (ScanPlan.iterations_eq_ok hstates hscans hdirections
    (ScanPlan.cuts_of_fits hslices (ScanPlan.fitsAt_inputs hshapes hinputs))).1 hzero
  rw [hrun.dimensions] at hks'
  cases hks'
  rw [hrun.steps hne hscans] at hsteps
  cases hsteps
  exact Nat.not_succ_le_zero 0 hrun.positive

/-- At every step of a run the body does what the run says. -/
theorem ScanPlan.Unrolls.realises_traced (hrun : plan.Unrolls body states scans outer ks size s y)
    {held : List Tensor} (hheld : held.length = plan.states) (elements : List Tensor) :
    Realises Output.Are (body.eval (ScanPlan.operands held elements outer))
      (plan.traced scans ks size s y (held ++ elements)) := by
  cases hcase : plan.traced scans ks size s y (held ++ elements) with
  | ok values =>
      obtain ⟨t, ht, hsame, rfl⟩ := ScanPlan.traced_eq_ok hcase
      obtain ⟨rfl, rfl⟩ := List.append_inj hsame
        (hheld.trans (hrun.stateCount t (Nat.le_of_lt ht)).symm)
      obtain ⟨output, heval, hare⟩ := hrun.step t ht
      exact ⟨output, heval, hare⟩
  | failed =>
      unfold ScanPlan.traced at hcase
      split at hcase <;> cases hcase
  | unspecified => trivial

/-- What a step of a run returns is as the results of the body are known
to be. -/
theorem ScanPlan.Unrolls.fitsAt_values (hrun : plan.Unrolls body states scans outer ks size s y)
    (hresults : body.results.refs.length = plan.states + plan.outputAxes.length)
    (hvalues : ∀ t < size, List.Forall₂
      (fun ref value => KnownShape.Fits (plan.resultShape shapes body ref) value)
      (body.results.refs.drop plan.states) (y t)) {xs values : List Tensor}
    (hxs : plan.traced scans ks size s y xs = .ok values) :
    values.length = plan.states + plan.outputAxes.length
      ∧ List.Forall₂ (fun entry value =>
          KnownShape.FitsAt (plan.resultShape shapes body entry.1, entry.2) value)
        ((body.results.refs.drop plan.states).zip plan.outputAxes) (values.drop plan.states) := by
  obtain ⟨t, ht, -, rfl⟩ := ScanPlan.traced_eq_ok hxs
  have hnext := hrun.stateCount (t + 1) ht
  refine ⟨by rw [List.length_append, hnext, hrun.valueCount t ht], ?_⟩
  rw [List.drop_left' hnext]
  have hlength : (body.results.refs.drop plan.states).length = plan.outputAxes.length := by
    rw [List.length_drop, hresults]
    omega
  have hzip := forall₂_zip_of_left (hvalues t ht) hlength
  refine hzip.imp fun entry value hfits => ?_
  show KnownShape.FitsAt (plan.resultShape shapes body entry.1, entry.2) value
  exact fun _ => hfits

/-- The loop returns what the scan means if and only if no parameter of
the body hides the library. -/
theorem meaning_scanBody_iff (hshapes : shapes.length = plan.inputCount)
    (h : scanBody description plan body shapes = .ok (loopModule, loopPlan))
    (hne : plan.inputAxes ≠ [])
    (hinDirections : plan.inputDirections.length = plan.inputAxes.length)
    (houtDirections : plan.outputDirections.length = plan.outputAxes.length)
    (hlegible : body.LegibleBesidesLibrary)
    (hrun : plan.Unrolls body states scans outer ks size s y)
    (hinputs : List.Forall₂ KnownShape.Fits (shapes.drop plan.states) scans)
    (hvalues : ∀ t < size, List.Forall₂
      (fun ref value => KnownShape.Fits (plan.resultShape shapes body ref) value)
      (body.results.refs.drop plan.states) (y t)) :
    ∃ zs, plan.stacked ((List.range size).map y) = .ok zs
      ∧ ((Loop.mk (loopPlan.wiring outer.length) (loopPlan.inputCount + outer.length)
            loopModule).meaning (ScanPlan.operands states scans outer)
          = .ok ((s size ++ zs).map some)
        ↔ Reserved.library ∉ body.parameters) := by
  have hscans : scans.length = plan.inputAxes.length := by
    rw [← hinputs.length_eq, List.length_drop, hshapes, ScanPlan.inputCount]
    omega
  have hks : ks.length = scans.length := by
    rw [← (Outcome.mapM_eq_ok.1 hrun.dimensions).length_eq, List.length_zip, hscans, Nat.min_self]
  have hstates : states.length = plan.states := by
    rw [← hrun.first, hrun.stateCount 0 (Nat.zero_le _)]
  obtain ⟨zs, hzs, hplan⟩ := hrun.run hscans hne houtDirections
  refine ⟨zs, hzs, ?_⟩
  obtain ⟨output, heval, hare⟩ := hrun.step 0 hrun.positive
  have hcount : body.inputs.length = plan.inputCount + outer.length := by
    have hlength := (ModuleOf.evalNodes_of_run_eq_ok heval).1
    rw [ScanPlan.operands, List.length_map, List.length_append, List.length_append,
      hrun.stateCount 0 (Nat.zero_le _), ScanPlan.elements, List.length_map, List.length_zip,
      List.length_zip, hks, hinDirections, hscans, Nat.min_self, Nat.min_self] at hlength
    exact hlength.symm
  have hresults : body.results.refs.length = plan.states + plan.outputAxes.length := by
    have hlength := ModuleOf.length_operands_of_run_eq_ok heval
    rw [hare, List.length_map, List.length_append, hrun.stateCount 1 hrun.positive,
      hrun.valueCount 0 hrun.positive] at hlength
    exact hlength.symm
  constructor
  · intro hreturns hlibrary
    exact hrun.meaning_ne_ok hshapes h hne hinDirections hinputs hlibrary hreturns
  · intro hlibrary
    have hmeaning := realises_meaning_scanBody hshapes h hinDirections houtDirections hresults
      hcount (hlegible.legible hlibrary) hlibrary hstates (ScanPlan.fitsAt_inputs hshapes hinputs)
      (fun states elements hstates _ => hrun.realises_traced hstates elements)
      (fun xs values hxs => hrun.fitsAt_values hresults hvalues hxs)
    rw [hplan] at hmeaning
    obtain ⟨outputs, hmeaning, rfl⟩ := hmeaning
    exact hmeaning

end

-- ==================================================================== nodes

/-- How a scan is spelled from version 9 on. -/
def ScanSyntax.current : ScanSyntax := ⟨0, 0, "scan_input_directions"⟩

theorem find?_scan {opset : Int} (h : 9 ≤ opset) :
    Handlers.standard.find? "Scan" opset = some (9, scan) := by
  have hversions : Handlers.standard.versions "Scan" = [(8, scanBatched), (9, scan)] := rfl
  have height : decide ((8 : Int) ≤ opset) = true := decide_eq_true (by omega)
  have hnine : decide ((9 : Int) ≤ opset) = true := decide_eq_true h
  unfold Registry.find?
  rw [hversions]
  simp only [List.takeWhile_cons, height, hnine]
  rfl

variable {node : NodeOf Importer} {context : Context} {session session' : Session}

/-- The loop that a scan has become. -/
def Scanned.loop {spelling : ScanSyntax} {result : Result}
    (scanned : Scanned spelling node context session result session') : Loop :=
  .mk (scanned.loopPlan.wiring scanned.subgraph.outerInputs.length)
    (scanned.loopPlan.inputCount + scanned.subgraph.outerInputs.length) scanned.loopModule

/-- The scan has become the call of the loop. -/
theorem Scanned.exists_call {spelling : ScanSyntax} {result : Result}
    (scanned : Scanned spelling node context session result session') :
    ∃ (name : String) (label : Label),
      ⟨.call name scanned.operands, label⟩ ∈ session'.scope.nodes
        ∧ session'.scope.loops.find? name = some scanned.loop := by
  obtain ⟨base, nodeNames, supply, log, hleft⟩ := scanned.left
  have hnodes : session'.scope.nodes = _ := congrArg (·.scope.nodes) hleft
  have hloops : session'.scope.loops = _ := congrArg (·.scope.loops) hleft
  refine ⟨Lower.loopName scanned.middle.scope base, Lower.labelOf scanned.middle.scope node 0 false,
    ?_, ?_⟩
  · rw [hnodes]
    exact List.mem_append_right _ List.mem_cons_self
  · rw [hloops]
    exact NameMap.find?_insert_self _ _ _

/-- A scan that is lowered becomes the call of a loop. -/
theorem exists_scanned {spelling : ScanSyntax} {version : Int} {handler : Handler}
    (hfind : Handlers.standard.find? node.op context.opset = some (version, handler))
    (hhandler : ∀ {session result session'}, handler node context session = .ok result session' →
      scanWith spelling node context session = .ok result session')
    (h : Lower.lowerNode Handlers.standard node context session = .ok () session') :
    ∃ (log : List LogRecord) (result : Result) (middle : Session)
        (scanned : Scanned spelling node context { session with log } result middle)
        (name : String) (label : Label),
      ⟨.call name scanned.operands, label⟩ ∈ session'.scope.nodes
        ∧ session'.scope.loops.find? name = some scanned.loop := by
  obtain ⟨-, _, _, result, log, middle, hfound, hresult, rfl⟩ := Lower.lowerNode_eq_ok h
  rw [hfind] at hfound
  cases hfound
  obtain ⟨scanned⟩ : Nonempty (Scanned spelling node context { session with log } result middle) :=
    scanWith_eq_ok (hhandler hresult)
  exact ⟨log, result, middle, scanned, scanned.exists_call⟩

theorem Scanned.length_shapes {spelling : ScanSyntax} {result : Result}
    (scanned : Scanned spelling node context session result session') :
    (spelling.shapes node (session.scope :: context.outer)).length = scanned.plan.inputCount := by
  have hinputs := scanned.describes.inputs
  have haxes := scanned.describes.inputAxesLength
  rw [ScanSyntax.shapes, List.length_map, scanned.inputCount, ScanPlan.inputCount]
  omega

theorem ScanPlan.Describes.inputAxes_ne_nil {plan : ScanPlan} {spelling : ScanSyntax}
    {values : Attributes} {scanInputs : Int} {bodyInputs bodyOutputs : Nat}
    (h : plan.Describes spelling values scanInputs bodyInputs bodyOutputs) :
    plan.inputAxes ≠ [] := by
  have hpositive := h.positive
  have haxes := h.inputAxesLength
  rw [← List.length_pos_iff]
  omega

/-- A scan that is lowered becomes the call of a loop. Where a run of the
scan is given, by the module of its body and with the ranks that are
known, the loop returns the states after the last step and the stacked
values, unless a parameter of the body hides the library. -/
theorem scan_returns_iff (hop : node.op = "Scan") (hopset : 9 ≤ context.opset)
    (h : Lower.lowerNode Handlers.standard node context session = .ok () session') :
    ∃ (importer : Importer) (subgraph : Subgraph) (values : Attributes) (scanInputs : Int)
        (plan : ScanPlan) (name : String) (refs : List Ref) (label : Label) (loop : Loop),
      node.graph? "body" = some importer
      ∧ (importer.lower ⟨context.opset, session.scope :: context.outer⟩).1 = .ok subgraph
      ∧ node.values = .ok values
      ∧ (∃ value, values.find? "num_scan_inputs" = some value ∧ value.toInt = .ok scanInputs)
      ∧ plan.Describes .current values scanInputs subgraph.inputNames.length
        subgraph.outputNames.length
      ∧ ⟨.call name refs, label⟩ ∈ session'.scope.nodes
      ∧ session'.scope.loops.find? name = some loop
      ∧ ∀ (states scans outer : List Tensor) (ks : List Nat) (size : Nat)
          (s y : Nat → List Tensor),
        subgraph.module.LegibleBesidesLibrary →
        outer.length = subgraph.outerInputs.length →
        plan.Unrolls subgraph.module states scans outer ks size s y →
        List.Forall₂ KnownShape.Fits
          ((ScanSyntax.current.shapes node (session.scope :: context.outer)).drop plan.states)
          scans →
        (∀ t < size, List.Forall₂
          (fun ref value => KnownShape.Fits (plan.resultShape
            (ScanSyntax.current.shapes node (session.scope :: context.outer))
            subgraph.module ref) value)
          (subgraph.module.results.refs.drop plan.states) (y t)) →
        ∃ zs, plan.stacked ((List.range size).map y) = .ok zs
          ∧ (loop.meaning (ScanPlan.operands states scans outer)
              = .ok ((s size ++ zs).map some)
            ↔ Reserved.library ∉ subgraph.module.parameters) := by
  obtain ⟨log, result, middle, scanned, name, label, hcall, hloop⟩ :=
    exists_scanned (hop ▸ find?_scan hopset) id h
  refine ⟨scanned.importer, scanned.subgraph, scanned.values, scanned.scanInputs, scanned.plan,
    name, scanned.operands, label, scanned.loop, scanned.graph, scanned.imported,
    scanned.attributes, scanned.count, scanned.describes, hcall, hloop, ?_⟩
  intro states scans outer ks size s y hlegible houter hrun hinputs hvalues
  unfold Scanned.loop
  rw [← houter]
  exact meaning_scanBody_iff scanned.length_shapes scanned.body scanned.describes.inputAxes_ne_nil
    scanned.describes.inputDirectionsLength scanned.describes.outputDirectionsLength hlegible hrun
    hinputs hvalues

-- ============================================================== exchange

/-- The body that returns the element that it reads as its new state, and
the old state as a value. -/
def exchange (state : String) : Subgraph where
  module :=
    { inputs := [⟨state, {}⟩, ⟨"x", {}⟩]
      nodes := []
      results := .tuple [.input 1, .input 0] }
  inputNames := [state, "x"]
  outputNames := ["last", "y"]
  outerInputs := []

/-- A scan with this body. -/
def exchangeNode (state : String) : NodeOf Importer where
  op := "Scan"
  inputs := ["a", "b"]
  outputs := ["f", "ys"]
  attributes :=
    [("body", .graph ⟨fun _ => (.ok (exchange state), [])⟩), ("num_scan_inputs", .int 1)]

/-- A session in which the inputs of the scan have values. -/
def exchangeSession : Session where
  scope := { bindings := .ofList [("a", .input 0), ("b", .input 1)] }

/-- The states of the scan of 2 and 3 that starts at 1. -/
def exchanged : Nat → List Tensor
  | 0 => [.scalar .int64 1]
  | t + 1 => [(Tensor.vector .int64 [2, 3]).select 0 t]

/-- The plan of a scan with one state that says of itself only that it has
one scan input. -/
theorem ScanPlan.Describes.eq_of_defaults {G : Type} {node : NodeOf G} {g : G} {plan : ScanPlan}
    {spelling : ScanSyntax} {values : Attributes} {scanInputs : Int} {n : Nat}
    (h : plan.Describes spelling values scanInputs 2 (1 + n)) (hvalues : node.values = .ok values)
    (hattributes : node.attributes = [("body", .graph g), ("num_scan_inputs", .int 1)])
    (hcount : ∃ value, values.find? "num_scan_inputs" = some value ∧ value.toInt = .ok scanInputs)
    (hdirections : spelling.directions ≠ "num_scan_inputs") :
    plan = ⟨1, [spelling.defaultAxis], [0], List.replicate n spelling.defaultAxis,
      List.replicate n 0⟩ := by
  obtain ⟨states, inputAxes, inputDirections, outputAxes, outputDirections⟩ := plan
  unfold NodeOf.values at hvalues
  rw [hattributes] at hvalues
  cases hvalues
  obtain ⟨value, hvalue, hscanInputs⟩ := hcount
  cases hvalue
  cases hscanInputs
  obtain ⟨-, hinputs, houtputs, hinAxes, hinDirections, houtAxes, houtDirections, -, -, -⟩ := h
  have hstates : states = 1 := by
    simp only at hinputs
    omega
  have hlength : outputAxes.length = n := by
    simp only at houtputs
    omega
  have hnone {name : String} {default : List Int} (hname : name ≠ "num_scan_inputs") :
      intsOr (NameMap.empty.insert "num_scan_inputs" (.int 1)) name default = .ok default := by
    rw [intsOr, NameMap.find?_insert_of_ne _ _ hname]
    rfl
  rw [hnone (by decide)] at hinAxes houtAxes houtDirections
  rw [hnone hdirections] at hinDirections
  simp only [hlength, Except.ok.injEq] at hinAxes hinDirections houtAxes houtDirections
  rw [hstates, ← hinAxes, ← hinDirections, ← houtAxes, ← houtDirections]
  rfl

theorem exchange_plan {plan : ScanPlan} {state : String} {values : Attributes} {scanInputs : Int}
    (hvalues : (exchangeNode state).values = .ok values)
    (hcount : ∃ value, values.find? "num_scan_inputs" = some value ∧ value.toInt = .ok scanInputs)
    (h : plan.Describes .current values scanInputs 2 2) :
    plan = ⟨1, [0], [0], [0], [0]⟩ :=
  h.eq_of_defaults (n := 1) hvalues rfl hcount (by decide)

theorem exchange_legible {state : String}
    (h : Arguments.sources [state, "x"] = List.range 2) :
    (exchange state).module.LegibleBesidesLibrary :=
  ⟨h, fun _ hnode => nomatch hnode⟩

theorem exchange_unrolls {state : String} (h : Arguments.sources [state, "x"] = List.range 2) :
    ScanPlan.Unrolls ⟨1, [0], [0], [0], [0]⟩ (exchange state).module [.scalar .int64 1]
      [.vector .int64 [2, 3]] [] [0] 2 exchanged exchanged where
  positive := by decide
  dimensions := rfl
  sizes := by decide
  first := rfl
  stateCount t _ := by cases t <;> rfl
  valueCount t _ := by cases t <;> rfl
  step t ht := by
    have hlegible : ((exchange state).module.map Loop.meaning).Legible :=
      ⟨h, fun _ hnode => nomatch hnode⟩
    refine ⟨_, ModuleOf.run_of_legible hlegible ?_, ?_⟩
    · cases t <;> rfl
    · cases t <;> rfl
  stackable := by
    rintro entry hentry first rest hparts
    rw [List.mem_singleton.1 hentry] at hparts ⊢
    cases hparts
    exact ⟨⟨0, rfl⟩, ⟨.int64, rfl⟩, by decide⟩
  addressable := by decide

theorem fits_exchanged (state : String) (t : Nat) :
    List.Forall₂ (fun ref value => KnownShape.Fits (ScanPlan.resultShape ⟨1, [0], [0], [0], [0]⟩
        (ScanSyntax.current.shapes (exchangeNode state) [exchangeSession.scope])
        (exchange state).module ref) value)
      [.input 0] (exchanged t) := by
  cases t <;> exact .cons (fun _ hdims => nomatch hdims) .nil

theorem exchange_stacked : ScanPlan.stacked ⟨1, [0], [0], [0], [0]⟩ ((List.range 2).map exchanged)
    = .ok [.vector .int64 [1, 2]] := by decide +kernel

/-- The state after the last step, and the old states as one vector. -/
theorem scan_returns_exchanged :
    ∃ session' name loop,
      Lower.lowerNode Handlers.standard (exchangeNode "s") ⟨9, []⟩ exchangeSession
        = .ok () session'
      ∧ session'.scope.loops.find? name = some loop
      ∧ loop.meaning [some (.scalar .int64 1), some (.vector .int64 [2, 3])]
        = .ok [some (.scalar .int64 3), some (.vector .int64 [1, 2])] := by
  obtain ⟨_, session', h⟩ : ∃ u session', Lower.lowerNode Handlers.standard (exchangeNode "s")
      ⟨9, []⟩ exchangeSession = .ok u session' := Lower.exists_of_succeeds (by decide +kernel)
  obtain ⟨importer, subgraph, values, scanInputs, plan, name, refs, label, loop, hgraph, himported,
    hvalues, hcount, hdescribes, -, hloop, hmeaning⟩ := scan_returns_iff rfl (by decide) h
  cases hgraph
  cases himported
  obtain rfl := exchange_plan hvalues hcount hdescribes
  have hsources : Arguments.sources ["s", "x"] = List.range 2 := by decide +kernel
  obtain ⟨zs, hzs, hreturns⟩ := hmeaning _ _ _ _ _ _ _ (exchange_legible hsources) rfl
    (exchange_unrolls hsources) (.cons (fun _ hdims => nomatch hdims) .nil)
    (fun t _ => fits_exchanged _ t)
  rw [exchange_stacked] at hzs
  cases hzs
  have hlast : (Tensor.vector .int64 [2, 3]).select 0 1 = .scalar .int64 3 := by decide
  have hvisible : Reserved.library ∉ (exchange "s").module.parameters := by decide
  refine ⟨session', name, loop, h, hloop, (hreturns.2 hvisible).trans ?_⟩
  rw [exchanged, hlast]
  rfl

/-- The same with a state whose name is that of the library: by itself
the body still returns the element and the state, but the loop fails. -/
theorem scan_hides_library :
    ∃ session' name loop,
      Lower.lowerNode Handlers.standard (exchangeNode "torch") ⟨9, []⟩ exchangeSession
        = .ok () session'
      ∧ session'.scope.loops.find? name = some loop
      ∧ (∀ state element : Tensor, (exchange "torch").module.eval [some state, some element]
        = .ok (.tuple [some element, some state]))
      ∧ ∀ outputs, loop.meaning [some (.scalar .int64 1), some (.vector .int64 [2, 3])]
        ≠ .ok outputs := by
  obtain ⟨_, session', h⟩ : ∃ u session', Lower.lowerNode Handlers.standard
      (exchangeNode "torch") ⟨9, []⟩ exchangeSession = .ok u session' :=
    Lower.exists_of_succeeds (by decide +kernel)
  obtain ⟨log, result, middle, scanned, name, label, -, hloop⟩ :=
    exists_scanned (find?_scan (by decide)) id h
  have hsources : Arguments.sources ["torch", "x"] = List.range 2 := by decide +kernel
  have hlegible : ((exchange "torch").module.map Loop.meaning).Legible :=
    ⟨hsources, fun _ hnode => nomatch hnode⟩
  have hsubgraph : scanned.subgraph = exchange "torch" := by
    have himporter : some scanned.importer = some ⟨fun _ => (.ok (exchange "torch"), [])⟩ :=
      scanned.graph.symm
    have himported := scanned.imported
    rw [Option.some.inj himporter] at himported
    exact (Except.ok.inj himported).symm
  refine ⟨session', name, scanned.loop, h, hloop, fun state element => ?_, fun outputs => ?_⟩
  · exact ModuleOf.run_of_legible hlegible rfl
  · have hdescribes := scanned.describes
    have hbody := scanned.body
    have hshapes := scanned.length_shapes
    rw [hsubgraph] at hdescribes
    have hplan := exchange_plan scanned.attributes scanned.count hdescribes
    rw [hsubgraph, hplan] at hbody
    rw [hplan] at hshapes
    unfold Scanned.loop
    rw [hsubgraph]
    exact (exchange_unrolls hsources).meaning_ne_ok hshapes hbody (List.cons_ne_nil _ _) rfl
      (.cons (fun _ hdims => nomatch hdims) .nil) (by decide)

end Handler

end OnnxLowering
