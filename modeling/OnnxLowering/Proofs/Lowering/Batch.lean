/-
Scans of version 8. Their tensors have a dimension more, in front of the
one that is scanned, which counts samples. The lowering does nothing about
it: the loop is that of any other scan, over dimension 1, and its body is
given whole batches. So the samples of a batch are treated independently
of each other exactly if the body of the scan does so
(`scanBatched_independent_iff`). One that brings operands of different
ranks together does not: their dimensions are matched from the last one,
and then the samples of one operand meet something else of the other.
-/
import OnnxLowering.Proofs.Lowering.WellFormed
import OnnxLowering.Proofs.Scan.Batch

namespace OnnxLowering

/-- Lowering keeps one result for each output. -/
theorem Lowered.length_results {graph : GraphOf Importer} {asTuple : Bool} {context : Context}
    {start left : Scope} {m : Module} (lowered : Lowered graph asTuple context start m left) :
    m.results.refs.length = left.outputs.length := by
  have hgrows : lowered.last.scope.Grows context.outer lowered.last.scope.outputs []
      lowered.ended := lowered.outputs.grows (List.Subset.refl _)
  have hrefs : m.results.refs = lowered.refs :=
    (congrArg (fun m => m.results.refs) lowered.module).trans (Results.refs_ofRefs _ _)
  rw [hrefs, lowered.outputs.length_eq, lowered.outputNames, hgrows.outputs]

/-- A function of tensors of certain ranks. -/
def Handler.ScanPlan.Body.within (body : Body) (ranks : List Nat) : Body := fun xs => do
  Outcome.require (xs.map Tensor.rank = ranks)
  body xs

/-- A module computes a function of its first arguments, given the
others. -/
def ModuleOf.Denotes (m : Module) (outer : List Tensor) (body : Handler.ScanPlan.Body) : Prop :=
  ∀ xs, Realises Output.Are (m.eval ((xs ++ outer).map some)) (body xs)

section

variable {m : Module} {outer xs values : List Tensor} {body : Handler.ScanPlan.Body}

theorem ModuleOf.Denotes.length_eq (h : ModuleOf.Denotes m outer body) (hvalues : body xs = .ok values) :
    values.length = m.results.refs.length := by
  have hreturns := h xs
  rw [hvalues] at hreturns
  obtain ⟨output, heval, hare⟩ := hreturns
  have hlength : output.operands.length = m.results.refs.length :=
    ModuleOf.length_operands_of_run_eq_ok heval
  rw [← hlength, hare, List.length_map]

/-- What a module computes, it computes of tensors of certain ranks. -/
theorem ModuleOf.Denotes.within (h : ModuleOf.Denotes m outer body) (ranks : List Nat) :
    ModuleOf.Denotes m outer (body.within ranks) :=
  fun xs => Realises.require_bind fun _ => h xs

end

namespace Handler

/-- How a scan is spelled in version 8. -/
def ScanSyntax.batched : ScanSyntax := ⟨1, 1, "directions"⟩

theorem find?_scanBatched :
    Handlers.standard.find? "Scan" 8 = some (8, scanBatched) := rfl

variable {node : NodeOf Graph} {context : Context} {session session' : Session} {result : Result}

/-- Along the dimension behind the one that counts samples. -/
theorem ScanPlan.Describes.along {plan : ScanPlan} {spelling : ScanSyntax} {values : Attributes}
    {scanInputs : Int} {bodyInputs bodyOutputs c : Nat}
    (h : plan.Describes spelling values scanInputs bodyInputs bodyOutputs)
    (hspelling : spelling.defaultAxis = c) (hinputs : values.find? "scan_input_axes" = none)
    (houtputs : values.find? "scan_output_axes" = none) : plan.Along c where
  inputAxes axis haxis := by
    have haxes := h.inputAxes
    rw [intsOr, hinputs] at haxes
    rw [← Except.ok.inj haxes] at haxis
    exact (List.eq_of_mem_replicate haxis).trans hspelling
  outputAxes axis haxis := by
    have haxes := h.outputAxes
    rw [intsOr, houtputs] at haxes
    rw [← Except.ok.inj haxes] at haxis
    exact (List.eq_of_mem_replicate haxis).trans hspelling
  inputDirections := h.inputDirectionsLength
  outputDirections := h.outputDirectionsLength
  nonempty := h.inputAxes_ne_nil

/-- As many inputs and results as the module of the body has, the plan
has. -/
theorem Scanned.counts {spelling : ScanSyntax}
    (scanned : Scanned spelling (node.map (Graph.fold Handlers.standard.importer)) context session
      result session') :
    scanned.subgraph.module.inputs.length
        = scanned.plan.inputCount + scanned.subgraph.outerInputs.length
      ∧ scanned.subgraph.module.results.refs.length
        = scanned.plan.states + scanned.plan.outputAxes.length := by
  obtain ⟨g, -, himported⟩ := scanned.exists_body
  obtain ⟨-, hwellFormed, hinputNames⟩ := wellFormed_importer g _ _ himported
  rw [Graph.fold_eq] at himported
  obtain ⟨start, left, -, ⟨lowered⟩, -, houtputNames, -⟩ := importer_eq_ok himported
  refine ⟨?_, ?_⟩
  · cases hwellFormed with
    | mk listed loops =>
        have hinputs := scanned.describes.inputs
        have haxes := scanned.describes.inputAxesLength
        have hlength := congrArg List.length listed.labels
        rw [List.length_map, List.length_map, List.length_append, ← hinputNames] at hlength
        rw [hlength, ScanPlan.inputCount]
        omega
  · rw [lowered.length_results, ← houtputNames, scanned.describes.outputs]

variable {spelling : ScanSyntax}
  (scanned : Scanned spelling (node.map (Graph.fold Handlers.standard.importer)) context session
    result session')
  {c : Nat} {body : ScanPlan.Body} {inputs outer : List Tensor}

theorem Scanned.counts_of_denotes (denotes : ModuleOf.Denotes scanned.subgraph.module outer body) :
    scanned.plan.Counts body :=
  fun _ _ hvalues => (denotes.length_eq hvalues).trans scanned.counts.2

/-- The loop does what the scan does with the function that the module of
the body computes. No axis counts from the end, so nothing depends on
what is known of the ranks. -/
theorem Scanned.realises_run (along : scanned.plan.Along c)
    (besides : scanned.subgraph.module.LegibleBesidesLibrary)
    (visible : Reserved.library ∉ scanned.subgraph.module.parameters)
    (houter : outer.length = scanned.subgraph.outerInputs.length)
    (denotes : ModuleOf.Denotes scanned.subgraph.module outer body)
    (hinputs : inputs.length = scanned.plan.inputCount) :
    Realises (fun outputs ts => outputs = ts.map some)
      (scanned.loop.meaning ((inputs ++ outer).map some)) (scanned.plan.run body inputs) := by
  obtain ⟨hcount, hresults⟩ := scanned.counts
  have hstates : (inputs.take scanned.plan.states).length = scanned.plan.states := by
    rw [List.length_take, hinputs, ScanPlan.inputCount]
    exact Nat.min_eq_left (Nat.le_add_right _ _)
  have hscans : (inputs.drop scanned.plan.states).length = scanned.plan.inputAxes.length := by
    rw [List.length_drop, hinputs, ScanPlan.inputCount, Nat.add_sub_cancel_left]
  have hforward {shape : Option KnownShape} {axis : Int} {t : Tensor} (haxis : axis = c) :
      KnownShape.FitsAt (shape, axis) t := fun hnegative => by
    rw [haxis] at hnegative
    exact absurd hnegative (Int.not_lt.2 (Int.natCast_nonneg c))
  have hfits : List.Forall₂ KnownShape.FitsAt
      (((spelling.shapes (node.map (Graph.fold Handlers.standard.importer))
        (session.scope :: context.outer)).drop scanned.plan.states).zip scanned.plan.inputAxes)
      (inputs.drop scanned.plan.states) := by
    refine forall₂_of_getElem? ?_ fun i entry t hentry _ => ?_
    · rw [List.length_zip, List.length_drop, scanned.length_shapes, ScanPlan.inputCount, hscans,
        Nat.add_sub_cancel_left, Nat.min_self]
    · exact hforward (along.inputAxes _ (List.of_mem_zip (List.mem_of_getElem? hentry)).2)
  have hrows : ∀ xs values, body xs = .ok values →
      values.length = scanned.plan.states + scanned.plan.outputAxes.length
        ∧ List.Forall₂ (fun entry value => KnownShape.FitsAt (scanned.plan.resultShape
              (spelling.shapes (node.map (Graph.fold Handlers.standard.importer))
                (session.scope :: context.outer)) scanned.subgraph.module entry.1, entry.2) value)
          ((scanned.subgraph.module.results.refs.drop scanned.plan.states).zip
            scanned.plan.outputAxes) (values.drop scanned.plan.states) := by
    intro xs values hvalues
    have hlength := scanned.counts_of_denotes denotes xs values hvalues
    refine ⟨hlength, forall₂_of_getElem? ?_ fun i entry t hentry _ => ?_⟩
    · rw [List.length_zip, List.length_drop, List.length_drop, hresults, hlength,
        Nat.add_sub_cancel_left, Nat.min_self]
    · exact hforward (along.outputAxes _ (List.of_mem_zip (List.mem_of_getElem? hentry)).2)
  have hmeaning := realises_meaning_scanBody scanned.length_shapes scanned.body
    scanned.describes.inputDirectionsLength scanned.describes.outputDirectionsLength hresults
    (houter ▸ hcount) (besides.legible visible) visible hstates hfits
    (fun states elements _ _ => denotes (states ++ elements)) hrows
  rw [List.take_append_drop, ScanPlan.operands, List.take_append_drop] at hmeaning
  unfold Scanned.loop
  rw [← houter]
  exact hmeaning

/-- A scan of version 8 that is lowered, with the axes that are meant if
none are given, becomes the call of a loop. Let its body compute certain
functions, one of the tensors of samples, such as of those of the ranks
that it declares, and one of batches, and let no parameter hide the
library. Then the loop does what the scan with the function of batches
does, and that does with each sample what the scan of it alone does, with
the other function, if and only if the functions are so related. -/
theorem scanBatched_independent_iff (hop : node.op = "Scan") (hopset : context.opset = 8)
    (haxes : ∀ values, node.values = .ok values →
      values.find? "scan_input_axes" = none ∧ values.find? "scan_output_axes" = none)
    (h : Lower.lowerNode Handlers.standard (node.map (Graph.fold Handlers.standard.importer)) context
      session = .ok () session') :
    ∃ (g : Graph) (subgraph : Subgraph) (values : Attributes) (scanInputs : Int) (plan : ScanPlan)
        (name : String) (refs : List Ref) (label : Label) (loop : Loop),
      node.graph? "body" = some g
      ∧ ((g.fold Handlers.standard.importer).lower ⟨8, session.scope :: context.outer⟩).1
        = .ok subgraph
      ∧ node.values = .ok values
      ∧ (∃ value, values.find? "num_scan_inputs" = some value ∧ value.toInt = .ok scanInputs)
      ∧ plan.Describes .batched values scanInputs subgraph.inputNames.length
        subgraph.outputNames.length
      ∧ ⟨.call name refs, label⟩ ∈ session'.scope.nodes
      ∧ session'.scope.loops.find? name = some loop
      ∧ ∀ (outer : List Tensor) (single body : ScanPlan.Body),
        subgraph.module.LegibleBesidesLibrary → Reserved.library ∉ subgraph.module.parameters →
        outer.length = subgraph.outerInputs.length →
        ModuleOf.Denotes subgraph.module outer single → ModuleOf.Denotes subgraph.module outer body →
        (∀ inputs : List Tensor, inputs.length = plan.inputCount →
          Realises (fun outputs ts => outputs = ts.map some)
            (loop.meaning ((inputs ++ outer).map some)) (plan.run body inputs))
        ∧ ∀ b, 1 ≤ b →
          ((plan.Independent single b fun inputs outputs => plan.run body inputs = .ok outputs)
            ↔ plan.SampleWise single body b)
          ∧ (plan.SampleWise single body b → plan.Independent single b fun inputs outputs =>
            loop.meaning ((inputs ++ outer).map some) = .ok (outputs.map some)) := by
  have hfind : Handlers.standard.find? (node.map (Graph.fold Handlers.standard.importer)).op
      context.opset = some (8, scanBatched) := by
    rw [hopset]
    exact (congrArg (Handlers.standard.find? · 8) hop).trans find?_scanBatched
  obtain ⟨log, result, middle, scanned, name, label, hcall, hloop⟩ :=
    @exists_scanned _ _ _ _ .batched _ _ hfind scanBatched_eq_ok h
  obtain ⟨g, hgraph, himported⟩ := scanned.exists_body
  have hvalues := scanned.attributes
  rw [NodeOf.values_map] at hvalues
  obtain ⟨hinputAxes, houtputAxes⟩ := haxes _ hvalues
  have along : scanned.plan.Along 1 := scanned.describes.along rfl hinputAxes houtputAxes
  refine ⟨g, scanned.subgraph, scanned.values, scanned.scanInputs, scanned.plan, name,
    scanned.operands, label, scanned.loop, hgraph, hopset ▸ himported, hvalues, scanned.count,
    scanned.describes, hcall, hloop,
    fun outer single body besides visible houter hsingle hbody => ?_⟩
  have hruns : ∀ inputs : List Tensor, inputs.length = scanned.plan.inputCount →
      Realises (fun outputs ts => outputs = ts.map some)
        (scanned.loop.meaning ((inputs ++ outer).map some)) (scanned.plan.run body inputs) :=
    fun _ => scanned.realises_run along besides visible houter hbody
  refine ⟨hruns, fun b hb => ?_⟩
  have hiff := ScanPlan.independent_iff_sampleWise along hb (scanned.counts_of_denotes hsingle)
    (scanned.counts_of_denotes hbody)
  refine ⟨hiff, fun hwise inputs hlength hbatch haddressable values hvalues => ?_⟩
  obtain ⟨outputs, hrun, hsamples⟩ := hiff.2 hwise inputs hlength hbatch haddressable values hvalues
  have hreturns := hruns inputs hlength
  rw [hrun] at hreturns
  obtain ⟨_, hmeaning, rfl⟩ := hreturns
  exact ⟨outputs, hmeaning, hsamples⟩

-- ================================================================ samples

/-- The body that adds the element that it reads to the state, a vector,
and also returns the sum. The element has the given dimensions. -/
def sumGraph (element : List Dim) : Graph :=
  ⟨{ nodes := [{ op := "Add", inputs := ["s", "x"], outputs := ["t"] }]
     inputs := [{ name := "s", shape := some [.value 2] }, { name := "x", shape := some element }]
     outputs := [{ name := "t" }, { name := "t" }] }⟩

/-- The function of this body. -/
def sumFunction : ScanPlan.Body
  | [s, x] => do
      let t ← .ofExcept (s.add x)
      return [t, t]
  | _ => .unspecified

/-- The module of this body computes this function. -/
theorem denotes_sumFunction {m : Module} (legible : m.Legible) (hinputs : m.inputs.length = 2)
    (hnodes : m.nodes.map Node.action = [.apply .add [.input 0, .input 1]])
    (hresults : m.results = .tuple [.node 0, .node 0]) : ModuleOf.Denotes m [] sumFunction := by
  intro xs
  match xs with
  | [] | [_] | _ :: _ :: _ :: _ => trivial
  | [s, x] =>
      have hlegible : (m.map Loop.meaning).Legible := ⟨legible.sources, legible.visible⟩
      have hrun := @ModuleOf.run_of_legible _ hlegible [some s, some x] hinputs.symm
      obtain ⟨⟨_, label⟩, hsingle, rfl⟩ := List.map_eq_singleton_iff.1 hnodes
      have hone : (m.map Loop.meaning).nodes = [⟨.apply .add [.input 0, .input 1], label⟩] := hsingle
      have hreturned : (m.map Loop.meaning).results = .tuple [.node 0, .node 0] := hresults
      have hvalue : (m.map Loop.meaning).valueOf [some s, some x] []
          ⟨.apply .add [.input 0, .input 1], label⟩ = (do return .one (some (← s.add x))) := rfl
      rw [hone, ModuleOf.valuesFrom_cons, hvalue] at hrun
      show Realises Output.Are (ModuleOf.run _ [some s, some x])
        (Outcome.bind (.ofExcept (s.add x)) fun t => .ok [t, t])
      rw [hrun]
      cases s.add x with
      | error e => exact ⟨e, rfl⟩
      | ok t =>
          refine ⟨.tuple [some t, some t], ?_, rfl⟩
          show Except.ok (ModuleOf.returns _ [some s, some x] [.one (some t)]) = _
          rw [ModuleOf.returns, hreturned]
          rfl

/-- The plan of a scan with this body. -/
def sumPlan : ScanPlan := ⟨1, [1], [0], [1], [0]⟩

/-- States and elements of one rank are added sample by sample. -/
theorem sampleWise_sumFunction {b : Nat} (hb : 1 ≤ b) (rank : Nat) :
    sumPlan.SampleWise (sumFunction.within [rank, rank]) sumFunction b := by
  intro xs hlength hbatch _ values hvalues
  obtain ⟨s, x, rfl⟩ := List.length_eq_two.1 hlength
  have hs : s.Batch b := hbatch s List.mem_cons_self
  have hx : x.Batch b := hbatch x (List.mem_cons_of_mem _ List.mem_cons_self)
  have hsums : ∀ k < b, ∃ v, [(s.select 0 k).rank, (x.select 0 k).rank] = [rank, rank]
      ∧ (s.select 0 k).add (x.select 0 k) = .ok v ∧ [v, v] = values k := by
    intro k hk
    obtain ⟨hranks, hsum⟩ := Outcome.require_bind_eq_ok.1 (hvalues k hk).1
    obtain ⟨v, hv, hvalue⟩ := Outcome.bind_eq_ok.1 hsum
    exact ⟨v, hranks, Outcome.ofExcept_eq_ok.1 hv, Outcome.ok.inj hvalue⟩
  have : Nonempty Tensor := ⟨s⟩
  choose! v hranks hadd hpair using hsums
  have hrank : s.rank = x.rank := by
    have hfirst := hranks 0 hb
    simp only [List.cons.injEq, and_true] at hfirst
    rw [hs.rank_eq 0, hx.rank_eq 0, hfirst.1, hfirst.2]
  obtain ⟨z, hz, hzBatch, hsamples⟩ := Tensor.add_select hs hx hrank hb hadd
  have hbody : sumFunction [s, x] = .ok [z, z] := by
    show (Outcome.ofExcept (s.add x) >>= fun t => .ok [t, t]) = _
    rw [hz]
    rfl
  refine ⟨[z, z], hbody, fun t ht => ?_, fun k hk => ?_⟩
  · rw [(List.mem_pair.1 ht).elim id id]
    exact hzBatch
  · rw [← hpair k hk, ← hsamples k hk]
    rfl

/-- A scan of version 8 with such a body. -/
def sumNode (element : List Dim) : NodeOf Graph where
  op := "Scan"
  inputs := ["", "a", "b"]
  outputs := ["f", "ys"]
  attributes := [("body", .graph (sumGraph element)), ("num_scan_inputs", .int 1)]

/-- A session in which the inputs of the scan have values. -/
def sumSession : Session where
  scope := { bindings := .ofList [("a", .input 0), ("b", .input 1)] }

/-- Whether the element is a vector or has no dimensions, the module of
the body is the same but for what it notes of shapes. -/
theorem exists_sumModule {element : List Dim} (helement : element ∈ [[.value 2], []]) :
    ∃ subgraph, (((sumGraph element).fold Handlers.standard.importer).lower
        ⟨8, [sumSession.scope]⟩).1 = .ok subgraph
      ∧ subgraph.module.Legible ∧ Reserved.library ∉ subgraph.module.parameters
      ∧ subgraph.inputNames.length = 2 ∧ subgraph.outputNames.length = 2
      ∧ subgraph.outerInputs = [] ∧ ModuleOf.Denotes subgraph.module [] sumFunction := by
  obtain ⟨subgraph, himport, htest⟩ : ∃ subgraph,
      (((sumGraph element).fold Handlers.standard.importer).lower ⟨8, [sumSession.scope]⟩).1
        = .ok subgraph
      ∧ (subgraph.module.harmless && decide (Reserved.library ∉ subgraph.module.parameters
        ∧ subgraph.inputNames.length = 2 ∧ subgraph.outputNames.length = 2
        ∧ subgraph.outerInputs = [] ∧ subgraph.module.inputs.length = 2
        ∧ subgraph.module.nodes.map Node.action = [.apply .add [.input 0, .input 1]]
        ∧ subgraph.module.results = .tuple [.node 0, .node 0])) = true := by
    refine Except.exists_of_test ?_
    revert element
    decide +kernel
  rw [Bool.and_eq_true, decide_eq_true_eq] at htest
  obtain ⟨hharmless, hvisible, hinputNames, houtputNames, houter, hinputs, hnodes, hresults⟩ := htest
  have legible := (ModuleOf.Tidy.of_harmless hharmless).legible
  exact ⟨subgraph, himport, legible, hvisible, hinputNames, houtputNames, houter,
    denotes_sumFunction legible hinputs hnodes hresults⟩

/-- The states of two samples, and two elements of each. -/
def vectorStates : Tensor := ⟨.int64, [2, 2], #[1, 2, 10, 20], rfl⟩

def vectorScans : Tensor := ⟨.int64, [2, 2, 2], #[1, 1, 2, 2, 5, 5, 7, 7], rfl⟩

/-- Where states and elements are vectors, each sample has its own sums. -/
theorem scanBatched_sums_samples :
    ∃ session' name loop outputs,
      Lower.lowerNode Handlers.standard
        ((sumNode [.value 2]).map (Graph.fold Handlers.standard.importer)) ⟨8, []⟩ sumSession
        = .ok () session'
      ∧ session'.scope.loops.find? name = some loop
      ∧ loop.meaning [some vectorStates, some vectorScans] = .ok (outputs.map some)
      ∧ Tensor.atSample 0 outputs
        = [.vector .int64 [4, 5], ⟨.int64, [2, 2], #[2, 3, 4, 5], rfl⟩]
      ∧ Tensor.atSample 1 outputs
        = [.vector .int64 [22, 32], ⟨.int64, [2, 2], #[15, 25, 22, 32], rfl⟩] := by
  obtain ⟨_, session', h⟩ : ∃ u session', Lower.lowerNode Handlers.standard
      ((sumNode [.value 2]).map (Graph.fold Handlers.standard.importer)) ⟨8, []⟩ sumSession
        = .ok u session' := Lower.exists_of_succeeds (by decide +kernel)
  have haxes : ∀ values, (sumNode [.value 2]).values = .ok values →
      values.find? "scan_input_axes" = none ∧ values.find? "scan_output_axes" = none := by
    rintro values ⟨⟩
    exact ⟨rfl, rfl⟩
  obtain ⟨g, subgraph, values, scanInputs, plan, name, refs, label, loop, hgraph, himport, hvalues,
    hcount, hdescribes, -, hloop, hmeaning⟩ := scanBatched_independent_iff rfl rfl haxes h
  cases hgraph
  obtain ⟨made, hmade, legible, hvisible, hinputNames, houtputNames, houter, hdenotes⟩ :=
    exists_sumModule List.mem_cons_self
  cases hmade.symm.trans himport
  rw [hinputNames, houtputNames] at hdescribes
  obtain rfl : plan = sumPlan :=
    ScanPlan.Describes.eq_of_defaults (n := 1) hdescribes hvalues rfl hcount (by decide)
  obtain ⟨-, hbatches⟩ := hmeaning [] _ _ legible.besidesLibrary hvisible (houter ▸ rfl)
    (hdenotes.within [1, 1]) hdenotes
  obtain ⟨outputs, hreturns, -, hsamples⟩ := (hbatches 2 (by decide)).2
    (sampleWise_sumFunction (by decide) 1) [vectorStates, vectorScans] rfl (by decide) (by decide)
    (fun k => if k = 0 then [.vector .int64 [4, 5], ⟨.int64, [2, 2], #[2, 3, 4, 5], rfl⟩]
      else [.vector .int64 [22, 32], ⟨.int64, [2, 2], #[15, 25, 22, 32], rfl⟩])
    (by decide +kernel)
  exact ⟨session', name, loop, outputs, h, hloop, hreturns, hsamples 0 (by decide),
    hsamples 1 (by decide)⟩

/-- Samples of which the element has no dimensions. -/
def scalarScans : Tensor := ⟨.int64, [2, 1], #[5, 7], rfl⟩

/-- Where the elements have no dimensions, those of all samples make up a
vector, and that is added to the state of each of them: it should be 5
that is added to the first state, and 7 to the second one. -/
theorem scanBatched_mixes_samples :
    ∃ session' name loop subgraph,
      Lower.lowerNode Handlers.standard
        ((sumNode []).map (Graph.fold Handlers.standard.importer)) ⟨8, []⟩ sumSession
        = .ok () session'
      ∧ session'.scope.loops.find? name = some loop
      ∧ (((sumGraph []).fold Handlers.standard.importer).lower ⟨8, [sumSession.scope]⟩).1
        = .ok subgraph
      ∧ ModuleOf.Denotes subgraph.module [] sumFunction
      ∧ (∀ k < 2, sumPlan.alone.run (sumFunction.within [1, 0])
          (Tensor.atSample k [vectorStates, scalarScans])
        = .ok (if k = 0 then [.vector .int64 [6, 7], ⟨.int64, [1, 2], #[6, 7], rfl⟩]
          else [.vector .int64 [17, 27], ⟨.int64, [1, 2], #[17, 27], rfl⟩]))
      ∧ loop.meaning [some vectorStates, some scalarScans]
        = .ok [some ⟨.int64, [2, 2], #[6, 9, 15, 27], rfl⟩,
          some ⟨.int64, [2, 1, 2], #[6, 9, 15, 27], rfl⟩]
      ∧ ¬ sumPlan.Independent (sumFunction.within [1, 0]) 2 fun inputs outputs =>
        loop.meaning (inputs.map some) = .ok (outputs.map some) := by
  obtain ⟨scope, h, htest⟩ := @Lower.exists_of_succeedsWith _ ⟨8, []⟩ sumSession
    (do
      Lower.lowerNode Handlers.standard ((sumNode []).map (Graph.fold Handlers.standard.importer))
      Lower.scope)
    (fun scope => decide ((scope.loops.find? "scan").map (Loop.meaning ·
      [some vectorStates, some scalarScans])
        = some (.ok [some ⟨.int64, [2, 2], #[6, 9, 15, 27], rfl⟩,
          some ⟨.int64, [2, 1, 2], #[6, 9, 15, 27], rfl⟩])))
    (by decide +kernel)
  obtain ⟨_, _, hlower, hscope⟩ := Lower.bind_eq_ok.1 h
  cases hscope
  obtain ⟨loop, hloop, hreturns⟩ := Option.map_eq_some_iff.1 (of_decide_eq_true htest)
  obtain ⟨subgraph, himport, -, -, -, -, -, hdenotes⟩ :=
    @exists_sumModule [] (List.mem_cons_of_mem _ List.mem_cons_self)
  have hsingle : ∀ k < 2, sumPlan.alone.run (sumFunction.within [1, 0])
      (Tensor.atSample k [vectorStates, scalarScans])
        = .ok (if k = 0 then [.vector .int64 [6, 7], ⟨.int64, [1, 2], #[6, 7], rfl⟩]
          else [.vector .int64 [17, 27], ⟨.int64, [1, 2], #[17, 27], rfl⟩]) := by decide +kernel
  refine ⟨_, "scan", loop, subgraph, hlower, hloop, himport, hdenotes, hsingle, hreturns,
    fun hindependent => ?_⟩
  obtain ⟨outputs, houtputs, -, hsamples⟩ := hindependent [vectorStates, scalarScans] rfl (by decide)
    (by decide) _ fun k hk => ⟨hsingle k hk, by revert k; decide⟩
  have hfirst := hsamples 0 (by decide)
  obtain rfl : outputs = [⟨.int64, [2, 2], #[6, 9, 15, 27], rfl⟩,
      ⟨.int64, [2, 1, 2], #[6, 9, 15, 27], rfl⟩] :=
    List.map_injective_iff.2 (fun _ _ => Option.some.inj)
      (Except.ok.inj (houtputs.symm.trans hreturns))
  exact absurd hfirst (by decide)

end Handler

end OnnxLowering
