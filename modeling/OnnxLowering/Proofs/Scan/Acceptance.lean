/-
Which scans are accepted. A scan whose body can be lowered is accepted if
and only if it is consistent: the counts of the inputs and outputs of the
body fit the number of scan inputs, every list has an entry for each of
its subjects, and every axis is one of the dimensions wherever their
number is known. Otherwise the node is refused. The loop of an accepted
scan has every port of its body wired once (`scan_accepts_iff`).
-/
import OnnxLowering.Proofs.Lowering.Clash
import OnnxLowering.Proofs.Lowering.Outside
import OnnxLowering.Proofs.Scan.Ports

namespace OnnxLowering

namespace Handler

open Lower

-- ============================================================= consistency

/-- A scan whose attributes can be read and whose body becomes a module;
whatever is named among its inputs has a value. -/
structure Posed (spelling : ScanSyntax) (node : NodeOf Importer) (context : Context)
    (session : Session) where
  values : Attributes
  importer : Importer
  subgraph : Subgraph
  attributes : node.values = .ok values
  count : ∀ value, values.find? "num_scan_inputs" = some value → ∃ i, value.toInt = .ok i
  lists : ∀ name ∈ ["scan_input_axes", spelling.directions, "scan_output_axes",
      "scan_output_directions"],
    ∀ value, values.find? name = some value → ∃ entries, value.toInts = .ok entries
  graph : node.graph? "body" = some importer
  imported : (importer.lower ⟨context.opset, session.scope :: context.outer⟩).1 = .ok subgraph
  resolved : ∀ name ∈ spelling.names node, name.isEmpty = false →
    ∃ ref session', value name context session = .ok ref session'
  unfinished : session.scope.finished = none

variable {spelling : ScanSyntax} {node : NodeOf Importer} {context : Context} {session : Session}

namespace Posed

variable (posed : Posed spelling node context session)

/-- The number of inputs of the body. -/
def inputs : Nat := posed.subgraph.inputNames.length

/-- The number of outputs of the body. -/
def outputs : Nat := posed.subgraph.outputNames.length

/-- The number of values that the body reads from outside. -/
def captured : Nat := posed.subgraph.outerInputs.length

/-- The lists of a scan, each with the number of entries that it should
have. -/
def expected (scanInputs : Int) : List (String × Int) :=
  [("scan_input_axes", scanInputs), (spelling.directions, scanInputs),
   ("scan_output_axes", posed.outputs - (posed.inputs - scanInputs)),
   ("scan_output_directions", posed.outputs - (posed.inputs - scanInputs))]

/-- The plan that the attributes describe. -/
def Plans (scanInputs : Int) (plan : ScanPlan) : Prop :=
  plan.Describes spelling posed.values scanInputs posed.inputs posed.outputs

/-- The scan fits its body. A scan output counts with the rank that it is
known to have where the scan inputs have been squeezed. -/
structure Consistent (scanInputs : Int) : Prop where
  count : ∃ value, posed.values.find? "num_scan_inputs" = some value
    ∧ value.toInt = .ok scanInputs
  given : ∀ name ∈ spelling.names node, name.isEmpty = false
  positive : 1 ≤ scanInputs
  inputs : scanInputs ≤ posed.inputs
  outputs : posed.inputs - scanInputs ≤ posed.outputs
  arity : (spelling.names node).length = posed.inputs
  entries : ∀ list ∈ posed.expected scanInputs, ∀ value, posed.values.find? list.1 = some value →
    ∀ entries, value.toInts = .ok entries → (entries.length : Int) = list.2
  inputAxes : ∀ plan, posed.Plans scanInputs plan →
    ∀ entry ∈ ((spelling.shapes node (session.scope :: context.outer)).drop plan.states).zip
        plan.inputAxes,
      InRange (entry.1.map List.length) entry.2
  outputAxes : ∀ plan, posed.Plans scanInputs plan →
    ∀ entry ∈ (posed.subgraph.module.results.refs.drop plan.states).zip plan.outputAxes,
      InRange ((plan.resultShape (spelling.shapes node (session.scope :: context.outer))
        posed.subgraph.module entry.1).map fun dims => dims.length + 1) entry.2

/-- The scan is refused since it does not fit its body, or something of it
cannot be put on the module. -/
def Refuses (error : LowerError) : Prop :=
  ((¬ ∃ scanInputs, posed.Consistent scanInputs) ∧ ∃ fault, error = .invalidNode node.describe fault)
    ∨ Clash error

variable {posed} {scanInputs : Int} {before : Scope → Prop}

theorem refuses_of_missing (h : posed.values.find? "num_scan_inputs" = none) {fault : NodeFault} :
    posed.Refuses (.invalidNode node.describe fault) := by
  refine .inl ⟨?_, _, rfl⟩
  rintro ⟨scanInputs, consistent⟩
  obtain ⟨value, hvalue, -⟩ := consistent.count
  rw [h] at hvalue
  cases hvalue

/-- The number of scan inputs is the one that the node gives. -/
theorem refuses_of_inconsistent {value : AttributeValue}
    (hfind : posed.values.find? "num_scan_inputs" = some value) (hvalue : value.toInt = .ok scanInputs)
    (h : ¬ posed.Consistent scanInputs) {fault : NodeFault} :
    posed.Refuses (.invalidNode node.describe fault) := by
  refine .inl ⟨?_, _, rfl⟩
  rintro ⟨other, consistent⟩
  obtain ⟨value', hfind', hvalue'⟩ := consistent.count
  rw [hfind] at hfind'
  cases hfind'
  rw [hvalue] at hvalue'
  cases hvalue'
  exact h consistent

/-- A list has the entries that are given or else one for each of its
subjects. -/
theorem length_of_intsOr {values : Attributes} {name : String} {count default : Int}
    {entries : List Int} (hcount : 0 ≤ count)
    (hgiven : ∀ value, values.find? name = some value →
      ∀ entries, value.toInts = .ok entries → (entries.length : Int) = count)
    (h : intsOr values name (List.replicate count.toNat default) = .ok entries) :
    (entries.length : Int) = count := by
  unfold intsOr at h
  cases hfind : values.find? name with
  | none =>
      rw [hfind] at h
      cases h
      rw [List.length_replicate]
      omega
  | some value =>
      rw [hfind] at h
      exact hgiven value hfind entries h

theorem intsOr_ends {errors : LowerError → Prop} {name : String} {default : List Int}
    (hname : name ∈ ["scan_input_axes", spelling.directions, "scan_output_axes",
      "scan_output_directions"]) :
    (ofExcept .argument (intsOr posed.values name default)).Ends context errors before
      fun entries scope => before scope ∧ intsOr posed.values name default = .ok entries := by
  refine .ofExcept fun error herror => ?_
  unfold intsOr at herror
  cases hfind : posed.values.find? name with
  | none =>
      rw [hfind] at herror
      cases herror
  | some value =>
      obtain ⟨entries, hentries⟩ := posed.lists name hname value hfind
      rw [hfind] at herror
      cases hentries.symm.trans herror

theorem checkEntries_ends {errors : LowerError → Prop} {name : String} {entries : List Int}
    {expected : Int} (h : (entries.length : Int) ≠ expected →
      ∀ fault, errors (.invalidNode node.describe fault)) :
    (checkEntries node name entries expected).Ends context errors before fun _ => before := by
  unfold checkEntries
  split
  · exact .pure fun _ hbefore => hbefore
  · next hne => exact .throw (h hne _)

section

variable {value : AttributeValue} (hfind : posed.values.find? "num_scan_inputs" = some value)
  (hvalue : value.toInt = .ok scanInputs)

include hfind hvalue

/-- The plan is refused if the counts or the lists do not fit. -/
theorem scanPlan_ends :
    (scanPlan spelling node posed.values scanInputs (spelling.names node).length posed.inputs
      posed.outputs).Ends context posed.Refuses before fun plan scope =>
        before scope ∧ posed.Plans scanInputs plan ∧ (spelling.names node).length = posed.inputs := by
  have hrefuse {fault : NodeFault} (h : ¬ posed.Consistent scanInputs) :
      posed.Refuses (.invalidNode node.describe fault) := refuses_of_inconsistent hfind hvalue h
  refine Ends.and_ok ?_ fun plan session session' _ h =>
    ⟨(scanPlan_eq_ok h).2.1, (scanPlan_eq_ok h).1⟩
  refine .guard (fun hc => hrefuse fun consistent => ?_) fun hcount => ?_
  · have hpositive := consistent.positive
    have hinputs := consistent.inputs
    simp only [Bool.or_eq_true, decide_eq_true_eq] at hc
    omega
  refine .guard (fun hc => hrefuse fun consistent => ?_) fun houtputs => ?_
  · have houtputs := consistent.outputs
    omega
  refine .guard' (fun hc => hrefuse fun consistent => hc consistent.arity) fun harity => ?_
  simp only [Bool.or_eq_true, decide_eq_true_eq] at hcount
  refine (intsOr_ends (by simp)).bind fun inputAxes => .of_and fun hinputAxes => ?_
  refine (intsOr_ends (by simp)).bind fun inputDirections => .of_and fun hinputDirections => ?_
  refine (intsOr_ends (by simp)).bind fun outputAxes => .of_and fun houtputAxes => ?_
  refine (intsOr_ends (by simp)).bind fun outputDirections => .of_and fun houtputDirections => ?_
  have hentries {name : String} {count default : Int} {entries : List Int} (hcount : 0 ≤ count)
      (hmem : (name, count) ∈ posed.expected scanInputs)
      (h : intsOr posed.values name (List.replicate count.toNat default) = .ok entries)
      (hne : (entries.length : Int) ≠ count) (fault : NodeFault) :
      posed.Refuses (.invalidNode node.describe fault) :=
    hrefuse fun consistent => hne (length_of_intsOr hcount (consistent.entries _ hmem) h)
  refine (checkEntries_ends (hentries (by omega) (by simp [expected]) hinputAxes)).bind fun _ => ?_
  refine (checkEntries_ends (hentries (by omega) (by simp [expected]) hinputDirections)).bind
    fun _ => ?_
  refine (checkEntries_ends (hentries (by omega) (by simp [expected]) houtputAxes)).bind fun _ => ?_
  exact (checkEntries_ends (hentries (by omega) (by simp [expected]) houtputDirections)).bind
    fun _ => .pure fun _ h => h

/-- The body is refused if an axis is no dimension. -/
theorem scanBody_ends {plan : ScanPlan} (hplan : posed.Plans scanInputs plan)
    (harity : (spelling.names node).length = posed.inputs) :
    (ofExcept id (scanBody node.describe plan posed.subgraph.module
      (spelling.shapes node (session.scope :: context.outer)))).Ends context posed.Refuses before
        fun _ => before := by
  refine (Ends.ofExcept fun error herror => ?_).weaken fun _ _ h => h.1
  have hshapes : (spelling.shapes node (session.scope :: context.outer)).length = plan.inputCount := by
    have hinputs := hplan.inputs
    have haxes := hplan.inputAxesLength
    rw [ScanSyntax.shapes, List.length_map, harity, ScanPlan.inputCount]
    omega
  rcases scanBody_eq_error hshapes herror with ⟨entry, hentry, haxis⟩ | ⟨entry, hentry, haxis⟩
  · obtain ⟨hrange, fault, rfl⟩ := not_inRange_of_sliceAxis haxis
    exact refuses_of_inconsistent hfind hvalue fun consistent =>
      hrange (consistent.inputAxes plan hplan entry hentry)
  · obtain ⟨hrange, fault, rfl⟩ := not_inRange_of_joinAxis haxis
    exact refuses_of_inconsistent hfind hvalue fun consistent =>
      hrange (consistent.outputAxes plan hplan entry hentry)

end

/-- Lowering the body gives its module. -/
theorem importGraph_ends (posed : Posed spelling node context session)
    {errors : LowerError → Prop} :
    (importGraph node "body").Ends context errors (fun scope => scope = session.scope)
      fun subgraph scope => scope = session.scope ∧ subgraph = posed.subgraph := by
  unfold importGraph
  rw [posed.graph]
  refine (Ends.report _).bind fun _ => Ends.opset.bind fun opset => .of_and fun hopset =>
    Ends.scopes.bind fun scopes => .of_and fun hscopes => ?_
  obtain ⟨first, rfl, rfl⟩ := hscopes
  subst hopset
  refine (Ends.forIn fun record _ => (Ends.report record).yields).bind fun _ => ?_
  rw [posed.imported]
  exact .pure fun _ h => ⟨h, rfl⟩

theorem shapes_ends {errors : LowerError → Prop} {names : List String} :
    (names.mapM shape).Ends context errors (fun scope => scope = session.scope)
      fun shapes scope => scope = session.scope
        ∧ shapes = names.map (Scopes.shape? (session.scope :: context.outer)) :=
  (Ends.mapM fun _ _ => fun _ h => h).and_ok fun _ _ _ hscope h => hscope ▸ (mapM_shape_eq_ok h).1

/-- A scan is lowered, or it is refused since it does not fit its body, or
something of it cannot be put on the module. -/
theorem scanWith_ends
    (houter : ∀ name ∈ posed.subgraph.outerInputs, session.scope.Offers context.outer name) :
    (scanWith spelling node).Ends context posed.Refuses (fun scope => scope = session.scope)
      fun _ _ => True := by
  refine (Ends.ofExcept fun error herror => ?_).bind fun values => .of_and fun hvalues => ?_
  · rw [posed.attributes] at herror
    cases herror
  obtain rfl : values = posed.values := Except.ok.inj (hvalues.symm.trans posed.attributes)
  simp only
  cases hfind : posed.values.find? "num_scan_inputs" with
  | none => exact .throw (refuses_of_missing hfind)
  | some value =>
      obtain ⟨i, hi⟩ := posed.count value hfind
      refine (Ends.ofExcept fun error herror => ?_).bind fun scanInputs => .of_and fun hvalue => ?_
      · rw [hi] at herror
        cases herror
      refine .guard (fun hempty => refuses_of_inconsistent hfind hvalue fun consistent => ?_)
        fun hgiven => ?_
      · obtain ⟨name, hname, hempty⟩ := List.any_eq_true.1 hempty
        rw [consistent.given name hname] at hempty
        cases hempty
      refine posed.importGraph_ends.bind fun subgraph => .of_and fun hsubgraph => ?_
      subst hsubgraph
      refine (scanPlan_ends hfind hvalue).bind fun plan => .of_and fun hplan => (Ends.report _).bind
        fun _ => ?_
      refine shapes_ends.bind fun shapes => .of_and fun hshapes => ?_
      subst hshapes
      refine (scanBody_ends hfind hvalue hplan.1 hplan.2).bind fun made => ?_
      have hready : ∀ scope, scope = session.scope →
          Ready context.outer (spelling.names node ++ posed.subgraph.outerInputs) scope := by
        rintro scope rfl
        refine ⟨posed.unfinished, fun name hname => ?_⟩
        rcases List.mem_append.1 hname with hname | hname
        · have hnonempty : name.isEmpty = false := by
            rw [List.any_eq_true] at hgiven
            exact Bool.eq_false_iff.2 fun hempty => hgiven ⟨name, hname, hempty⟩
          obtain ⟨ref, session', hvalue⟩ := posed.resolved name hname hnonempty
          exact (value_eq_ok hvalue).2.offers hnonempty
        · exact houter name hname
      refine ((Ends.mapM fun name hname => value_ready (fun _ => .inr) hname).strengthen hready).bind
        fun operands => ?_
      refine ((registerLoop_unfinished fun _ => .inr).strengthen fun _ h => h.1).bind fun name =>
        call_unfinished.bind fun result => ?_
      exact (Ends.mapM fun _ _ => fun _ _ => trivial).bind fun refs => fun _ _ => trivial

-- ================================================================ accepted

section

variable {result : Result} {session' : Session}
  (scanned : Scanned spelling node context session result session')

theorem values_eq (posed : Posed spelling node context session) : scanned.values = posed.values :=
  Except.ok.inj (scanned.attributes.symm.trans posed.attributes)

theorem subgraph_eq (posed : Posed spelling node context session) :
    scanned.subgraph = posed.subgraph := by
  have himported := scanned.imported
  rw [Option.some.inj (scanned.graph.symm.trans posed.graph), posed.imported] at himported
  exact (Except.ok.inj himported).symm

theorem plans (posed : Posed spelling node context session) :
    posed.Plans scanned.scanInputs scanned.plan := by
  have hdescribes := scanned.describes
  rw [values_eq scanned posed, subgraph_eq scanned posed] at hdescribes
  exact hdescribes

/-- There is one plan only. -/
theorem Plans.unique {plan plan' : ScanPlan} (h : posed.Plans scanInputs plan)
    (h' : posed.Plans scanInputs plan') : plan = plan' :=
  Outcome.ok.inj ((planOf_eq_ok h).symm.trans (planOf_eq_ok h'))

/-- A scan that is lowered fits its body. -/
theorem consistent_of_scanned (posed : Posed spelling node context session) :
    posed.Consistent scanned.scanInputs := by
  have hvalues := values_eq scanned posed
  have hsubgraph := subgraph_eq scanned posed
  have hplan := plans scanned posed
  have hinputs := hplan.inputs
  have houtputs := hplan.outputs
  have hshapes := scanned.length_shapes
  obtain ⟨_, _, _, -, -, -, hslices, hjoins⟩ := scanBody_eq_ok hshapes scanned.body
  rw [hsubgraph] at hjoins
  refine {
    count := hvalues ▸ scanned.count
    given := scanned.given
    positive := hplan.positive
    inputs := by omega
    outputs := by omega
    arity := by rw [Posed.inputs, ← hsubgraph, scanned.inputCount]
    entries := fun list hlist value hfind entries hentries => ?_
    inputAxes := fun plan hplan' entry hentry => ?_
    outputAxes := fun plan hplan' entry hentry => ?_ }
  · have hgiven {default entries' : List Int} (h : intsOr posed.values list.1 default = .ok entries') :
        entries' = entries := by
      rw [intsOr, hfind] at h
      exact Except.ok.inj (h.symm.trans hentries)
    have hinputAxes := hplan.inputAxesLength
    have hinputDirections := hplan.inputDirectionsLength
    have houtputDirections := hplan.outputDirectionsLength
    simp only [expected, List.mem_cons, List.not_mem_nil, or_false] at hlist
    rcases hlist with rfl | rfl | rfl | rfl
    · rw [← hgiven hplan.inputAxes]
      exact hinputAxes
    · rw [← hgiven hplan.inputDirections]
      simp only
      omega
    · rw [← hgiven hplan.outputAxes]
      simp only
      omega
    · rw [← hgiven hplan.outputDirections]
      simp only
      omega
  · obtain rfl := hplan'.unique hplan
    obtain ⟨axis, known, hslice⟩ := exists_of_forall₂ hslices hentry
    exact inRange_of_sliceAxis hslice
  · obtain rfl := hplan'.unique hplan
    obtain ⟨axis, hjoin⟩ := exists_of_forall₂ hjoins hentry
    exact inRange_of_joinAxis hjoin

end

/-- The loop that the scan has become. It is called with the values of the
inputs of the scan and then of what the body reads from outside, and after
the call comes a node for every output of the body. Every argument of the
body comes from the operand at its place; it is carried from one run to
the next, sliced, or shared, and these follow each other. -/
structure Wired (posed : Posed spelling node context session) (scanInputs : Int) (result : Result)
    (session' : Session) where
  states : Nat
  wiring : Wiring
  body : Module
  name : String
  operands : List Ref
  middle : Scope
  call : Nat
  label : Label
  split : states + scanInputs = posed.inputs
  evaluated : session.scope.GetsAll context.outer
    (spelling.names node ++ posed.subgraph.outerInputs) operands middle
  registered : session'.scope.loops.find? name
    = some (.mk wiring (posed.inputs + posed.captured) body)
  called : session'.scope.nodes[call]? = some ⟨.call name operands, label⟩
  returned : result = .many ((List.range posed.outputs).map fun i => .node (call + 1 + i))
  items : ∀ i < posed.outputs, ∃ label,
    session'.scope.nodes[call + 1 + i]? = some ⟨.apply (.item i) [.node call], label⟩
  arity : body.inputs.length = posed.inputs + posed.captured
  results : body.results.refs.length = posed.outputs
  arguments : wiring.carried.map CarriedInput.bodyIndex ++ wiring.sliced.map SlicedInput.bodyIndex
      ++ wiring.shared.map SharedInput.bodyIndex
    = (List.range (posed.inputs + posed.captured)).map Int.ofNat
  counts : wiring.carried.length = states ∧ (wiring.sliced.length : Int) = scanInputs
    ∧ wiring.shared.length = posed.captured
  carried : ∀ wire ∈ wiring.carried, wire.inputIndex = wire.bodyIndex
    ∧ wire.outputIndex = wire.bodyIndex
  sliced : ∀ wire ∈ wiring.sliced, wire.inputIndex = wire.bodyIndex
  shared : ∀ wire ∈ wiring.shared, wire.inputIndex = wire.bodyIndex
  outputs : wiring.outputs.map LoopOutput.port = (List.range posed.outputs).map Int.ofNat
  last : ∀ (i : Nat) output, wiring.outputs[i]? = some output → (output.IsLast ↔ i < states)

section

variable {result : Result} {session' : Session}
  (scanned : Scanned spelling node context session result session')

/-- A scan that is lowered is wired. -/
theorem wired_of_scanned (posed : Posed spelling node context session)
    (hports : posed.subgraph.module.inputs.length = posed.inputs + posed.captured
      ∧ posed.subgraph.module.results.refs.length = posed.outputs) :
    Nonempty (posed.Wired scanned.scanInputs result session') := by
  have hsubgraph := subgraph_eq scanned posed
  have hplan := plans scanned posed
  have hinputs := hplan.inputs
  have houtputs := hplan.outputs
  have haxes := hplan.inputAxesLength
  have hdirections := hplan.inputDirectionsLength
  obtain ⟨inputs, inAxes, outAxes, hnames, hmodule, hloopPlan, hslices, hjoins⟩ :=
    scanBody_eq_ok scanned.length_shapes scanned.body
  rw [hsubgraph] at hnames hmodule hjoins
  have hlength : inputs.length = posed.subgraph.module.inputs.length := by
    rw [← List.length_map (f := Input.name), hnames, List.length_map]
  have hin : inAxes.length = scanned.plan.inputAxes.length := by
    rw [← hslices.length_eq, List.length_zip, List.length_drop, scanned.length_shapes,
      ScanPlan.inputCount]
    omega
  have hout : outAxes.length = scanned.plan.outputAxes.length := by
    rw [← hjoins.length_eq, List.length_zip, List.length_drop, hports.2]
    omega
  have hcount : (scanned.plan.withAxes inAxes outAxes).inputCount = posed.inputs := by
    show scanned.plan.states + inAxes.length = _
    omega
  have hreturned : scanned.loopPlan.states + scanned.loopPlan.outputAxes.length = posed.outputs := by
    rw [hloopPlan]
    show scanned.plan.states + outAxes.length = _
    omega
  obtain ⟨base, nodeNames, supply, log, hleft⟩ := scanned.left
  have hitems {i : Nat} (hi : i < posed.outputs) :=
    @Scanned.getElem?_items _ _ _ _ _ _ scanned i (hreturned ▸ hi)
  rw [hreturned, hsubgraph, hloopPlan, hcount] at hleft
  have hloops : session'.scope.loops = _ := congrArg (·.scope.loops) hleft
  have hnodes : session'.scope.nodes = _ := congrArg (·.scope.nodes) hleft
  obtain ⟨hcarried, hsliced, hshared⟩ :=
    @ScanPlan.sources_wiring (scanned.plan.withAxes inAxes outAxes) posed.captured
  have harguments := @ScanPlan.arguments_wiring (scanned.plan.withAxes inAxes outAxes) posed.captured
    (hdirections.trans hin.symm)
  obtain ⟨hports', hlast⟩ := @ScanPlan.outputs_wiring (scanned.plan.withAxes inAxes outAxes)
    posed.captured (hplan.outputDirectionsLength.trans hout.symm)
  exact ⟨{
    states := scanned.plan.states
    wiring := (scanned.plan.withAxes inAxes outAxes).wiring posed.captured
    body := scanned.loopModule
    name := loopName scanned.middle.scope base
    operands := scanned.operands
    middle := scanned.middle.scope
    call := scanned.middle.scope.nodes.length
    label := labelOf scanned.middle.scope node 0 false
    split := hinputs
    evaluated := hsubgraph ▸ scanned.gets
    registered := by
      rw [hloops]
      exact NameMap.find?_insert_self _ _ _
    called := by
      rw [hnodes]
      simp
    returned := hreturned ▸ scanned.returned
    items := fun i hi => ⟨_, hitems hi⟩
    arity := by
      rw [hmodule]
      exact hlength.trans hports.1
    results := by rw [hmodule, ModuleOf.length_results_loopBody (by omega), hports.2]
    arguments := by rw [harguments, hcount]
    counts := by
      simp only [ScanPlan.wiring, ScanPlan.withAxes, List.length_map, List.length_range,
        List.length_zipIdx, List.length_zip]
      refine ⟨trivial, ?_, trivial⟩
      rw [hin, hdirections, Nat.min_self, haxes]
    carried := hcarried
    sliced := hsliced
    shared := hshared
    outputs := by
      rw [hports', ← hreturned, hloopPlan]
    last := hlast }⟩

end

end Posed

-- ============================================================== acceptance

section

variable {node : NodeOf Graph} {context : Context} {session : Session}

/-- The body of a scan is the module of a graph. -/
theorem Posed.exists_body {spelling : ScanSyntax}
    (posed : Posed spelling (node.map (Graph.fold Handlers.standard.importer)) context session) :
    ∃ body : Graph, ((body.fold Handlers.standard.importer).lower
      ⟨context.opset, session.scope :: context.outer⟩).1 = .ok posed.subgraph := by
  have hgraph := posed.graph
  rw [NodeOf.graph?_map] at hgraph
  obtain ⟨body, -, himporter⟩ := Option.map_eq_some_iff.1 hgraph
  exact ⟨body, himporter ▸ posed.imported⟩

/-- **Accepted scans.** A scan whose body can be lowered, whose named inputs
have values and for which no name on the module is taken is lowered if and
only if it fits its body. If it does not it is refused, and the error
carries its description. If it does, every port of its body is wired
once. -/
theorem scan_accepts_iff (hop : node.op = "Scan") (hopset : 9 ≤ context.opset)
    (posed : Posed .current (node.map (Graph.fold Handlers.standard.importer)) context session)
    (clear : ∀ name session',
      scan (node.map (Graph.fold Handlers.standard.importer)) context session
        ≠ .error (.nameTaken name) session') :
    let run := scan (node.map (Graph.fold Handlers.standard.importer)) context session
    Handlers.standard.find? node.op context.opset = some (9, scan)
      ∧ ((∃ result session', run = .ok result session') ↔ ∃ scanInputs, posed.Consistent scanInputs)
      ∧ ((¬ ∃ scanInputs, posed.Consistent scanInputs) →
        ∃ fault session', run = .error (.invalidNode node.describe fault) session')
      ∧ ∀ result session', run = .ok result session' →
        ∃ scanInputs, posed.Consistent scanInputs
          ∧ Nonempty (posed.Wired scanInputs result session') := by
  intro run
  obtain ⟨body, hbody⟩ := posed.exists_body
  have houter : ∀ name ∈ posed.subgraph.outerInputs,
      session.scope.Offers context.outer name := by
    intro name hname
    obtain ⟨hgiven, hdefines⟩ := outside_importer hbody name hname
    rw [Scopes.defines, Bool.or_eq_true] at hdefines
    exact ⟨hgiven, .inr hdefines⟩
  have hends := posed.scanWith_ends houter session rfl
  have haccepted {result : Result} {session' : Session} (h : run = .ok result session') :
      ∃ scanInputs, posed.Consistent scanInputs
        ∧ Nonempty (posed.Wired scanInputs result session') := by
    obtain ⟨scanned⟩ := scanWith_eq_ok h
    exact ⟨_, Posed.consistent_of_scanned scanned posed,
      Posed.wired_of_scanned scanned posed (ports_importer hbody)⟩
  have hrefused {error : LowerError} {session' : Session} (h : run = .error error session') :
      (¬ ∃ scanInputs, posed.Consistent scanInputs)
        ∧ ∃ fault, error = .invalidNode node.describe fault := by
    rw [show scanWith .current _ _ _ = _ from h] at hends
    rcases hends with hrefused | ⟨name, rfl⟩
    · exact hrefused
    · exact absurd h (clear name session')
  refine ⟨hop ▸ Handlers.find?_scan hopset, ⟨?_, fun hconsistent => ?_⟩, fun hinconsistent => ?_,
    fun _ _ => haccepted⟩
  · rintro ⟨result, session', h⟩
    obtain ⟨scanInputs, hconsistent, -⟩ := haccepted h
    exact ⟨scanInputs, hconsistent⟩
  · cases hrun : run with
    | ok result session' => exact ⟨result, session', rfl⟩
    | error error session' => exact absurd hconsistent (hrefused hrun).1
  · cases hrun : run with
    | ok result session' =>
        obtain ⟨scanInputs, hconsistent, -⟩ := haccepted hrun
        exact absurd ⟨scanInputs, hconsistent⟩ hinconsistent
    | error error session' =>
        obtain ⟨-, fault, rfl⟩ := hrefused hrun
        exact ⟨fault, session', rfl⟩

end

/-- A body that adds a value from outside to its state, and returns the sum,
of which the rank is known, also as an element. -/
def tallyBody : Graph :=
  ⟨{ nodes := [{ op := "Add", inputs := ["s", "w"], outputs := ["t"] }]
     inputs := [{ name := "s" }, { name := "x" }]
     outputs := [{ name := "t", shape := some [.value 2] }, { name := "t", shape := some [.value 2] }] }⟩

/-- A scan with this body, and an axis for what it stacks. -/
def tallyNode (axis : Int) : NodeOf Graph where
  op := "Scan"
  inputs := ["a", "b"]
  outputs := ["f", "ys"]
  attributes := [("body", .graph tallyBody), ("num_scan_inputs", .int 1),
    ("scan_output_axes", .ints [axis])]

def tallySession : Session where
  scope := { bindings := .ofList [("a", .input 0), ("b", .input 1), ("w", .input 2)] }

theorem posed_tally (axis : Int) : Nonempty (Posed .current
    ((tallyNode axis).map (Graph.fold Handlers.standard.importer)) ⟨9, []⟩ tallySession) := by
  obtain ⟨subgraph, himported⟩ : ∃ subgraph, ((tallyBody.fold Handlers.standard.importer).lower
      ⟨9, [tallySession.scope]⟩).1 = .ok subgraph := Except.exists_of_isOk (by decide +kernel)
  have hvalues : ((tallyNode axis).map (Graph.fold Handlers.standard.importer)).values = .ok
      (.ofList [("num_scan_inputs", .int 1), ("scan_output_axes", .ints [axis])]) := rfl
  refine ⟨{
    values := _
    importer := _
    subgraph
    attributes := hvalues
    count := fun value hvalue => ?_
    lists := fun name hname value hvalue => ?_
    graph := rfl
    imported := himported
    resolved := fun name hname _ => ?_
    unfinished := rfl }⟩
  · cases hvalue
    exact ⟨1, rfl⟩
  · replace hvalue : (NameMap.ofList [("num_scan_inputs", AttributeValue.int 1),
        ("scan_output_axes", .ints [axis])]).find? name = some value := hvalue
    simp only [List.mem_cons, List.not_mem_nil, or_false] at hname
    rcases hname with rfl | rfl | rfl | rfl <;> cases hvalue
    exact ⟨[axis], rfl⟩
  · replace hname : name ∈ ["a", "b"] := hname
    simp only [List.mem_cons, List.not_mem_nil, or_false] at hname
    rcases hname with rfl | rfl <;> exact ⟨_, _, rfl⟩

/-- The axis of what is stacked is one of two, counted from either end. With
the last but one the scan is accepted, with a third one it is refused. -/
theorem scan_accepts_tally :
    let node (axis : Int) := (tallyNode axis).map (Graph.fold Handlers.standard.importer)
    (∃ posed : Posed .current (node (-2)) ⟨9, []⟩ tallySession, ∃ result session',
      scan (node (-2)) ⟨9, []⟩ tallySession = .ok result session'
        ∧ ∃ scanInputs, posed.Consistent scanInputs ∧ Nonempty (posed.Wired scanInputs result session'))
      ∧ ∃ posed : Posed .current (node 2) ⟨9, []⟩ tallySession,
        (¬ ∃ scanInputs, posed.Consistent scanInputs)
          ∧ ∃ fault session', scan (node 2) ⟨9, []⟩ tallySession
            = .error (.invalidNode "Scan node 'f'" fault) session' := by
  intro node
  obtain ⟨accepted⟩ := posed_tally (-2)
  obtain ⟨refused⟩ := posed_tally 2
  obtain ⟨result, session', hok⟩ : ∃ result session', scan (node (-2)) ⟨9, []⟩ tallySession
      = .ok result session' := exists_of_succeeds (by decide +kernel)
  have hrefusal : ((scan (node 2)).refusal? ⟨9, []⟩ tallySession).map (fun refusal => refusal.2.1)
      = some (.axis 2 2) := by decide +kernel
  obtain ⟨⟨description, fault, log⟩, hrefusal, -⟩ := Option.map_eq_some_iff.1 hrefusal
  obtain ⟨session'', herror, -⟩ := exists_of_refusal? hrefusal
  constructor
  · obtain ⟨-, -, -, hwired⟩ := @scan_accepts_iff (tallyNode (-2)) ⟨9, []⟩ tallySession rfl (by decide)
      accepted fun name session' h => nomatch hok.symm.trans h
    exact ⟨accepted, result, session', hok, hwired result session' hok⟩
  · obtain ⟨-, haccepts, hrefuses, -⟩ := @scan_accepts_iff (tallyNode 2) ⟨9, []⟩ tallySession rfl
      (by decide) refused fun name session' h => nomatch herror.symm.trans h
    have hinconsistent : ¬ ∃ scanInputs, refused.Consistent scanInputs := by
      rw [← haccepts]
      rintro ⟨result, session', h⟩
      cases herror.symm.trans h
    exact ⟨refused, hinconsistent, hrefuses hinconsistent⟩

end Handler

end OnnxLowering
