/-
What the lowering of a scan leaves behind. `scanPlan_eq_ok` says how the
plan of a scan comes out of the attributes of its node, and
`scanWith_eq_ok` takes a successful lowering apart: the graph inside has
become a module, the operands have values, the loop made of the module
is on the module under construction, and behind everything else come
its call and one node for each of its outputs.
-/
import OnnxLowering.Proofs.Lowering.Steps
import OnnxLowering.Proofs.Scan.Body

namespace OnnxLowering

namespace Lower

variable {G : Type} {context : Context} {session session' : Session}

/-- Operations on behalf of a node change nothing but the list of nodes
and the names of these. -/
theorem mapM_apply_eq_ok {α : Type} {node : NodeOf G} {f : α → Op} {operands : List Ref}
    {output : α → Nat} {xs : List α} {refs : List Ref}
    (h : xs.mapM (fun x => apply node (f x) operands (output x)) context session
      = .ok refs session') :
    refs = (List.range xs.length).map (fun i => Ref.node (session.scope.nodes.length + i))
      ∧ ∃ nodeNames supply, session' = { session with
          scope := { session.scope with
            nodes := session.scope.nodes ++ xs.map fun x =>
              ⟨.apply (f x) operands, labelOf session.scope node (output x) true⟩
            nodeNames, supply } } := by
  induction xs generalizing session refs with
  | nil =>
      obtain ⟨rfl, rfl⟩ := pure_eq_ok.1 h
      exact ⟨rfl, _, _, by rw [List.map_nil, List.append_nil]⟩
  | cons x xs ih =>
      rw [List.mapM_cons] at h
      obtain ⟨ref, middle, hfirst, h⟩ := bind_eq_ok.1 h
      obtain ⟨rest, last, hrest, h⟩ := bind_eq_ok.1 h
      obtain ⟨rfl, rfl⟩ := pure_eq_ok.1 h
      unfold apply at hfirst
      rw [bind_apply, scope_apply] at hfirst
      simp only [addNode_apply, Scope.addNode_eq] at hfirst
      cases hfirst
      obtain ⟨rfl, nodeNames, supply, rfl⟩ := ih hrest
      refine ⟨?_, nodeNames, supply, ?_⟩
      · rw [List.length_cons, List.range_succ_eq_map, List.map_cons, List.map_map, Nat.add_zero]
        refine congrArg _ (List.map_congr_left fun i _ => ?_)
        rw [List.length_append, List.length_singleton]
        show Ref.node _ = Ref.node _
        rw [Nat.succ_eq_add_one, Nat.add_assoc, Nat.add_comm 1]
      · rw [List.map_cons, List.append_assoc, List.singleton_append]
        rfl

theorem call_eq_ok {node : NodeOf G} {name : String} {operands : List Ref} {output : Nat}
    {typed : Bool} {ref : Ref}
    (h : call node name operands output typed context session = .ok ref session') :
    ref = .node session.scope.nodes.length ∧ session' = { session with
      scope := (session.scope.addNode (.call name operands)
        (labelOf session.scope node output typed)).2 } := by
  unfold call at h
  rw [bind_apply, scope_apply] at h
  obtain ⟨-, h⟩ := guard_eq_ok.1 h
  rw [bind_apply, scope_apply] at h
  simp only [addNode_apply] at h
  cases h
  exact ⟨rfl, rfl⟩

theorem registerLoop_eq_ok {base name : String} {loop : Loop}
    (h : registerLoop base loop context session = .ok name session') :
    name = loopName session.scope base ∧ session' = { session with
      scope := { session.scope.takeLoop (Identifier.sanitize base) with
        loops := session.scope.loops.insert name loop } } := by
  rw [registerLoop_apply] at h
  simp only at h
  split at h
  · cases h
    exact ⟨rfl, rfl⟩
  · cases h

/-- Reports change nothing but the log. -/
theorem forIn_report_eq_ok {records : List LogRecord} {u : PUnit}
    (h : (forIn records PUnit.unit fun record _ => do
        report record
        pure (ForInStep.yield PUnit.unit) : Lower PUnit) context session = .ok u session') :
    ∃ log, session' = { session with log } := by
  induction records generalizing session with
  | nil =>
      rw [List.forIn_nil] at h
      cases h
      exact ⟨_, rfl⟩
  | cons record records ih =>
      rw [List.forIn_cons] at h
      obtain ⟨_, _, hreport, h⟩ := bind_eq_ok.1 h
      obtain ⟨_, _, hrecord, hyield⟩ := bind_eq_ok.1 hreport
      cases hrecord
      cases hyield
      exact @ih { session with log := session.log ++ [record] } h

theorem importGraph_eq_ok {node : NodeOf Importer} {name : String} {subgraph : Subgraph}
    (h : importGraph node name context session = .ok subgraph session') :
    ∃ importer log, node.graph? name = some importer
      ∧ (importer.lower ⟨context.opset, session.scope :: context.outer⟩).1 = .ok subgraph
      ∧ session' = { session with log } := by
  unfold importGraph at h
  cases himporter : node.graph? name with
  | none =>
      rw [himporter] at h
      cases h
  | some importer =>
      rw [himporter] at h
      obtain ⟨_, _, hreport, h⟩ := bind_eq_ok.1 h
      cases hreport
      obtain ⟨_, _, hopset, h⟩ := bind_eq_ok.1 h
      cases hopset
      obtain ⟨_, _, hscopes, h⟩ := bind_eq_ok.1 h
      cases hscopes
      obtain ⟨_, middle, hreports, h⟩ := bind_eq_ok.1 h
      obtain ⟨log, rfl⟩ := forIn_report_eq_ok hreports
      obtain ⟨hresult, rfl⟩ := ofExcept_eq_ok.1 h
      exact ⟨importer, log, rfl, hresult, rfl⟩

/-- Reports never fail. -/
theorem exists_forIn_report (records : List LogRecord) (context : Context) (session : Session) :
    ∃ log, (forIn records PUnit.unit fun record _ => do
        report record
        pure (ForInStep.yield PUnit.unit) : Lower PUnit) context session
      = .ok PUnit.unit { session with log } := by
  induction records generalizing session with
  | nil => exact ⟨_, rfl⟩
  | cons record records ih =>
      obtain ⟨log, hrest⟩ := ih { session with log := session.log ++ [record] }
      refine ⟨log, ?_⟩
      rw [List.forIn_cons]
      exact bind_eq_ok.2 ⟨_, _, rfl, hrest⟩

/-- A graph inside that can be lowered is imported. -/
theorem exists_importGraph {node : NodeOf Importer} {name : String} {importer : Importer}
    {subgraph : Subgraph} (himporter : node.graph? name = some importer)
    (h : (importer.lower ⟨context.opset, session.scope :: context.outer⟩).1 = .ok subgraph) :
    ∃ log, importGraph node name context session = .ok subgraph { session with log } := by
  obtain ⟨log, hreports⟩ := exists_forIn_report
    (importer.lower ⟨context.opset, session.scope :: context.outer⟩).2 context
    { session with log := session.log ++ [.importing name node.describe] }
  refine ⟨log, ?_⟩
  unfold importGraph
  rw [himporter]
  refine bind_eq_ok.2 ⟨_, _, rfl, bind_eq_ok.2 ⟨_, _, rfl, bind_eq_ok.2 ⟨_, _, rfl, ?_⟩⟩⟩
  exact bind_eq_ok.2 ⟨_, _, hreports, ofExcept_eq_ok.2 ⟨h, rfl⟩⟩

end Lower

namespace Handler

open Lower

variable {node : NodeOf Importer} {context : Context} {session session' : Session}

-- ==================================================================== plan

/-- A plan is what the attributes of a node say, for a body of so many
inputs and outputs. -/
structure ScanPlan.Describes (plan : ScanPlan) (spelling : ScanSyntax) (values : Attributes)
    (scanInputs : Int) (bodyInputs bodyOutputs : Nat) : Prop where
  positive : 1 ≤ scanInputs
  inputs : (plan.states : Int) + scanInputs = bodyInputs
  outputs : plan.states + plan.outputAxes.length = bodyOutputs
  inputAxes : intsOr values "scan_input_axes"
    (List.replicate scanInputs.toNat spelling.defaultAxis) = .ok plan.inputAxes
  inputDirections : intsOr values spelling.directions
    (List.replicate scanInputs.toNat 0) = .ok plan.inputDirections
  outputAxes : intsOr values "scan_output_axes"
    (List.replicate plan.outputAxes.length spelling.defaultAxis) = .ok plan.outputAxes
  outputDirections : intsOr values "scan_output_directions"
    (List.replicate plan.outputAxes.length 0) = .ok plan.outputDirections
  inputAxesLength : (plan.inputAxes.length : Int) = scanInputs
  inputDirectionsLength : plan.inputDirections.length = plan.inputAxes.length
  outputDirectionsLength : plan.outputDirections.length = plan.outputAxes.length

theorem checkEntries_eq_ok {name : String} {entries : List Int} {expected : Int} {u : Unit} :
    checkEntries node name entries expected context session = .ok u session'
      ↔ (entries.length : Int) = expected ∧ session = session' := by
  unfold checkEntries
  by_cases h : (entries.length : Int) = expected
  · rw [if_pos h, pure_eq_ok]
    exact ⟨fun hpure => ⟨h, hpure.2⟩, fun hpure => ⟨rfl, hpure.2⟩⟩
  · rw [if_neg h]
    exact ⟨fun hthrow => (nomatch hthrow), fun hboth => absurd hboth.1 h⟩

theorem scanPlan_eq_ok {spelling : ScanSyntax} {values : Attributes} {scanInputs : Int}
    {given bodyInputs bodyOutputs : Nat} {plan : ScanPlan}
    (h : scanPlan spelling node values scanInputs given bodyInputs bodyOutputs context session
      = .ok plan session') :
    given = bodyInputs ∧ plan.Describes spelling values scanInputs bodyInputs bodyOutputs
      ∧ session' = session := by
  unfold scanPlan at h
  obtain ⟨hinputs, h⟩ := guard_eq_ok.1 h
  obtain ⟨houtputs, h⟩ := guard_eq_ok.1 h
  obtain ⟨hgiven, h⟩ := guard_eq_ok'.1 h
  obtain ⟨inputAxes, _, hinputAxes, h⟩ := bind_eq_ok.1 h
  obtain ⟨inputDirections, _, hinputDirections, h⟩ := bind_eq_ok.1 h
  obtain ⟨outputAxes, _, houtputAxes, h⟩ := bind_eq_ok.1 h
  obtain ⟨outputDirections, _, houtputDirections, h⟩ := bind_eq_ok.1 h
  obtain ⟨_, _, hinputAxesLength, h⟩ := bind_eq_ok.1 h
  obtain ⟨_, _, hinputDirectionsLength, h⟩ := bind_eq_ok.1 h
  obtain ⟨_, _, houtputAxesLength, h⟩ := bind_eq_ok.1 h
  obtain ⟨_, _, houtputDirectionsLength, h⟩ := bind_eq_ok.1 h
  obtain ⟨rfl, rfl⟩ := pure_eq_ok.1 h
  obtain ⟨hinAxes, rfl⟩ := ofExcept_eq_ok.1 hinputAxes
  obtain ⟨hinDirections, rfl⟩ := ofExcept_eq_ok.1 hinputDirections
  obtain ⟨houtAxes, rfl⟩ := ofExcept_eq_ok.1 houtputAxes
  obtain ⟨houtDirections, rfl⟩ := ofExcept_eq_ok.1 houtputDirections
  obtain ⟨hinAxesLength, rfl⟩ := checkEntries_eq_ok.1 hinputAxesLength
  obtain ⟨hinDirectionsLength, rfl⟩ := checkEntries_eq_ok.1 hinputDirectionsLength
  obtain ⟨houtAxesLength, rfl⟩ := checkEntries_eq_ok.1 houtputAxesLength
  obtain ⟨houtDirectionsLength, rfl⟩ := checkEntries_eq_ok.1 houtputDirectionsLength
  simp only [Bool.or_eq_true, decide_eq_true_eq] at hinputs
  have hcount : ((bodyOutputs : Int) - (bodyInputs - scanInputs)).toNat = outputAxes.length := by
    omega
  rw [hcount] at houtAxes houtDirections
  refine ⟨hgiven, ⟨by omega, ?_, ?_, hinAxes, hinDirections, houtAxes, houtDirections,
    hinAxesLength, ?_, ?_⟩, rfl⟩
  all_goals
    simp only
    omega

-- ================================================================= handler

/-- The inputs of a scan that are given, as opposed to those in front of
them. -/
def ScanSyntax.names (spelling : ScanSyntax) (node : NodeOf Importer) : List String :=
  node.inputs.drop spelling.firstInput

/-- What is known of the shapes of the inputs of a scan. -/
def ScanSyntax.shapes (spelling : ScanSyntax) (node : NodeOf Importer) (scopes : Scopes) :
    List (Option KnownShape) :=
  (spelling.names node).map scopes.shape?

/-- A successful lowering of a scan. -/
structure Scanned (spelling : ScanSyntax) (node : NodeOf Importer) (context : Context)
    (session : Session) (result : Result) (session' : Session) where
  values : Attributes
  scanInputs : Int
  importer : Importer
  subgraph : Subgraph
  plan : ScanPlan
  loopModule : Module
  loopPlan : ScanPlan
  log : List LogRecord
  operands : List Ref
  /-- Where the call of the loop is about to be appended. -/
  middle : Session
  attributes : node.values = .ok values
  count : ∃ value, values.find? "num_scan_inputs" = some value ∧ value.toInt = .ok scanInputs
  given : ∀ name ∈ spelling.names node, name.isEmpty = false
  graph : node.graph? "body" = some importer
  imported : (importer.lower ⟨context.opset, session.scope :: context.outer⟩).1 = .ok subgraph
  inputCount : (spelling.names node).length = subgraph.inputNames.length
  describes : plan.Describes spelling values scanInputs subgraph.inputNames.length
    subgraph.outputNames.length
  body : scanBody node.describe plan subgraph.module
    (spelling.shapes node (session.scope :: context.outer)) = .ok (loopModule, loopPlan)
  evaluated : (spelling.names node ++ subgraph.outerInputs).mapM value context
    { session with log } = .ok operands middle
  returned : result = .many ((List.range (loopPlan.states + loopPlan.outputAxes.length)).map
    fun i => .node (middle.scope.nodes.length + 1 + i))
  left : ∃ base nodeNames supply log,
    let name := loopName middle.scope base
    session' = { scope := { middle.scope.takeLoop (Identifier.sanitize base) with
      loops := middle.scope.loops.insert name
        (.mk (loopPlan.wiring subgraph.outerInputs.length)
          (loopPlan.inputCount + subgraph.outerInputs.length) loopModule)
      nodes := middle.scope.nodes ++ ⟨.call name operands, labelOf middle.scope node 0 false⟩
        :: (List.range (loopPlan.states + loopPlan.outputAxes.length)).map fun i =>
          ⟨.apply (.item i) [.node middle.scope.nodes.length], labelOf middle.scope node i true⟩
      nodeNames, supply }, log }

theorem mapM_shape_eq_ok {names : List String} {shapes : List (Option KnownShape)}
    (h : names.mapM shape context session = .ok shapes session') :
    shapes = names.map (Scopes.shape? (session.scope :: context.outer)) ∧ session' = session := by
  induction names generalizing shapes with
  | nil =>
      obtain ⟨rfl, rfl⟩ := pure_eq_ok.1 h
      exact ⟨rfl, rfl⟩
  | cons name names ih =>
      rw [List.mapM_cons] at h
      obtain ⟨_, _, hshape, h⟩ := bind_eq_ok.1 h
      obtain ⟨_, _, hrest, h⟩ := bind_eq_ok.1 h
      obtain ⟨rfl, rfl⟩ := pure_eq_ok.1 h
      cases hshape
      obtain ⟨rfl, rfl⟩ := ih hrest
      exact ⟨rfl, rfl⟩

theorem scanWith_eq_ok {spelling : ScanSyntax} {result : Result}
    (h : scanWith spelling node context session = .ok result session') :
    Nonempty (Scanned spelling node context session result session') := by
  unfold scanWith at h
  obtain ⟨values, _, hattributes, h⟩ := bind_eq_ok.1 h
  obtain ⟨hvalues, rfl⟩ := ofExcept_eq_ok.1 hattributes
  cases hfind : values.find? "num_scan_inputs" with
  | none =>
      rw [hfind] at h
      cases h
  | some value =>
      rw [hfind] at h
      obtain ⟨scanInputs, _, hscanInputs, h⟩ := bind_eq_ok.1 h
      obtain ⟨hcount, rfl⟩ := ofExcept_eq_ok.1 hscanInputs
      obtain ⟨hgiven, h⟩ := guard_eq_ok.1 h
      obtain ⟨subgraph, _, hsubgraph, h⟩ := bind_eq_ok.1 h
      obtain ⟨importer, log, hgraph, himported, rfl⟩ := importGraph_eq_ok hsubgraph
      obtain ⟨plan, _, hplan, h⟩ := bind_eq_ok.1 h
      obtain ⟨hinputCount, hdescribes, rfl⟩ := scanPlan_eq_ok hplan
      obtain ⟨_, _, hreport, h⟩ := bind_eq_ok.1 h
      cases hreport
      obtain ⟨shapes, _, hshapes, h⟩ := bind_eq_ok.1 h
      obtain ⟨rfl, rfl⟩ := mapM_shape_eq_ok hshapes
      obtain ⟨⟨loopModule, loopPlan⟩, _, hmade, h⟩ := bind_eq_ok.1 h
      obtain ⟨hbody, rfl⟩ := ofExcept_eq_ok.1 hmade
      obtain ⟨operands, middle, hoperands, h⟩ := bind_eq_ok.1 h
      obtain ⟨name, _, hname, h⟩ := bind_eq_ok.1 h
      obtain ⟨rfl, rfl⟩ := registerLoop_eq_ok hname
      obtain ⟨ref, _, hcall, h⟩ := bind_eq_ok.1 h
      obtain ⟨rfl, rfl⟩ := call_eq_ok hcall
      obtain ⟨refs, _, hrefs, h⟩ := bind_eq_ok.1 h
      obtain ⟨rfl, rfl⟩ := pure_eq_ok.1 h
      obtain ⟨rfl, nodeNames, supply, rfl⟩ := mapM_apply_eq_ok hrefs
      refine ⟨{
        values, scanInputs, importer, subgraph, plan, loopModule, loopPlan, operands, middle
        log := _
        attributes := hvalues
        count := ⟨value, hfind, hcount⟩
        given := ?_
        graph := hgraph
        imported := himported
        inputCount := hinputCount
        describes := hdescribes
        body := hbody
        evaluated := hoperands
        returned := ?_
        left := ⟨if node.name.isEmpty then "scan" else node.name, nodeNames, supply, middle.log,
          ?_⟩ }⟩
      · intro name hname
        rw [Bool.not_eq_true, List.any_eq_false] at hgiven
        exact Bool.eq_false_iff.2 (hgiven name hname)
      · rw [List.length_range]
        simp only [Scope.addNode_eq, List.length_append, List.length_singleton]
        rfl
      · simp only [Scope.addNode_eq, List.append_assoc, List.singleton_append]
        rfl

/-- The results of a scan are the last nodes that it leaves behind. -/
theorem Scanned.getElem?_items {spelling : ScanSyntax} {result : Result}
    (scanned : Scanned spelling node context session result session') {i : Nat}
    (hi : i < scanned.loopPlan.states + scanned.loopPlan.outputAxes.length) :
    session'.scope.nodes[scanned.middle.scope.nodes.length + 1 + i]?
      = some ⟨.apply (.item i) [.node scanned.middle.scope.nodes.length],
          Lower.labelOf scanned.middle.scope node i true⟩ := by
  obtain ⟨base, nodeNames, supply, log, hleft⟩ := scanned.left
  have hnodes : session'.scope.nodes = _ := congrArg (·.scope.nodes) hleft
  rw [hnodes, Nat.add_assoc, List.getElem?_append_right (by omega), Nat.add_sub_cancel_left,
    Nat.add_comm 1, List.getElem?_cons_succ, List.getElem?_map, List.getElem?_range hi]
  rfl

end Handler

end OnnxLowering
