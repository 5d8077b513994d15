/-
The lowering is composed. Every handler is put together from the steps of
the lowering, and gives a constant to one name at most (`composed_of_served`).
So the lowering of a whole graph is, and the only names to which it gives a
value are those of its inputs, of the outputs of its nodes and of its
constants (`lowerGraph_composed`).
-/
import OnnxLowering.Proofs.Handler.Effects
import OnnxLowering.Proofs.Lowering.Composed

namespace OnnxLowering

namespace Lower

variable {α β : Type} {gives : String → Prop}

namespace Composed

variable {x : Lower α}

theorem bind {f : α → Lower β} (h : Composed gives x) (hf : ∀ a, Composed gives (f a)) :
    Composed gives (x >>= f) :=
  .sequence h fun a _ => hf a

theorem pure (a : α) : Composed gives (pure a : Lower α) := .reads (.pure a)

theorem throw (error : LowerError) : Composed gives (throw error : Lower α) := .reads (.throw error)

theorem scope : Composed gives Lower.scope := .reads fun _ _ => rfl

theorem report (record : LogRecord) : Composed gives (report record) := .reads (.report record)

theorem ofExcept {ε : Type} (wrap : ε → LowerError) (result : Except ε α) :
    Composed gives (ofExcept wrap result) := .reads (.ofExcept wrap result)

theorem ite {c : Prop} [Decidable c] {y : Lower α} (h : Composed gives x) (hy : Composed gives y) :
    Composed gives (if c then x else y) := by
  split
  · exact h
  · exact hy

/-- A check in front of a step. -/
theorem guard {c : Prop} [Decidable c] {error : LowerError} (h : Composed gives x) :
    Composed gives
      (if c then (MonadExcept.throw error : Lower PUnit) >>= fun _ => x else x) :=
  ((throw error).bind fun _ => h).ite h

theorem guard' {c : Prop} [Decidable c] {error : LowerError} (h : Composed gives x) :
    Composed gives
      (if c then x else (MonadExcept.throw error : Lower PUnit) >>= fun _ => x) :=
  h.ite ((throw error).bind fun _ => h)

theorem mapM {f : α → Lower β} (h : ∀ a, Composed gives (f a)) (as : List α) :
    Composed gives (as.mapM f) := by
  induction as with
  | nil => exact pure []
  | cons a as ih =>
      rw [List.mapM_cons]
      exact (h a).bind fun b => ih.bind fun bs => pure (b :: bs)

theorem forIn {f : α → PUnit → Lower (ForInStep PUnit)} {as : List α} {u : PUnit}
    (h : ∀ a ∈ as, ∀ u, Composed gives (f a u)) : Composed gives (forIn as u f) := by
  induction as generalizing u with
  | nil => exact pure u
  | cons a as ih =>
      rw [List.forall_mem_cons] at h
      rw [List.forIn_cons]
      refine (h.1 u).bind fun step => ?_
      cases step with
      | done u => exact pure u
      | yield u => exact ih h.2

end Composed

section

variable {node : NodeOf Importer}

theorem input_composed {index : Nat} : Composed gives (input node index) :=
  (Composed.reads inputName_reads).bind fun name => .value name

theorem optionalInput_composed {index : Nat} : Composed gives (optionalInput node index) := by
  unfold optionalInput
  split
  · exact .ite (.pure _) ((Composed.value _).bind fun _ => .pure _)
  · exact .pure _

theorem apply_composed {op : Op} {operands : List Ref} {output : Nat} :
    Composed gives (apply node op operands output) :=
  Composed.scope.bind fun _ => .addNode _ _

theorem call_composed {name : String} {operands : List Ref} {output : Nat} {typed : Bool} :
    Composed gives (call node name operands output typed) :=
  Composed.scope.bind fun _ => .guard (Composed.scope.bind fun _ => .addNode _ _)

end

end Lower

-- ================================================================ handlers

namespace Handler

open Lower

variable {gives : String → Prop} {node : NodeOf Importer}

theorem constant_composed (hsource : gives (constantSource node)) : Composed gives (constant node) :=
  (Composed.reads (attributes_reads node)).bind fun _ => (Composed.ofExcept _ _).bind fun t =>
    (Composed.materialise hsource t (some false)).bind fun _ => .pure _

theorem identity_composed : Composed gives (identity node) := input_composed.bind fun _ => .pure _

theorem binary_composed {op : Op} : Composed gives (binary op node) :=
  input_composed.bind fun _ => input_composed.bind fun _ => apply_composed.bind fun _ => .pure _

theorem alignedBinary_composed {op : Op} : Composed gives (alignedBinary op node) := by
  refine (Composed.reads (attributes_reads node)).bind fun values => input_composed.bind fun lhs =>
    input_composed.bind fun rhs => ?_
  have hrest (aligned : Int) : Composed gives
      (if aligned = 0 then do return .one (← apply node op [lhs, rhs] 0)
      else do
        let axis ← alignmentAxis node values
        let placed ← apply node (.align axis) [lhs, rhs] 0
        return .one (← apply node op [lhs, placed] 0) : Lower Result) :=
    .ite (apply_composed.bind fun _ => .pure _)
      ((Composed.reads alignmentAxis_reads).bind fun _ => apply_composed.bind fun _ =>
        apply_composed.bind fun _ => .pure _)
  cases values.find? "broadcast" with
  | none => exact hrest 0
  | some value => exact (Composed.ofExcept _ _).bind hrest

theorem sqrt_composed : Composed gives (sqrt node) :=
  input_composed.bind fun _ => apply_composed.bind fun _ => .pure _

theorem scatter_composed : Composed gives (scatter node) := by
  have hrest : Composed gives (do
      let data ← input node 0
      let indices ← input node 1
      let updates ← input node 2
      return .one (← apply node .scatter [data, indices, updates] 0) : Lower Result) :=
    input_composed.bind fun _ => input_composed.bind fun _ => input_composed.bind fun _ =>
      apply_composed.bind fun _ => .pure _
  refine (Composed.reads (attributes_reads node)).bind fun values => ?_
  cases values.find? "reduction" with
  | none => exact hrest
  | some value => exact .guard' hrest

/-- An integer among the attributes. -/
theorem intOr_composed {values : Attributes} {name : String} {default : Int} {f : Int → Lower Result}
    (hf : ∀ i, Composed gives (f i)) :
    Composed gives (match values.find? name with
      | some value => do
          let i ← ofExcept .argument value.toInt
          f i
      | none => do
          let i ← pure default
          f i) := by
  cases values.find? name with
  | none => exact hf default
  | some value => exact (Composed.ofExcept _ _).bind hf

theorem random_composed : Composed gives (random node) := by
  refine (Composed.reads (attributes_reads node)).bind fun values => ?_
  cases values.find? "shape" with
  | none => exact .throw _
  | some value =>
      exact (Composed.ofExcept _ _).bind fun dims => intOr_composed fun code =>
        (Composed.reads randomType_reads).bind fun _ => (Composed.reads distribution_reads).bind fun _ =>
          apply_composed.bind fun _ => .pure _

theorem randomLike_composed : Composed gives (randomLike node) := by
  refine (Composed.reads (attributes_reads node)).bind fun values => input_composed.bind fun like => ?_
  have hrest (dtype : Option DType) : Composed gives (do
      let drawn ← distribution values
      return .one (← apply node (.randomLike dtype drawn.1 drawn.2.1 drawn.2.2) [like] 0)
        : Lower Result) :=
    (Composed.reads distribution_reads).bind fun _ => apply_composed.bind fun _ => .pure _
  cases values.find? "dtype" with
  | none => exact hrest none
  | some value =>
      exact (Composed.ofExcept _ _).bind fun _ =>
        (Composed.reads (map_reads randomType_reads)).bind hrest

/-- The length of the window, if there is one. -/
theorem windowSize_composed {window : Option Ref} {f : Option Int → Lower Result}
    (hf : ∀ size, Composed gives (f size)) : Composed gives (match window with
      | some _ => do
          let size ← windowLength node (← shape (← inputName node 2))
          f size
      | none => do
          let size ← pure none
          f size) := by
  cases window with
  | none => exact hf none
  | some window =>
      exact (Composed.reads inputName_reads).bind fun name => (Composed.reads (shape_reads name)).bind
        fun _ => (Composed.reads windowLength_reads).bind hf

theorem spectrum_composed : Composed gives (spectrum node) := by
  refine (Composed.reads (attributes_reads node)).bind fun values => intOr_composed fun oneSided => ?_
  refine input_composed.bind fun signal => (Composed.reads knownInteger_reads).bind fun step =>
    .guard ((Composed.reads inputName_reads).bind fun name =>
      (Composed.reads (shape_reads name)).bind fun known => (Composed.reads signalDims_reads).bind
        fun dims => optionalInput_composed.bind fun window => ?_)
  refine windowSize_composed fun size => (Composed.reads frameLength_reads).bind fun length =>
    .guard (.guard (.guard ((Composed.report _).bind fun _ => apply_composed.bind fun frames => ?_)))
  have hlast (frames : Ref) : Composed gives (do
      return .one (← apply node (.transform length (oneSided = 1)) [frames] 0) : Lower Result) :=
    apply_composed.bind fun _ => .pure _
  cases window with
  | none => exact hlast frames
  | some window => exact apply_composed.bind hlast

theorem scanWith_composed {spelling : ScanSyntax} : Composed gives (scanWith spelling node) := by
  refine (Composed.reads (attributes_reads node)).bind fun values => ?_
  simp only
  cases values.find? "num_scan_inputs" with
  | none => exact .throw _
  | some value =>
      refine (Composed.ofExcept _ _).bind fun scanInputs => .guard
        ((Composed.reads (importGraph_reads node "body")).bind fun subgraph =>
          (Composed.reads (scanPlan_reads _ _ _ _ _ _ _)).bind fun plan =>
          (Composed.report _).bind fun _ => (Composed.reads (.mapM shape_reads _)).bind fun shapes => ?_)
      exact (Composed.ofExcept _ _).bind fun _ => (Composed.mapM .value _).bind fun operands =>
        (Composed.registerLoop _ _).bind fun name => call_composed.bind fun result =>
        (Composed.mapM (fun _ => apply_composed) _).bind fun refs => .pure _

theorem scanBatched_composed : Composed gives (scanBatched node) := .guard' scanWith_composed

theorem composed_of_served {opset : Int} {op : String} {handler : Handler}
    (served : Served opset op handler) (hsource : op = "Constant" → gives (constantSource node)) :
    Composed gives (handler node) := by
  cases served with
  | constant => exact constant_composed (hsource rfl)
  | identity => exact identity_composed
  | add => exact binary_composed
  | addAligned => exact alignedBinary_composed
  | multiply => exact binary_composed
  | multiplyAligned => exact alignedBinary_composed
  | sqrt => exact sqrt_composed
  | random => exact random_composed
  | randomLike => exact randomLike_composed
  | scatter => exact scatter_composed
  | scanBatched => exact scanBatched_composed
  | scan => exact scanWith_composed
  | spectrum => exact spectrum_composed

end Handler

-- ================================================================== graphs

/-- The names to which a node may give a value or a constant. -/
structure NodeOf.Gives (gives : String → Prop) (node : NodeOf Importer) : Prop where
  source : node.op = "Constant" → gives (Handler.constantSource node)
  outputs : ∀ name ∈ node.namedOutputs, gives name

namespace Lower

variable {gives : String → Prop} {node : NodeOf Importer}

theorem bindResult_composed {result : Result} (houtputs : ∀ name ∈ node.namedOutputs, gives name) :
    Composed gives (bindResult node result) := by
  cases result with
  | nothing => exact .pure _
  | one ref =>
      show Composed gives (bindOne node ref)
      unfold bindOne
      cases hnamed : node.namedOutputs with
      | nil => exact .pure _
      | cons name others =>
          rw [hnamed, List.forall_mem_cons] at houtputs
          exact (Composed.bound houtputs.1 ref).bind fun _ => Composed.scope.bind fun _ =>
            .guard (.pure _)
  | many refs =>
      refine .guard ((Composed.forIn fun pair hpair _ => ?_).bind fun _ => .pure _)
      refine .bind ?_ fun _ => .pure _
      unfold bindOutput
      cases hempty : pair.1.isEmpty with
      | true => exact .pure _
      | false =>
          have hmem : pair.1 ∈ node.namedOutputs :=
            List.mem_filter.2 ⟨(List.of_mem_zip hpair).1, by simp [hempty]⟩
          exact .bound (houtputs _ hmem) _
  | unsupported => exact .throw _

theorem lowerNode_composed (hnode : node.Gives gives) :
    Composed gives (lowerNode Handlers.standard node) := by
  refine .sequence (.reads (handlerOf_reads _ _)) fun handler returned => ?_
  obtain ⟨context, session, session', hhandler⟩ := returned
  obtain ⟨version, hfind⟩ := find?_of_handlerOf_eq_ok hhandler
  have hcomposed : Composed gives (handler node) :=
    Handler.composed_of_served (Handlers.served_of_find? hfind) hnode.source
  exact (Composed.reads .opset).bind fun _ => (Composed.report _).bind fun _ =>
    hcomposed.bind fun _ => bindResult_composed hnode.outputs

theorem lowerNodes_composed {nodes : List (NodeOf Importer)}
    (hnodes : ∀ node ∈ nodes, node.Gives gives) :
    Composed gives (lowerNodes Handlers.standard nodes) := by
  induction nodes with
  | nil => exact .pure _
  | cons node nodes ih =>
      rw [List.forall_mem_cons] at hnodes
      show Composed gives (lowerNode Handlers.standard node >>= fun _ =>
        lowerNodes Handlers.standard nodes)
      exact (lowerNode_composed hnodes.1).bind fun _ => ih hnodes.2

theorem results_composed {asTuple : Bool} : Composed gives (results asTuple) := by
  refine Composed.scope.bind fun scope => (Composed.mapM .value _).bind fun refs => ?_
  split
  · exact .pure _
  · exact .pure _

theorem addGraphInputs_composed {inputs : List ValueInfo} (hinputs : ∀ info ∈ inputs, gives info.name) :
    Composed gives (addGraphInputs inputs) := by
  refine Composed.scope.bind fun scope => (Composed.forIn fun info hinfo _ => ?_).bind fun _ => .pure _
  exact .ite (.pure _) ((Composed.input (hinputs info hinfo)).bind fun _ => .pure _)

theorem refuse_composed {fault? : Option LowerError} : Composed gives (refuse fault?) := by
  cases fault? with
  | none => exact .pure _
  | some error => exact .throw _

theorem finish_composed {r : Results} : Composed gives (finish r) :=
  (Composed.addNode _ _).bind fun _ => Composed.scope.bind fun _ => refuse_composed.bind fun _ =>
    Composed.finished.bind fun _ => refuse_composed.bind fun _ => refuse_composed.bind fun _ =>
      refuse_composed.bind fun _ => .pure _

/-- The lowering of a graph is composed, and gives values to the inputs of
the graph and the outputs of its nodes only. -/
theorem lowerGraph_composed {graph : GraphOf Importer} {asTuple : Bool}
    (hinputs : ∀ info ∈ graph.inputs, gives info.name)
    (hnodes : ∀ node ∈ graph.nodes, node.Gives gives) :
    Composed gives (lowerGraph Handlers.standard graph asTuple) :=
  (addGraphInputs_composed hinputs).bind fun _ => (lowerNodes_composed hnodes).bind fun _ =>
    results_composed.bind fun _ => finish_composed

end Lower

end OnnxLowering
