/-
The effects of the handlers. For every node the effects of its handler are
fixed, whatever is known around it (`fixed_or_scanned`); a scan asks for
what its body reads from outside as well, and appends one node for each
output of the body. The result follows from the scope that the effects
leave behind.
-/
import OnnxLowering.Proofs.Handler.Labels
import OnnxLowering.Proofs.Handler.Standard
import OnnxLowering.Proofs.Lowering.Answers
import OnnxLowering.Proofs.Scan.Node
import OnnxLowering.Proofs.Scan.Refusal

namespace OnnxLowering

/-- How the result of a handler is found in the scope that it leaves. -/
inductive Yield where
  /-- It is the last node. -/
  | last
  /-- It is what a name stands for. -/
  | named (name : String)
  /-- It is a list, of so many of the last nodes. -/
  | items (count : Nat)

/-- A result that is found so. -/
def Yield.Of (scope : Scope) : Yield → Result → Prop
  | .last, result => ∃ k, result = .one (.node k) ∧ k + 1 = scope.nodes.length
  | .named name, result => ∃ ref, result = .one ref ∧ scope.Stands name ref
  | .items count, result => ∃ first,
      result = .many ((List.range count).map fun i => .node (first + i))
        ∧ first + count = scope.nodes.length

namespace Handler

open Lower

variable {node : NodeOf Importer} {context : Context}

-- ============================================================ last nodes

/-- The result is the node that an operation has become. -/
theorem last_does {op : Op} {operands : List Ref} :
    (do return .one (← apply node op operands 0) : Lower Result).Does context node [.node 0 true]
      fun result scope => Yield.last.Of scope result :=
  apply_does.returns fun _ _ ⟨k, href, hk⟩ => ⟨k, by rw [href], hk⟩

/-- An integer among the attributes, and what comes after it. -/
theorem intOr_does {values : Attributes} {name : String} {default : Int} {f : Int → Lower Result}
    {effects : List Effect} {after : Result → Scope → Prop}
    (hf : ∀ i, (f i).Does context node effects after) :
    (match values.find? name with
      | some value => do
          let i ← ofExcept .argument value.toInt
          f i
      | none => do
          let i ← pure default
          f i).Does context node effects after := by
  cases values.find? name with
  | none => exact hf default
  | some value => exact .skip (.ofExcept _ _) hf

/-- The effects of a step are fixed, and so is how its result is found. -/
def Fixed (node : NodeOf Importer) (x : Lower Result) : Prop :=
  ∃ effects yield, ∀ context, x.Does context node effects fun result scope => Yield.Of scope yield result

/-- A value that is read off the node, and what comes after it. -/
theorem Fixed.ofExcept {ε α : Type} {wrap : ε → LowerError} {given : Except ε α} {f : α → Lower Result}
    (hf : ∀ a, given = .ok a → Fixed node (f a)) : Fixed node (Lower.ofExcept wrap given >>= f) := by
  cases given with
  | error e => exact ⟨[], .last, fun _ _ _ _ hrun => nomatch hrun⟩
  | ok a => exact hf a rfl

-- =============================================================== handlers

theorem constant_fixed : Fixed node (constant node) :=
  .ofExcept fun values _ => .ofExcept fun t _ => ⟨[.store (constantSource node) t], .last, fun _ =>
    materialise_does.returns fun _ _ ⟨k, href, hk⟩ => ⟨k, by rw [href], hk⟩⟩

theorem identity_fixed : Fixed node (identity node) :=
  ⟨[.value (node.inputs.getD 0 "")], .named (node.inputs.getD 0 ""), fun _ =>
    input_does.returns fun ref _ hstands => ⟨ref, rfl, hstands⟩⟩

theorem binary_fixed {op : Op} : Fixed node (binary op node) :=
  ⟨[.value (node.inputs.getD 0 ""), .value (node.inputs.getD 1 ""), .node 0 true], .last, fun _ =>
    input_does.cons fun _ => input_does.cons fun _ => last_does⟩

theorem sqrt_fixed : Fixed node (sqrt node) :=
  ⟨[.value (node.inputs.getD 0 ""), .node 0 true], .last, fun _ => input_does.cons fun _ => last_does⟩

theorem scatter_fixed : Fixed node (scatter node) := by
  refine .ofExcept fun values _ => ⟨[.value (node.inputs.getD 0 ""), .value (node.inputs.getD 1 ""),
    .value (node.inputs.getD 2 ""), .node 0 true], .last, fun context => ?_⟩
  have hrest : (do
      let data ← input node 0
      let indices ← input node 1
      let updates ← input node 2
      return .one (← apply node .scatter [data, indices, updates] 0) : Lower Result).Does context node
        [.value (node.inputs.getD 0 ""), .value (node.inputs.getD 1 ""),
          .value (node.inputs.getD 2 ""), .node 0 true]
        fun result scope => Yield.last.Of scope result :=
    input_does.cons fun _ => input_does.cons fun _ => input_does.cons fun _ => last_does
  cases values.find? "reduction" with
  | none => exact hrest
  | some value => exact .guard' hrest

theorem alignmentAxis_reads {values : Attributes} : (alignmentAxis node values).Reads := by
  unfold alignmentAxis
  cases values.find? "axis" with
  | none => exact .pure _
  | some value =>
      refine (Reads.ofExcept _ _).bind fun axis => inputName_reads.bind fun name =>
        (shape_reads name).bind fun known => ?_
      cases known with
      | none => exact .pure _
      | some dims => exact (Reads.ofExcept _ _).bind fun _ => .pure _

/-- An early sum or product has one node, or two if it is aligned. -/
theorem alignedBinary_fixed {op : Op} : Fixed node (alignedBinary op node) := by
  refine .ofExcept fun values _ => ?_
  have hrest (given : Except AttributeError Int) : Fixed node (do
      let lhs ← input node 0
      let rhs ← input node 1
      let aligned ← Lower.ofExcept .argument given
      if aligned = 0 then return .one (← apply node op [lhs, rhs] 0)
      let axis ← alignmentAxis node values
      let placed ← apply node (.align axis) [lhs, rhs] 0
      return .one (← apply node op [lhs, placed] 0)) := by
    cases given with
    | error e => exact ⟨[.value (node.inputs.getD 0 ""), .value (node.inputs.getD 1 "")], .last,
        fun _ => input_does.cons fun _ => input_does.cons fun _ _ _ _ hrun => nomatch hrun⟩
    | ok aligned =>
        by_cases hzero : aligned = 0
        · refine ⟨[.value (node.inputs.getD 0 ""), .value (node.inputs.getD 1 ""), .node 0 true],
            .last, fun _ => input_does.cons fun lhs => input_does.cons fun rhs => ?_⟩
          rw [show Lower.ofExcept LowerError.argument (.ok aligned) = pure aligned from rfl, pure_bind,
            if_pos hzero]
          exact last_does
        · refine ⟨[.value (node.inputs.getD 0 ""), .value (node.inputs.getD 1 ""), .node 0 true,
            .node 0 true], .last, fun _ => input_does.cons fun lhs => input_does.cons fun rhs => ?_⟩
          rw [show Lower.ofExcept LowerError.argument (.ok aligned) = pure aligned from rfl, pure_bind,
            if_neg hzero]
          exact .skip alignmentAxis_reads fun _ => apply_does.cons fun _ => last_does
  cases values.find? "broadcast" with
  | none => exact hrest (.ok 0)
  | some value => exact hrest value.toInt

-- ================================================================== random

theorem randomType_reads {code : Int} : (randomType node code).Reads := by
  unfold randomType
  split
  · exact .pure _
  · exact .throw _

theorem numberOr_reads {values : Attributes} {name : String} {default : Nat} :
    (numberOr values name default).Reads := by
  unfold numberOr
  split
  · exact .ofExcept _ _
  · exact .pure _

theorem map_reads {α β : Type} {x : Lower α} {f : α → β} (h : x.Reads) : (f <$> x).Reads := by
  rw [map_eq_pure_bind]
  exact h.bind fun _ => .pure _

theorem distribution_reads {values : Attributes} : (distribution values).Reads := by
  refine numberOr_reads.bind fun _ => numberOr_reads.bind fun _ => ?_
  cases values.find? "seed" with
  | none => exact .pure _
  | some value => exact (map_reads (.ofExcept _ _)).bind fun _ => .pure _

theorem random_fixed : Fixed node (random node) := by
  refine .ofExcept fun values _ => ?_
  cases values.find? "shape" with
  | none => exact ⟨[], .last, fun _ => .throw⟩
  | some value =>
      exact .ofExcept fun dims _ => ⟨[.node 0 true], .last, fun _ => intOr_does fun code =>
        .skip randomType_reads fun _ => .skip distribution_reads fun _ => last_does⟩

theorem randomLike_fixed : Fixed node (randomLike node) := by
  refine .ofExcept fun values _ => ⟨[.value (node.inputs.getD 0 ""), .node 0 true], .last,
    fun context => input_does.cons fun like => ?_⟩
  have hrest (dtype : Option DType) : (do
      let drawn ← distribution values
      return .one (← apply node (.randomLike dtype drawn.1 drawn.2.1 drawn.2.2) [like] 0)
        : Lower Result).Does context node [.node 0 true] fun result scope =>
          Yield.last.Of scope result := .skip distribution_reads fun _ => last_does
  simp only
  cases values.find? "dtype" with
  | none => exact hrest none
  | some value =>
      exact .skip (.ofExcept _ _) fun _ => .skip (map_reads randomType_reads) hrest

-- ================================================================= spectra

theorem knownInteger_reads {index : Nat} {what : String} : (knownInteger node index what).Reads := by
  refine Reads.scopes.bind fun scopes => inputName_reads.bind fun name => ?_
  cases scopes.tensor? name with
  | none => exact .throw _
  | some t => exact .guard' (.ofExcept _ _)

theorem signalDims_reads {known : Option KnownShape} : (signalDims node known).Reads := by
  unfold signalDims
  split
  · exact .guard' (.pure _)
  · exact .throw _

theorem windowLength_reads {known : Option KnownShape} : (windowLength node known).Reads := by
  unfold windowLength
  split
  · exact .pure _
  · exact .pure _
  · exact .throw _

theorem frameLength_reads {size step : Int} {window : Option Int} :
    (frameLength node size step window).Reads :=
  (Reads.pure _).ite knownInteger_reads

/-- What a spectrum does once its window has a value. -/
theorem spectrum_does {signal : Ref} {window : Option Ref} {oneSided step : Int}
    {dims : Int × Int × Int} {known : Option KnownShape} :
    (do
      let window? ← match window with
        | some _ => windowLength node (← shape (← inputName node 2))
        | none => pure none
      let length ← frameLength node dims.2.1 step window?
      if window?.any (· ≠ length) then invalid node .windowLength
      if oneSided = 1 && isComplexShape known then invalid node .complexOneSided
      let count := (dims.2.1 - length).fdiv step + 1
      if length ≤ 0 || count ≤ 0 then invalid node (.noFrames dims.2.1 length)
      report (.framing node.describe count length step oneSided)
      let frames ← apply node (.frames length step) [signal] 0
      let frames ← match window with
        | some window => apply node .window [frames, window] 0
        | none => pure frames
      return .one (← apply node (.transform length (oneSided = 1)) [frames] 0)
        : Lower Result).Does context node
      (.node 0 true :: (window.toList.map fun _ => .node 0 true) ++ [.node 0 true])
      fun result scope => Yield.last.Of scope result := by
  cases window with
  | none =>
      exact .skip (.pure _) fun size => .skip frameLength_reads fun length => .guard (.guard (.guard
        (.skip (.report _) fun _ => apply_does.cons fun _ => last_does)))
  | some window =>
      refine .skip inputName_reads fun name => .skip (shape_reads name) fun known =>
        .skip windowLength_reads fun size => .skip frameLength_reads fun length => ?_
      exact .guard (.guard (.guard (.skip (.report _) fun _ => apply_does.cons fun _ =>
        apply_does.cons fun _ => last_does)))

/-- A window is asked for if there is one. -/
theorem optionalInput_does {effects effects' : List Effect} {f : Option Ref → Lower Result}
    {after : Result → Scope → Prop} (habsent : (f none).Does context node effects after)
    (hgiven : ∀ ref, (f (some ref)).Does context node effects' after) :
    (optionalInput node 2 >>= f).Does context node
      (if (node.inputs.getD 2 "").isEmpty then effects
        else .value (node.inputs.getD 2 "") :: effects') after := by
  unfold optionalInput
  rw [List.getD_eq_getElem?_getD]
  cases node.inputs[2]? with
  | none => exact habsent
  | some name =>
      simp only [Option.getD_some]
      cases name.isEmpty with
      | true => exact habsent
      | false =>
          simp only [Bool.false_eq_true, if_false, bind_assoc, pure_bind]
          exact value_does.cons hgiven

/-- A spectrum has two nodes, and three if there is a window. -/
theorem spectrum_fixed : Fixed node (spectrum node) := by
  refine .ofExcept fun values _ => ⟨.value (node.inputs.getD 0 "")
    :: if (node.inputs.getD 2 "").isEmpty then [.node 0 true, .node 0 true]
      else [.value (node.inputs.getD 2 ""), .node 0 true, .node 0 true, .node 0 true], .last,
    fun context => intOr_does fun oneSided => input_does.cons fun signal => ?_⟩
  refine .skip knownInteger_reads fun step => .guard (.skip inputName_reads fun name =>
    .skip (shape_reads name) fun known => .skip signalDims_reads fun dims => ?_)
  exact optionalInput_does (@spectrum_does node context signal none oneSided step dims known)
    fun window => @spectrum_does node context signal (some window) oneSided step dims known

-- =================================================================== scans

/-- The effects of a scan: the values of its inputs and of what its body
reads from outside, the loop, its call, and a node for each result. -/
def scanEffects (reads : List String) (count : Nat) : List Effect :=
  reads.map Effect.value ++ .loop :: .node 0 false :: (List.range count).map (Effect.node · true)

variable {session session' : Session} {spelling : ScanSyntax} {result : Result}

theorem Scanned.effects (scanned : Scanned spelling node context session result session') :
    ∃ count, Effects context node
        (scanEffects (spelling.names node ++ scanned.subgraph.outerInputs) count)
        session.scope session'.scope
      ∧ (Yield.items count).Of session'.scope result
      ∧ (scanned.subgraph.module.results.refs.length = scanned.subgraph.outputNames.length →
        count = scanned.subgraph.outputNames.length) := by
  obtain ⟨base, nodeNames, supply, log, hleft⟩ := scanned.left
  have hscope := congrArg Session.scope hleft
  simp only at hscope
  obtain ⟨hvalues, -⟩ := mapM_value_does _ _ _ scanned.evaluated
  refine ⟨scanned.loopPlan.states + scanned.loopPlan.outputAxes.length, ?_, ?_, fun hrefs => ?_⟩
  · rw [hscope]
    exact hvalues.append .of_loop
  · rw [hscope]
    exact ⟨_, scanned.returned, by simp; omega⟩
  · obtain ⟨inputs, inAxes, outAxes, -, -, hplan, -, houtAxes⟩ :=
      scanBody_eq_ok scanned.length_shapes scanned.body
    have hlength := houtAxes.length_eq
    have houtputs := scanned.describes.outputs
    rw [List.length_zip, List.length_drop, hrefs] at hlength
    rw [hplan]
    simp only [ScanPlan.withAxes]
    omega

/-- The effects of a handler are fixed, or it has lowered a scan. -/
theorem fixed_or_scanned {opset : Int} {op : String} {handler : Handler}
    (served : Served opset op handler) (node : NodeOf Importer) :
    Fixed node (handler node) ∨ op = "Scan" ∧ ∃ spelling, ∀ context session result session',
      handler node context session = .ok result session' →
        Nonempty (Scanned spelling node context session result session') := by
  cases served with
  | constant => exact .inl constant_fixed
  | identity => exact .inl identity_fixed
  | add _ => exact .inl binary_fixed
  | addAligned _ => exact .inl alignedBinary_fixed
  | multiply _ => exact .inl binary_fixed
  | multiplyAligned _ => exact .inl alignedBinary_fixed
  | sqrt => exact .inl sqrt_fixed
  | random => exact .inl random_fixed
  | randomLike => exact .inl randomLike_fixed
  | scatter => exact .inl scatter_fixed
  | scanBatched _ =>
      exact .inr ⟨rfl, _, fun _ _ _ _ hrun => scanWith_eq_ok (guard_eq_ok'.1 hrun).2⟩
  | scan _ => exact .inr ⟨rfl, _, fun _ _ _ _ hrun => scanWith_eq_ok hrun⟩
  | spectrum => exact .inl spectrum_fixed

/-- Whatever a handler does are effects. -/
theorem exists_effects {opset : Int} {op : String} {handler : Handler}
    (served : Served opset op handler)
    (h : handler node context session = .ok result session') :
    ∃ effects, Effects context node effects session.scope session'.scope := by
  rcases fixed_or_scanned served node with ⟨effects, yield, hdoes⟩ | ⟨-, spelling, hscanned⟩
  · exact ⟨effects, (hdoes context _ _ _ h).1⟩
  · obtain ⟨scanned⟩ := hscanned _ _ _ _ h
    obtain ⟨count, heffects, -, -⟩ := scanned.effects
    exact ⟨_, heffects⟩

end Handler

-- ==================================================================== nodes

/-- A property of scopes that effects keep, and that has nothing to do with
what names stand for. -/
structure Effects.Keeps (context : Context) (P : Scope → Prop) : Prop where
  happens : ∀ {node : NodeOf Importer} {effect : Effect} {scope scope' : Scope},
    effect.Happens context node scope scope' → P scope → P scope'
  bind : ∀ {scope : Scope} (bindings : NameMap Ref), P scope → P { scope with bindings }

namespace Effects.Keeps

variable {context : Context} {session session' : Session} {P : Scope → Prop} {u : Unit}

theorem lowerNode {node : NodeOf Importer} (keeps : Effects.Keeps context P)
    (h : Lower.lowerNode Handlers.standard node context session = .ok u session')
    (hP : P session.scope) : P session'.scope := by
  obtain ⟨-, version, handler, result, log, middle, hfind, hresult, rfl⟩ := Lower.lowerNode_eq_ok h
  obtain ⟨effects, heffects⟩ := Handler.exists_effects (Handlers.served_of_find? hfind) hresult
  exact keeps.bind _ (heffects.keeps keeps.happens hP)

theorem lowerNodes {nodes : List (NodeOf Importer)} (keeps : Effects.Keeps context P)
    (h : Lower.lowerNodes Handlers.standard nodes context session = .ok u session')
    (hP : P session.scope) : P session'.scope := by
  induction nodes generalizing session with
  | nil =>
      cases h
      exact hP
  | cons node nodes ih =>
      obtain ⟨middle, hfirst, hrest⟩ := Lower.lowerNodes_cons_eq_ok h
      exact ih hrest (keeps.lowerNode hfirst hP)

theorem mapM_value {names : List String} {refs : List Ref} (keeps : Effects.Keeps context P)
    (h : names.mapM Lower.value context session = .ok refs session') (hP : P session.scope) :
    P session'.scope :=
  (@Lower.mapM_value_does context { op := "" } names _ _ _ h).1.keeps keeps.happens hP

end Effects.Keeps

/-- What a scope has from its graph stays as it is. -/
theorem keeps_sameGraph (context : Context) (scope : Scope) :
    Effects.Keeps context scope.SameGraph where
  happens happened same := same.trans happened.sameGraph
  bind _ same := same.trans ⟨rfl, rfl, rfl, rfl, rfl⟩

end OnnxLowering
