/-
Sums and products of the early versions, with their right operand put at
dimensions of the left one.

Such a node is lowered to two operations, the alignment and then the sum
or product, and a run returns what these make of the operands
(`Site.yields_iff`). The axis is looked at twice. Where the rank of the
left operand is known when the node is lowered, the axis has to be one of
its dimensions, and is made positive then. The run looks at it again, with
the ranks of both operands, and refuses it if there is no room for the
right one. So a run returns the elementwise result exactly where there is
room (`aligned_elementwise`). And knowing the rank makes no difference but
where there is room only for an operand without dimensions, behind the
last dimension of the left one (`known_rank_agrees`).
-/
import OnnxLowering.Proofs.Handler.Framing
import OnnxLowering.Proofs.Handler.Standard
import OnnxLowering.Proofs.Tensor.Alignment

namespace OnnxLowering

-- =============================================================== operations

theorem Op.eval_align {lhs rhs : Tensor} (axis : Option Int) :
    (align axis).eval [lhs.asValue, rhs.asValue] = (lhs.align rhs axis).map Tensor.asValue := by
  show (lhs.align rhs axis >>= fun t => .ok t.asValue) = _
  cases lhs.align rhs axis <;> rfl

namespace Arithmetic

/-- The name of the operation in a graph. -/
def name : Arithmetic → String
  | sum => "Add"
  | product => "Mul"

def op : Arithmetic → Op
  | sum => .add
  | product => .multiply

theorem words_op (arithmetic : Arithmetic) : arithmetic.op.words = [] := by
  cases arithmetic <;> rfl

theorem eval_op (arithmetic : Arithmetic) {lhs rhs : Tensor} :
    arithmetic.op.eval [lhs.asValue, rhs.asValue] = (arithmetic.on lhs rhs).map Tensor.asValue := by
  cases arithmetic with
  | sum =>
      show (lhs.add rhs >>= fun t => .ok t.asValue) = (lhs.add rhs).map Tensor.asValue
      cases lhs.add rhs <;> rfl
  | product =>
      show (lhs.multiply rhs >>= fun t => .ok t.asValue) = (lhs.multiply rhs).map Tensor.asValue
      cases lhs.multiply rhs <;> rfl

/-- The versions of an operation, in order. -/
theorem versions_name (arithmetic : Arithmetic) : Handlers.standard.versions arithmetic.name
    = [(1, Handler.alignedBinary arithmetic.op), (7, Handler.binary arithmetic.op)] := by
  unfold Registry.versions NameMap.find?
  rw [Handlers.entries_standard]
  cases arithmetic <;> rfl

/-- Up to version 6 the operands are aligned. -/
theorem find?_name (arithmetic : Arithmetic) {opset : Int} (hfirst : 1 ≤ opset) (hlast : opset ≤ 6) :
    Handlers.standard.find? arithmetic.name opset = some (1, Handler.alignedBinary arithmetic.op) := by
  have hnext : ¬ (7 : Int) ≤ opset := by omega
  unfold Registry.find?
  rw [versions_name]
  simp [hfirst, hnext]

end Arithmetic

namespace Lower

variable {G : Type}

/-- An operation can always be applied. -/
theorem apply_apply (context : Context) (session : Session) (node : NodeOf G) (op : Op)
    (operands : List Ref) :
    ∃ session', apply node op operands 0 context session = .ok (.node session.scope.nodes.length) session'
      ∧ session.scope.Applies node op operands session'.scope := by
  unfold apply
  rw [bind_apply, scope_apply]
  simp only [addNode_apply, Scope.addNode_eq]
  exact ⟨_, rfl, .mk _ _⟩

end Lower

namespace Handler

open Lower

-- ================================================================== the axis

/-- The axis among the attributes. -/
def givenAxis (values : Attributes) : Except AttributeError (Option Int) :=
  match values.find? "axis" with
  | none => .ok none
  | some value => value.toInt.map some

/-- What becomes of the axis when the node is lowered: it is only looked at
where the rank of the left operand is known. -/
def settledAxis (node : NodeOf Importer) (axis : Option Int) (known : Option KnownShape) :
    Except LowerError (Option Int) :=
  match axis, known with
  | some axis, some dims => (normalizeAxis node.describe axis dims.length).map some
  | axis, _ => .ok axis

variable {node : NodeOf Importer} {arithmetic : Arithmetic} {axis axis' : Option Int}
  {known : Option KnownShape} {lhs rhs t : Tensor}

theorem alignmentAxis_apply {values : Attributes} {context : Context} {session : Session}
    {name : String} (hname : node.inputs[0]? = some name) (haxis : givenAxis values = .ok axis) :
    alignmentAxis node values context session
      = match settledAxis node axis (Scopes.shape? (session.scope :: context.outer) name) with
        | .ok axis => .ok axis session
        | .error error => .error error session := by
  unfold givenAxis at haxis
  unfold alignmentAxis
  cases hfind : values.find? "axis" with
  | none =>
      rw [hfind] at haxis
      cases haxis
      rfl
  | some value =>
      rw [hfind] at haxis
      obtain ⟨given, hgiven, rfl⟩ := Except.map_eq_ok.1 haxis
      have hread : inputName node 0 context session = .ok name session := by
        unfold inputName
        rw [hname]
        rfl
      simp only [hgiven, bind_apply, hread, Lower.ofExcept, pure_apply, shape, scopes_apply]
      cases Scopes.shape? (session.scope :: context.outer) name with
      | none => rfl
      | some dims =>
          unfold settledAxis
          cases hnormal : normalizeAxis node.describe given dims.length with
          | ok normal =>
              simp only [bind_apply, hnormal]
              rfl
          | error error =>
              simp only [bind_apply, hnormal]
              rfl

/-- The axis means the same after it has been settled, if a rank that is
counted back from is the right one. -/
theorem alignStart_settled (h : settledAxis node axis known = .ok axis')
    (hknown : ∀ given dims, axis = some given → given < 0 → known = some dims → dims.length = lhs.rank) :
    Tensor.alignStart lhs.rank rhs.rank axis' = Tensor.alignStart lhs.rank rhs.rank axis := by
  cases axis with
  | none =>
      cases h
      rfl
  | some given =>
      cases known with
      | none =>
          cases h
          rfl
      | some dims =>
          obtain ⟨normal, hnormal, rfl⟩ := Except.map_eq_ok.1 h
          obtain ⟨hrange, rfl⟩ := normalizeAxis_eq_ok hnormal
          unfold Tensor.alignStart
          by_cases hnegative : given < 0
          · have hrank := hknown given dims rfl hnegative rfl
            rw [hrank] at hrange
            have hpositive : ¬ given + (lhs.rank : Int) < 0 := by omega
            simp only [if_pos hnegative, hrank, if_neg hpositive]
          · simp only [if_neg hnegative]

theorem align_settled (h : settledAxis node axis known = .ok axis')
    (hknown : ∀ given dims, axis = some given → given < 0 → known = some dims → dims.length = lhs.rank) :
    lhs.align rhs axis' = .ok t ↔ lhs.align rhs axis = .ok t := by
  rw [Tensor.align_eq_ok, Tensor.align_eq_ok, alignStart_settled h hknown]

/-- Where a rank is known the axis has to be one of the dimensions. -/
theorem exists_settledAxis {dims : KnownShape} :
    (∃ axis', settledAxis node axis (some dims) = .ok axis')
      ↔ ∀ given, axis = some given → -(dims.length : Int) ≤ given ∧ given < dims.length := by
  cases axis with
  | none => exact ⟨fun _ _ h => (nomatch h), fun _ => ⟨none, rfl⟩⟩
  | some given =>
      unfold settledAxis normalizeAxis
      simp only [Bool.and_eq_true, decide_eq_true_eq, Option.some.injEq, forall_eq']
      by_cases hrange : -(dims.length : Int) ≤ given ∧ given < dims.length
      · rw [if_pos hrange]
        exact ⟨fun _ => hrange, fun _ => ⟨_, rfl⟩⟩
      · rw [if_neg hrange]
        exact ⟨fun ⟨_, h⟩ => (nomatch h), fun h => absurd h hrange⟩

/-- What there is room for can be put at a dimension of the left operand, or
else it is nothing and stands behind the last one. -/
theorem inRange_of_align {given : Int} (h : lhs.align rhs (some given) = .ok t) :
    (-(lhs.rank : Int) ≤ given ∧ given < lhs.rank) ∨ (given = lhs.rank ∧ rhs.rank = 0) := by
  obtain ⟨before, after, hbefore, hrank, -⟩ := Tensor.align_eq_ok.1 h
  change (if given < 0 then given + (lhs.rank : Int) else given) = before at hbefore
  split at hbefore <;> omega

-- ================================================================== the site

/-- A sum or product that aligns its operands, with the axis that it
gives. -/
structure Aligns (node : NodeOf Importer) (arithmetic : Arithmetic) (axis : Option Int) : Prop where
  op : node.op = arithmetic.name
  attributes : ∃ values broadcast value, node.values = .ok values
    ∧ values.find? "broadcast" = some value ∧ value.toInt = .ok broadcast ∧ broadcast ≠ 0
    ∧ givenAxis values = .ok axis

/-- Where a node stands: a state of the lowering in which both of its
operands can be read, and a run in which they are certain tensors once all
nodes before it have values. -/
structure Site (node : NodeOf Importer) (lhs rhs : Tensor) where
  context : Context
  session : Session
  first : 1 ≤ context.opset
  last : context.opset ≤ 6
  lhsRef : Ref
  rhsRef : Ref
  middle : Session
  ready : Session
  readsLhs : input node 0 context session = .ok lhsRef middle
  readsRhs : input node 1 context middle = .ok rhsRef ready
  module : ModuleOf Meaning
  hidden : String → Option Operand
  inputs : List Operand
  done : List Value
  nodes : done.length = ready.scope.nodes.length
  lhsValue : lhsRef.value inputs done = lhs.asValue
  rhsValue : rhsRef.value inputs done = rhs.asValue

namespace Site

variable (site : Site node lhs rhs)

/-- What is known of the shape of the left operand when the axis is looked
at. -/
def knownShape : Option KnownShape :=
  Scopes.shape? (site.ready.scope :: site.context.outer) (node.inputs.getD 0 "")

/-- What the handler of the node does with it, if it has one. -/
def lower? : Option (EStateM.Result LowerError Session Result) :=
  (Handlers.standard.find? node.op site.context.opset).map fun entry =>
    entry.2 node site.context site.session

/-- The node is lowered, with that result. -/
def Lowers (result : Result) (session' : Session) : Prop := site.lower? = some (.ok result session')

/-- The node is refused. -/
def Refuses (error : LowerError) : Prop := ∃ session', site.lower? = some (.error error session')

/-- The values of the nodes up to those of the node that has been lowered. -/
def evaluate (session' : Session) : Except RunError (List Value) :=
  site.module.evalFrom site.hidden site.inputs site.done (session'.scope.nodes.drop site.done.length)

/-- A run returns a tensor as the value of the node. -/
def Returns (result : Result) (session' : Session) (t : Tensor) : Prop :=
  ∃ after out, site.evaluate session' = .ok after ∧ result = .one out
    ∧ out.value site.inputs after = t.asValue

/-- The node is lowered, and a run returns a tensor as its value. -/
def Yields (t : Tensor) : Prop :=
  ∃ result session', site.Lowers result session' ∧ site.Returns result session' t

variable {site}

/-- The handler, from where it has read its operands on. -/
theorem lower?_eq (aligns : Aligns node arithmetic axis) :
    site.lower? = some (match settledAxis node axis site.knownShape with
      | .ok axis => (do
          let placed ← apply node (.align axis) [site.lhsRef, site.rhsRef] 0
          return .one (← apply node arithmetic.op [site.lhsRef, placed] 0) : Lower Result)
            site.context site.ready
      | .error error => .error error site.ready) := by
  obtain ⟨values, broadcast, value, hvalues, hfind, hint, hbroadcast, haxis⟩ := aligns.attributes
  obtain ⟨name, hname, -⟩ := input_eq_ok site.readsLhs
  have hknown : site.knownShape = Scopes.shape? (site.ready.scope :: site.context.outer) name := by
    unfold knownShape
    rw [List.getD_eq_getElem?_getD, hname]
    rfl
  unfold lower?
  rw [aligns.op, arithmetic.find?_name site.first site.last]
  refine congrArg some ?_
  show alignedBinary arithmetic.op node site.context site.session = _
  unfold alignedBinary attributes
  simp only [bind_apply, hvalues, Lower.ofExcept, pure_apply, site.readsLhs, site.readsRhs, hfind,
    hint, if_neg hbroadcast, alignmentAxis_apply hname haxis, hknown]
  cases settledAxis node axis (Scopes.shape? (site.ready.scope :: site.context.outer) name) <;> rfl

/-- The two nodes that the node is lowered to, once its axis is settled. -/
theorem exists_lowers (aligns : Aligns node arithmetic axis)
    (hsettled : settledAxis node axis site.knownShape = .ok axis') :
    ∃ session' label label', (∀ result session'', site.Lowers result session''
        ↔ result = .one (.node (site.done.length + 1)) ∧ session'' = session')
      ∧ session'.scope.nodes.drop site.done.length
        = [⟨.apply (.align axis') [site.lhsRef, site.rhsRef], label⟩,
          ⟨.apply arithmetic.op [site.lhsRef, .node site.done.length], label'⟩] := by
  obtain ⟨placed, hplaced, haligns⟩ := apply_apply site.context site.ready
    node (.align axis') [site.lhsRef, site.rhsRef]
  obtain ⟨session', hlast, happlies⟩ := apply_apply site.context placed
    node arithmetic.op [site.lhsRef, .node site.ready.scope.nodes.length]
  have hlength : placed.scope.nodes.length = site.done.length + 1 := by
    rw [haligns.nodes_eq, List.length_append, site.nodes]
    rfl
  have hlower : site.lower? = some (.ok (.one (.node (site.done.length + 1))) session') := by
    rw [lower?_eq aligns, hsettled, ← hlength]
    simp only [bind_apply, hplaced, hlast]
    rfl
  -- The nodes before are as many as have values, and these two come behind.
  have hnodes := happlies.nodes_eq
  rw [haligns.nodes_eq, List.append_assoc, ← site.nodes] at hnodes
  refine ⟨session', _, _, fun result session'' => ?_, by rw [hnodes, site.nodes, List.drop_left]; rfl⟩
  unfold Lowers
  rw [hlower]
  constructor
  · intro h
    cases h
    exact ⟨rfl, rfl⟩
  · rintro ⟨rfl, rfl⟩
    rfl

/-- The axis of a node that is lowered could be settled. -/
theorem settled_of_lowers (aligns : Aligns node arithmetic axis) {result : Result}
    {session' : Session} (h : site.Lowers result session') :
    ∃ axis', settledAxis node axis site.knownShape = .ok axis' := by
  unfold Lowers at h
  rw [lower?_eq aligns] at h
  cases hsettled : settledAxis node axis site.knownShape with
  | ok axis' => exact ⟨axis', rfl⟩
  | error error =>
      rw [hsettled] at h
      cases h

/-- The axis of a node that is refused could not. -/
theorem not_settled_of_refuses (aligns : Aligns node arithmetic axis) {error : LowerError}
    (h : site.Refuses error) : ¬ ∃ axis', settledAxis node axis site.knownShape = .ok axis' := by
  rintro ⟨axis', hsettled⟩
  obtain ⟨session', _, _, hiff, -⟩ := exists_lowers aligns hsettled
  obtain ⟨_, hrefused⟩ := h
  have hlowered : site.lower? = some (.ok _ session') := (hiff _ _).2 ⟨rfl, rfl⟩
  cases hrefused.symm.trans hlowered

/-- What is returned once the axis is settled: the operands aligned and
then combined. -/
theorem evaluate_eq_ok {session' : Session} {label label' : Label} {after : List Value}
    (hnodes : session'.scope.nodes.drop site.done.length
      = [⟨.apply (.align axis') [site.lhsRef, site.rhsRef], label⟩,
        ⟨.apply arithmetic.op [site.lhsRef, .node site.done.length], label'⟩]) :
    site.evaluate session' = .ok after ↔ ∃ placed, lhs.align rhs axis' = .ok placed
      ∧ ∃ t, arithmetic.on lhs placed = .ok t ∧ after = site.done ++ [placed.asValue, t.asValue] := by
  have haligned : (Op.align axis').eval ([site.lhsRef, site.rhsRef].map (Ref.value site.inputs site.done))
      = (lhs.align rhs axis').map Tensor.asValue := by
    rw [List.map_cons, List.map_singleton, site.lhsValue, site.rhsValue, Op.eval_align]
  have hcombined (placed : Tensor) : arithmetic.op.eval ([site.lhsRef, .node site.done.length].map
      (Ref.value site.inputs (site.done ++ [placed.asValue])))
      = (arithmetic.on lhs placed).map Tensor.asValue := by
    rw [List.map_cons, List.map_singleton, Ref.value_append site.lhsValue, Ref.value_node_length,
      arithmetic.eval_op]
  unfold evaluate
  rw [hnodes, ModuleOf.evalFrom_apply_eq_ok rfl haligned]
  refine exists_congr fun placed => and_congr_right fun _ => ?_
  rw [ModuleOf.evalFrom_apply_eq_ok arithmetic.words_op (hcombined placed)]
  refine exists_congr fun t => and_congr_right fun _ => ?_
  show Except.ok _ = _ ↔ _
  rw [Except.ok.injEq, eq_comm, List.append_assoc]
  rfl

/-- What a run returns for a node that has been lowered, and that it fails
otherwise. -/
theorem returns_iff (aligns : Aligns node arithmetic axis) {result : Result} {session' : Session}
    (lowers : site.Lowers result session') :
    ∃ axis', settledAxis node axis site.knownShape = .ok axis'
      ∧ (∀ t, site.Returns result session' t
        ↔ ∃ placed, lhs.align rhs axis' = .ok placed ∧ arithmetic.on lhs placed = .ok t)
      ∧ ((∀ t, ¬ site.Returns result session' t) → ∃ error, site.evaluate session' = .error error) := by
  obtain ⟨axis', hsettled⟩ := settled_of_lowers aligns lowers
  obtain ⟨_, _, _, hiff, hnodes⟩ := exists_lowers aligns hsettled
  obtain ⟨rfl, rfl⟩ := (hiff _ _).1 lowers
  have hvalue (placed t : Tensor) : (Ref.node (site.done.length + 1)).value site.inputs
      (site.done ++ [placed.asValue, t.asValue]) = t.asValue := Ref.value_node rfl
  have hreturns (t : Tensor) : site.Returns (.one (.node (site.done.length + 1))) session' t
      ↔ ∃ placed, lhs.align rhs axis' = .ok placed ∧ arithmetic.on lhs placed = .ok t := by
    constructor
    · rintro ⟨after, out, hafter, hresult, hout⟩
      cases hresult
      obtain ⟨placed, hplaced, u, hu, rfl⟩ := (evaluate_eq_ok hnodes).1 hafter
      obtain rfl : u = t := Option.some.inj (Value.one.inj ((hvalue placed u).symm.trans hout))
      exact ⟨placed, hplaced, hu⟩
    · rintro ⟨placed, hplaced, ht⟩
      exact ⟨_, _, (evaluate_eq_ok hnodes).2 ⟨placed, hplaced, t, ht, rfl⟩, rfl, hvalue placed t⟩
  refine ⟨axis', hsettled, hreturns, fun hnone => ?_⟩
  cases hevaluate : site.evaluate session' with
  | error error => exact ⟨error, rfl⟩
  | ok after =>
      obtain ⟨placed, hplaced, t, ht, -⟩ := (evaluate_eq_ok hnodes).1 hevaluate
      exact absurd ((hreturns t).2 ⟨placed, hplaced, ht⟩) (hnone t)

theorem yields_iff (aligns : Aligns node arithmetic axis) :
    site.Yields t ↔ ∃ axis', settledAxis node axis site.knownShape = .ok axis'
      ∧ ∃ placed, lhs.align rhs axis' = .ok placed ∧ arithmetic.on lhs placed = .ok t := by
  constructor
  · rintro ⟨result, session', lowers, hreturns⟩
    obtain ⟨axis', hsettled, hiff, -⟩ := returns_iff aligns lowers
    exact ⟨axis', hsettled, (hiff t).1 hreturns⟩
  · rintro ⟨axis', hsettled, hplaced⟩
    obtain ⟨session', _, _, hlowers, -⟩ := exists_lowers aligns hsettled
    obtain ⟨axis'', hsettled', hiff, -⟩ := returns_iff aligns ((hlowers _ _).2 ⟨rfl, rfl⟩)
    cases hsettled.symm.trans hsettled'
    exact ⟨_, session', (hlowers _ _).2 ⟨rfl, rfl⟩, (hiff t).2 hplaced⟩

/-- Where nothing is known, everything is left to the run. -/
theorem yields_unknown (aligns : Aligns node arithmetic axis) (h : site.knownShape = none) :
    site.Yields t
      ↔ ∃ placed, lhs.align rhs axis = .ok placed ∧ arithmetic.on lhs placed = .ok t := by
  have hsettled : settledAxis node axis none = .ok axis := by cases axis <;> rfl
  rw [yields_iff aligns, h, hsettled]
  exact ⟨fun ⟨_, heq, h⟩ => Except.ok.inj heq ▸ h, fun h => ⟨_, rfl, h⟩⟩

/-- Where the rank is known, the axis has to be one of the dimensions
besides. -/
theorem yields_known (aligns : Aligns node arithmetic axis) {dims : KnownShape}
    (h : site.knownShape = some dims) (hrank : dims.length = lhs.rank) :
    site.Yields t
      ↔ (∀ given, axis = some given → -(lhs.rank : Int) ≤ given ∧ given < lhs.rank)
        ∧ ∃ placed, lhs.align rhs axis = .ok placed ∧ arithmetic.on lhs placed = .ok t := by
  have hsame {axis' : Option Int} {placed : Tensor}
      (hsettled : settledAxis node axis (some dims) = .ok axis') :
      lhs.align rhs axis' = .ok placed ↔ lhs.align rhs axis = .ok placed :=
    align_settled hsettled fun _ _ _ _ hdims => Option.some.inj hdims ▸ hrank
  have hrange := @exists_settledAxis node axis dims
  rw [hrank] at hrange
  rw [yields_iff aligns, h, ← hrange]
  constructor
  · rintro ⟨axis', hsettled, placed, hplaced, ht⟩
    exact ⟨⟨axis', hsettled⟩, placed, (hsame hsettled).1 hplaced, ht⟩
  · rintro ⟨⟨axis', hsettled⟩, placed, hplaced, ht⟩
    exact ⟨axis', hsettled, placed, (hsame hsettled).2 hplaced, ht⟩

end Site

-- ================================================================== results

/-- **The aligned elementwise operation.** A sum or product of an early
version aligns its operands at a given axis. If the right operand has room
in the left one from there on, and each of its dimensions fits, then a run
returns a tensor of the left operand's shape. Its element at an index tuple
is the sum or product of the left one's and of the right one's at the
positions in the right one's dimensions. Only where there is no sum or
product of the types at all does the run fail. If there is no room, every
run fails. An axis from the end means the same throughout if a rank that is
known when the node is lowered is the right one. -/
theorem aligned_elementwise (site : Site node lhs rhs) (aligns : Aligns node arithmetic axis)
    (hknown : ∀ given dims, axis = some given → given < 0 → site.knownShape = some dims →
      dims.length = lhs.rank)
    {result : Result} {session' : Session} (lowers : site.Lowers result session') :
    (∀ start : Nat, Tensor.alignStart lhs.rank rhs.rank axis = start → start + rhs.rank ≤ lhs.rank →
      Shape.FitsAt start lhs.shape rhs.shape →
      (∀ dtype, arithmetic.type? lhs.dtype rhs.dtype = some dtype →
        ∃ t, site.Returns result session' t ∧ t.dtype = dtype ∧ t.shape = lhs.shape
          ∧ ∀ is, lhs.shape.InBounds is → t.get is = arithmetic.element dtype lhs rhs (lhs.get is)
              (rhs.get (Shape.readFrom start rhs.shape is)))
      ∧ (arithmetic.type? lhs.dtype rhs.dtype = none →
        ∃ error, site.evaluate session' = .error error))
    ∧ (Tensor.alignStart lhs.rank rhs.rank axis < 0
        ∨ lhs.rank < Tensor.alignStart lhs.rank rhs.rank axis + rhs.rank →
      ∃ error, site.evaluate session' = .error error) := by
  obtain ⟨axis', hsettled, hreturns, hfails⟩ := Site.returns_iff aligns lowers
  have hsame := @alignStart_settled _ _ _ _ lhs rhs hsettled hknown
  refine ⟨fun start hstart hroom hfits => ?_, fun hout => hfails fun t hreturn => ?_⟩
  · have hrank : lhs.rank = start + rhs.rank + (lhs.rank - start - rhs.rank) := by omega
    have hplaced := Tensor.align_eq_ok.2 ⟨start, _, hsame.trans hstart, hrank, rfl⟩
    have hcombined (t : Tensor) := (hreturns t).trans
      ((Except.bind_eq_ok.symm.trans (by rw [hplaced]; rfl)).trans (Arithmetic.on_around hfits hrank))
    refine ⟨fun dtype hdtype => ⟨_, (hcombined _).2 ⟨dtype, hdtype, rfl⟩, rfl, rfl, fun is his => ?_⟩,
      fun hnone => hfails fun t hreturn => ?_⟩
    · exact Tensor.get_ofFn his
    · obtain ⟨dtype, hdtype, -⟩ := (hcombined t).1 hreturn
      cases hnone.symm.trans hdtype
  · obtain ⟨placed, hplaced, -⟩ := (hreturns t).1 hreturn
    obtain ⟨before, after, hbefore, hrank, -⟩ := Tensor.align_eq_ok.1 hplaced
    rw [← hsame, hbefore] at hout
    omega

/-- A sum at a given axis, and its operands. -/
def alignedNode (axis : Int) : NodeOf Importer where
  op := "Add"
  inputs := ["x", "y"]
  outputs := ["z"]
  attributes := [("axis", .int axis), ("broadcast", .int 1)]

/-- The sum stands first, and so much is known of the shape of its left
operand. -/
def alignedSite (axis : Int) (known : Option KnownShape) (lhs rhs : Tensor) :
    Site (alignedNode axis) lhs rhs where
  context := ⟨6, []⟩
  session := {
    scope := {
      bindings := .ofList [("x", .input 0), ("y", .input 1)]
      declarations := .ofList [("x", ⟨known, none⟩)] } }
  first := by decide
  last := by decide
  lhsRef := .input 0
  rhsRef := .input 1
  middle := _
  ready := _
  readsLhs := rfl
  readsRhs := rfl
  module := { inputs := [], nodes := [], results := .tuple [] }
  hidden := fun _ => none
  inputs := [some lhs, some rhs]
  done := []
  nodes := rfl
  lhsValue := rfl
  rhsValue := rfl

theorem aligns_alignedNode (axis : Int) : Aligns (alignedNode axis) .sum (some axis) where
  op := rfl
  attributes := ⟨_, 1, .int 1, rfl, rfl, rfl, by decide, rfl⟩

/-- A column is added to each column of a matrix. A tensor of three
dimensions has no room in it. -/
theorem aligned_elementwise_columns :
    let lhs : Tensor := ⟨.int64, [2, 3], #[1, 2, 3, 4, 5, 6], rfl⟩
    let column : Tensor := .vector .int64 [10, 20]
    let deep : Tensor := ⟨.int64, [1, 1, 1], #[10], rfl⟩
    let known : KnownShape := [some 2, some 3]
    (∃ result session' t, (alignedSite (-2) (some known) lhs column).Lowers result session'
        ∧ (alignedSite (-2) (some known) lhs column).Returns result session' t
        ∧ t.shape = [2, 3] ∧ t.get [0, 2] = 13 ∧ t.get [1, 2] = 26)
      ∧ ∃ result session' error, (alignedSite (-2) (some known) lhs deep).Lowers result session'
        ∧ (alignedSite (-2) (some known) lhs deep).evaluate session' = .error error := by
  intro lhs column deep known
  have hlowers (rhs : Tensor) : ∃ result session',
      (alignedSite (-2) (some known) lhs rhs).Lowers result session' := by
    have hsettled : settledAxis (alignedNode (-2)) (some (-2))
        (alignedSite (-2) (some known) lhs rhs).knownShape = .ok (some 0) := rfl
    obtain ⟨session', _, _, hiff, -⟩ := Site.exists_lowers (aligns_alignedNode (-2)) hsettled
    exact ⟨_, session', (hiff _ _).2 ⟨rfl, rfl⟩⟩
  have hrank (rhs : Tensor) (dims : KnownShape)
      (h : (alignedSite (-2) (some known) lhs rhs).knownShape = some dims) : dims.length = lhs.rank := by
    obtain rfl : known = dims := Option.some.inj h
    rfl
  constructor
  · obtain ⟨result, session', lowers⟩ := hlowers column
    have hfits : Shape.FitsAt 0 lhs.shape column.shape := by
      intro j d hj
      match j, hj with
      | 0, hj => exact .inr hj
    obtain ⟨t, hreturns, -, hshape, hget⟩ := ((aligned_elementwise (alignedSite (-2) (some known) lhs column)
      (aligns_alignedNode (-2)) (fun _ dims _ _ h => hrank column dims h) lowers).1 0 rfl (by decide)
      hfits).1 .int64 rfl
    refine ⟨result, session', t, lowers, hreturns, hshape, ?_, ?_⟩
    · rw [hget [0, 2] (by decide)]
      decide +kernel
    · rw [hget [1, 2] (by decide)]
      decide +kernel
  · obtain ⟨result, session', lowers⟩ := hlowers deep
    obtain ⟨error, herror⟩ := (aligned_elementwise (alignedSite (-2) (some known) lhs deep)
      (aligns_alignedNode (-2)) (fun _ dims _ _ h => hrank deep dims h) lowers).2 (.inr (by decide))
    exact ⟨result, session', error, lowers, herror⟩

/-- **Knowing the rank.** A sum or product of an early version aligns its
operands at a given axis. It is lowered in two places, once where the rank
of its left operand is known, and once where nothing is known of it. Runs
return the same from both places, unless the axis is just behind the last
dimension of the left operand and the right one has no dimensions. Then
the node is refused where the rank is known. So a node that is refused
there cannot be run on any other right operand. -/
theorem known_rank_agrees (site unknown : Site node lhs rhs) (aligns : Aligns node arithmetic axis)
    {dims : KnownShape} (hknown : site.knownShape = some dims) (hrank : dims.length = lhs.rank)
    (hunknown : unknown.knownShape = none) :
    (∀ t, site.Yields t ↔ unknown.Yields t ∧ ¬ (axis = some (lhs.rank : Int) ∧ rhs.rank = 0))
    ∧ ∀ error, site.Refuses error → ∀ {rhs' : Tensor} (other : Site node lhs rhs') (t : Tensor),
      other.knownShape = none → other.Yields t → axis = some (lhs.rank : Int) ∧ rhs'.rank = 0 := by
  constructor
  · intro t
    rw [Site.yields_known aligns hknown hrank, Site.yields_unknown aligns hunknown]
    constructor
    · rintro ⟨hrange, hruns⟩
      refine ⟨hruns, fun ⟨hlast, _⟩ => ?_⟩
      have := hrange _ hlast
      omega
    · rintro ⟨⟨placed, hplaced, ht⟩, hnot⟩
      refine ⟨?_, placed, hplaced, ht⟩
      rintro given rfl
      refine (inRange_of_align hplaced).resolve_right fun ⟨hlast, hscalar⟩ => hnot ⟨?_, hscalar⟩
      rw [hlast]
  · intro error hrefuses rhs' other t hother hyields
    obtain ⟨placed, hplaced, -⟩ := (Site.yields_unknown aligns hother).1 hyields
    have hout := Site.not_settled_of_refuses aligns hrefuses
    rw [hknown, exists_settledAxis] at hout
    push Not at hout
    obtain ⟨given, rfl, hout⟩ := hout
    rw [hrank] at hout
    rcases inRange_of_align hplaced with hrange | ⟨rfl, hscalar⟩
    · omega
    · exact ⟨rfl, hscalar⟩

/-- Counted back to the first dimension of a matrix, the axis is settled with
and without knowing that it is a matrix. -/
theorem known_rank_agrees_columns :
    let lhs : Tensor := ⟨.int64, [2, 3], #[1, 2, 3, 4, 5, 6], rfl⟩
    let rhs : Tensor := .vector .int64 [10, 20]
    let sum : Tensor := ⟨.int64, [2, 3], #[11, 12, 13, 24, 25, 26], rfl⟩
    (alignedSite (-2) none lhs rhs).Yields sum
      ∧ (alignedSite (-2) (some [some 2, none]) lhs rhs).Yields sum := by
  intro lhs rhs sum
  have hyields : (alignedSite (-2) none lhs rhs).Yields sum := by
    refine (Site.yields_iff (aligns_alignedNode (-2))).2 ⟨some (-2), rfl, rhs.around 0 1, ?_, ?_⟩
    · exact Tensor.align_eq_ok.2 ⟨0, 1, rfl, rfl, rfl⟩
    · decide +kernel
  have hknown : (alignedSite (-2) (some [some 2, none]) lhs rhs).knownShape = some [some 2, none] := rfl
  refine ⟨hyields, ((known_rank_agrees (alignedSite (-2) (some [some 2, none]) lhs rhs)
    (alignedSite (-2) none lhs rhs) (aligns_alignedNode (-2)) hknown rfl rfl).1 sum).2 ⟨hyields, ?_⟩⟩
  rintro ⟨haxis, -⟩
  exact absurd haxis (by decide)

end Handler

-- =============================================================== whole graphs

/-- A sum at an axis, if there is one, of a left operand of which so much is
declared and a right one of which nothing is. -/
def alignedGraph (axis : Option Int) (dims : Option (List Dim)) : Graph :=
  ⟨{ nodes := [{ op := "Add", inputs := ["x", "y"], outputs := ["z"],
                 attributes := ("broadcast", .int 1) :: axis.toList.map fun axis => ("axis", .int axis) }]
     inputs := [{ name := "x", shape := dims }, { name := "y" }]
     outputs := [{ name := "z" }] }⟩

/-- Operands fit, and the run fails all the same. There are no sums of wide
integers without a sign. And an axis from the end is counted back from the
declared rank, though the operand has another one. -/
theorem eval_alignedGraph_error :
    (∃ m, ((alignedGraph none none).lower Handlers.standard 6 false).1 = .ok m
      ∧ m.eval [some (.vector .uint32 [1]), some (.vector .uint32 [2])] = .error .noArithmetic)
    ∧ ∃ m, ((alignedGraph (some (-2)) (some [.value 1, .value 2, .value 2])).lower
        Handlers.standard 6 false).1 = .ok m
      ∧ m.eval [some (.ofFn .int64 [2, 2] fun _ => 1), some (.ofFn .int64 [2, 2] fun _ => 1)]
        = .error (.misaligned 2 2 1) := by
  constructor
  · obtain ⟨m, hm, hrun⟩ : ∃ m, ((alignedGraph none none).lower Handlers.standard 6 false).1 = .ok m
        ∧ decide (m.eval [some (.vector .uint32 [1]), some (.vector .uint32 [2])]
          = .error .noArithmetic) = true := Except.exists_of_test (by decide +kernel)
    exact ⟨m, hm, of_decide_eq_true hrun⟩
  · obtain ⟨m, hm, hrun⟩ : ∃ m, ((alignedGraph (some (-2)) (some [.value 1, .value 2, .value 2])).lower
          Handlers.standard 6 false).1 = .ok m
        ∧ decide (m.eval [some (.ofFn .int64 [2, 2] fun _ => 1), some (.ofFn .int64 [2, 2] fun _ => 1)]
          = .error (.misaligned 2 2 1)) = true := Except.exists_of_test (by decide +kernel)
    exact ⟨m, hm, of_decide_eq_true hrun⟩

/-- A right operand without dimensions is added behind the last dimension of
the left one, unless the node is refused because it is known where that
is. -/
theorem lower_alignedGraph_last :
    ((alignedGraph (some 2) (some [.value 2, .value 3])).lower Handlers.standard 6 false).1
        = .error (.invalidNode "Add node 'z'" (.axis 2 2))
      ∧ ∃ m, ((alignedGraph (some 2) none).lower Handlers.standard 6 false).1 = .ok m
        ∧ m.eval [some ⟨.int64, [2, 3], #[1, 2, 3, 4, 5, 6], rfl⟩, some (.scalar .int64 10)]
          = .ok (.single (some ⟨.int64, [2, 3], #[11, 12, 13, 14, 15, 16], rfl⟩)) := by
  refine ⟨Except.eq_error_of_map (f := fun _ => ()) (by decide +kernel), ?_⟩
  obtain ⟨m, hm, hrun⟩ : ∃ m, ((alignedGraph (some 2) none).lower Handlers.standard 6 false).1 = .ok m
      ∧ decide (m.eval [some ⟨.int64, [2, 3], #[1, 2, 3, 4, 5, 6], rfl⟩, some (.scalar .int64 10)]
        = .ok (.single (some ⟨.int64, [2, 3], #[11, 12, 13, 14, 15, 16], rfl⟩))) = true :=
    Except.exists_of_test (by decide +kernel)
  exact ⟨m, hm, of_decide_eq_true hrun⟩

end OnnxLowering
