/-
A direct evaluator of graphs without graphs inside: it takes the nodes in
order and knows nothing of a name but the tensor that it stands for. Every
node has one output, for the tensor that its operation makes of others.

The evaluator does what a graph means (`realises_evaluate`), wherever the
meaning says anything; and from version 7 of the operator set on it always
does (`says_run`). Up to version 6 the meaning speaks of known ranks:
where an axis counts from the end of an operand whose rank is not the
known one, it says nothing. All ranks are the known ones if tensors have
those that are declared for their names.
-/
import OnnxLowering.Proofs.Graph.Reference
import OnnxLowering.Proofs.Graph.Scoping

namespace OnnxLowering

-- ============================================================== evaluator

namespace Direct

/-- The tensors that names stand for. -/
abbrev Values := String → Option Tensor

/-- An evaluation fails or it does not; which error it is does not
matter. -/
abbrev Attempt := Except Unit

def attempt {ε α : Type} (x : Except ε α) : Attempt α := x.mapError fun _ => ()

section

variable {G : Type} (values : Values) (node : NodeOf G)

/-- The tensor that a name stands for. -/
def read (name : String) : Attempt Tensor :=
  match values name with
  | some t => .ok t
  | none => .error ()

/-- What an input of a node stands for. -/
def operand (index : Nat) : Attempt Tensor :=
  match node.inputs[index]? with
  | some name => read values name
  | none => .error ()

/-- A function of as many tensors as a node has inputs. -/
abbrev Function := List Tensor → Except RunError Tensor

/-- A function of the first inputs. -/
def function (count : Nat) (f : Function) : Attempt Tensor := do
  attempt (f (← (List.range count).mapM (operand values node)))

/-- Whether the second operand is put at dimensions of the first. -/
def broadcast (attributes : Attributes) : Attempt Int :=
  match attributes.find? "broadcast" with
  | some value => attempt value.toInt
  | none => .ok 0

/-- The axis at which it is put. -/
def axis (attributes : Attributes) : Attempt (Option Int) :=
  match attributes.find? "axis" with
  | some value => some <$> attempt value.toInt
  | none => .ok none

/-- A function of two tensors of which the second is put at dimensions of
the first, if the node says so: at those from an axis on, or else at the
last ones. -/
def legacy (f : Function) : Attempt Tensor := do
  let attributes ← attempt node.values
  let lhs ← operand values node 0
  let rhs ← operand values node 1
  if (← broadcast attributes) = 0 then attempt (f [lhs, rhs])
  else
    let placed ← attempt (Tensor.align lhs rhs (← axis attributes))
    attempt (f [lhs, placed])

def sum : Function
  | [a, b] => a.add b
  | _ => .error .argumentCount

def product : Function
  | [a, b] => a.multiply b
  | _ => .error .argumentCount

def root : Function
  | [t] => t.sqrt
  | _ => .error .argumentCount

def scattered : Function
  | [data, indices, updates] => Tensor.scatter data indices updates
  | _ => .error .argumentCount

/-- The tensor that a node makes. -/
def tensorOf (opset : Int) : Attempt Tensor :=
  match node.op with
  | "Constant" => do attempt (Handler.constantTensor (← attempt node.values))
  | "Identity" => operand values node 0
  | "Add" => if 7 ≤ opset then function values node 2 sum else legacy values node sum
  | "Mul" => if 7 ≤ opset then function values node 2 product else legacy values node product
  | "Sqrt" => function values node 1 root
  | "ScatterND" => function values node 3 scattered
  | _ => .error ()

/-- A node gives its one output a tensor. -/
def step (opset : Int) : Attempt Values := do
  let t ← tensorOf values node opset
  return fun name => if node.outputs.contains name then some t else values name

end

section

variable {G : Type} (opset : Int) (graph : GraphOf G) (feeds : List Tensor)

/-- What names stand for before the first node. -/
def start : Attempt Values := do
  unless feeds.length = graph.feedNames.length do throw ()
  let initial ← attempt graph.initial
  return (NameMap.ofList (initial ++ graph.feedNames.zip feeds)).find?

/-- What names stand for after certain nodes. -/
def after (nodes : List (NodeOf G)) : Attempt Values := do
  nodes.foldlM (fun values node => step values node opset) (← start graph feeds)

/-- The tensors of the outputs of a graph that is fed certain tensors. -/
def evaluate : Attempt (List Tensor) := do
  let values ← after opset graph feeds graph.nodes
  graph.outputs.mapM fun info => read values info.name

/-- Tensors have the ranks that are declared for their names. -/
def Values.Ranked (declarations : NameMap KnownType) (values : Values) : Prop :=
  ∀ name t shape, values name = some t →
    (declarations.find? name).bind KnownType.shape = some shape → t.rank = shape.length

/-- However many nodes are evaluated, tensors have the declared ranks. -/
def Ranked : Prop :=
  ∀ nodes values, nodes <+: graph.nodes → after opset graph feeds nodes = .ok values →
    values.Ranked graph.declarations

end

end Direct

/-- A node of an operation on tensors, with one output that has a name. -/
structure NodeOf.Plain {G : Type} (node : NodeOf G) : Prop where
  op : node.op ∈ ["Constant", "Identity", "Add", "Mul", "Sqrt", "ScatterND"]
  output : ∃ name, node.outputs = [name] ∧ name.isEmpty = false
  flat : node.inner = []

-- ================================================================ meaning

open Direct

/-- Names stand for the same tensors. -/
def Erases (values : Values) (env : Env) : Prop := ∀ name, values name = (env name).map Entry.tensor

/-- A name stands for something else from then on. -/
theorem Erases.insert {values : Values} {env : Env} (h : Erases values env) (name : String)
    (e : Entry) :
    Erases (fun other => if other = name then some e.tensor else values other) (env.insert name e) := by
  intro other
  unfold Env.insert
  by_cases hname : other = name
  · simp only [if_pos hname, Option.map_some]
  · simp only [if_neg hname, h other]

theorem realises_attempt {ε α : Type} (x : Except ε α) :
    Realises (fun a b => a = b) (attempt x) (.ofExcept x) := by
  cases x with
  | ok a => exact .ok rfl
  | error e => exact .error

section

variable {G : Type} {values : Values} {env : Env} {node : NodeOf G} {f : G → Nested}
  {declarations : NameMap KnownType} {opset : Int}

theorem realises_read (h : Erases values env) (name : String) :
    Realises (fun t e => t = e.tensor) (Direct.read values name) (env.read name) := by
  unfold Direct.read Env.read
  rw [h name]
  cases env name with
  | none => exact .error
  | some e => exact .ok rfl

theorem realises_operand (h : Erases values env) (index : Nat) :
    Realises (fun t e => t = e.tensor) (Direct.operand values node index)
      (OnnxLowering.operand env (node.map f) index) := by
  unfold Direct.operand OnnxLowering.operand
  rw [show (node.map f).inputs = node.inputs from rfl]
  cases node.inputs[index]? with
  | none => exact .error
  | some name => exact realises_read h name

/-- What an input of a node stands for has a name. -/
theorem env_of_operand {node : NodeOf Nested} {index : Nat} {e : Entry}
    (h : OnnxLowering.operand env node index = .ok e) :
    env (node.inputs.getD index "") = some e := by
  unfold OnnxLowering.operand Env.read at h
  rw [List.getD_eq_getElem?_getD]
  split at h
  · rename_i name hname
    rw [hname]
    split at h
    · cases h
      assumption
    · cases h
  · cases h

/-- An operation is a function of tensors. -/
def Computes (op : Op) (g : Function) (count : Nat) : Prop :=
  ∀ ts : List Tensor, ts.length = count → op.eval (ts.map Value.ofTensor) = Value.ofTensor <$> g ts

theorem computes_sum : Computes .add sum 2
  | [_, _], rfl => rfl

theorem computes_product : Computes .multiply product 2
  | [_, _], rfl => rfl

/-- The second operand at dimensions of the first. -/
def aligning (axis : Option Int) : Function
  | [lhs, rhs] => Tensor.align lhs rhs axis
  | _ => .error .argumentCount

theorem computes_align (axis : Option Int) : Computes (.align axis) (aligning axis) 2
  | [_, _], rfl => rfl

theorem computes_root : Computes .sqrt root 1
  | [_], rfl => rfl

theorem computes_scattered : Computes .scatter scattered 3
  | [_, _, _], rfl => rfl

theorem Computes.realises {op : Op} {g : Function} {ts : List Tensor} (h : Computes op g ts.length) :
    Realises (fun t u => t = u) (attempt (g ts)) (computed op ts) := by
  unfold computed
  rw [h ts rfl]
  cases g ts with
  | ok t => exact .ok rfl
  | error e => exact .error

/-- Tensors have the ranks that are known of the values that they are. -/
def Env.Ranked (env : Env) : Prop :=
  ∀ name e, env name = some e → ∀ shape ∈ e.shapes, e.tensor.rank = shape.length

/-- What is known of a value is the shape of its tensor, or what is declared
of its name, or what is known of another value that is the same tensor. -/
inductive Entry.Labelled (declarations : NameMap KnownType) (env : Env) (node : NodeOf Nested)
    (e : Entry) : Prop
  | constant (h : e.shapes = [e.tensor.shape.known])
  | declared (h : e = produced declarations node 0 e.tensor)
  | same (name : String) (other : Entry) (h : env name = some other)
      (tensor : e.tensor = other.tensor) (shapes : e.shapes = other.shapes)

/-- The one value of a node is a certain tensor. -/
def Gives (declarations : NameMap KnownType) (env : Env) (node : NodeOf Nested) (t : Tensor)
    (entries : List (String × Entry)) : Prop :=
  ∃ e, entries = named node e ∧ t = e.tensor ∧ e.Labelled declarations env node

theorem realises_function {op : Op} {g : Function} {count : Nat} (hop : Computes op g count)
    (h : Erases values env) :
    Realises (Gives declarations env (node.map f)) (function values node count g)
      (applied declarations env (node.map f) op count) := by
  have hoperands : Realises (List.Forall₂ fun t e => t = Entry.tensor e)
      ((List.range count).mapM (Direct.operand values node))
      ((List.range count).mapM (OnnxLowering.operand env (node.map f))) :=
    Realises.mapM (List.forall₂_same.2 fun _ _ => rfl) fun i _ hi => hi ▸ realises_operand h i
  refine hoperands.bind fun ts es hes hts => ?_
  have hcount : ts.length = count := by
    rw [hts.length_eq, ← (Outcome.mapM_eq_ok.1 hes).length_eq, List.length_range]
  have htensors : ts = es.map Entry.tensor := eq_map_iff_forall₂.2 hts
  subst hcount
  rw [← htensors]
  exact hop.realises.map_right fun t u htu => ⟨_, rfl, htu, .declared rfl⟩

theorem realises_broadcast (attributes : Attributes) :
    Realises (fun a b => a = b) (broadcast attributes) (intOr attributes "broadcast" 0) := by
  unfold broadcast intOr
  cases attributes.find? "broadcast" with
  | none => exact .ok rfl
  | some value => exact realises_attempt _

theorem realises_axis (lhs : Entry) (attributes : Attributes) :
    Realises (fun a b => a = b) (axis attributes)
      (alignment declarations (node.map f) lhs attributes) := by
  unfold axis alignment
  cases attributes.find? "axis" with
  | none => exact .ok rfl
  | some value =>
      show Realises _ (attempt value.toInt >>= fun axis => .ok (some axis)) _
      refine (realises_attempt _).bind fun given _ _ hsame => Realises.require_bind fun _ => ?_
      exact .ok (congrArg some hsame)

theorem realises_legacy {op : Op} {g : Function} (hop : Computes op g 2) (h : Erases values env) :
    Realises (Gives declarations env (node.map f)) (legacy values node g) (do
      aligned declarations env (node.map f) op (← .ofExcept (node.map f).values)) := by
  rw [NodeOf.values_map]
  refine (realises_attempt _).bind fun attributes _ _ hsame => ?_
  subst hsame
  refine (realises_operand h 0).bind fun lhs l _ hl => (realises_operand h 1).bind fun rhs r _ hr => ?_
  subst hl hr
  refine (realises_broadcast attributes).bind fun broadcast _ _ hsame => ?_
  subst hsame
  by_cases hzero : broadcast = 0
  · rw [if_pos hzero, if_pos hzero]
    exact (Computes.realises hop).map_right fun t u htu => ⟨_, rfl, htu, .declared rfl⟩
  · rw [if_neg hzero, if_neg hzero]
    refine (realises_axis l attributes).bind fun axis _ _ hsame => ?_
    subst hsame
    refine (@Computes.realises _ _ [l.tensor, r.tensor] (computes_align axis)).bind
      fun placed _ _ hsame => ?_
    subst hsame
    exact (Computes.realises hop).map_right fun t u htu => ⟨_, rfl, htu, .declared rfl⟩

/-- The tensor that a node makes is what it means. -/
theorem realises_tensorOf (plain : node.Plain) (h : Erases values env) :
    Realises (Gives declarations env (node.map f)) (tensorOf values node opset)
      (results opset declarations env (node.map f)) := by
  unfold tensorOf results
  rw [show (node.map f).op = node.op from rfl]
  have hop := plain.op
  simp only [List.mem_cons, List.not_mem_nil, or_false] at hop
  rcases hop with hop | hop | hop | hop | hop | hop <;> rw [hop]
  · show Realises _ (attempt node.values >>= fun values => attempt (Handler.constantTensor values))
      (.ofExcept (node.map f).values >>= fun values =>
        .ofExcept (Handler.constantTensor values) >>= fun t =>
          .ok (named (node.map f) (.ofConstant t)))
    rw [NodeOf.values_map]
    refine (realises_attempt _).bind fun attributes _ _ hsame => ?_
    subst hsame
    exact (realises_attempt _).map_right fun t u htu =>
      ⟨.ofConstant u, rfl, htu, .constant rfl⟩
  · refine (realises_operand h 0).specified.map_right fun t e hte => ?_
    exact ⟨{ e with constant := false }, rfl, hte.1, .same _ e (env_of_operand hte.2) rfl rfl⟩
  · show Realises _ (if 7 ≤ opset then function values node 2 sum else legacy values node sum)
      (if 7 ≤ opset then applied declarations env (node.map f) .add 2
        else .ofExcept (node.map f).values >>= aligned declarations env (node.map f) .add)
    split
    · exact realises_function computes_sum h
    · exact realises_legacy computes_sum h
  · show Realises _ (if 7 ≤ opset then function values node 2 product else legacy values node product)
      (if 7 ≤ opset then applied declarations env (node.map f) .multiply 2
        else .ofExcept (node.map f).values >>= aligned declarations env (node.map f) .multiply)
    split
    · exact realises_function computes_product h
    · exact realises_legacy computes_product h
  · exact realises_function computes_root h
  · exact realises_function computes_scattered h

/-- A node of an operation gives its one output a value. -/
theorem NodeOf.Plain.insertAll_named (plain : node.Plain) (e : Entry) :
    env.insertAll (named (node.map f) e) = env.insert (node.outputs.headD "") e := by
  obtain ⟨name, houtputs, hname⟩ := plain.output
  unfold named NodeOf.namedOutputs
  rw [show (node.map f).outputs = [name] from houtputs, houtputs,
    List.filter_cons_of_pos (by rw [hname]; rfl)]
  show (if name.isEmpty then env else _) = _
  rw [hname]
  rfl

/-- What is known of a value is true of its tensor if the declarations
are. -/
theorem Entry.Labelled.ranked {e : Entry} (h : e.Labelled declarations env (node.map f))
    (plain : node.Plain) (hranked : env.Ranked)
    (declared : ∀ shape, (declarations.find? (node.outputs.headD "")).bind KnownType.shape
      = some shape → e.tensor.rank = shape.length) :
    ∀ shape ∈ e.shapes, e.tensor.rank = shape.length := by
  intro shape hshape
  cases h with
  | constant h =>
      rw [h, List.mem_singleton] at hshape
      rw [hshape]
      exact (List.length_map _).symm
  | declared h =>
      obtain ⟨name, houtputs, hname⟩ := plain.output
      have hshapes : e.shapes
          = ((declarations.find? (node.outputs.headD "")).bind KnownType.shape).toList := by
        have hnamed : (node.map f).namedOutputs = [name] := by
          unfold NodeOf.namedOutputs
          rw [show (node.map f).outputs = [name] from houtputs,
            List.filter_cons_of_pos (by rw [hname]; rfl), List.filter_nil]
        rw [h, houtputs]
        simp only [produced, hnamed, List.getD_cons_zero, hname, List.headD_cons, Bool.false_eq_true,
          if_false]
      rw [hshapes, Option.mem_toList] at hshape
      exact declared shape hshape
  | same name other hother htensor hshapes =>
      rw [htensor]
      exact hranked name other hother shape (hshapes ▸ hshape)

/-- After a node names still stand for the same tensors, and what is known
of them is still true if the declarations are. -/
theorem realises_step (plain : node.Plain) (h : Erases values env) :
    Realises (fun values' env' => Erases values' env'
        ∧ (env.Ranked → values'.Ranked declarations → env'.Ranked))
      (step values node opset) (evalNode opset declarations env (node.map f)) := by
  unfold step evalNode
  refine (realises_tensorOf plain h).bind fun t entries _ hgives => .ok ?_
  obtain ⟨e, rfl, rfl, hlabelled⟩ := hgives
  have hcontains (other : String) :
      node.outputs.contains other = true ↔ other = node.outputs.headD "" := by
    obtain ⟨name, houtputs, -⟩ := plain.output
    rw [houtputs, List.contains_iff_mem, List.mem_singleton, List.headD_cons]
  rw [plain.insertAll_named]
  simp only [hcontains]
  refine ⟨h.insert _ e, fun hranked hvalues name other hother => ?_⟩
  unfold Env.insert at hother
  split at hother
  · cases hother
    exact hlabelled.ranked plain hranked fun shape => hvalues _ _ shape (if_pos rfl)
  · exact hranked name other hother

end

section

variable {G : Type} {graph : GraphOf G} {f : G → Nested} {opset : Int}

/-- Before the first node names stand for what the graph has and what it
is fed. -/
theorem erases_entries (initial : List (String × Tensor)) (feeds : List Tensor) :
    Erases (NameMap.ofList (initial ++ graph.feedNames.zip feeds)).find?
      (graph.entries (fun _ => none) initial feeds) := by
  have hfeeds : ∀ (pairs initial : List (String × Tensor)) (env : Env),
      Erases (NameMap.ofList initial).find? env →
      Erases (NameMap.ofList (initial ++ pairs)).find? (pairs.foldl (fun env entry =>
        env.insert entry.1
          ⟨entry.2, false, ((graph.declarations.find? entry.1).bind KnownType.shape).toList⟩) env) := by
    intro pairs
    induction pairs with
    | nil =>
        intro initial env h
        rw [List.append_nil]
        exact h
    | cons pair pairs ih =>
        intro initial env h
        obtain ⟨name, t⟩ := pair
        have hinsert : (NameMap.ofList (initial ++ [(name, t)])).find?
            = fun other => if other = name then some t else (NameMap.ofList initial).find? other := by
          funext other
          rw [← NameMap.find?_insert]
          unfold NameMap.ofList NameMap.insert
          rw [List.reverse_append]
          rfl
        rw [List.append_cons]
        refine ih _ _ ?_
        rw [hinsert]
        exact h.insert name ⟨t, false, _⟩
  refine hfeeds _ initial _ fun name => ?_
  cases (NameMap.ofList initial).find? name <;> rfl

/-- The nodes of a graph are evaluated as they are meant. -/
theorem realises_nodes {declarations : NameMap KnownType} {nodes : List (NodeOf G)} {values : Values}
    {env : Env} (plain : ∀ node ∈ nodes, node.Plain) (h : Erases values env) :
    Realises Erases (nodes.foldlM (fun values node => step values node opset) values)
      ((nodes.map (NodeOf.map f)).foldlM (evalNode opset declarations) env) := by
  rw [List.foldlM_map]
  have hpairs : List.Forall₂ (fun node node' => node = node' ∧ node.Plain) nodes nodes :=
    List.forall₂_same.2 fun node hnode => ⟨rfl, plain node hnode⟩
  refine Realises.foldlM hpairs (fun values env node _ herases hnode => ?_) h
  obtain ⟨rfl, hplain⟩ := hnode
  exact (realises_step hplain herases).mono fun _ _ hstep => hstep.1

/-- Before the first node a graph has what it is fed, and its own
tensors. -/
theorem start_eq_ok {feeds : List Tensor} {values : Values} :
    start graph feeds = .ok values ↔ feeds.length = graph.feedNames.length
      ∧ ∃ initial, graph.initial = .ok initial
        ∧ (NameMap.ofList (initial ++ graph.feedNames.zip feeds)).find? = values := by
  unfold start attempt
  by_cases hlength : feeds.length = graph.feedNames.length
  · rw [if_pos hlength]
    cases graph.initial with
    | ok initial =>
        exact ⟨fun h => ⟨hlength, initial, rfl, Except.ok.inj h⟩, fun ⟨_, _, hinitial, h⟩ => by
          cases hinitial
          exact congrArg Except.ok h⟩
    | error error => exact ⟨fun h => (nomatch h), fun ⟨_, _, hinitial, _⟩ => (nomatch hinitial)⟩
  · rw [if_neg hlength]
    exact ⟨fun h => (nomatch h), fun h => absurd h.1 hlength⟩

/-- The evaluator does what a graph means. -/
theorem realises_evaluate (plain : ∀ node ∈ graph.nodes, node.Plain) (feeds : List Tensor) :
    Realises (List.Forall₂ fun t e => t = Entry.tensor e) (evaluate opset graph feeds)
      (((graph.map f).meaning opset).run (fun _ => none) feeds) := by
  show Realises _ _ (do
    Outcome.demand (feeds.length = graph.feedNames.length)
    let initial ← .ofExcept graph.initial
    let env ← (graph.nodes.map (NodeOf.map f)).foldlM (evalNode opset graph.declarations)
      (graph.entries (fun _ => none) initial feeds)
    graph.outputs.mapM fun info => env.read info.name)
  unfold evaluate after start
  by_cases hlength : feeds.length = graph.feedNames.length
  · rw [Outcome.demand, if_pos hlength, if_pos hlength]
    simp only [bind_assoc, pure_bind]
    refine (realises_attempt graph.initial).bind fun initial _ _ hsame => ?_
    subst hsame
    refine (realises_nodes plain (erases_entries initial feeds)).bind fun values env _ herases => ?_
    exact Realises.mapM (List.forall₂_same.2 fun _ _ => rfl) fun info _ hsame =>
      hsame ▸ realises_read herases info.name
  · rw [Outcome.demand, if_neg hlength, if_neg hlength]
    exact .error

-- ============================================================ known ranks

theorem says_operand (env : Env) (node : NodeOf Nested) (index : Nat) :
    (OnnxLowering.operand env node index).Says := by
  unfold OnnxLowering.operand Env.read
  split
  · split
    · exact Outcome.says_ok _
    · exact Outcome.says_failed
  · exact Outcome.says_failed

theorem says_computed (op : Op) (operands : List Tensor) : (computed op operands).Says := by
  refine (Outcome.says_ofExcept _).bind fun value _ => ?_
  split
  · exact Outcome.says_ok _
  · exact Outcome.says_failed

theorem says_applied (declarations : NameMap KnownType) (env : Env) (node : NodeOf Nested) (op : Op)
    (count : Nat) : (applied declarations env node op count).Says :=
  (Outcome.says_mapM (says_operand env node) _).bind fun _ _ =>
    (says_computed op _).bind fun _ _ => Outcome.says_ok _

section

variable {declarations : NameMap KnownType} {values : Values} {env : Env} {node : NodeOf G}

/-- What is known of a name is true of what it stands for. -/
theorem Env.Ranked.known {name : String} {e : Entry} (h : env.Ranked)
    (hvalues : values.Ranked declarations) (herases : Erases values env) (hname : env name = some e) :
    ∀ shape ∈ e.known declarations name, e.tensor.rank = shape.length := by
  intro shape hshape
  unfold Entry.known at hshape
  split at hshape
  · rename_i dims hdims
    rw [List.mem_singleton] at hshape
    rw [hshape]
    exact hvalues name e.tensor dims (by rw [herases name, hname, Option.map_some]) hdims
  · exact h name e hname shape hshape

/-- An axis that counts from the end of the first operand does so in its
known rank. -/
theorem says_aligned (h : env.Ranked) (hvalues : values.Ranked declarations)
    (herases : Erases values env) (node : NodeOf Nested) (op : Op) (attributes : Attributes) :
    (aligned declarations env node op attributes).Says := by
  refine (says_operand env node 0).bind fun lhs hlhs => (says_operand env node 1).bind fun rhs _ => ?_
  refine Outcome.Says.bind ?_ fun broadcast _ => ?_
  · unfold intOr
    split
    · exact Outcome.says_ofExcept _
    · exact Outcome.says_ok _
  by_cases hzero : broadcast = 0
  · rw [if_pos hzero]
    exact (says_computed op _).bind fun _ _ => Outcome.says_ok _
  · rw [if_neg hzero]
    refine Outcome.Says.bind ?_ fun axis _ => (says_computed _ _).bind fun _ _ =>
      (says_computed _ _).bind fun _ _ => Outcome.says_ok _
    unfold alignment
    split
    · exact Outcome.says_ok _
    · exact (Outcome.says_ofExcept _).bind fun axis _ =>
        (Outcome.says_require fun _ => h.known hvalues herases (env_of_operand hlhs)).bind
          fun _ _ => Outcome.says_ok _

/-- Only up to version 6 ranks have to be known as they are. -/
theorem says_evalNode (plain : node.Plain)
    (h : opset < 7 → env.Ranked ∧ values.Ranked declarations ∧ Erases values env) :
    (evalNode opset declarations env (node.map f)).Says := by
  have hbinary (op : Op) : Outcome.Says (if 7 ≤ opset then
      applied declarations env (node.map f) op 2
      else .ofExcept (node.map f).values >>= aligned declarations env (node.map f) op) := by
    split
    · exact says_applied declarations env (node.map f) op 2
    · obtain ⟨hranked, hvalues, herases⟩ := h (by omega)
      exact (Outcome.says_ofExcept _).bind fun attributes _ =>
        says_aligned hranked hvalues herases (node.map f) op attributes
  refine Outcome.Says.bind ?_ fun _ _ => Outcome.says_ok _
  unfold results
  rw [show (node.map f).op = node.op from rfl]
  have hop := plain.op
  simp only [List.mem_cons, List.not_mem_nil, or_false] at hop
  rcases hop with hop | hop | hop | hop | hop | hop <;> rw [hop]
  · exact (Outcome.says_ofExcept _).bind fun _ _ => (Outcome.says_ofExcept _).bind fun _ _ =>
      Outcome.says_ok _
  · exact (says_operand env _ 0).bind fun _ _ => Outcome.says_ok _
  · exact hbinary .add
  · exact hbinary .multiply
  · exact says_applied _ env _ _ 1
  · exact says_applied _ env _ _ 3

/-- The nodes of a graph say something if the tensors have the declared
ranks after each of them. -/
theorem says_nodes {nodes : List (NodeOf G)} (plain : ∀ node ∈ nodes, node.Plain)
    (herases : Erases values env) (hranked : env.Ranked)
    (h : ∀ first values', first <+: nodes →
      first.foldlM (fun values node => step values node opset) values = .ok values' →
      values'.Ranked declarations) :
    ((nodes.map (NodeOf.map f)).foldlM (evalNode opset declarations) env).Says := by
  induction nodes generalizing values env with
  | nil => exact Outcome.says_ok env
  | cons node rest ih =>
      rw [List.forall_mem_cons] at plain
      rw [List.map_cons, List.foldlM_cons]
      have hstep := @realises_step _ _ _ _ f declarations opset plain.1 herases
      have hdefinite := @says_evalNode _ f opset declarations _ _ _ plain.1 fun _ =>
        ⟨hranked, h [] values List.nil_prefix rfl, herases⟩
      refine hdefinite.bind fun env' henv' => ?_
      rw [henv'] at hstep
      obtain ⟨values', hvalues', herases', hranked'⟩ := hstep
      have hnext : ∀ first values'', first <+: rest →
          first.foldlM (fun values node => step values node opset) values' = .ok values'' →
          values''.Ranked declarations := by
        intro first values'' hfirst hvalues''
        refine h (node :: first) values'' ((List.prefix_cons_inj node).2 hfirst) ?_
        rw [List.foldlM_cons, hvalues']
        exact hvalues''
      exact ih plain.2 herases' (hranked' hranked (hnext [] values' List.nil_prefix rfl)) hnext

end

/-- Before the first node what is known of a name is the shape of its
tensor or what is declared of the name. -/
theorem ranked_entries {initial : List (String × Tensor)} {feeds : List Tensor}
    (h : Direct.Values.Ranked graph.declarations
      (NameMap.ofList (initial ++ graph.feedNames.zip feeds)).find?) :
    (graph.entries (fun _ => none) initial feeds).Ranked := by
  have hshapes : ∀ name e, graph.entries (fun _ => none) initial feeds name = some e →
      e.shapes = [e.tensor.shape.known]
        ∨ e.shapes = ((graph.declarations.find? name).bind KnownType.shape).toList := by
    refine List.foldlRecOn (motive := fun env : Env => ∀ name e, env name = some e →
      e.shapes = [e.tensor.shape.known]
        ∨ e.shapes = ((graph.declarations.find? name).bind KnownType.shape).toList)
      (graph.feedNames.zip feeds) _ ?_ ?_
    · intro name e he
      split at he
      · cases he
        exact .inl rfl
      · cases he
    · rintro env henv ⟨fed, t⟩ _ name e he
      change (if name = fed then some _ else env name) = some e at he
      split at he
      · rename_i hname
        cases he
        exact .inr (hname ▸ rfl)
      · exact henv name e he
  intro name e he shape hshape
  rcases hshapes name e he with hsame | hdeclared
  · rw [hsame, List.mem_singleton] at hshape
    rw [hshape]
    exact (List.length_map _).symm
  · rw [hdeclared, Option.mem_toList] at hshape
    refine h name e.tensor shape ?_ hshape
    rw [erases_entries initial feeds name, he, Option.map_some]

/-- The meaning of a graph says something if the tensors have the declared
ranks, and from version 7 on it always does. -/
theorem says_run (plain : ∀ node ∈ graph.nodes, node.Plain) {feeds : List Tensor}
    (h : opset < 7 → Direct.Ranked opset graph feeds) :
    (((graph.map f).meaning opset).run (fun _ => none) feeds).Says := by
  show Outcome.Says (do
    Outcome.demand (feeds.length = graph.feedNames.length)
    let initial ← .ofExcept graph.initial
    let env ← (graph.nodes.map (NodeOf.map f)).foldlM (evalNode opset graph.declarations)
      (graph.entries (fun _ => none) initial feeds)
    graph.outputs.mapM fun info => env.read info.name)
  by_cases hlength : feeds.length = graph.feedNames.length
  · refine (Outcome.says_demand _).bind fun _ _ =>
      (Outcome.says_ofExcept _).bind fun initial hinitial => ?_
    have hstart : start graph feeds
        = .ok (NameMap.ofList (initial ++ graph.feedNames.zip feeds)).find? :=
      start_eq_ok.2 ⟨hlength, initial, Outcome.ofExcept_eq_ok.1 hinitial, rfl⟩
    refine Outcome.Says.bind ?_ fun env _ => Outcome.says_mapM (fun info => ?_) _
    · by_cases hopset : opset < 7
      · have hranked := h hopset
        refine says_nodes plain (erases_entries initial feeds)
          (ranked_entries (hranked [] _ List.nil_prefix ?_)) fun first values hfirst hvalues =>
            hranked first values hfirst ?_
        · rw [after, hstart]
          rfl
        · rw [after, hstart]
          exact hvalues
      · refine Outcome.says_foldlM (fun env node hnode => ?_) _
        obtain ⟨inner, hinner, rfl⟩ := List.mem_map.1 hnode
        exact @says_evalNode _ _ _ _ (fun _ => none) _ _ (plain inner hinner)
          fun hold => absurd hold hopset
    · unfold Env.read
      split
      · exact Outcome.says_ok _
      · exact Outcome.says_failed
  · rw [Outcome.demand, if_neg hlength]
    exact Outcome.says_failed

end

end OnnxLowering
