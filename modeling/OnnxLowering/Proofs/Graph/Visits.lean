/-
The runs that happen when a graph is run: that of the graph itself, and
one of the graph inside a scan at every step of the scan. `Graph.Visits`
says which there are, for the meaning of graphs.

What a graph declares of its names may be true in a run or not
(`Graph.Truthful`). Where it is, all that is known of names before the
graph is run is true of what they stand for (`Truthful.after`), if every
result has what is declared of its own name.
-/
import Mathlib.Data.List.Induction
import Mathlib.Data.List.Infix
import OnnxLowering.Proofs.Graph.Reference
import OnnxLowering.Proofs.Graph.Scoping
import OnnxLowering.Proofs.Module.Labels

namespace OnnxLowering

-- ================================================================== shapes

/-- All that may be known of an entry is true of its tensor. -/
def Entry.Truthful (e : Entry) : Prop := ∀ known ∈ e.shapes, known.Matches e.tensor

/-- All that may be known of names is true of what they stand for. -/
def Env.Truthful (env : Env) : Prop := ∀ name e, env name = some e → e.Truthful

/-- The shape that is declared of a name. -/
def NameMap.shape? (declarations : NameMap KnownType) (name : String) : Option KnownShape :=
  (declarations.find? name).bind KnownType.shape

/-- What is declared of names is true of what they stand for. -/
def Env.Meets (env : Env) (declarations : NameMap KnownType) : Prop :=
  ∀ name e, env name = some e → ∀ known ∈ declarations.shape? name, known.Matches e.tensor

/-- Only names of which something is declared count. -/
theorem Env.meets_iff {env : Env} {declarations : NameMap KnownType} :
    env.Meets declarations ↔ ∀ entry ∈ declarations.entries, ∀ e ∈ env entry.1,
      ∀ known ∈ declarations.shape? entry.1, known.Matches e.tensor := by
  refine ⟨fun h entry _ e he => h entry.1 e he, fun h name e he known hknown => ?_⟩
  obtain ⟨type, htype, -⟩ := Option.bind_eq_some_iff.1 hknown
  obtain ⟨before, after, hentries, -⟩ := List.lookup_eq_some_iff.1 htype
  exact h (name, type) (hentries ▸ List.mem_append_right _ List.mem_cons_self) e he known hknown

instance (env : Env) (declarations : NameMap KnownType) : Decidable (env.Meets declarations) :=
  decidable_of_iff _ Env.meets_iff.symm

/-- The shape that is declared of a result of a node: that of its named
output, or, beyond those, of the name of the node itself. -/
def NodeOf.declared? {G : Type} (node : NodeOf G) (declarations : NameMap KnownType)
    (output : Nat) : Option KnownShape :=
  let name := node.namedOutputs.getD output node.name
  if name.isEmpty then none else declarations.shape? name

/-- Up to version 6 of the operator set, the right operand of a node is put
at dimensions of the left one. -/
def NodeOf.Aligns {G : Type} (opset : Int) (node : NodeOf G) : Prop :=
  (node.op = "Add" ∨ node.op = "Mul") ∧ opset < 7
    ∧ ∃ values, node.values = .ok values ∧ intOr values "broadcast" 0 ≠ .ok 0

/-- What is declared of the results of a node is declared of the names
that these get, and of nothing else that is computed on the way. -/
structure NodeOf.NamesResults (opset : Int) (declarations : NameMap KnownType)
    (node : NodeOf Graph) : Prop where
  single : node.op ≠ "Scan" → node.namedOutputs = [] → node.declared? declarations 0 = none
  several : node.op = "Scan" → ∀ body, node.graph? "body" = some body →
    ∀ i, i < node.outputs.length ∨ i < body.body.outputs.length →
      ∀ known ∈ node.declared? declarations i,
        ∃ name, node.outputs[i]? = some name ∧ node.namedOutputs[i]? = some name
          ∧ name ∉ node.outputs.drop (i + 1)
  intermediate : node.op = "STFT" ∨ node.Aligns opset → node.declared? declarations 0 = none

-- =================================================================== scans

namespace Handler

/-- How a version of the operator set spells a scan. -/
def ScanSyntax.ofOpset (opset : Int) : ScanSyntax :=
  if 9 ≤ opset then ⟨0, 0, "scan_input_directions"⟩ else ⟨1, 1, "directions"⟩

end Handler

/-- The names of the states and scan inputs of a scan. -/
def NodeOf.scanNames {G : Type} (node : NodeOf G) (opset : Int) : List String :=
  node.inputs.drop (Handler.ScanSyntax.ofOpset opset).firstInput

/-- A node is a scan of a certain graph, with a plan, and its inputs stand
for certain entries. -/
structure NodeOf.Scans (opset : Int) (env : Env) (node : NodeOf Graph) (body : Graph)
    (plan : Handler.ScanPlan) (entries : List Entry) : Prop where
  op : node.op = "Scan"
  graph : node.graph? "body" = some body
  inputs : (node.scanNames opset).mapM env.read = .ok entries
  planned : ∃ values scanInputs, node.values = .ok values
    ∧ scanInputCount values = .ok scanInputs
    ∧ planOf (.ofOpset opset) values scanInputs (body.meaning opset).inputCount
      (body.meaning opset).outputCount = .ok plan

/-- What may be known of names that stand for certain entries. -/
def knownOf (declarations : NameMap KnownType) (names : List String) (entries : List Entry) :
    List (List KnownShape) :=
  (entries.zip names).map fun entry => entry.1.known declarations entry.2

-- ==================================================================== runs

namespace Graph

variable (opset : Int) (graph : Graph) (outside : Env) (feeds : List Tensor)

/-- What names stand for in a run of a graph, after some of its nodes. -/
def after (nodes : List (NodeOf Graph)) : Outcome Env := do
  let initial ← .ofExcept graph.body.initial
  (nodes.map (NodeOf.map (Graph.meaning opset))).foldlM (evalNode opset graph.body.declarations)
    (graph.body.entries outside initial feeds)

/-- In a run of a graph, where names stand for `env`, a scan hands values
to the graph inside. Something may be known of its own inputs. -/
inductive Hands (env : Env) (body : Graph) (plan : Handler.ScanPlan) :
    List (List KnownShape) → List Tensor → Prop
  | mk {before after : List (NodeOf Graph)} {node : NodeOf Graph} {entries : List Entry}
      {xs : List Tensor} (nodes : graph.body.nodes = before ++ node :: after)
      (reached : graph.after opset outside feeds before = .ok env)
      (scans : node.Scans opset env body plan entries)
      (hands : plan.Hands (scanned graph.body.declarations env (body.meaning opset) plan
          (knownOf graph.body.declarations (node.scanNames opset) entries))
        (entries.map Entry.tensor) xs) :
      Hands env body plan (knownOf graph.body.declarations (node.scanNames opset) entries) xs

/-- The run of a graph is another run, or brings it about inside. -/
inductive Visits (opset : Int) : Graph → Env → List Tensor → Graph → Env → List Tensor → Prop
  | self {graph : Graph} {outside : Env} {feeds : List Tensor} :
      Visits opset graph outside feeds graph outside feeds
  | inside {graph body g : Graph} {outside env outside' : Env} {feeds xs feeds' : List Tensor}
      {plan : Handler.ScanPlan} {known : List (List KnownShape)}
      (hands : graph.Hands opset outside feeds env body plan known xs)
      (rest : Visits opset body (env.within graph.body.declarations) xs g outside' feeds') :
      Visits opset graph outside feeds g outside' feeds'

/-- What a graph declares is true in a run: of what is fed to its inputs,
and of what names stand for at any point. -/
structure Truthful : Prop where
  inputs : ∀ entry ∈ graph.body.feedNames.zip feeds,
    ∀ known ∈ graph.body.declarations.shape? entry.1, known.Matches entry.2
  values : ∀ nodes, nodes <+: graph.body.nodes → ∀ env,
    graph.after opset outside feeds nodes = .ok env → env.Meets graph.body.declarations

instance : Decidable (graph.Truthful opset outside feeds) :=
  decidable_of_iff ((∀ entry ∈ graph.body.feedNames.zip feeds,
      ∀ known ∈ graph.body.declarations.shape? entry.1, known.Matches entry.2)
    ∧ ∀ nodes ∈ graph.body.nodes.inits, ∀ env,
      graph.after opset outside feeds nodes = .ok env → env.Meets graph.body.declarations)
    ⟨fun h => ⟨h.1, fun nodes hnodes => h.2 nodes ((List.mem_inits _ _).2 hnodes)⟩,
      fun h => ⟨h.inputs, fun nodes hnodes => h.values nodes ((List.mem_inits _ _).1 hnodes)⟩⟩

/-- At every step of a scan the states have the shapes that are known of
the first ones. -/
def Steady : Prop :=
  ∀ env body plan known xs, graph.Hands opset outside feeds env body plan known xs →
    ∀ (i : Nat) (t : Tensor) (shapes : List KnownShape), i < plan.states → xs[i]? = some t →
      known[i]? = some shapes → ∀ shape ∈ shapes, shape.Matches t

/-- What a graph says of shapes is true in a run: of its names, of the
states of its scans, and of what its nodes compute. -/
structure Faithful : Prop where
  truthful : graph.Truthful opset outside feeds
  steady : graph.Steady opset outside feeds
  names : ∀ node ∈ graph.body.nodes, node.NamesResults opset graph.body.declarations

end Graph

-- ================================================================ entries

section

variable {opset : Int} {declarations : NameMap KnownType} {env : Env} {name : String} {e : Entry}

theorem Env.insert_apply (env : Env) (name : String) (e : Entry) (other : String) :
    env.insert name e other = if other = name then some e else env other := rfl

theorem Env.insertAll_eq_some {pairs : List (String × Entry)}
    (h : env.insertAll pairs name = some e) : (name, e) ∈ pairs ∨ env name = some e := by
  induction pairs generalizing env with
  | nil => exact .inr h
  | cons pair pairs ih =>
      obtain ⟨first, entry⟩ := pair
      replace h : Env.insertAll (if first.isEmpty then env else env.insert first entry) pairs name
        = some e := h
      rcases ih h with hmem | hfirst
      · exact .inl (List.mem_cons_of_mem _ hmem)
      · split at hfirst
        · exact .inr hfirst
        · rw [Env.insert_apply] at hfirst
          split at hfirst
          · next hname =>
              cases hfirst
              rw [hname]
              exact .inl List.mem_cons_self
          · exact .inr hfirst

theorem Env.insertAll_of_ne {pairs : List (String × Entry)} (h : ∀ pair ∈ pairs, pair.1 ≠ name) :
    env.insertAll pairs name = env name := by
  induction pairs generalizing env with
  | nil => rfl
  | cons pair pairs ih =>
      obtain ⟨first, entry⟩ := pair
      rw [List.forall_mem_cons] at h
      show Env.insertAll (if first.isEmpty then env else env.insert first entry) pairs name = env name
      rw [ih h.2]
      split
      · rfl
      · rw [Env.insert_apply, if_neg (Ne.symm h.1)]

/-- The last one of some entries for a name is what the name stands for. -/
theorem Env.insertAll_last {pairs : List (String × Entry)} {i : Nat}
    (hi : pairs[i]? = some (name, e)) (hname : name.isEmpty = false)
    (hlast : ∀ pair ∈ pairs.drop (i + 1), pair.1 ≠ name) : env.insertAll pairs name = some e := by
  induction pairs generalizing env i with
  | nil => cases hi
  | cons pair pairs ih =>
      cases i with
      | zero =>
          cases hi
          replace hlast : ∀ pair ∈ pairs, pair.1 ≠ name := hlast
          show Env.insertAll (if name.isEmpty then env else env.insert name e) pairs name = some e
          rw [Env.insertAll_of_ne hlast, hname]
          exact if_pos rfl
      | succ i => exact ih hi hlast

/-- All that may be known of a name in a graph is true, if what is declared
of it is. -/
theorem Entry.Truthful.known (h : e.Truthful)
    (hdeclared : ∀ known ∈ declarations.shape? name, known.Matches e.tensor) :
    ∀ known ∈ e.known declarations name, known.Matches e.tensor := by
  intro known hknown
  unfold Entry.known at hknown
  split at hknown
  · next shape hshape =>
      rw [List.mem_singleton.1 hknown]
      exact hdeclared shape hshape
  · exact h known hknown

/-- What is known of the names of a graph stays true inside its nodes. -/
theorem Env.Truthful.within (h : env.Truthful) (hdeclared : env.Meets declarations) :
    (env.within declarations).Truthful := by
  intro name e' he'
  obtain ⟨e, he, rfl⟩ := Option.map_eq_some_iff.1 he'
  intro known hknown
  rcases List.mem_append.1 hknown with hknown | hconstant
  · exact (h name e he).known (hdeclared name e he) known hknown
  · split at hconstant
    · rw [List.mem_singleton.1 hconstant]
      exact KnownShape.matches_known e.tensor
    · cases hconstant

variable {A : Type} {node : NodeOf Graph} {f : Graph → A} {pairs : List (String × Entry)}

theorem shapes_produced (declarations : NameMap KnownType) (node : NodeOf Nested) (output : Nat)
    (t : Tensor) :
    (produced declarations node output t).shapes = (node.declared? declarations output).toList := by
  unfold produced NodeOf.declared? NameMap.shape?
  simp only
  split <;> rfl

/-- A scan that has results has been run, on inputs of the ranks that may
be known of them. -/
theorem NodeOf.Scans.runs {body : Graph} {plan : Handler.ScanPlan} {entries : List Entry}
    (scans : node.Scans opset env body plan entries)
    (h : results opset declarations env (node.map (Graph.meaning opset)) = .ok pairs) :
    (∀ entry ∈ ((entries.zip (knownOf declarations (node.scanNames opset) entries)).drop
        plan.states).zip plan.inputAxes, HasRank entry.2 entry.1.2 entry.1.1.tensor)
      ∧ ∃ ts, plan.run (scanned declarations env (body.meaning opset) plan
          (knownOf declarations (node.scanNames opset) entries)) (entries.map Entry.tensor)
        = .ok ts := by
  obtain ⟨hop, hbody, hinputs, values, scanInputs, hvalues, hcount, hplan⟩ := scans
  have hscan : scan declarations env (node.map (Graph.meaning opset)) (.ofOpset opset) values
      = .ok pairs := by
    unfold results at h
    rw [show (node.map (Graph.meaning opset)).op = "Scan" from hop, NodeOf.values_map] at h
    simp only [Outcome.ofExcept_eq_ok.2 hvalues, Outcome.ok_bind] at h
    unfold Handler.ScanSyntax.ofOpset
    split at h
    · next hopset => rwa [if_pos hopset]
    · next hopset => rwa [if_neg hopset]
  replace hinputs : ((node.map (Graph.meaning opset)).inputs.drop
    (Handler.ScanSyntax.ofOpset opset).firstInput).mapM env.read = .ok entries := hinputs
  unfold scan at hscan
  simp only [hcount, Outcome.ok_bind, NodeOf.graph?_map, hbody, Option.map_some, hinputs, hplan]
    at hscan
  obtain ⟨hranks, hscan⟩ := Outcome.require_bind_eq_ok.1 hscan
  obtain ⟨ts, hts, -⟩ := Outcome.bind_eq_ok.1 hscan
  exact ⟨hranks, ts, hts⟩

/-- Some of what may be known of a result of a node is declared of its
name, and the rest is true. -/
def Declared (declarations : NameMap KnownType) (pairs : List (String × Entry)) : Prop :=
  ∀ name e, (name, e) ∈ pairs → ∀ known ∈ e.shapes,
    known ∈ declarations.shape? name ∨ known.Matches e.tensor

theorem declared_produced (declarations : NameMap KnownType) (node : NodeOf Nested) (t : Tensor) :
    Declared declarations (named node (produced declarations node 0 t)) := by
  intro name e hmem known hknown
  obtain ⟨name', hname, hpair⟩ := List.mem_map.1 hmem
  cases hpair
  rw [shapes_produced, Option.mem_toList] at hknown
  unfold NodeOf.declared? at hknown
  cases hnames : node.namedOutputs with
  | nil =>
      rw [hnames] at hname
      cases hname
  | cons first others =>
      rw [hnames] at hname hknown
      rw [List.mem_singleton.1 hname]
      simp only [List.getD_cons_zero] at hknown
      split at hknown
      · cases hknown
      · exact .inl hknown

theorem declared_truthful (he : e.Truthful) (node : NodeOf Nested) :
    Declared declarations (named node e) := by
  intro name e' hmem known hknown
  obtain ⟨name', -, hpair⟩ := List.mem_map.1 hmem
  cases hpair
  exact .inr (he known hknown)

theorem declared_applied {node : NodeOf Nested} {op : Op} {count : Nat}
    (h : applied declarations env node op count = .ok pairs) : Declared declarations pairs := by
  obtain ⟨operands, -, h⟩ := Outcome.bind_eq_ok.1 h
  obtain ⟨t, -, h⟩ := Outcome.bind_eq_ok.1 h
  cases h
  exact declared_produced declarations node t

theorem declared_aligned {node : NodeOf Nested} {op : Op} {values : Attributes}
    (h : aligned declarations env node op values = .ok pairs) : Declared declarations pairs := by
  obtain ⟨lhs, -, h⟩ := Outcome.bind_eq_ok.1 h
  obtain ⟨rhs, -, h⟩ := Outcome.bind_eq_ok.1 h
  obtain ⟨broadcast, -, h⟩ := Outcome.bind_eq_ok.1 h
  split at h
  · obtain ⟨t, -, h⟩ := Outcome.bind_eq_ok.1 h
    cases h
    exact declared_produced declarations node t
  · obtain ⟨axis, -, h⟩ := Outcome.bind_eq_ok.1 h
    obtain ⟨placed, -, h⟩ := Outcome.bind_eq_ok.1 h
    obtain ⟨t, -, h⟩ := Outcome.bind_eq_ok.1 h
    cases h
    exact declared_produced declarations node t

theorem declared_spectrum {node : NodeOf Nested} {values : Attributes}
    (h : spectrum declarations env node values = .ok pairs) : Declared declarations pairs := by
  obtain ⟨oneSided, -, h⟩ := Outcome.bind_eq_ok.1 h
  obtain ⟨signal, -, h⟩ := Outcome.bind_eq_ok.1 h
  obtain ⟨stepEntry, -, h⟩ := Outcome.bind_eq_ok.1 h
  obtain ⟨step, -, h⟩ := Outcome.bind_eq_ok.1 h
  obtain ⟨window, -, h⟩ := Outcome.bind_eq_ok.1 h
  obtain ⟨length, -, h⟩ := Outcome.bind_eq_ok.1 h
  obtain ⟨frames, -, h⟩ := Outcome.bind_eq_ok.1 h
  obtain ⟨multiplied, -, h⟩ := Outcome.bind_eq_ok.1 h
  obtain ⟨t, -, h⟩ := Outcome.bind_eq_ok.1 h
  cases h
  exact declared_produced declarations node t

theorem declared_scan {spelling : Handler.ScanSyntax} {values : Attributes}
    (h : scan declarations env (node.map (Graph.meaning opset)) spelling values = .ok pairs)
    (hop : node.op = "Scan") (hnames : node.NamesResults opset declarations) :
    Declared declarations pairs := by
  obtain ⟨scanInputs, -, h⟩ := Outcome.bind_eq_ok.1 h
  rw [NodeOf.graph?_map] at h
  cases hbody : node.graph? "body" with
  | none =>
      rw [hbody] at h
      cases h
  | some body =>
      rw [hbody] at h
      obtain ⟨entries, -, h⟩ := Outcome.bind_eq_ok.1 h
      obtain ⟨plan, -, h⟩ := Outcome.bind_eq_ok.1 h
      obtain ⟨-, h⟩ := Outcome.require_bind_eq_ok.1 h
      obtain ⟨outputs, -, h⟩ := Outcome.bind_eq_ok.1 h
      cases h
      intro name e hmem known hknown
      obtain ⟨i, hi⟩ := List.mem_iff_getElem?.1 hmem
      obtain ⟨hname, he⟩ := List.getElem?_zip_eq_some.1 hi
      rw [List.getElem?_map, List.getElem?_zipIdx, Option.map_map, Option.map_eq_some_iff] at he
      obtain ⟨t, -, rfl⟩ := he
      replace hname : node.outputs[i]? = some name := hname
      simp only [Function.comp_apply, Nat.zero_add] at hknown ⊢
      rw [shapes_produced, Option.mem_toList] at hknown
      replace hknown : known ∈ node.declared? declarations i := hknown
      obtain ⟨name', houtput, hnamed, -⟩ := hnames.several hop body hbody i
        (.inl (List.getElem?_eq_some_iff.1 hname).1) known hknown
      cases hname.symm.trans houtput
      unfold NodeOf.declared? at hknown
      simp only [List.getD_eq_getElem?_getD, hnamed, Option.getD_some] at hknown
      split at hknown
      · cases hknown
      · exact .inl hknown

/-- What may be known of the results of a node is declared of their names
or true, if all that may be known of its inputs is. -/
theorem declared_results
    (h : results opset declarations env (node.map (Graph.meaning opset)) = .ok pairs)
    (henv : env.Truthful) (hnames : node.NamesResults opset declarations) :
    Declared declarations pairs := by
  unfold results at h
  split at h
  · obtain ⟨values, -, h⟩ := Outcome.bind_eq_ok.1 h
    obtain ⟨t, -, h⟩ := Outcome.bind_eq_ok.1 h
    cases h
    refine declared_truthful (fun known hknown => ?_) _
    rw [List.mem_singleton.1 hknown]
    exact KnownShape.matches_known t
  · obtain ⟨e, he, h⟩ := Outcome.bind_eq_ok.1 h
    cases h
    have hread : ∃ name, env name = some e := by
      unfold operand at he
      split at he
      · exact ⟨_, Env.read_eq_ok.1 he⟩
      · cases he
    obtain ⟨name, hname⟩ := hread
    exact declared_truthful (e := { e with constant := false }) (henv name e hname) _
  · split at h
    · exact declared_applied h
    · obtain ⟨values, -, h⟩ := Outcome.bind_eq_ok.1 h
      exact declared_aligned h
  · split at h
    · exact declared_applied h
    · obtain ⟨values, -, h⟩ := Outcome.bind_eq_ok.1 h
      exact declared_aligned h
  · exact declared_applied h
  · exact declared_applied h
  · obtain ⟨values, -, h⟩ := Outcome.bind_eq_ok.1 h
    obtain ⟨op, -, h⟩ := Outcome.bind_eq_ok.1 h
    exact declared_applied h
  · obtain ⟨values, -, h⟩ := Outcome.bind_eq_ok.1 h
    obtain ⟨op, -, h⟩ := Outcome.bind_eq_ok.1 h
    exact declared_applied h
  · obtain ⟨values, -, h⟩ := Outcome.bind_eq_ok.1 h
    exact declared_spectrum h
  · next hop =>
      split at h
      · obtain ⟨values, -, h⟩ := Outcome.bind_eq_ok.1 h
        exact declared_scan h hop hnames
      · obtain ⟨values, -, h⟩ := Outcome.bind_eq_ok.1 h
        exact declared_scan h hop hnames
  · cases h

end

-- ==================================================================== runs

section

variable {opset : Int} {graph : Graph} {outside env env' : Env} {feeds : List Tensor}
  {node : NodeOf Graph} {before nodes : List (NodeOf Graph)}

theorem Graph.after_nil :
    graph.after opset outside feeds [] = (do
      return graph.body.entries outside (← Outcome.ofExcept graph.body.initial) feeds) := rfl

/-- What a run of a graph returns is what its outputs stand for in the
end. -/
theorem Graph.run_eq_ok {results : List Entry}
    (h : (graph.meaning opset).run outside feeds = .ok results) :
    feeds.length = graph.body.feedNames.length ∧ ∃ initial last, graph.body.initial = .ok initial
      ∧ graph.after opset outside feeds [] = .ok (graph.body.entries outside initial feeds)
      ∧ graph.after opset outside feeds graph.body.nodes = .ok last
      ∧ (graph.body.outputs.mapM fun info => last.read info.name) = .ok results := by
  unfold Graph.meaning at h
  rw [Graph.fold_eq] at h
  replace h : (do
    Outcome.demand (feeds.length = graph.body.feedNames.length)
    let initial ← .ofExcept graph.body.initial
    let env ← (graph.body.nodes.map (NodeOf.map (Graph.meaning opset))).foldlM
      (evalNode opset graph.body.declarations) (graph.body.entries outside initial feeds)
    graph.body.outputs.mapM fun info => env.read info.name) = Outcome.ok results := h
  obtain ⟨hlength, h⟩ := Outcome.demand_bind_eq_ok.1 h
  obtain ⟨initial, hinitial, h⟩ := Outcome.bind_eq_ok.1 h
  obtain ⟨last, hlast, houtputs⟩ := Outcome.bind_eq_ok.1 h
  refine ⟨hlength, initial, last, Outcome.ofExcept_eq_ok.1 hinitial, ?_, ?_, houtputs⟩
  · rw [Graph.after_nil, hinitial]
    rfl
  · rw [Graph.after, hinitial, Outcome.ok_bind, hlast]

/-- One node more. -/
theorem Graph.after_append (nodes others : List (NodeOf Graph)) :
    graph.after opset outside feeds (nodes ++ others) = (do
      (others.map (NodeOf.map (Graph.meaning opset))).foldlM
        (evalNode opset graph.body.declarations) (← graph.after opset outside feeds nodes)) := by
  unfold Graph.after
  rw [List.map_append, bind_assoc]
  refine bind_congr fun initial => ?_
  rw [List.foldlM_append]

/-- In a run of a graph each node has a meaning where it is reached. -/
theorem Graph.after_cons {last : Env} {others : List (NodeOf Graph)}
    (h : graph.after opset outside feeds (before ++ node :: others) = .ok last)
    (hbefore : graph.after opset outside feeds before = .ok env) :
    ∃ env', evalNode opset graph.body.declarations env (node.map (Graph.meaning opset)) = .ok env'
      ∧ graph.after opset outside feeds (before ++ [node]) = .ok env' := by
  rw [Graph.after_append, hbefore, Outcome.ok_bind, List.map_cons, List.foldlM_cons] at h
  obtain ⟨env', hnode, -⟩ := Outcome.bind_eq_ok.1 h
  refine ⟨env', hnode, ?_⟩
  rw [Graph.after_append, hbefore, Outcome.ok_bind, List.map_singleton, List.foldlM_cons, hnode]
  rfl

/-- What names stand for before the first node: what is fed to them, an
initial tensor or what they stand for outside. -/
theorem GraphOf.entries_eq_some {G : Type} {graph : GraphOf G} {initial : List (String × Tensor)}
    {name : String} {e : Entry} (h : graph.entries outside initial feeds name = some e) :
    (∃ t, (name, t) ∈ graph.feedNames.zip feeds
        ∧ e = ⟨t, false, (graph.declarations.shape? name).toList⟩)
      ∨ (∃ t, e = .ofConstant t) ∨ outside name = some e := by
  unfold GraphOf.entries at h
  generalize graph.feedNames.zip feeds = pairs at h ⊢
  induction pairs using List.reverseRecOn with
  | nil =>
      simp only [List.foldl_nil] at h
      split at h
      · cases h
        exact .inr (.inl ⟨_, rfl⟩)
      · exact .inr (.inr h)
  | append_singleton pairs pair ih =>
      obtain ⟨first, t⟩ := pair
      rw [List.foldl_append, List.foldl_cons, List.foldl_nil] at h
      simp only [Env.insert_apply] at h
      split at h
      · next hname =>
          cases h
          rw [hname]
          exact .inl ⟨t, List.mem_append_right _ (List.mem_singleton_self _), rfl⟩
      · rcases ih h with ⟨t, hmem, he⟩ | hrest
        · exact .inl ⟨t, List.mem_append_left _ hmem, he⟩
        · exact .inr hrest

/-- What may be known of names is true before the first node of a graph
whose inputs have what is declared of them. -/
theorem Graph.Truthful.entries (h : graph.Truthful opset outside feeds) (houtside : outside.Truthful)
    (initial : List (String × Tensor)) : (graph.body.entries outside initial feeds).Truthful := by
  intro name e he
  rcases GraphOf.entries_eq_some he with ⟨t, hmem, rfl⟩ | ⟨t, rfl⟩ | hsame
  · intro known hknown
    exact h.inputs _ hmem known (Option.mem_toList.1 hknown)
  · intro known hknown
    rw [List.mem_singleton.1 hknown]
    exact KnownShape.matches_known t
  · exact houtside name e hsame

/-- What may be known of names stays true from node to node. -/
theorem Graph.Truthful.step (h : graph.Truthful opset outside feeds)
    (hnames : node.NamesResults opset graph.body.declarations)
    (hnodes : before ++ [node] <+: graph.body.nodes)
    (hbefore : graph.after opset outside feeds before = .ok env) (henv : env.Truthful)
    (hnode : evalNode opset graph.body.declarations env (node.map (Graph.meaning opset)) = .ok env') :
    env'.Truthful := by
  have hafter : graph.after opset outside feeds (before ++ [node]) = .ok env' := by
    rw [Graph.after_append, hbefore, Outcome.ok_bind, List.map_singleton, List.foldlM_cons, hnode]
    rfl
  obtain ⟨pairs, hpairs, henv'⟩ := Outcome.bind_eq_ok.1 hnode
  intro name e he known hknown
  rw [← Outcome.ok.inj henv'] at he
  rcases Env.insertAll_eq_some he with hmem | hold
  · rcases declared_results hpairs henv hnames name e hmem known hknown with hdeclared | hmatches
    · rw [Outcome.ok.inj henv'] at he
      exact h.values _ hnodes _ hafter name e he known hdeclared
    · exact hmatches
  · exact henv name e hold known hknown

/-- In a run in which all declarations are true, so is all that may be
known of names at any point. -/
theorem Graph.Truthful.after (h : graph.Truthful opset outside feeds) (houtside : outside.Truthful)
    (hnames : ∀ node ∈ graph.body.nodes, node.NamesResults opset graph.body.declarations)
    (hnodes : nodes <+: graph.body.nodes) (henv : graph.after opset outside feeds nodes = .ok env) :
    env.Truthful := by
  induction nodes using List.reverseRecOn generalizing env with
  | nil =>
      obtain ⟨initial, -, henv⟩ := Outcome.bind_eq_ok.1 henv
      cases henv
      exact h.entries houtside initial
  | append_singleton before node ih =>
      have hbefore : before <+: graph.body.nodes := (List.prefix_append _ _).trans hnodes
      have hnode : node ∈ graph.body.nodes :=
        hnodes.subset (List.mem_append_right _ (List.mem_singleton_self _))
      rw [Graph.after_append] at henv
      obtain ⟨middle, hmiddle, henv⟩ := Outcome.bind_eq_ok.1 henv
      rw [List.map_singleton, List.foldlM_cons] at henv
      obtain ⟨last, hlast, henv⟩ := Outcome.bind_eq_ok.1 henv
      cases henv
      exact h.step (hnames node hnode) hnodes hmiddle (ih hbefore hmiddle) hlast

/-- A run of a graph without scans brings about no other. -/
theorem Graph.Visits.eq_of_flat {g : Graph} {outside' : Env} {feeds' : List Tensor}
    (flat : ∀ node ∈ graph.body.nodes, node.op ≠ "Scan")
    (h : graph.Visits opset outside feeds g outside' feeds') :
    g = graph ∧ outside' = outside ∧ feeds' = feeds := by
  cases h with
  | self => exact ⟨rfl, rfl, rfl⟩
  | inside hands _ =>
      obtain ⟨nodes, -, scans, -⟩ := hands
      exact absurd scans.op (flat _ (nodes ▸ List.mem_append_right _ List.mem_cons_self))

theorem Graph.steady_of_flat (flat : ∀ node ∈ graph.body.nodes, node.op ≠ "Scan") :
    graph.Steady opset outside feeds := by
  rintro env body plan known xs ⟨nodes, -, scans, -⟩
  exact absurd scans.op (flat _ (nodes ▸ List.mem_append_right _ List.mem_cons_self))

end

end OnnxLowering
