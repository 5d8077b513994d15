/-
The labels on the nodes that a node of a graph becomes. Where what is
declared of its results is declared of the names that these get, and of
nothing else, a label on a new node says what is declared of the name of
its value (`Served.appends`). Tensors that are stored on the way have
labels of their own, and the call of a loop has none that says anything.
-/
import OnnxLowering.Proofs.Graph.Visits
import OnnxLowering.Proofs.Handler.Moves

namespace OnnxLowering

/-- What a label says of the shape of a value is declared of a name that
the value gets, and no other value gets after it. -/
def Label.Names (label : Label) (declarations : NameMap KnownType) (pairs : List (String × Ref))
    (ref : Ref) : Prop :=
  ∀ known ∈ label.shape.join, ∃ i name, pairs[i]? = some (name, ref) ∧ name.isEmpty = false
    ∧ (∀ pair ∈ pairs.drop (i + 1), pair.1 ≠ name) ∧ known ∈ declarations.shape? name

/-- A node that has been appended: it loads a tensor, applies an operation
or calls one of certain loops. -/
inductive Fresh (declarations : NameMap KnownType) (pairs : List (String × Ref))
    (calls : String → List Ref → Prop) : Nat → Node → Prop
  | load {i : Nat} {place : String} {label : Label} :
      Fresh declarations pairs calls i ⟨.load place, label⟩
  | apply {i : Nat} {op : Op} {operands : List Ref} {label : Label}
      (names : label.Names declarations pairs (.node i)) :
      Fresh declarations pairs calls i ⟨.apply op operands, label⟩
  | call {i : Nat} {name : String} {operands : List Ref} {label : Label}
      (unlabelled : label.shape.join = none) (called : calls name operands) :
      Fresh declarations pairs calls i ⟨.call name operands, label⟩

namespace Scope

/-- What is true of the nodes that have been appended. -/
def Appends (scope scope' : Scope) (P : Nat → Node → Prop) : Prop :=
  ∀ i node, scope.nodes.length ≤ i → scope'.nodes[i]? = some node → P i node

variable {outer : Scopes} {scope middle scope' : Scope} {P : Nat → Node → Prop} {reads gives : List String}

theorem Appends.of_nodes_eq (h : scope'.nodes = scope.nodes) : scope.Appends scope' P := by
  intro i node hi hnode
  rw [h, List.getElem?_eq_none hi] at hnode
  cases hnode

theorem Appends.of_nodes {new : List Node} (hnodes : scope'.nodes = scope.nodes ++ new)
    (h : ∀ i node, new[i]? = some node → P (scope.nodes.length + i) node) :
    scope.Appends scope' P := by
  intro i node hi hnode
  obtain ⟨j, rfl⟩ := Nat.exists_eq_add_of_le hi
  rw [hnodes, List.getElem?_append_right hi, Nat.add_sub_cancel_left] at hnode
  exact h j node hnode

theorem Appends.singleton {node : Node} (hnodes : scope'.nodes = scope.nodes ++ [node])
    (h : P scope.nodes.length node) : scope.Appends scope' P := by
  refine .of_nodes hnodes fun i other hother => ?_
  rw [List.getElem?_singleton] at hother
  split at hother
  · next hi =>
      cases hother
      rw [hi]
      exact h
  · cases hother

theorem Appends.trans (h : scope.Appends middle P) (h' : middle.Appends scope' P)
    (hgrows : middle.Grows outer reads gives scope') : scope.Appends scope' P := by
  intro i node hi hnode
  obtain ⟨new, hnew, -⟩ := hgrows.nodes
  by_cases hold : i < middle.nodes.length
  · rw [hnew, List.getElem?_append_left hold] at hnode
    exact h i node hi hnode
  · exact h' i node (Nat.le_of_not_lt hold) hnode

theorem Gets.appends {name : String} {ref : Ref} (h : scope.Gets outer name ref scope')
    (hload : ∀ i place label, P i ⟨.load place, label⟩) : scope.Appends scope' P := by
  have hstores {source : String} {t : Tensor} {stored after : Scope}
      (stores : scope.Stores source t stored) (hafter : after.nodes = stored.nodes) :
      scope.Appends after P := by
    obtain ⟨place, trainable, label, nodeNames, supply, attributeCounters, -, rfl⟩ := stores
    exact .singleton hafter (hload _ _ _)
  cases h with
  | bound _ => exact .of_nodes_eq rfl
  | constant _ => exact .of_nodes_eq rfl
  | initial _ _ stores => exact hstores stores rfl
  | known _ stores => exact hstores stores rfl
  | copied _ _ _ stores => exact hstores stores rfl
  | captured _ _ _ captures =>
      obtain ⟨inputName, label, inputCounters, supply, -, -, rfl⟩ := captures
      exact .of_nodes_eq rfl

theorem GetsAll.appends {names : List String} {refs : List Ref}
    (h : scope.GetsAll outer names refs scope') (hload : ∀ i place label, P i ⟨.load place, label⟩) :
    scope.Appends scope' P := by
  induction h with
  | nil => exact .of_nodes_eq rfl
  | @cons scope middle scope' name names ref refs first rest ih =>
      exact (first.appends hload).trans ih
        (@GetsAll.grows outer names [] _ _ _ _ rest (List.Subset.refl names))

end Scope

-- ================================================================= results

section

variable {opset : Int} {declarations : NameMap KnownType} {scope : Scope} {node : NodeOf Graph}
  {f : Graph → Importer} {calls : String → List Ref → Prop}

/-- The label for a result says what is declared of it. -/
theorem shape_labelOf (scope : Scope) (node : NodeOf Graph) (f : Graph → Importer) (output : Nat) :
    (Lower.labelOf scope (node.map f) output true).shape.join
      = node.declared? scope.declarations output := by
  show (((if (node.namedOutputs.getD output node.name).isEmpty || !true then none
      else scope.declarations.find? (node.namedOutputs.getD output node.name)).map
        KnownType.shape).join) = if (node.namedOutputs.getD output node.name).isEmpty then none
      else (scope.declarations.find? (node.namedOutputs.getD output node.name)).bind KnownType.shape
  rw [Bool.not_true, Bool.or_false]
  split
  · rfl
  · cases scope.declarations.find? (node.namedOutputs.getD output node.name) <;> rfl

theorem shape_labelOf_untyped (scope : Scope) (node : NodeOf Importer) (output : Nat) :
    (Lower.labelOf scope node output false).shape.join = none := by
  show (((if (node.namedOutputs.getD output node.name).isEmpty || !false then none
      else scope.declarations.find? (node.namedOutputs.getD output node.name)).map
        KnownType.shape).join) = none
  rw [Bool.not_false, Bool.or_true]
  rfl

/-- The one result of a node has the label that is declared of its
name. -/
theorem NodeOf.NamesResults.names_one (h : node.NamesResults opset scope.declarations)
    (hop : node.op ≠ "Scan") (ref : Ref) :
    (Lower.labelOf scope (node.map f) 0 true).Names scope.declarations
      ((Result.one ref).pairs (node.map f)) ref := by
  intro known hknown
  rw [shape_labelOf] at hknown
  have hpairs : (Result.one ref).pairs (node.map f) = (node.namedOutputs.take 1).map (·, ref) := rfl
  cases hnames : node.namedOutputs with
  | nil =>
      rw [h.single hop hnames] at hknown
      cases hknown
  | cons name others =>
      rw [hpairs, hnames]
      unfold NodeOf.declared? at hknown
      rw [hnames] at hknown
      simp only [List.getD_cons_zero] at hknown
      split at hknown
      · cases hknown
      · next hempty =>
          exact ⟨0, name, rfl, Bool.eq_false_iff.2 hempty, fun _ hmem => (nomatch hmem), hknown⟩

/-- A label of which nothing is declared. -/
theorem names_of_undeclared (h : node.declared? scope.declarations 0 = none)
    (pairs : List (String × Ref)) (ref : Ref) :
    (Lower.labelOf scope (node.map f) 0 true).Names scope.declarations pairs ref := by
  intro known hknown
  rw [shape_labelOf, h] at hknown
  cases hknown

variable {outer : Scopes} {scope' : Scope} {result : Result} {op : Op} {pairs : List (String × Ref)}

theorem Handler.Applies.appends {refs : List Ref} (h : scope.Applies (node.map f) op refs scope')
    (hnames : (Lower.labelOf scope (node.map f) 0 true).Names declarations pairs
      (.node scope.nodes.length)) : scope.Appends scope' (Fresh declarations pairs calls) := by
  obtain ⟨nodeNames, supply⟩ := h
  exact .singleton rfl (.apply hnames)

namespace Handler

theorem Applied.appends {count : Nat}
    (h : Applied (node.map f) op count outer scope scope' result) (hop : node.op ≠ "Scan")
    (hnames : node.NamesResults opset scope.declarations) :
    scope.Appends scope' (Fresh scope.declarations (result.pairs (node.map f)) calls) := by
  obtain ⟨names, refs, middle, -, hgets, happlies, rfl⟩ := h
  have hgrows : scope.Grows outer names [] middle := hgets.grows (List.Subset.refl names)
  have hlast : middle.Grows outer names [] scope' := happlies.grows
  have hsame := hgrows.declarations
  refine (hgets.appends fun _ _ _ => .load).trans (Applies.appends happlies ?_) hlast
  rw [← hsame] at hnames ⊢
  exact hnames.names_one hop _

/-- An operation of whose result nothing is declared. -/
theorem Applies.appends_undeclared {refs : List Ref}
    (h : scope.Applies (node.map f) op refs scope') (hsame : scope.declarations = declarations)
    (hnone : node.declared? declarations 0 = none) :
    scope.Appends scope' (Fresh declarations pairs calls) := by
  rw [← hsame] at hnone ⊢
  exact Applies.appends h (names_of_undeclared hnone _ _)

theorem AppliedAligned.appends {values : Attributes}
    (h : AppliedAligned (node.map f) op values outer scope scope' result)
    (hnone : node.declared? scope.declarations 0 = none) :
    scope.Appends scope' (Fresh scope.declarations (result.pairs (node.map f)) calls) := by
  have hfirst : scope.Grows outer [h.lhsName, h.rhsName] [] h.middle :=
    h.operands.grows (List.Subset.refl _)
  have hsecond : h.middle.Grows outer [h.lhsName, h.rhsName] [] h.aligned := h.aligns.grows
  have hthird : h.aligned.Grows outer [h.lhsName, h.rhsName] [] scope' := h.applies.grows
  refine (h.operands.appends fun _ _ _ => .load).trans ?_ (hsecond.trans hthird)
  refine (Applies.appends_undeclared h.aligns hfirst.declarations hnone).trans ?_ hthird
  exact Applies.appends_undeclared h.applies (hsecond.declarations.trans hfirst.declarations) hnone

theorem GetsWindow.appends {window : Option (String × Ref)}
    (h : GetsWindow (node.map f) outer scope window scope') :
    scope.Appends scope' (Fresh declarations pairs calls) := by
  cases h with
  | none _ => exact .of_nodes_eq rfl
  | some _ _ gets => exact gets.appends fun _ _ _ => .load

theorem Multiplies.appends_undeclared {frames frames' : Ref} {window : Option (String × Ref)}
    (h : Multiplies (node.map f) scope frames window frames' scope')
    (hsame : scope.declarations = declarations)
    (hnone : node.declared? declarations 0 = Option.none) :
    scope.Appends scope' (Fresh declarations pairs calls) := by
  cases h with
  | none => exact .of_nodes_eq rfl
  | some applies => exact Applies.appends_undeclared applies hsame hnone

theorem AppliedSpectrum.appends {values : Attributes}
    (h : AppliedSpectrum (node.map f) values outer scope scope' result)
    (hnone : node.declared? scope.declarations 0 = none) :
    scope.Appends scope' (Fresh scope.declarations (result.pairs (node.map f)) calls) := by
  have h₁ : scope.Grows outer node.inputs [] h.started :=
    h.getsSignal.grows (List.mem_of_getElem? h.signalInput)
  have h₂ : h.started.Grows outer node.inputs [] h.middle := World.GetsWindow.grows h.getsWindow
  have h₃ : h.middle.Grows outer node.inputs [] h.framed := h.cuts.grows
  have h₄ : h.framed.Grows outer node.inputs [] h.multiplied := World.Multiplies.grows h.multiplies
  have h₅ : h.multiplied.Grows outer node.inputs [] scope' := h.transforms.grows
  refine (h.getsSignal.appends fun _ _ _ => .load).trans ?_ (h₂.trans (h₃.trans (h₄.trans h₅)))
  refine (GetsWindow.appends h.getsWindow).trans ?_ (h₃.trans (h₄.trans h₅))
  refine (Applies.appends_undeclared h.cuts (h₁.trans h₂).declarations hnone).trans ?_ (h₄.trans h₅)
  refine (Multiplies.appends_undeclared h.multiplies (h₁.trans (h₂.trans h₃)).declarations hnone).trans
    ?_ h₅
  exact Applies.appends_undeclared h.transforms (h₁.trans (h₂.trans (h₃.trans h₄))).declarations hnone

/-- A scan has as many results at most as its body has outputs. -/
theorem Scanned.count_le {node : NodeOf Importer} {spelling : ScanSyntax} {context : Context}
    {session session' : Session} (scanned : Scanned spelling node context session result session') :
    scanned.loopPlan.states + scanned.loopPlan.outputAxes.length
      ≤ scanned.subgraph.outputNames.length := by
  obtain ⟨inputs, inAxes, outAxes, -, -, hplan, -, houtAxes⟩ :=
    scanBody_eq_ok scanned.length_shapes scanned.body
  have hlength := houtAxes.length_eq
  rw [List.length_zip] at hlength
  rw [hplan, ← scanned.describes.outputs]
  simp only [ScanPlan.withAxes]
  omega

end Handler

/-- The label on the call of a loop says nothing. Behind the call are the
outputs of the loop, labelled with what is declared of their names. -/
theorem World.Calls.appends {name : String} {loop : Loop} {refs : List Ref} {count : Nat}
    (h : World.Calls scope (node.map f) name loop refs count scope') (hcalled : calls name refs)
    (hnames : ∀ i < count, ∀ known ∈ node.declared? scope.declarations i,
      ∃ name, node.outputs[i]? = some name ∧ node.namedOutputs[i]? = some name
        ∧ name ∉ node.outputs.drop (i + 1)) :
    scope.Appends scope' (Fresh scope.declarations ((Result.many ((List.range count).map fun i =>
      .node (scope.nodes.length + 1 + i))).pairs (node.map f)) calls) := by
  obtain ⟨nodeNames, supply, loopCounters⟩ := h
  refine .of_nodes rfl fun i new hnew => ?_
  cases i with
  | zero =>
      cases hnew
      exact .call (shape_labelOf_untyped _ _ _) hcalled
  | succ j =>
      rw [List.getElem?_cons_succ, List.getElem?_map, Option.map_eq_some_iff] at hnew
      obtain ⟨j', hj', rfl⟩ := hnew
      obtain ⟨hj, hj'⟩ := List.getElem?_eq_some_iff.1 hj'
      rw [List.getElem_range] at hj'
      rw [List.length_range] at hj
      subst hj'
      refine .apply fun known hknown => ?_
      rw [shape_labelOf] at hknown
      obtain ⟨name, houtput, hnamed, hlast⟩ := hnames j hj known hknown
      refine ⟨j, name, List.getElem?_zip_eq_some.2 ⟨houtput, ?_⟩, ?_, fun pair hpair heq => ?_, ?_⟩
      · rw [List.getElem?_map, List.getElem?_range hj, Nat.add_comm j, ← Nat.add_assoc]
        rfl
      · exact Bool.not_inj (List.mem_filter.1 (List.mem_of_getElem? hnamed)).2
      · rw [Result.pairs, List.zip, List.drop_zipWith] at hpair
        exact hlast (heq ▸ (List.of_mem_zip hpair).1)
      · unfold NodeOf.declared? at hknown
        simp only [List.getD_eq_getElem?_getD, hnamed, Option.getD_some] at hknown
        split at hknown
        · cases hknown
        · exact hknown

namespace Handler

/-- A scan leaves behind the call of its loop, and then its outputs one by
one. -/
theorem Scanned.appends {spelling : ScanSyntax} {context : Context} {session session' : Session}
    {body : Graph} (scanned : Scanned spelling (node.map f) context session result session')
    (hop : node.op = "Scan") (hnames : node.NamesResults opset session.scope.declarations)
    (hbody : node.graph? "body" = some body)
    (hcount : scanned.subgraph.outputNames.length = body.body.outputs.length)
    (hcalls : ∀ name, session'.scope.loops.find? name = some scanned.loop →
      calls name scanned.operands) :
    session.scope.Appends session'.scope
      (Fresh session.scope.declarations (result.pairs (node.map f)) calls) := by
  obtain ⟨name, hcall⟩ := scanned.calls
  have hgrows := scanned.grows_operands
  refine (scanned.gets.appends fun _ _ _ => .load).trans ?_ scanned.grows_call
  have hle := scanned.count_le
  have hitems := @World.Calls.appends _ _ _ calls _ _ _ _ _ hcall (hcalls name hcall.called.2)
    fun i hi => hgrows.declarations ▸ hnames.several hop body hbody i (.inr (by omega))
  rw [hgrows.declarations, ← scanned.returned] at hitems
  exact hitems

end Handler

/-- Whatever a node becomes that is not a constant, labels on new nodes say
what is declared of the names of its results. -/
theorem Served.appends {context : Context} {session session' : Session} {handler : Handler}
    (served : Served context.opset node.op handler) (hop : node.op ≠ "Constant")
    (h : handler (node.map f) context session = .ok result session')
    (hnames : node.NamesResults context.opset session.scope.declarations)
    (hscans : node.op = "Scan" → ∀ scanned : Handler.Scanned (.ofOpset context.opset) (node.map f)
        context session result session',
      (∃ body, node.graph? "body" = some body
        ∧ scanned.subgraph.outputNames.length = body.body.outputs.length)
      ∧ ∀ name, session'.scope.loops.find? name = some scanned.loop → calls name scanned.operands) :
    session.scope.Appends session'.scope
      (Fresh session.scope.declarations (result.pairs (node.map f)) calls) := by
  have hbinary {op : Op} (hname : node.op = "Add" ∨ node.op = "Mul") (hopset : ¬ 7 ≤ context.opset)
      (h : Handler.alignedBinary op (node.map f) context session = .ok result session') :
      session.scope.Appends session'.scope
        (Fresh session.scope.declarations (result.pairs (node.map f)) calls) := by
    have hsingle : node.op ≠ "Scan" := fun hscan => by
      rcases hname with hname | hname <;> exact absurd (hname.symm.trans hscan) (by decide)
    obtain ⟨values, broadcast, hvalues, hbroadcast, happlied⟩ := Handler.alignedBinary_eq_ok h
    rw [NodeOf.values_map] at hvalues
    split at happlied
    · exact Handler.Applied.appends happlied hsingle hnames
    · next hzero =>
        obtain ⟨happlied⟩ := happlied
        refine Handler.AppliedAligned.appends happlied (hnames.intermediate (.inr ?_))
        refine ⟨hname, Int.not_le.1 hopset, values, hvalues, fun heq => hzero ?_⟩
        exact Outcome.ok.inj (hbroadcast.symm.trans heq)
  have hscan (hname : node.op = "Scan")
      (h : Handler.scanWith (.ofOpset context.opset) (node.map f) context session
        = .ok result session') :
      session.scope.Appends session'.scope
        (Fresh session.scope.declarations (result.pairs (node.map f)) calls) := by
    obtain ⟨scanned⟩ := Handler.scanWith_eq_ok h
    obtain ⟨⟨body, hbody, hcount⟩, hcalls⟩ := hscans hname scanned
    exact scanned.appends hname hnames hbody hcount hcalls
  have hsingle : ∀ {op}, node.op = op → op ≠ "Scan" → node.op ≠ "Scan" := fun hname hne =>
    hname ▸ hne
  generalize hname : node.op = op at served
  cases served with
  | constant => exact absurd hname hop
  | identity =>
      obtain ⟨name, ref, -, hgets, rfl⟩ := Handler.identity_eq_ok h
      exact hgets.appends fun _ _ _ => .load
  | add _ => exact Handler.Applied.appends (Handler.binary_eq_ok h) (hsingle hname (by decide)) hnames
  | addAligned hopset => exact hbinary (.inl hname) hopset h
  | multiply _ =>
      exact Handler.Applied.appends (Handler.binary_eq_ok h) (hsingle hname (by decide)) hnames
  | multiplyAligned hopset => exact hbinary (.inr hname) hopset h
  | sqrt => exact Handler.Applied.appends (Handler.sqrt_eq_ok h) (hsingle hname (by decide)) hnames
  | random =>
      obtain ⟨_, _, -, -, happlied⟩ := Handler.random_eq_ok h
      exact Handler.Applied.appends happlied (hsingle hname (by decide)) hnames
  | randomLike =>
      obtain ⟨_, _, -, -, happlied⟩ := Handler.randomLike_eq_ok h
      exact Handler.Applied.appends happlied (hsingle hname (by decide)) hnames
  | scatter =>
      exact Handler.Applied.appends (Handler.scatter_eq_ok h) (hsingle hname (by decide)) hnames
  | scanBatched hopset =>
      refine hscan hname ?_
      rw [Handler.ScanSyntax.ofOpset, if_neg hopset]
      exact Handler.scanBatched_eq_ok h
  | scan hopset =>
      refine hscan hname ?_
      rw [Handler.ScanSyntax.ofOpset, if_pos hopset]
      exact h
  | spectrum =>
      obtain ⟨_, -, ⟨happlied⟩⟩ := Handler.spectrum_eq_ok h
      exact Handler.AppliedSpectrum.appends happlied (hnames.intermediate (.inl hname))

end

end OnnxLowering
