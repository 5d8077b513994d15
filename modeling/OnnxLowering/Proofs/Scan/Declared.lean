/-
What is declared of the results of a scan. The nodes that take them out
of what the loop returns are numbered by the positions of the outputs,
and so are the values that the names of the outputs get. The label of a
node, however, goes by the position among the outputs that are not left
out, and beyond these by the name of the scan.

So a name has what is declared of it on its node where nothing in front
of it is left out, and elsewhere only if the same is declared of the name
that its node was labelled for (`scan_labels_iff`).
-/
import OnnxLowering.Proofs.Handler.Moves
import OnnxLowering.Proofs.Scan.Simulation

namespace OnnxLowering

-- ================================================================= labels

/-- A label says of shape and type what is declared of a value, and
nothing if nothing is. -/
def Label.Carries (label : Label) (declared : Option KnownType) : Prop :=
  label.shape = declared.map KnownType.shape ∧ label.dtype = declared.map KnownType.dtype

instance (label : Label) (declared : Option KnownType) : Decidable (label.Carries declared) :=
  inferInstanceAs (Decidable (_ ∧ _))

/-- What is declared of the name that a node goes by when it labels its
result number `output`. -/
def NodeOf.labelled? {G : Type} (node : NodeOf G) (declarations : NameMap KnownType)
    (output : Nat) : Option KnownType :=
  let name := node.namedOutputs.getD output node.name
  if name.isEmpty then none else declarations.find? name

theorem carries_labelOf {G : Type} (scope : Scope) (node : NodeOf G) (output : Nat)
    (declared : Option KnownType) :
    (Lower.labelOf scope node output true).Carries declared
      ↔ node.labelled? scope.declarations output = declared := by
  have hlabel : (Lower.labelOf scope node output true).Carries
      (node.labelled? scope.declarations output) := by
    unfold Lower.labelOf NodeOf.labelled?
    simp [Label.Carries]
  constructor
  · intro hdeclared
    have hshape := hlabel.1.symm.trans hdeclared.1
    have hdtype := hlabel.2.symm.trans hdeclared.2
    cases hlabelled : node.labelled? scope.declarations output with
    | none =>
        rw [hlabelled] at hshape
        cases declared with
        | none => rfl
        | some known => cases hshape
    | some known =>
        rw [hlabelled] at hshape hdtype
        cases declared with
        | none => cases hshape
        | some known' =>
            obtain ⟨shape, dtype⟩ := known
            obtain ⟨shape', dtype'⟩ := known'
            cases hshape
            cases hdtype
            rfl
  · rintro rfl
    exact hlabel

-- =============================================================== positions

namespace NodeOf

variable {G : Type} {node : NodeOf G} {name : String} {i : Nat}

/-- Where nothing in front of an output is left out, it has the same
position among the outputs that are given. -/
theorem getElem?_namedOutputs (hi : node.outputs[i]? = some name) (hgiven : name.isEmpty = false)
    (hfront : ∀ other ∈ node.outputs.take i, other.isEmpty = false) :
    node.namedOutputs[i]? = some name := by
  obtain ⟨hlt, hname⟩ := List.getElem?_eq_some_iff.1 hi
  have hkept : (node.outputs.take i).filter (!·.isEmpty) = node.outputs.take i := by
    rw [List.filter_eq_self]
    intro other hother
    simp [hfront other hother]
  have hlength : (node.outputs.take i).length = i := by
    rw [List.length_take]
    omega
  have hsplit : node.namedOutputs
      = node.outputs.take i ++ (node.outputs.drop i).filter (!·.isEmpty) := by
    rw [namedOutputs]
    conv => lhs; rw [← List.take_append_drop i node.outputs]
    rw [List.filter_append, hkept]
  have hdrop : node.outputs.drop i = name :: node.outputs.drop (i + 1) := by
    rw [List.drop_eq_getElem_cons hlt, hname]
  rw [hsplit, List.getElem?_append_right (by omega), hlength, Nat.sub_self, hdrop]
  simp [hgiven]

/-- An output has a last position. -/
theorem exists_last_output (hname : name ∈ node.outputs) :
    ∃ i, node.outputs[i]? = some name ∧ name ∉ node.outputs.drop (i + 1) := by
  generalize node.outputs = outputs at hname ⊢
  induction outputs with
  | nil => cases hname
  | cons first rest ih =>
      by_cases hrest : name ∈ rest
      · obtain ⟨i, hi, hlast⟩ := ih hrest
        exact ⟨i + 1, hi, hlast⟩
      · obtain rfl | hmem := List.mem_cons.1 hname
        · exact ⟨0, rfl, hrest⟩
        · exact absurd hmem hrest

end NodeOf

-- ================================================================= results

namespace Handler

variable {node : NodeOf Importer} {context : Context} {session session' : Session}

/-- **Declared results.** A scan is lowered, and a name is given to its results. The
name stands for the result at its last position. The node of that result
carries what is declared of the name if and only if the same is declared
of the name that the node is labelled for; if no output in front of it is
left out, that is the name itself. -/
theorem scan_labels_iff (hop : node.op = "Scan")
    (h : Lower.lowerNode Handlers.standard node context session = .ok () session')
    {name : String} (hname : name ∈ node.outputs) (hgiven : name.isEmpty = false) :
    ∃ i call result label, node.outputs[i]? = some name ∧ name ∉ node.outputs.drop (i + 1)
      ∧ session'.scope.bindings.find? name = some (.node result)
      ∧ session'.scope.nodes[result]? = some ⟨.apply (.item i) [.node call], label⟩
      ∧ (label.Carries (session.scope.declarations.find? name)
        ↔ node.labelled? session.scope.declarations i = session.scope.declarations.find? name)
      ∧ ((∀ other ∈ node.outputs.take i, other.isEmpty = false) →
        label.Carries (session.scope.declarations.find? name)) := by
  obtain ⟨-, version, handler, result, log, middle, hfind, hresult, hbind⟩ :=
    Lower.lowerNode_bindResult h
  obtain ⟨spelling, hscanned⟩ : ∃ spelling, scanWith spelling node context { session with log }
      = .ok result middle := by
    rcases (Handlers.served_of_find? hfind).of_scan hop with rfl | rfl
    · exact ⟨_, scanBatched_eq_ok hresult⟩
    · exact ⟨_, hresult⟩
  obtain ⟨scanned⟩ := scanWith_eq_ok hscanned
  obtain ⟨i, hi, hlast⟩ := NodeOf.exists_last_output hname
  have hsession := Lower.bindResult_eq_ok hbind
  rw [scanned.returned] at hbind
  have hcount : i < scanned.loopPlan.states + scanned.loopPlan.outputAxes.length := by
    have hle := Lower.length_outputs_le hbind
    have hlt := (List.getElem?_eq_some_iff.1 hi).1
    simp only [List.length_map, List.length_range] at hle
    omega
  have hpairs := congrArg (Result.pairs node) scanned.returned
  have hpair : (result.pairs node)[i]?
      = some (name, .node (scanned.middle.scope.nodes.length + 1 + i)) := by
    rw [hpairs]
    refine List.getElem?_zip_eq_some.2 ⟨hi, ?_⟩
    rw [List.getElem?_map, List.getElem?_range hcount]
    rfl
  have hcarries := carries_labelOf scanned.middle.scope node i
    (session.scope.declarations.find? name)
  have hsame : scanned.middle.scope.declarations = session.scope.declarations :=
    scanned.grows_operands.declarations
  rw [hsame] at hcarries
  refine ⟨i, scanned.middle.scope.nodes.length, scanned.middle.scope.nodes.length + 1 + i,
    Lower.labelOf scanned.middle.scope node i true, hi, hlast, ?_, ?_, hcarries, fun hfront => ?_⟩
  · rw [hsession]
    refine find?_bound hpair hgiven fun pair hmem heq => hlast ?_
    rw [hpairs, Result.pairs, List.zip, List.drop_zipWith] at hmem
    exact heq ▸ (List.of_mem_zip hmem).1
  · rw [hsession]
    exact scanned.getElem?_items hcount
  · rw [hcarries, NodeOf.labelled?, List.getD_eq_getElem?_getD,
      NodeOf.getElem?_namedOutputs hi hgiven hfront]
    simp [hgiven]

-- ================================================================ examples

/-- A body that hands its state on, and returns the element that it reads
twice. -/
def twiceBody : Graph :=
  ⟨{ nodes := []
     inputs := [{ name := "s" }, { name := "x" }]
     outputs := [{ name := "s" }, { name := "x" }, { name := "x" }] }⟩

/-- A scan with this body, and names for its results. -/
def twiceNode (outputs : List String) : NodeOf Importer :=
  NodeOf.map (Graph.fold Handlers.standard.importer)
    { op := "Scan"
      inputs := ["a", "b"]
      outputs
      attributes := [("body", .graph twiceBody), ("num_scan_inputs", .int 1)] }

/-- The inputs of the scan have values, and two results have declared
types: two numbers, and any number of numbers. -/
def twiceSession : Session where
  scope :=
    { bindings := .ofList [("a", .input 0), ("b", .input 1)]
      declarations := .ofList
        [("p", ⟨some [some 2], some .float32⟩), ("q", ⟨some [none], some .float32⟩)] }

/-- The second and the third result are named, and so is the first: the
node of the second one has its shape and type. -/
theorem scan_labels_twice :
    ∃ session' result action label,
      Lower.lowerNode Handlers.standard (twiceNode ["f", "p", "q"]) ⟨9, []⟩ twiceSession
        = .ok () session'
      ∧ session'.scope.bindings.find? "p" = some (.node result)
      ∧ session'.scope.nodes[result]? = some ⟨action, label⟩
      ∧ label.Carries (some ⟨some [some 2], some .float32⟩) := by
  obtain ⟨_, session', h⟩ : ∃ u session', Lower.lowerNode Handlers.standard
      (twiceNode ["f", "p", "q"]) ⟨9, []⟩ twiceSession = .ok u session' :=
    Lower.exists_of_succeeds (by decide +kernel)
  obtain ⟨i, call, result, label, hi, -, hbinding, hnode, -, hcarries⟩ :=
    @scan_labels_iff _ _ _ _ rfl h "p" (by decide) rfl
  refine ⟨session', result, _, label, h, hbinding, hnode, hcarries ?_⟩
  obtain rfl : i = 1 := by
    rcases i with _ | _ | _ | i
    · exact absurd hi (by decide)
    · rfl
    · exact absurd hi (by decide)
    · cases hi
  decide

/-- With the first result left out, the node of the second one has what
is declared of the third, and the node of that has nothing. -/
theorem scan_mislabels_twice :
    let run := Lower.lowerNode Handlers.standard (twiceNode ["", "p", "q"])
    let scope := (run.last ⟨9, []⟩ twiceSession).scope
    run.succeeds ⟨9, []⟩ twiceSession = true
      ∧ (scope.bindings.find? "p").map (fun ref => (scope.label ref).shape)
        = some (some (some [none]))
      ∧ (scope.bindings.find? "q").map (fun ref => (scope.label ref).shape) = some none := by
  decide +kernel

end Handler

end OnnxLowering
