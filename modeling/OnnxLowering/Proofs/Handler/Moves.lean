/-
Handlers make moves. Each of them reads values and appends operations on
these, apart from the one for constants, which stores a tensor. A node is
lowered by the moves of its handler and then gives names to values that
are there.
-/
import OnnxLowering.Proofs.Handler.Standard
import OnnxLowering.Proofs.Lowering.Moves
import OnnxLowering.Proofs.Scan.Simulation

namespace OnnxLowering

/-- The values that a result consists of. -/
def Result.refs : Result → List Ref
  | .one ref => [ref]
  | .many refs => refs
  | _ => []

theorem Result.mem_refs_of_mem_pairs {G : Type} {node : NodeOf G} {result : Result}
    {pair : String × Ref} (h : pair ∈ result.pairs node) : pair.2 ∈ result.refs := by
  cases result with
  | one ref =>
      obtain ⟨name, -, rfl⟩ := List.mem_map.1 h
      exact List.mem_cons_self
  | many refs => exact (List.of_mem_zip h).2
  | nothing => cases h
  | unsupported => cases h

/-- The names that get values are outputs of the node. -/
theorem Result.mem_namedOutputs_of_mem_pairs {G : Type} {node : NodeOf G} {result : Result}
    {pair : String × Ref} (h : pair ∈ result.pairs node) (hname : pair.1.isEmpty = false) :
    pair.1 ∈ node.namedOutputs := by
  cases result with
  | one ref =>
      obtain ⟨name, hmem, rfl⟩ := List.mem_map.1 h
      exact List.mem_of_mem_take hmem
  | many refs => exact List.mem_filter.2 ⟨(List.of_mem_zip h).1, by rw [hname]; rfl⟩
  | nothing => cases h
  | unsupported => cases h

namespace Handler

variable {outer : Scopes} {rules : Rules} {node : NodeOf Importer} {scope scope' : Scope}
  {result : Result} {op : Op}

/-- The moves of a handler, and that there are values for its result. -/
def Makes (outer : Scopes) (rules : Rules) (scope scope' : Scope) (result : Result) : Prop :=
  Moves outer rules scope scope' ∧ ∀ ref ∈ result.refs, scope'.Has ref

theorem Applies.moves {refs : List Ref} (h : scope.Applies node op refs scope')
    (hrefs : ∀ ref ∈ refs, scope.Has ref) :
    Moves outer rules scope scope' ∧ scope'.Has (.node scope.nodes.length) := by
  obtain ⟨nodeNames, supply⟩ := h
  refine ⟨.single (.apply hrefs), ?_⟩
  show _ < (scope.nodes ++ [_]).length
  rw [List.length_append]
  exact Nat.lt_succ_self _

theorem mem_inputs_of_map_eq {count : Nat} {names : List String}
    (h : (List.range count).map (node.inputs[·]?) = names.map some) :
    ∀ name ∈ names, name ∈ node.inputs := by
  intro name hname
  have hmem := List.mem_map_of_mem (f := some) hname
  rw [← h] at hmem
  obtain ⟨i, -, hi⟩ := List.mem_map.1 hmem
  exact List.mem_of_getElem? hi

theorem Applied.makes {count : Nat} (h : Applied node op count outer scope scope' result)
    (hreads : ∀ name ∈ node.inputs, rules.reads name) (tied : scope.Tied) :
    Makes outer rules scope scope' result := by
  obtain ⟨names, refs, middle, hnames, hgets, happlies, rfl⟩ := h
  obtain ⟨hread, hrefs⟩ := hgets.moves (fun name hname =>
    hreads name (mem_inputs_of_map_eq hnames name hname)) tied
  obtain ⟨happly, hlast⟩ := Applies.moves happlies hrefs
  exact ⟨hread.trans happly, List.forall_mem_singleton.2 hlast⟩

theorem AppliedAligned.makes {values : Attributes}
    (h : AppliedAligned node op values outer scope scope' result)
    (hreads : ∀ name ∈ node.inputs, rules.reads name) (tied : scope.Tied) :
    Makes outer rules scope scope' result := by
  obtain ⟨lhsName, rhsName, lhs, rhs, axis, middle, placed, hlhs, hrhs, hgets, -, haligns,
    happlies, rfl⟩ := h
  have hnames : ∀ name ∈ [lhsName, rhsName], rules.reads name :=
    List.forall_mem_cons.2 ⟨hreads _ (List.mem_of_getElem? hlhs),
      List.forall_mem_singleton.2 (hreads _ (List.mem_of_getElem? hrhs))⟩
  obtain ⟨hread, hrefs⟩ := hgets.moves hnames tied
  obtain ⟨halign, hplaced⟩ := Applies.moves haligns hrefs
  obtain ⟨happly, hlast⟩ := Applies.moves happlies (List.forall_mem_cons.2
    ⟨(hrefs lhs List.mem_cons_self).extend halign.extends, List.forall_mem_singleton.2 hplaced⟩)
  exact ⟨hread.trans (halign.trans happly), List.forall_mem_singleton.2 hlast⟩

theorem GetsWindow.moves {window : Option (String × Ref)}
    (h : GetsWindow node outer scope window scope')
    (hreads : ∀ name ∈ node.inputs, rules.reads name) (tied : scope.Tied) :
    Moves outer rules scope scope' ∧ ∀ named ∈ window, scope'.Has named.2 := by
  cases h with
  | none _ => exact ⟨.refl, fun _ hmem => nomatch hmem⟩
  | some hname _ gets =>
      refine ⟨.single (.value (hreads _ (List.mem_of_getElem? hname)) gets), ?_⟩
      rintro _ ⟨⟩
      exact (gets.tied tied).2

theorem Multiplies.moves {frames frames' : Ref} {window : Option (String × Ref)}
    (h : Multiplies node scope frames window frames' scope') (hframes : scope.Has frames)
    (hwindow : ∀ named ∈ window, scope.Has named.2) :
    Moves outer rules scope scope' ∧ scope'.Has frames' := by
  cases h with
  | none => exact ⟨.refl, hframes⟩
  | some applies =>
      exact Applies.moves applies (List.forall_mem_cons.2
        ⟨hframes, List.forall_mem_singleton.2 (hwindow _ rfl)⟩)

theorem AppliedSpectrum.makes {values : Attributes}
    (h : AppliedSpectrum node values outer scope scope' result)
    (hreads : ∀ name ∈ node.inputs, rules.reads name) (tied : scope.Tied) :
    Makes outer rules scope scope' result := by
  obtain ⟨hsignal, hsignalHas⟩ := h.getsSignal.tied tied
  have hfirst : Moves outer rules scope h.started :=
    .single (.value (hreads _ (List.mem_of_getElem? h.signalInput)) h.getsSignal)
  obtain ⟨hsecond, hwindow⟩ := GetsWindow.moves h.getsWindow hreads hsignal
  obtain ⟨hthird, hframes⟩ := Applies.moves h.cuts
    (List.forall_mem_singleton.2 (hsignalHas.extend hsecond.extends))
  obtain ⟨hfourth, hmultiplied⟩ := Multiplies.moves h.multiplies hframes
    fun named hnamed => (hwindow named hnamed).extend hthird.extends
  obtain ⟨hfifth, hlast⟩ := Applies.moves h.transforms (List.forall_mem_singleton.2 hmultiplied)
  refine ⟨hfirst.trans (hsecond.trans (hthird.trans (hfourth.trans hfifth))), ?_⟩
  rw [h.returned]
  exact List.forall_mem_singleton.2 hlast

theorem Calls.makes {name : String} {loop : Loop} {refs : List Ref} {count : Nat}
    (h : World.Calls scope node name loop refs count scope') (hloop : rules.loops loop)
    (hrefs : ∀ ref ∈ refs, scope.Has ref) :
    Makes outer rules scope scope' (.many ((List.range count).map fun i =>
      .node (scope.nodes.length + 1 + i))) := by
  obtain ⟨nodeNames, supply, loopCounters⟩ := h
  have hcall : Move outer rules scope (scope.run name loop refs (Lower.labelOf scope node 0 false)
      nodeNames supply loopCounters) := .call hloop hrefs
  have hlength : (scope.run name loop refs (Lower.labelOf scope node 0 false) nodeNames supply
      loopCounters).nodes.length = scope.nodes.length + 1 := List.length_append
  have hitems := @Moves.apply_all outer rules
    (scope.run name loop refs (Lower.labelOf scope node 0 false) nodeNames supply loopCounters) Nat
    (fun i => ⟨.apply (.item i) [.node scope.nodes.length], Lower.labelOf scope node i true⟩)
    (List.range count) fun i => ⟨_, _, rfl, List.forall_mem_singleton.2 (by
      show _ < _
      rw [hlength]
      exact Nat.lt_succ_self _)⟩
  constructor
  · refine .head hcall ?_
    simp only [Scope.run, List.append_assoc, List.singleton_append] at hitems
    exact hitems
  · intro ref href
    obtain ⟨i, hi, rfl⟩ := List.mem_map.1 href
    have hi := List.mem_range.1 hi
    show _ < (scope.nodes ++ _ :: List.map _ (List.range count)).length
    rw [List.length_append, List.length_cons, List.length_map, List.length_range]
    omega

theorem Scanned.makes {spelling : ScanSyntax} {context : Context} {session session' : Session}
    (scanned : Scanned spelling node context session result session')
    (hreads : ∀ name ∈ node.inputs ++ scanned.subgraph.outerInputs, rules.reads name)
    (hloop : rules.loops scanned.loop) (tied : session.scope.Tied) :
    Makes context.outer rules session.scope session'.scope result := by
  obtain ⟨name, hcalls⟩ := scanned.calls
  have hnames : ∀ name ∈ spelling.names node ++ scanned.subgraph.outerInputs, rules.reads name := by
    intro name hname
    refine hreads name (List.mem_append.2 ?_)
    exact (List.mem_append.1 hname).imp_left List.mem_of_mem_drop
  obtain ⟨hread, hrefs⟩ := scanned.gets.moves hnames tied
  obtain ⟨hcall, hthere⟩ := @Calls.makes context.outer _ _ _ _ _ _ _ _ hcalls hloop hrefs
  rw [scanned.returned]
  exact ⟨hread.trans hcall, hthere⟩

theorem scanBatched_eq_ok {context : Context} {session session' : Session}
    (h : scanBatched node context session = .ok result session') :
    scanWith ⟨1, 1, "directions"⟩ node context session = .ok result session' := by
  unfold scanBatched at h
  exact (Lower.guard_eq_ok'.1 h).2

end Handler

-- ==================================================================== nodes

open Handler (Makes Scanned constantSource)

variable {rules : Rules} {node : NodeOf Importer} {context : Context}
  {session session' : Session}

/-- All handlers but the one for constants read, append and call. -/
theorem Served.makes {op : String} {handler : Handler} {result : Result}
    (served : Served context.opset op handler) (hop : op ≠ "Constant")
    (h : handler node context session = .ok result session')
    (hreads : ∀ name ∈ node.inputs, rules.reads name)
    (hscans : ∀ spelling, ∀ scanned : Scanned spelling node context session result session',
      (∀ name ∈ scanned.subgraph.outerInputs, rules.reads name) ∧ rules.loops scanned.loop)
    (tied : session.scope.Tied) :
    Makes context.outer rules session.scope session'.scope result := by
  have hbinary {op : Op} (h : Handler.alignedBinary op node context session = .ok result session') :
      Makes context.outer rules session.scope session'.scope result := by
    obtain ⟨values, broadcast, -, -, happlied⟩ := Handler.alignedBinary_eq_ok h
    split at happlied
    · exact Handler.Applied.makes happlied hreads tied
    · obtain ⟨happlied⟩ := happlied
      exact Handler.AppliedAligned.makes happlied hreads tied
  have hscan {spelling : Handler.ScanSyntax}
      (h : Handler.scanWith spelling node context session = .ok result session') :
      Makes context.outer rules session.scope session'.scope result := by
    obtain ⟨scanned⟩ := Handler.scanWith_eq_ok h
    obtain ⟨houter, hloop⟩ := hscans spelling scanned
    exact scanned.makes (fun name hname =>
      (List.mem_append.1 hname).elim (hreads name) (houter name)) hloop tied
  cases served with
  | constant => exact absurd rfl hop
  | identity =>
      obtain ⟨name, ref, hname, hgets, rfl⟩ := Handler.identity_eq_ok h
      exact ⟨.single (.value (hreads name (List.mem_of_getElem? hname)) hgets),
        List.forall_mem_singleton.2 (hgets.tied tied).2⟩
  | add _ => exact Handler.Applied.makes (Handler.binary_eq_ok h) hreads tied
  | addAligned _ => exact hbinary h
  | multiply _ => exact Handler.Applied.makes (Handler.binary_eq_ok h) hreads tied
  | multiplyAligned _ => exact hbinary h
  | sqrt => exact Handler.Applied.makes (Handler.sqrt_eq_ok h) hreads tied
  | random =>
      obtain ⟨_, _, -, -, happlied⟩ := Handler.random_eq_ok h
      exact Handler.Applied.makes happlied hreads tied
  | randomLike =>
      obtain ⟨_, _, -, -, happlied⟩ := Handler.randomLike_eq_ok h
      exact Handler.Applied.makes happlied hreads tied
  | scatter => exact Handler.Applied.makes (Handler.scatter_eq_ok h) hreads tied
  | scanBatched _ => exact hscan (Handler.scanBatched_eq_ok h)
  | scan _ => exact hscan h
  | spectrum =>
      obtain ⟨_, -, ⟨happlied⟩⟩ := Handler.spectrum_eq_ok h
      exact Handler.AppliedSpectrum.makes happlied hreads tied

/-- A constant is stored under the name that it is then given. -/
theorem NodeOf.constantSource_eq {G : Type} {node : NodeOf G} {visible : Visible}
    (h : node.givesNew visible = true) (hop : node.op = "Constant") :
    node.namedOutputs.take 1 = [Handler.constantSource node] := by
  rw [NodeOf.givesNew, Bool.and_eq_true, hop] at h
  unfold Handler.constantSource NodeOf.namedOutputs
  cases houtputs : node.outputs with
  | nil =>
      rw [houtputs] at h
      exact absurd h.2 (by decide)
  | cons name others =>
      have hname : name.isEmpty = false := by
        rw [houtputs] at h
        simpa using h.2
      rw [List.headD_cons, List.filter_cons_of_pos (by rw [hname]; rfl), hname]
      rfl

theorem NodeOf.constantSource_mem {G : Type} {node : NodeOf G} {visible : Visible}
    (h : node.givesNew visible = true) (hop : node.op = "Constant") :
    Handler.constantSource node ∈ node.namedOutputs :=
  List.mem_of_mem_take (NodeOf.constantSource_eq h hop ▸ List.mem_singleton_self _)

/-- Rules permit what a node does in a session. A constant may be stored
under a name that is then given to it. -/
structure Rules.Permit (rules : Rules) (node : NodeOf Importer) (context : Context)
    (session : Session) : Prop where
  reads : ∀ name ∈ node.inputs, rules.reads name
  scans : ∀ spelling log result middle,
    ∀ scanned : Scanned spelling node context { session with log } result middle,
      (∀ name ∈ scanned.subgraph.outerInputs, rules.reads name) ∧ rules.loops scanned.loop
  constants : node.op = "Constant" → rules.constants session.scope (constantSource node)
    ∧ ∀ name ∈ node.namedOutputs.take 1, name = constantSource node
      ∨ ∀ scope, rules.outputs scope name
  outputs : node.op ≠ "Constant" → ∀ middle, Moves context.outer rules.reading session.scope middle →
    ∀ name ∈ node.namedOutputs, ∀ bindings, rules.outputs { middle with bindings } name

theorem lowerNode_moves {u : Unit}
    (h : Lower.lowerNode Handlers.standard node context session = .ok u session')
    (permit : rules.Permit node context session) (tied : session.scope.Tied) :
    Moves context.outer rules session.scope session'.scope := by
  obtain ⟨-, version, handler, result, log, middle, hfind, hhandler, rfl⟩ := Lower.lowerNode_eq_ok h
  have served := Handlers.served_of_find? hfind
  by_cases hop : node.op = "Constant"
  · obtain rfl : handler = Handler.constant := served.of_constant hop
    obtain ⟨values, t, -, -, rfl, hstores⟩ := Handler.constant_eq_ok hhandler
    replace hstores : session.scope.Stores (constantSource node) t middle.scope := hstores
    obtain ⟨hgiven, hname⟩ := permit.constants hop
    refine .head (.constant hgiven hstores) ?_
    obtain ⟨-, hthere, -, hconstants⟩ := hstores.extends
    -- there is one name at most for the one value
    cases houtputs : node.namedOutputs with
    | nil =>
        rw [Result.pairs, houtputs]
        exact .refl
    | cons name others =>
        rw [houtputs, List.take_succ_cons, List.take_zero, List.forall_mem_singleton] at hname
        have hempty : name.isEmpty = false := by
          have hmem : name ∈ node.namedOutputs := houtputs ▸ List.mem_cons_self
          exact Bool.not_inj (List.mem_filter.1 hmem).2
        rw [Result.pairs, houtputs, List.take_succ_cons, List.take_zero, List.map_singleton, bound_cons,
          hempty]
        rcases hname with rfl | hgiven
        · refine .single (.settle ?_ ?_)
          · rw [hconstants, NameMap.find?_insert_self]
          · rw [hstores.tensors_eq, NameMap.contains_insert_self]
        · exact .single (.output (hgiven _) hthere)
  · obtain ⟨hmoves, hthere⟩ := @Served.makes rules.reading _ _ _ _ _ _ _ served hop hhandler
      permit.reads
      (fun spelling scanned => permit.scans spelling log result middle scanned) tied
    refine hmoves.of_reading.trans (Moves.bound fun pair hpair hname => ⟨?_, ?_⟩)
    · exact hthere _ (Result.mem_refs_of_mem_pairs hpair)
    · exact permit.outputs hop middle.scope hmoves pair.1
        (Result.mem_namedOutputs_of_mem_pairs hpair hname)

/-- Nodes are lowered by the moves of one after the other. -/
theorem lowerNodes_moves {nodes : List (NodeOf Importer)} {u : Unit}
    (h : Lower.lowerNodes Handlers.standard nodes context session = .ok u session')
    (permit : ∀ node ∈ nodes, ∀ session, rules.Permit node context session)
    (tied : session.scope.Tied) : Moves context.outer rules session.scope session'.scope := by
  induction nodes generalizing session with
  | nil =>
      cases h
      exact .refl
  | cons node nodes ih =>
      rw [List.forall_mem_cons] at permit
      obtain ⟨middle, hfirst, hrest⟩ := Lower.lowerNodes_cons_eq_ok h
      have hmoves := lowerNode_moves hfirst (permit.1 session) tied
      exact hmoves.trans (ih hrest permit.2 (hmoves.tied tied))

end OnnxLowering
