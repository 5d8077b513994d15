/-
Lowered modules are well formed. Every move keeps the module under
construction sound: what its nodes refer to is there, and its inputs are
those of the graph and then one for every name that has been captured. So
the module of a graph is in order when it is printed, at any depth, and
it stays so when a scan has made it the body of a loop, in which the scan
inputs are read by nothing but the nodes that squeeze them.
-/
import OnnxLowering.Proofs.Handler.Moves
import OnnxLowering.Proofs.Lowering.Whole

namespace OnnxLowering

namespace Scope

/-- The nodes of a scope refer to what is there. -/
def NodesSound (scope : Scope) : Prop := (scope.module (.tuple [])).Sound

/-- A scope of which a module in order can be made. -/
structure Sound (outer : Scopes) (allowed : Loop → Prop) (scope : Scope) : Prop where
  nodes : scope.NodesSound
  inputs : scope.inputs.map (fun input => input.label.name)
    = (scope.inputNames ++ scope.outerInputs).map some
  captured : ∀ name ∈ scope.outerInputs, outer.defines name = true
  loops : ∀ entry ∈ scope.loops.entries, allowed entry.2

variable {outer : Scopes} {allowed : Loop → Prop} {scope scope' : Scope}

/-- More inputs, tensors and loops. -/
theorem NodesSound.extend (h : scope.NodesSound) (hnodes : scope'.nodes = scope.nodes)
    (hinputs : scope.inputs <+: scope'.inputs)
    (hattributes : ∀ name, scope.attributes.contains name = true →
      scope'.attributes.contains name = true)
    (hloops : ∀ name, scope.loops.contains name = true → scope'.loops.contains name = true) :
    scope'.NodesSound where
  operands i node hnode ref href := by
    replace hnode : scope'.nodes[i]? = some node := hnode
    rw [hnodes] at hnode
    exact (h.operands i node hnode ref href).mono hinputs.length_le (Nat.le_refl i)
  found node hnode := by
    replace hnode : node ∈ scope'.nodes := hnode
    rw [hnodes] at hnode
    have hfound := h.found node hnode
    show node.action.Finds scope'.attributes scope'.loops
    cases haction : node.action with
    | load name =>
        rw [haction] at hfound
        exact hattributes name hfound
    | apply op operands => trivial
    | call name operands =>
        rw [haction] at hfound
        exact hloops name hfound
    | yield results =>
        rw [haction] at hfound
        exact hfound.elim
  results _ href := nomatch href

/-- One more node. -/
theorem NodesSound.append {node : Node} (h : scope.NodesSound)
    (hoperands : ∀ ref ∈ node.action.refs, scope.Has ref)
    (hfound : node.action.Finds scope.attributes scope.loops) :
    NodesSound { scope with nodes := scope.nodes ++ [node] } where
  operands i other hother ref href := by
    replace hother : (scope.nodes ++ [node])[i]? = some other := hother
    by_cases hi : i < scope.nodes.length
    · rw [List.getElem?_append_left hi] at hother
      exact h.operands i other hother ref href
    · rw [List.getElem?_append_right (Nat.le_of_not_lt hi), List.getElem?_singleton] at hother
      split at hother
      · next hlast =>
          cases hother
          exact (hoperands ref href).mono (Nat.le_refl _) (Nat.le_of_not_lt hi)
      · cases hother
  found other hother := by
    rcases List.mem_append.1 hother with hold | hlast
    · exact h.found other hold
    · rw [List.mem_singleton.1 hlast]
      exact hfound
  results _ href := nomatch href

theorem NodesSound.bind {name : String} {ref : Ref} (h : scope.NodesSound) :
    (scope.bind name ref).NodesSound :=
  h.extend rfl List.prefix_rfl (fun _ h => h) fun _ h => h

theorem Sound.stores {name : String} {t : Tensor} (h : scope.Sound outer allowed)
    (stores : scope.Stores name t scope') : scope'.Sound outer allowed := by
  obtain ⟨place, trainable, label, nodeNames, supply, attributeCounters, -, rfl⟩ := stores
  have hmore : NodesSound { scope with attributes := scope.attributes.insert place ⟨t, trainable⟩ } :=
    h.nodes.extend rfl List.prefix_rfl (fun _ => NameMap.contains_insert_of_contains) fun _ h => h
  have hnode := @NodesSound.append _ ⟨.load place, label⟩ hmore (fun _ href => nomatch href)
    (NameMap.contains_insert_self _ _ _)
  exact ⟨⟨hnode.operands, hnode.found, hnode.results⟩, h.inputs, h.captured, h.loops⟩

theorem Sound.bind {name : String} {ref : Ref} (h : scope.Sound outer allowed) :
    (scope.bind name ref).Sound outer allowed :=
  ⟨h.nodes.bind, h.inputs, h.captured, h.loops⟩

theorem Sound.gets {name : String} {ref : Ref} (h : scope.Sound outer allowed)
    (gets : scope.Gets outer name ref scope') : scope'.Sound outer allowed := by
  cases gets with
  | bound _ => exact h
  | constant _ => exact h
  | initial _ _ stores => exact h.stores stores
  | known _ stores => exact (h.stores stores).bind
  | copied _ _ _ stores => exact (h.stores stores).bind
  | captured _ visible _ captures =>
      obtain ⟨inputName, label, inputCounters, supply, hlabel, -, rfl⟩ := captures
      refine ⟨h.nodes.extend rfl (List.prefix_append _ _) (fun _ h => h) fun _ h => h, ?_, ?_, h.loops⟩
      · show (scope.inputs ++ [_]).map _ = (scope.inputNames ++ (scope.outerInputs ++ [name])).map some
        rw [List.map_append, h.inputs, ← List.append_assoc, List.map_append, List.map_append,
          List.map_append]
        exact congrArg (_ ++ [·]) hlabel
      · intro other hother
        rcases List.mem_append.1 hother with hold | hlast
        · exact h.captured other hold
        · rw [List.mem_singleton.1 hlast]
          exact visible

end Scope

/-- Every move keeps a scope sound. -/
theorem Move.sound {outer : Scopes} {rules : Rules} {scope scope' : Scope}
    (h : Move outer rules scope scope') (hsound : scope.Sound outer rules.loops) :
    scope'.Sound outer rules.loops := by
  cases h with
  | value _ gets => exact hsound.gets gets
  | @apply op operands label nodeNames supply there =>
      have hnode := @Scope.NodesSound.append _ ⟨.apply op operands, label⟩ hsound.nodes there trivial
      exact ⟨⟨hnode.operands, hnode.found, hnode.results⟩, hsound.inputs, hsound.captured,
        hsound.loops⟩
  | @call name loop operands label nodeNames supply loopCounters allowed there =>
      have hmore : Scope.NodesSound { scope with loops := scope.loops.insert name loop } :=
        hsound.nodes.extend rfl List.prefix_rfl (fun _ h => h)
          fun _ => NameMap.contains_insert_of_contains
      have hnode := @Scope.NodesSound.append _ ⟨.call name operands, label⟩ hmore there
        (NameMap.contains_insert_self _ _ _)
      exact ⟨⟨hnode.operands, hnode.found, hnode.results⟩, hsound.inputs, hsound.captured,
        List.forall_mem_cons.2 ⟨allowed, hsound.loops⟩⟩
  | constant _ stores => exact hsound.stores stores
  | output _ _ => exact hsound.bind
  | settle _ _ => exact hsound.bind

-- =================================================================== starts

section

variable {G : Type} {graph : GraphOf G} {start fed : Scope}

/-- A graph starts with its inputs. -/
theorem sound_of_feedsAll {outer : Scopes} {allowed : Loop → Prop}
    (hstart : Scope.ofGraph graph = .ok start) (feeds : start.FeedsAll graph.feedNames fed) :
    fed.Sound outer allowed ∧ fed.inputNames = graph.feedNames := by
  have hinputs := feeds.inputs
  have hsame := feeds.same
  obtain ⟨initial, -, rfl⟩ := ofGraph_eq_ok hstart
  rw [hsame]
  rw [List.map_nil, List.nil_append] at hinputs
  refine ⟨⟨⟨fun _ _ hnode => (nomatch hnode), fun _ hnode => (nomatch hnode),
    fun _ href => (nomatch href)⟩, ?_, fun _ hname => (nomatch hname),
    fun _ hloop => (nomatch hloop)⟩, rfl⟩
  show _ = (([] ++ graph.feedNames) ++ []).map some
  rw [List.append_nil]
  exact hinputs

end

/-- The names of the inputs stay. -/
theorem Move.inputNames {outer : Scopes} {rules : Rules} {scope scope' : Scope}
    (h : Move outer rules scope scope') : scope'.inputNames = scope.inputNames := by
  cases h with
  | @value _ name _ _ gets =>
      have hgrows : scope.Grows outer [name] [] scope' := gets.grows List.mem_cons_self
      exact hgrows.inputNames
  | constant _ stores =>
      obtain ⟨place, trainable, label, nodeNames, supply, attributeCounters, -, rfl⟩ := stores
      rfl
  | _ => rfl

-- =================================================================== graphs

mutual

/-- A module is a well-formed one of a graph that captures certain names:
its listing is in order, with the inputs of the graph first and then the
captured names, and all its loops are those of scans of the graph. -/
inductive WellFormed : GraphOf Graph → List String → Module → Prop
  | mk {graph : GraphOf Graph} {captured : List String} {m : Module}
      (listed : m.Listed (graph.feedNames ++ captured))
      (loops : ∀ entry ∈ m.loops.entries, ScanLoop graph entry.2) : WellFormed graph captured m

/-- A loop is that of a scan of a graph: its body is well formed, and
nothing reads a scan input there, that is, one of the last inputs of the
graph inside, but the node that squeezes it. -/
inductive ScanLoop : GraphOf Graph → Loop → Prop
  | mk {graph : GraphOf Graph} {node : NodeOf Graph} {g : Graph} {values : Attributes}
      {count : AttributeValue} {scanInputs : Int} {captured : List String} {wiring : Wiring}
      {arity : Nat} {body : Module} (mem : node ∈ graph.nodes) (graph? : node.graph? "body" = some g)
      (attributes : node.values = .ok values) (find? : values.find? "num_scan_inputs" = some count)
      (toInt : count.toInt = .ok scanInputs)
      (squeezed : ∀ i : Nat, (g.body.feedNames.length : Int) - scanInputs ≤ i →
        i < g.body.feedNames.length → body.OnlySqueezed i)
      (wellFormed : WellFormed g.body captured body) : ScanLoop graph (.mk wiring arity body)

end

/-- The rules that keep modules of a graph well formed. -/
def Rules.ofGraph (graph : GraphOf Graph) : Rules where
  reads _ := True
  constants _ _ := True
  outputs _ _ := True
  loops := ScanLoop graph

/-- A lowered graph is well formed if the loops that its nodes may become
are. -/
theorem Lowered.wellFormed {graph : GraphOf Graph} {f : Graph → Importer} {asTuple : Bool}
    {context : Context} {start left : Scope} {m : Module}
    (lowered : Lowered (graph.map f) asTuple context start m left)
    (hstart : Scope.ofGraph (graph.map f) = .ok start)
    (hscans : ∀ node ∈ graph.nodes, ∀ spelling session result session',
      ∀ scanned : Handler.Scanned spelling (node.map f) context session result session',
        ScanLoop graph scanned.loop) :
    m.Sound ∧ WellFormed graph left.outerInputs m ∧ left.inputNames = graph.feedNames
      ∧ ∀ name ∈ left.outerInputs, Scopes.defines context.outer name = true := by
  obtain ⟨_, -, -, -, -, htied, -⟩ := ofGraph_feedsAll hstart lowered.feeds
  obtain ⟨hsound, hnames⟩ :=
    @sound_of_feedsAll _ _ _ _ context.outer (ScanLoop graph) hstart lowered.feeds
  have hpermit : ∀ node ∈ (graph.map f).nodes, ∀ session,
      (Rules.ofGraph graph).Permit node context session := by
    intro node hnode session
    obtain ⟨node, hmem, rfl⟩ := List.mem_map.1 hnode
    exact {
      reads := fun _ _ => trivial
      scans := fun spelling log result middle scanned =>
        ⟨fun _ _ => trivial, hscans node hmem spelling _ result middle scanned⟩
      constants := fun _ => ⟨trivial, fun _ _ => .inr fun _ => trivial⟩
      outputs := fun _ _ _ _ _ _ => trivial }
  have hmoves := lowerNodes_moves lowered.nodes hpermit htied
  obtain ⟨hreads, hthere⟩ := @Scope.GetsAll.moves _ (Rules.ofGraph graph) _ _ _ _ lowered.outputs
    (fun _ _ => trivial) (hmoves.tied htied)
  have hwhole : Moves context.outer (Rules.ofGraph graph) lowered.fed.scope lowered.ended :=
    hmoves.trans hreads
  have hended : lowered.ended.Sound context.outer (ScanLoop graph) :=
    hwhole.preserve (fun _ _ hmove h => hmove.sound h) hsound
  have hinputNames : lowered.ended.inputNames = graph.feedNames :=
    hwhole.preserve (P := fun scope => scope.inputNames = graph.feedNames)
      (fun _ _ hmove h => hmove.inputNames.trans h) hnames
  have hresults : ∀ ref ∈ (Results.ofRefs asTuple lowered.refs).refs, lowered.ended.Has ref := by
    rw [Results.refs_ofRefs]
    exact hthere
  have hmodule : m.Sound := by
    rw [lowered.module]
    exact ⟨hended.nodes.operands, hended.nodes.found, hresults⟩
  refine ⟨hmodule, .mk (hmodule.listed ?_) ?_, lowered.inputNames.trans hinputNames, ?_⟩
  · rw [lowered.module, lowered.outerInputs, ← hinputNames]
    exact hended.inputs
  · rw [lowered.module]
    exact hended.loops
  · rw [lowered.outerInputs]
    exact hended.captured

-- ==================================================================== scans

namespace ModuleOf

/-- Naming other shapes for inputs leaves them those of the same
values. -/
theorem labels_setInputShapes {L : Type} (m : ModuleOf L)
    (shapes : List (Option KnownShape × Nat)) :
    (shapes.foldl (fun m (shape, i) => m.setInputShape i shape) m).inputs.map
        (fun input => input.label.name)
      = m.inputs.map fun input => input.label.name := by
  induction shapes generalizing m with
  | nil => rfl
  | cons entry rest ih =>
      rw [List.foldl_cons, ih]
      refine List.ext_getElem? fun j => ?_
      rw [List.getElem?_map, List.getElem?_map]
      show ((m.inputs.modify _ _)[j]?).map _ = _
      rw [List.getElem?_modify]
      cases m.inputs[j]? with
      | none => rfl
      | some input => split <;> rfl

end ModuleOf

theorem labels_scanBody {description : String} {plan plan' : Handler.ScanPlan} {body m : Module}
    {shapes : List (Option KnownShape)}
    (h : Handler.scanBody description plan body shapes = .ok (m, plan')) :
    m.inputs.map (fun input => input.label.name)
      = body.inputs.map fun input => input.label.name := by
  obtain ⟨slices, -, h⟩ := Except.bind_eq_ok.1 h
  obtain ⟨outAxes, -, h⟩ := Except.bind_eq_ok.1 h
  cases h
  exact ModuleOf.labels_setInputShapes body _

/-- The loop of a scan is well formed if the graph inside gives a
well-formed module. -/
theorem Handler.Scanned.scanLoop {graph : GraphOf Graph} {node : NodeOf Graph}
    {f : Graph → Importer} {spelling : ScanSyntax} {context : Context}
    {session session' : Session} {result : Result}
    (scanned : Scanned spelling (node.map f) context session result session')
    (hnode : node ∈ graph.nodes)
    (hinner : ∀ g ∈ node.inner, ∀ context subgraph, ((f g).lower context).1 = .ok subgraph →
      subgraph.module.Sound ∧ WellFormed g.body subgraph.outerInputs subgraph.module
        ∧ subgraph.inputNames = g.body.feedNames) : ScanLoop graph scanned.loop := by
  obtain ⟨g, hbody, himported⟩ := scanned.exists_body
  obtain ⟨hsound, hwellFormed, hinputNames⟩ := hinner g (NodeOf.mem_inner_of_graph? hbody) _
    scanned.subgraph himported
  have hvalues := scanned.attributes
  rw [NodeOf.values_map] at hvalues
  obtain ⟨count, hcount, htoInt⟩ := scanned.count
  obtain ⟨inputs, inAxes, outAxes, hnames, hmodule, -, hslices, -⟩ :=
    scanBody_eq_ok scanned.length_shapes scanned.body
  have hinputs := scanned.describes.inputs
  have haxes := scanned.describes.inputAxesLength
  have hlength : inAxes.length = scanned.plan.inputAxes.length := by
    rw [← hslices.length_eq, List.length_zip, List.length_drop, scanned.length_shapes,
      ScanPlan.inputCount]
    omega
  have hsame : inputs.length = scanned.subgraph.module.inputs.length := by
    rw [← List.length_map (f := Input.name), hnames, List.length_map]
  cases hwellFormed with
  | mk listed loops =>
      have hlabels := listed.labels
      have hbound : scanned.plan.states + inAxes.length
          ≤ scanned.subgraph.module.inputs.length := by
        rw [← List.length_map (f := fun input : Input => input.label.name), hlabels, List.length_map,
          List.length_append, ← hinputNames]
        omega
      refine @ScanLoop.mk _ _ _ _ _ _ scanned.subgraph.outerInputs _ _ _ hnode hbody hvalues hcount htoInt
        (fun i hfirst hlast => ?_) (.mk ?_ ?_)
      · rw [hmodule]
        refine ModuleOf.onlySqueezed_loopBody ?_
        rw [← hinputNames] at hfirst hlast
        omega
      · refine ModuleOf.Sound.listed ?_ ((labels_scanBody scanned.body).trans hlabels)
        rw [hmodule]
        exact hsound.loopBody hsame hbound
      · rw [hmodule]
        exact loops

/-- A graph that is lowered inside a node becomes a well-formed module. -/
theorem wellFormed_importer (graph : Graph) : ∀ (context : Context) (subgraph : Subgraph),
    ((graph.fold Handlers.standard.importer).lower context).1 = .ok subgraph →
      subgraph.module.Sound ∧ WellFormed graph.body subgraph.outerInputs subgraph.module
        ∧ subgraph.inputNames = graph.body.feedNames := by
  induction graph using Graph.induct with
  | step graph ih =>
      intro context subgraph h
      rw [Graph.fold_eq] at h
      obtain ⟨start, left, hstart, ⟨lowered⟩, hinputNames, -, houterInputs⟩ := importer_eq_ok h
      obtain ⟨hsound, hwellFormed, hnames, -⟩ := lowered.wellFormed hstart
        fun node hnode spelling session result session' scanned =>
          scanned.scanLoop hnode (ih node hnode)
      rw [houterInputs]
      exact ⟨hsound, hwellFormed, hinputNames.trans hnames⟩

/-- A scan with one state, `s`, and one scan input, `x`. -/
def pairScan (s x : String) (body : Graph) (outputs : List String) : NodeOf Graph where
  op := "Scan"
  inputs := [s, x]
  outputs
  attributes := [("body", .graph body), ("num_scan_inputs", .int 1)]

end OnnxLowering
