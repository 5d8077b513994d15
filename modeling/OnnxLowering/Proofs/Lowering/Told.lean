/-
True labels in a scope under construction. `World.Told` is the invariant:
in a run of the finished module every value that the scope has so far is a
tensor of the shape on its label, and no loop that is called so far hands
anything to its body that falsifies a label in it.

What is read has a label that is true of what its name stands for
(`Holds.moves`), and what is computed has one that says what is declared of
its name, which is true once the name has got its value
(`Told.lowersNode`).
-/
import OnnxLowering.Proofs.Handler.Labels
import OnnxLowering.Proofs.Lowering.Simulation
import OnnxLowering.Proofs.Lowering.WellFormed
import OnnxLowering.Proofs.Scan.Labels

namespace OnnxLowering

namespace World

variable {w : World} {outer : Scopes} {reads gives : List String} {scope scope' middle : Scope}
  {outside env : Env} {done done' : List Value} {ref : Ref} {e : Entry}

/-- If a node calls a loop, its operands are there, and what the loop hands
to its body falsifies no label in that. -/
def CallsTold (w : World) (scope : Scope) (done : List Value) (node : Node) : Prop :=
  ∀ name refs, node.action = .call name refs → (∀ ref ∈ refs, scope.Has ref)
    ∧ ∀ wiring arity body, scope.loops.find? name = some (.mk wiring arity body) →
      ∀ xs, wiring.Hands arity body.body
        (refs.map fun ref => (ref.value w.inputs done).operand) xs → body.LabelsHold xs

/-- The labels of a scope are true, and so are those in the loops that it
calls. -/
structure Told (w : World) (scope : Scope) (done : List Value) : Prop where
  labels : ∀ ref, scope.Has ref → (scope.label ref).Holds (ref.value w.inputs done)
  calls : ∀ node ∈ scope.nodes, w.CallsTold scope done node

-- ================================================================ growth

/-- Labels stay true while a scope grows, if new ones are. -/
theorem Told.extend (told : w.Told scope done) (h : scope.Grows outer reads gives scope')
    (fits : w.Fits outside scope') (hcount : done.length = scope.nodes.length) (hdone : done <+: done')
    (hlabels : ∀ ref, scope'.Has ref → ¬ scope.Has ref →
      (scope'.label ref).Holds (ref.value w.inputs done'))
    (hcalls : scope.Appends scope' fun _ node => w.CallsTold scope' done' node) :
    w.Told scope' done' := by
  obtain ⟨new, rfl⟩ := hdone
  have hvalue (ref : Ref) (href : scope.Has ref) :
      ref.value w.inputs (done ++ new) = ref.value w.inputs done := by
    unfold Scope.Has at href
    rw [← hcount] at href
    exact href.value_append new
  refine ⟨fun ref href => ?_, fun node hnode => ?_⟩
  · by_cases hold : scope.Has ref
    · rw [Scope.label_eq_of_extends h.extends hold, hvalue ref hold]
      exact told.labels ref hold
    · exact hlabels ref href hold
  · obtain ⟨i, hi⟩ := List.mem_iff_getElem?.1 hnode
    by_cases hold : i < scope.nodes.length
    · obtain ⟨nodes, hnodes, -⟩ := h.nodes
      rw [hnodes, List.getElem?_append_left hold] at hi
      rintro name refs haction
      obtain ⟨hthere, htold⟩ := told.calls node (List.mem_of_getElem? hi) name refs haction
      have htarget : name ∈ targetsOf scope.nodes :=
        List.mem_filterMap.2 ⟨node, List.mem_of_getElem? hi, by rw [haction]; rfl⟩
      refine ⟨fun ref href => (hthere ref href).extend h.extends, fun wiring arity body hloop xs => ?_⟩
      rw [(h.targets fits.distinct).2 name htarget |>.2.2] at hloop
      rw [List.map_congr_left fun ref href => congrArg Value.operand (hvalue ref (hthere ref href))]
      exact htold wiring arity body hloop xs
    · exact hcalls i node (Nat.le_of_not_lt hold) hi

/-- Labels depend on nothing but inputs, nodes and loops. -/
theorem Told.congr (told : w.Told scope done) (hinputs : scope'.inputs = scope.inputs)
    (hnodes : scope'.nodes = scope.nodes) (hloops : scope'.loops = scope.loops) :
    w.Told scope' done := by
  have hhas (ref : Ref) : scope'.Has ref ↔ scope.Has ref := by
    unfold Scope.Has
    rw [hinputs, hnodes]
  have hlabel (ref : Ref) : scope'.label ref = scope.label ref := by
    cases ref with
    | input i => simp only [Scope.label, hinputs]
    | node i => simp only [Scope.label, hnodes]
  refine ⟨fun ref href => ?_, fun node hnode name refs haction => ?_⟩
  · rw [hlabel]
    exact told.labels ref ((hhas ref).1 href)
  · rw [hnodes] at hnode
    rw [hloops]
    obtain ⟨hthere, htold⟩ := told.calls node hnode name refs haction
    exact ⟨fun ref href => (hhas ref).2 (hthere ref href), htold⟩

-- ================================================================= moves

/-- The label of what an entry says is true, if all that may be known of
the entry is. -/
theorem Denotes.holds (denotes : w.Denotes scope done ref e) (he : e.Truthful) :
    (scope.label ref).Holds (ref.value w.inputs done) := by
  intro known hknown
  have hshapes := denotes.shapes
  rw [Option.mem_def.1 hknown] at hshapes
  exact ⟨e.tensor, denotes.value, he known hshapes⟩

/-- A value is what some name stands for, or that of a node which does not
load a tensor. -/
def Comes (w : World) (env : Env) (scope : Scope) (done : List Value) (ref : Ref) : Prop :=
  (∃ name e, env name = some e ∧ w.Denotes scope done ref e)
    ∨ ∃ i node, ref = .node i ∧ scope.nodes[i]? = some node ∧ ∀ place, node.action ≠ .load place

theorem Comes.mono (h : w.Comes env scope done ref) (hgrows : scope.Grows outer reads gives scope')
    (hdone : done <+: done') : w.Comes env scope' done' ref := by
  rcases h with ⟨name, e, henv, hdenotes⟩ | ⟨i, node, rfl, hnode, haction⟩
  · exact .inl ⟨name, e, henv, hdenotes.mono hgrows hdone⟩
  · obtain ⟨new, hnodes, -⟩ := hgrows.nodes
    refine .inr ⟨i, node, rfl, ?_, haction⟩
    rw [hnodes, List.getElem?_append_left (List.getElem?_eq_some_iff.1 hnode).1, hnode]

/-- Reading a name adds no value but its own. -/
theorem has_of_gets {name : String} {ref' : Ref} (gets : scope.Gets outer name ref scope')
    (h : scope'.Has ref') : scope.Has ref' ∨ ref' = ref := by
  have hnode {middle : Scope} (hinputs : middle.inputs = scope.inputs)
      (hlength : middle.nodes.length = scope.nodes.length + 1) (h : middle.Has ref') :
      scope.Has ref' ∨ ref' = .node scope.nodes.length := by
    unfold Scope.Has at h ⊢
    rw [hinputs, hlength] at h
    cases ref' with
    | input i => exact .inl h
    | node i =>
        rcases Nat.lt_succ_iff_lt_or_eq.1 h with h | h
        · exact .inl h
        · exact .inr (congrArg Ref.node h)
  have hstores {source : String} {t : Tensor} {stored : Scope} (stores : scope.Stores source t stored) :
      stored.inputs = scope.inputs ∧ stored.nodes.length = scope.nodes.length + 1 := by
    obtain ⟨place, trainable, label, nodeNames, supply, attributeCounters, -, rfl⟩ := stores
    exact ⟨rfl, List.length_append⟩
  cases gets with
  | bound _ => exact .inl h
  | constant _ => exact .inl h
  | initial _ _ stores => exact hnode (hstores stores).1 (hstores stores).2 h
  | known _ stores => exact hnode (hstores stores).1 (hstores stores).2 h
  | copied _ _ _ stores => exact hnode (hstores stores).1 (hstores stores).2 h
  | captured _ _ _ captures =>
      obtain ⟨inputName, label, inputCounters, supply, -, -, rfl⟩ := captures
      unfold Scope.Has at h ⊢
      cases ref' with
      | node i => exact .inl h
      | input i =>
          replace h : i < (scope.inputs ++ [_]).length := h
          rw [List.length_append] at h
          rcases Nat.lt_succ_iff_lt_or_eq.1 h with h | h
          · exact .inl h
          · exact .inr (congrArg Ref.input h)

/-- One node more. -/
theorem comes_of_append {node : Node} (hinputs : scope'.inputs = scope.inputs)
    (hnodes : scope'.nodes = scope.nodes ++ [node]) (haction : ∀ place, node.action ≠ .load place)
    (href : scope'.Has ref) : scope.Has ref ∨ w.Comes env scope' done' ref := by
  unfold Scope.Has at href ⊢
  rw [hinputs, hnodes, List.length_append, List.length_singleton] at href
  cases ref with
  | input i => exact .inl href
  | node i =>
      rcases Nat.lt_succ_iff_lt_or_eq.1 href with href | rfl
      · exact .inl href
      · refine .inr (.inr ⟨_, node, rfl, ?_, haction⟩)
        rw [hnodes, List.getElem?_concat_length]

/-- A move that only reads keeps what names stand for, and every new value
comes from one of them or is computed. -/
theorem Holds.move {rules : Rules} (seen : Seen outer outside) (h : w.Holds outside scope done env)
    (move : Move outer rules.reading scope scope') (fits : w.Fits outside scope')
    (hadvance : w.advance scope scope' done = .ok done') :
    w.Holds outside scope' done' env
      ∧ ∀ ref, scope'.Has ref → scope.Has ref ∨ w.Comes env scope' done' ref := by
  cases move with
  | value _ gets =>
      obtain ⟨e, done₁, henv, hadvance₁, hholds, hdenotes⟩ := h.gets seen gets fits
      cases hadvance.symm.trans hadvance₁
      refine ⟨hholds, fun ref' href' => (has_of_gets gets href').imp_right ?_⟩
      rintro rfl
      exact .inl ⟨_, e, henv, hdenotes⟩
  | apply _ =>
      rw [advance_of_nodes rfl] at hadvance
      exact ⟨h.of_nodes hadvance, fun ref href =>
        comes_of_append rfl rfl (fun _ hload => nomatch hload) href⟩
  | call _ _ =>
      rw [advance_of_nodes rfl] at hadvance
      exact ⟨h.of_nodes hadvance, fun ref href =>
        comes_of_append rfl rfl (fun _ hload => nomatch hload) href⟩
  | constant given _ => exact given.elim
  | output given _ => exact given.elim
  | @settle name ref stored known =>
      have hsame : (scope.bind name ref).nodes = scope.nodes ++ [] := (List.append_nil _).symm
      rw [advance_of_nodes hsame] at hadvance
      cases hadvance
      obtain ⟨e, henv, hknows, hrefs⟩ := h.inside name (Scope.defines_of_contains_tensors known)
      have hbound := h.bind (hrefs _ (.inr stored)) hknows fun ref' href' => hrefs ref' (.inr href')
      rw [Env.insert_eq_self henv] at hbound
      exact ⟨hbound, fun _ href => .inl href⟩

theorem Holds.moves {rules : Rules} (seen : Seen outer outside) (h : w.Holds outside scope done env)
    (moves : Moves outer rules.reading scope scope') (within : rules.reading.Within reads [])
    (fits : w.Fits outside scope') (hadvance : w.advance scope scope' done = .ok done') :
    w.Holds outside scope' done' env
      ∧ ∀ ref, scope'.Has ref → scope.Has ref ∨ w.Comes env scope' done' ref := by
  induction moves generalizing done' with
  | refl =>
      rw [advance_refl] at hadvance
      cases hadvance
      exact ⟨h, fun ref href => .inl href⟩
  | @tail middle scope' moves move ih =>
      have hgrows := move.grows within
      rw [advance_trans (Moves.grows moves within) hgrows] at hadvance
      obtain ⟨done₁, hfirst, hlast⟩ := Except.bind_eq_ok.1 hadvance
      obtain ⟨hholds, hcomes⟩ := ih (fits.of_grows hgrows) hfirst
      obtain ⟨hholds', hcomes'⟩ := hholds.move seen move fits hlast
      refine ⟨hholds', fun ref href => (hcomes' ref href).elim (fun hold => ?_) .inr⟩
      exact (hcomes ref hold).imp_right (·.mono hgrows (prefix_of_advance hlast))

/-- Moves that only read keep labels true, if they are on what is
computed. -/
theorem Told.moves {rules : Rules} (told : w.Told scope done) (seen : Seen outer outside)
    (h : w.Holds outside scope done env) (henv : env.Truthful)
    (moves : Moves outer rules.reading scope scope') (within : rules.reading.Within reads [])
    (fits : w.Fits outside scope') (hadvance : w.advance scope scope' done = .ok done')
    (hnew : scope.Appends scope' fun i node => w.CallsTold scope' done' node
      ∧ ((∀ place, node.action ≠ .load place) →
        node.label.Holds (Ref.value w.inputs done' (.node i)))) : w.Told scope' done' := by
  obtain ⟨-, hcomes⟩ := h.moves seen moves within fits hadvance
  refine told.extend (moves.grows within) fits h.count (prefix_of_advance hadvance)
    (fun ref href hnot => ?_) fun i node hi hnode => (hnew i node hi hnode).1
  rcases (hcomes ref href).resolve_left hnot with ⟨name, e, hname, hdenotes⟩ | ⟨i, node, rfl, hnode, haction⟩
  · exact hdenotes.holds (henv name e hname)
  · rw [Scope.label, hnode]
    exact (hnew i node (Nat.le_of_not_lt hnot) hnode).2 haction

-- ================================================================ results

/-- A label that says what is declared of the name of its value is true if
that is true of the name. -/
theorem Yields.holds {label : Label} {declarations : NameMap KnownType} {pairs : List (String × Ref)}
    {entries : List (String × Entry)} (yields : w.Yields scope done pairs entries)
    (hnames : label.Names declarations pairs ref) (htrue : (env.insertAll entries).Meets declarations) :
    label.Holds (ref.value w.inputs done) := by
  intro known hknown
  obtain ⟨i, name, hi, hname, hlast, hdeclared⟩ := hnames known hknown
  have hlength : i < entries.length := yields.length_eq ▸ (List.getElem?_eq_some_iff.1 hi).1
  obtain ⟨⟨name', e⟩, hentry⟩ : ∃ entry, entries[i]? = some entry :=
    ⟨_, List.getElem?_eq_getElem hlength⟩
  obtain ⟨hsame, -, hdenotes⟩ := getElem?_forall₂ yields hi hentry
  obtain rfl : name = name' := hsame
  have hrest := List.forall₂_drop (i + 1) yields
  have hinserted := @Env.insertAll_last env _ _ _ _ hentry hname fun entry hmem => by
    obtain ⟨j, hj⟩ := List.mem_iff_getElem?.1 hmem
    have hpair := List.getElem?_eq_getElem (hrest.length_eq ▸ (List.getElem?_eq_some_iff.1 hj).1)
    have hsame := (getElem?_forall₂ hrest hpair hj).1
    exact hsame ▸ hlast _ (List.mem_of_getElem? hpair)
  exact ⟨e.tensor, hdenotes.value, htrue name e hinserted known hdeclared⟩

end World

-- ================================================================== scans

/-- What a node that is a scan hands to the graph inside has, where it is a
state, what may be known of the first one, and it falsifies no label in the
module of that graph. -/
structure InnerTold (opset : Int) (scopes : Scopes) (declarations : NameMap KnownType) (env : Env)
    (node : NodeOf Graph) : Prop where
  steady : ∀ body plan entries xs, node.Scans opset env body plan entries →
    plan.Hands (scanned declarations env (body.meaning opset) plan
      (knownOf declarations (node.scanNames opset) entries)) (entries.map Entry.tensor) xs →
    ∀ (i : Nat) t possible, i < plan.states → xs[i]? = some t →
      (knownOf declarations (node.scanNames opset) entries)[i]? = some possible →
      ∀ known ∈ possible, known.Matches t
  labels : ∀ body plan entries xs, node.Scans opset env body plan entries →
    plan.Hands (scanned declarations env (body.meaning opset) plan
      (knownOf declarations (node.scanNames opset) entries)) (entries.map Entry.tensor) xs →
    ∀ subgraph, ((body.fold Handlers.standard.importer).lower ⟨opset, scopes⟩).1 = .ok subgraph →
      subgraph.module.Tidy → ∀ outers results, List.Forall₂ (fun name t =>
        ∃ e, env.within declarations name = some e ∧ e.tensor = t) subgraph.outerInputs outers →
      (body.meaning opset).run (env.within declarations) xs = .ok results →
      subgraph.module.LabelsHold ((xs ++ outers).map some)

namespace World

variable {w : World} {outer : Scopes} {scope : Scope} {outside env env' : Env}
  {done done' : List Value} {node : NodeOf Graph} {opset : Int} {session session' : Session}
  {result : Result}

/-- The call of the loop that a scan becomes falsifies no label. -/
theorem Holds.scanned_told (seen : Seen outer outside) (h : w.Holds outside session.scope done env)
    (scanned : Handler.Scanned (.ofOpset opset) (node.map (Graph.fold Handlers.standard.importer))
      ⟨opset, outer⟩ session result session') (fits : w.Fits outside session'.scope)
    (hmeans : InnerMeans opset (session.scope :: outer) session.scope.declarations env node)
    (htold : InnerTold opset (session.scope :: outer) session.scope.declarations env node)
    (hop : node.op = "Scan") (henv : env.Truthful)
    (hdeclared : env.Meets session.scope.declarations) {pairs : List (String × Entry)}
    (hresults : results opset session.scope.declarations env (node.map (Graph.meaning opset))
      = .ok pairs)
    (hadvance : w.advance session.scope session'.scope done = .ok done') {name : String}
    {label : Label} (hloop : session'.scope.loops.find? name = some scanned.loop) :
    w.CallsTold session'.scope done' ⟨.call name scanned.operands, label⟩ := by
  obtain ⟨body, hbody, himported⟩ := scanned.exists_body
  have htidy := scanned.tidy fits
  have means := hmeans body (NodeOf.mem_inner_of_graph? hbody) scanned.subgraph himported htidy.1
  obtain ⟨es, captured, done₁, gathers⟩ := h.gathers seen scanned fits
  have hattributes := scanned.attributes
  rw [NodeOf.values_map] at hattributes
  have scans : node.Scans opset env body scanned.plan es :=
    ⟨hop, hbody, gathers.inputs, scanned.values, scanned.scanInputs, hattributes,
      scanned.scanInputCount_eq, scanned.planOf_eq means⟩
  obtain ⟨hranks, ts, hrun⟩ := scans.runs hresults
  have hgrows := scanned.grows_call
  rw [advance_trans scanned.grows_operands hgrows, gathers.advance] at hadvance
  replace hadvance : w.advance scanned.middle.scope session'.scope done₁ = .ok done' := hadvance
  have hdenotes := gathers.denotes.imp fun _ _ hdenotes =>
    hdenotes.mono hgrows (prefix_of_advance hadvance)
  rintro _ _ ⟨⟩
  refine ⟨fun ref href => ?_, fun wiring arity body' hfind xs hhands => ?_⟩
  · obtain ⟨i, hi⟩ := List.mem_iff_getElem?.1 href
    have he := List.getElem?_eq_getElem (hdenotes.length_eq ▸ (List.getElem?_eq_some_iff.1 hi).1)
    have hvalid := (getElem?_forall₂ hdenotes hi he).valid
    cases ref <;> exact hvalid
  · cases hloop.symm.trans hfind
    have hvalues : scanned.operands.map (fun ref => (ref.value w.inputs done').operand)
        = ((es ++ captured).map Entry.tensor).map some := by
      rw [List.map_map]
      exact map_eq_map_iff_forall₂.2 (hdenotes.imp fun _ _ hdenotes =>
        congrArg Value.operand hdenotes.value)
    rw [hvalues] at hhands
    refine scanned.labelsHold means htidy (wellFormed_importer body _ _ himported).1 gathers.known
      gathers.length gathers.captures hranks hrun (fun i e possible he hpossible => ?_)
      (fun xs hxs => htold.steady _ _ _ _ scans hxs) (fun xs values hxs hvalues => ?_) hhands
    · rw [List.getElem?_map, Option.map_eq_some_iff] at hpossible
      obtain ⟨⟨e', name⟩, hpair, rfl⟩ := hpossible
      obtain ⟨he', hname⟩ := List.getElem?_zip_eq_some.1 hpair
      cases he.symm.trans he'
      have hread := Env.read_eq_ok.1 (getElem?_forall₂ (Outcome.mapM_eq_ok.1 gathers.inputs) hname he)
      exact (henv name _ hread).known (hdeclared name _ hread)
    · obtain ⟨results, hresults, -⟩ := Outcome.bind_eq_ok.1 hvalues
      refine htold.labels _ _ _ _ scans hxs _ himported htidy.1 _ results ?_ hresults
      rw [List.forall₂_map_right_iff]
      exact gathers.captures.imp fun _ _ hread => ⟨_, congrArg _ hread, rfl⟩

-- =================================================================== nodes

/-- A constant has its own shape on its label. -/
theorem Told.stores {source : String} {t : Tensor} {scope' : Scope}
    (told : w.Told scope done) (h : w.Holds outside scope done env)
    (stores : scope.Stores source t scope') (fits : w.Fits outside scope')
    (new : scope.defines source = false)
    (hadvance : w.advance scope scope' done = .ok done') : w.Told scope' done' := by
  obtain ⟨done₁, hadvance₁, -, hdenotes⟩ := h.stores (e := .ofConstant t) stores fits
    (fun hdefines => nomatch new.symm.trans hdefines) rfl fun _ => List.mem_singleton_self _
  cases hadvance.symm.trans hadvance₁
  have hgrows : scope.Grows [] [] [source] scope' :=
    .of_stores stores (.inr (.inr (List.mem_singleton_self _)))
  have hconstant : (Entry.ofConstant t).Truthful := fun known hknown => by
    rw [List.mem_singleton.1 hknown]
    exact KnownShape.matches_known t
  refine told.extend hgrows fits h.count (prefix_of_advance hadvance) (fun ref href hnot => ?_) ?_
  · obtain ⟨place, trainable, label, nodeNames, supply, attributeCounters, -, rfl⟩ := stores
    unfold Scope.Has at href hnot
    simp only [List.length_append, List.length_singleton] at href
    cases ref with
    | input i => exact absurd href hnot
    | node i =>
        obtain rfl : i = scope.nodes.length :=
          (Nat.lt_succ_iff_lt_or_eq.1 href).resolve_left hnot
        exact hdenotes.holds hconstant
  · obtain ⟨place, trainable, label, nodeNames, supply, attributeCounters, -, rfl⟩ := stores
    exact .singleton rfl fun _ _ hcall => nomatch hcall

/-- A node keeps labels true, if what is declared of its results is true of
them, and of nothing else. -/
theorem Told.lowersNode {visible : Visible} (told : w.Told session.scope done)
    (seen : Seen outer outside) (h : w.Holds outside session.scope done env)
    (gives : node.givesNew visible = true)
    (hvisible : ∀ name, Scopes.defines (session.scope :: outer) name = true → visible name = true)
    (hinner : ∀ g ∈ node.inner, CapturesReads g) (tied : session.scope.Tied)
    (lowered : Lower.lowerNode Handlers.standard
      (node.map (Graph.fold Handlers.standard.importer)) ⟨opset, outer⟩ session = .ok () session')
    (fits : w.Fits outside session'.scope)
    (hmeans : InnerMeans opset (session.scope :: outer) session.scope.declarations env node)
    (htold : InnerTold opset (session.scope :: outer) session.scope.declarations env node)
    (henv : env.Truthful)
    (hdeclared : env.Meets session.scope.declarations)
    (hnames : node.NamesResults opset session.scope.declarations)
    (hnode : evalNode opset session.scope.declarations env (node.map (Graph.meaning opset))
      = .ok env')
    (htrue : env'.Meets session.scope.declarations)
    (hadvance : w.advance session.scope session'.scope done = .ok done') :
    w.Told session'.scope done' := by
  obtain ⟨-, version, handler, result, log, middle, hfind, hhandler, rfl⟩ :=
    Lower.lowerNode_eq_ok lowered
  have served : Served opset node.op handler := Handlers.served_of_find? hfind
  obtain ⟨entries, hresults, henv'⟩ := Outcome.bind_eq_ok.1 hnode
  cases henv'
  replace hadvance : w.advance session.scope middle.scope done = .ok done' := hadvance
  replace fits : w.Fits outside middle.scope :=
    ⟨fits.distinct, fits.attributes, fits.loops, fits.bodies, fits.captured⟩
  refine @Told.congr _ middle.scope _ _ ?_ rfl rfl rfl
  by_cases hop : node.op = "Constant"
  · obtain rfl : handler = Handler.constant := served.of_constant hop
    obtain ⟨values, t, -, -, -, hstores⟩ := Handler.constant_eq_ok hhandler
    have hsource := NodeOf.constantSource_mem gives hop
    have hnew : session.scope.defines (Handler.constantSource node) = false := by
      have hhidden := NodeOf.not_visible_of_givesNew gives hsource
      rw [← Bool.not_eq_true]
      exact fun hdefines => nomatch hhidden.symm.trans
        (hvisible _ (Bool.or_eq_true _ _ ▸ .inl hdefines))
    exact told.stores h hstores fits hnew hadvance
  · have hserved := @Holds.served _ _ _ _ _ _ _ { session with log } _ _ _ seen h served hop hhandler
      fits hmeans
    replace hresults : results opset session.scope.declarations env (node.map (Graph.meaning opset))
      = .ok entries := hresults
    rw [hresults] at hserved
    obtain ⟨done₁, hadvance₁, -, hyields⟩ := hserved
    cases hadvance.symm.trans hadvance₁
    have hmoves := served.moves_between hop hhandler gives hinner tied
    have happends := @Served.appends _ _
      (fun name operands => node.op = "Scan" ∧ ∃ scanned : Handler.Scanned (.ofOpset opset)
          (node.map (Graph.fold Handlers.standard.importer)) ⟨opset, outer⟩ { session with log } result
          middle,
        operands = scanned.operands ∧ middle.scope.loops.find? name = some scanned.loop)
      _ ⟨opset, outer⟩ { session with log } _ _ served hop hhandler hnames fun hscan scanned => by
        obtain ⟨body, hbody, himported⟩ := scanned.exists_body
        have means := hmeans body (NodeOf.mem_inner_of_graph? hbody) scanned.subgraph himported
          (scanned.tidy fits).1
        refine ⟨⟨body, hbody, means.outputCount.trans ?_⟩, fun name hloop => ⟨hscan, scanned, rfl, hloop⟩⟩
        rw [Graph.meaning, Graph.fold_eq]
        rfl
    refine told.moves seen h henv hmoves (Rules.within_reading fun name hname => hname) fits hadvance
      fun i new hi hnew => ?_
    cases happends i new hi hnew with
    | load => exact ⟨fun _ _ hcall => (nomatch hcall), fun hload => absurd rfl (hload _)⟩
    | apply hlabel => exact ⟨fun _ _ hcall => (nomatch hcall), fun _ => hyields.holds hlabel htrue⟩
    | call unlabelled called =>
        obtain ⟨hscan, scanned, rfl, hloop⟩ := called
        refine ⟨@Holds.scanned_told _ _ _ _ _ _ _ _ { session with log } _ _ seen h scanned fits hmeans
          htold hscan henv hdeclared _ hresults hadvance _ _ hloop, fun _ known hknown => ?_⟩
        rw [unlabelled] at hknown
        cases hknown

end World

end OnnxLowering
