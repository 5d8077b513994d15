/-
The labels of a lowered graph are true (`labels_hold`): in every run of a
graph that declares no shape which is not that of the values, a label on a
node of its module, or of the body of a loop in it at any iteration, is
true of the value of the node. Besides, what is declared of a result has to
be declared of nothing else that is computed on the way to it, and the
states of a scan have to keep the shapes that are known of the first ones.

The proof goes down the graphs inside like the one that modules do what
graphs mean. A run of a graph inside is a run of its module with what it
captures, so what is true in all the former is true in the latter.
-/
import Mathlib.Tactic.IntervalCases
import OnnxLowering.Proofs.Lowering.Closure
import OnnxLowering.Proofs.Lowering.Told

namespace OnnxLowering

/-- Wherever the graph stands, labels in its module are true in a run in
which what it says of shapes is, and what the graphs inside say in the runs
that this one brings about. -/
def Tells (opset : Int) (g : Graph) : Prop :=
  ∀ visible scopes env subgraph feeds outers results, g.scoped visible = true →
    (∀ name, scopes.defines name = true → visible name = true) → Seen scopes env → env.Truthful →
    (∀ g' outside feeds', g.Visits opset env feeds g' outside feeds' →
      g'.Faithful opset outside feeds') →
    ((g.fold Handlers.standard.importer).lower ⟨opset, scopes⟩).1 = .ok subgraph →
    subgraph.module.Tidy →
    List.Forall₂ (fun name t => ∃ e, env name = some e ∧ e.tensor = t) subgraph.outerInputs outers →
    (g.meaning opset).run env feeds = .ok results →
    subgraph.module.LabelsHold ((feeds ++ outers).map some)

namespace World

variable {w : World} {outer : Scopes} {outside env last : Env} {done done' : List Value}
  {graph : Graph} {feeds : List Tensor} {opset : Int} {session session' : Session}
  {visible : Visible} {before nodes : List (NodeOf Graph)} {node : NodeOf Graph}

/-- Inside a node of a graph labels are true, in the runs that the graph
brings about. -/
theorem Holds.inner_told (seen : Seen outer outside) (houtside : outside.Truthful)
    (h : w.Holds outside session.scope done env)
    (hvisible : ∀ name, Scopes.defines (session.scope :: outer) name = true → visible name = true)
    (inner : ∀ g ∈ node.inner, g.scoped visible = true)
    (htells : ∀ g ∈ node.inner, Tells opset g)
    (hfaithful : ∀ g outside' feeds', graph.Visits opset outside feeds g outside' feeds' →
      g.Faithful opset outside' feeds')
    (hdeclarations : session.scope.declarations = graph.body.declarations)
    (hnodes : graph.body.nodes = before ++ node :: nodes)
    (hbefore : graph.after opset outside feeds before = .ok env) :
    InnerTold opset (session.scope :: outer) session.scope.declarations env node := by
  have faithful := hfaithful _ _ _ .self
  have hprefix : before <+: graph.body.nodes := hnodes ▸ List.prefix_append _ _
  have henv := faithful.truthful.after houtside faithful.names hprefix hbefore
  have hdeclared := faithful.truthful.values before hprefix env hbefore
  rw [hdeclarations]
  refine ⟨fun body plan entries xs scans hhands => ?_,
    fun body plan entries xs scans hhands subgraph himported htidy outers results houters hrun => ?_⟩
  · exact faithful.steady _ _ _ _ _ (.mk hnodes hbefore scans hhands)
  · have hseen := h.seen seen
    rw [hdeclarations] at hseen
    have hmem := NodeOf.mem_inner_of_graph? scans.graph
    exact htells body hmem visible _ _ subgraph xs outers results (inner body hmem) hvisible hseen
      (henv.within hdeclared)
      (fun g outside' feeds' rest =>
        hfaithful _ _ _ (.inside (.mk hnodes hbefore scans hhands) rest))
      himported htidy houters hrun

/-- The nodes of a graph keep labels true. -/
theorem Told.lowersNodes (told : w.Told session.scope done) (hscoped : NodesScoped visible nodes)
    (seen : Seen outer outside) (houtside : outside.Truthful)
    (h : w.Holds outside session.scope done env)
    (hvisible : ∀ name, Scopes.defines (session.scope :: outer) name = true → visible name = true)
    (hinner : ∀ node ∈ nodes, ∀ g ∈ node.inner, CapturesReads g) (tied : session.scope.Tied)
    (lowered : Lower.lowerNodes Handlers.standard
      (nodes.map (NodeOf.map (Graph.fold Handlers.standard.importer))) ⟨opset, outer⟩ session
      = .ok () session')
    (fits : w.Fits outside session'.scope)
    (hsimulates : ∀ node ∈ nodes, ∀ g ∈ node.inner, Simulates opset g)
    (htells : ∀ node ∈ nodes, ∀ g ∈ node.inner, Tells opset g)
    (hfaithful : ∀ g outside' feeds', graph.Visits opset outside feeds g outside' feeds' →
      g.Faithful opset outside' feeds')
    (hdeclarations : session.scope.declarations = graph.body.declarations)
    (hnodes : graph.body.nodes = before ++ nodes)
    (hbefore : graph.after opset outside feeds before = .ok env)
    (hlast : graph.after opset outside feeds graph.body.nodes = .ok last)
    (hadvance : w.advance session.scope session'.scope done = .ok done') :
    w.Told session'.scope done' := by
  induction hscoped generalizing session done env before with
  | nil =>
      cases lowered
      rw [advance_refl] at hadvance
      cases hadvance
      exact told
  | @cons visible node rest gives inner others ih =>
      rw [List.forall_mem_cons] at hinner hsimulates htells
      obtain ⟨middle, hfirst, hrest⟩ := Lower.lowerNodes_cons_eq_ok lowered
      obtain ⟨_, _, hgrows, hgrows', htied, hadded⟩ :=
        lowersNodes_cons hfirst hrest gives others hvisible hinner tied
      have faithful := hfaithful _ _ _ .self
      have hprefix : before <+: graph.body.nodes := hnodes ▸ List.prefix_append _ _
      have hnext : graph.body.nodes = (before ++ [node]) ++ rest := by
        rw [hnodes, List.append_assoc, List.singleton_append]
      rw [hnodes] at hlast
      obtain ⟨env', hnode, hafter⟩ := Graph.after_cons hlast hbefore
      rw [← hnodes] at hlast
      have fits' := fits.of_grows hgrows'
      have hmeans : InnerMeans opset (session.scope :: outer) session.scope.declarations env node :=
        fun g hg subgraph himported htidy => hsimulates.1 g hg visible _ _ subgraph (inner g hg)
          hvisible (h.seen seen) himported htidy
      have htold := h.inner_told seen houtside hvisible inner htells.1 hfaithful hdeclarations hnodes
        hbefore
      rw [← hdeclarations] at hnode
      have hholds := h.lowersNode seen gives hvisible hinner.1 tied hfirst fits' hmeans
      rw [hnode] at hholds
      obtain ⟨done₁, hadvance₁, hholds⟩ := hholds
      rw [advance_trans hgrows hgrows', hadvance₁] at hadvance
      refine ih ?_ hholds hadded hinner.2 htied hrest hsimulates.2 htells.2
        (hgrows.declarations.trans hdeclarations) hnext hafter hadvance
      exact told.lowersNode seen h gives hvisible hinner.1 tied hfirst fits' hmeans htold
        (faithful.truthful.after houtside faithful.names hprefix hbefore)
        (hdeclarations ▸ faithful.truthful.values before hprefix env hbefore)
        (hdeclarations ▸ faithful.names node (hnodes ▸ List.mem_append_right _ List.mem_cons_self))
        hnode (hdeclarations ▸ faithful.truthful.values _ (hnext ▸ List.prefix_append _ _) env' hafter)
        hadvance₁

end World

-- ================================================================== graphs

section

variable {graph : Graph} {asTuple : Bool} {opset : Int} {outer : Scopes} {start left : Scope}
  {m : Module} {visible : Visible} {outside env : Env} {feeds : List Tensor}

/-- What is fed to a graph has what is declared of it on its label. -/
theorem Lowered.fed_told {graph : GraphOf Importer} {context : Context} {w : World}
    (lowered : Lowered graph asTuple context start m left)
    (hstart : Scope.ofGraph graph = .ok start) (hlength : feeds.length = graph.feedNames.length)
    (hinputs : ∀ (i : Nat) t, feeds[i]? = some t → w.inputs[i]? = some (some t))
    (htrue : ∀ entry ∈ graph.feedNames.zip feeds, ∀ known ∈ graph.declarations.shape? entry.1,
      known.Matches entry.2) : w.Told lowered.fed.scope [] := by
  obtain ⟨-, -, hnodes, hdeclarations, -, -⟩ := lowered.fed_eq hstart
  have hshapes : lowered.fed.scope.inputs.map (fun input => input.label.shape.join)
      = graph.feedNames.map graph.declarations.shape? := by
    have hfed := lowered.feeds.shapes
    obtain ⟨_, -, rfl⟩ := ofGraph_eq_ok hstart
    exact hfed
  refine ⟨fun ref href known hknown => ?_, fun node hnode => ?_⟩
  · unfold Scope.Has at href
    rw [hnodes] at href
    cases ref with
    | node i => exact absurd href (Nat.not_lt_zero i)
    | input i =>
        have hinput := List.getElem?_eq_getElem href
        have hshape := congrArg (·[i]?) hshapes
        simp only [List.getElem?_map, hinput, Option.map_some] at hshape
        obtain ⟨name, hname, hdeclared⟩ := Option.map_eq_some_iff.1 hshape.symm
        obtain ⟨t, ht⟩ : ∃ t, feeds[i]? = some t :=
          ⟨_, List.getElem?_eq_getElem (hlength ▸ (List.getElem?_eq_some_iff.1 hname).1)⟩
        rw [Scope.label, hinput, Option.map_some, Option.getD_some, ← hdeclared] at hknown
        refine ⟨t, ?_, htrue (name, t) (List.mem_of_getElem? (List.getElem?_zip_eq_some.2 ⟨hname, ht⟩))
          known hknown⟩
        rw [Ref.value, List.getD_eq_getElem?_getD, hinputs i t ht]
        rfl
  · rw [hnodes] at hnode
    cases hnode

/-- Labels in the module of a graph are true, if they are in those of the
graphs inside. -/
theorem Lowered.labelsHold
    (lowered : Lowered (Handlers.standard.prepare graph) asTuple ⟨opset, outer⟩ start m left)
    (hstart : Scope.ofGraph (Handlers.standard.prepare graph) = .ok start)
    (hscoped : graph.scoped visible = true)
    (hvisible : ∀ name, outer.defines name = true → visible name = true)
    (htells : ∀ node ∈ graph.body.nodes, ∀ g ∈ node.inner, Tells opset g)
    (seen : Seen outer outside) (houtside : outside.Truthful)
    (hfaithful : ∀ g outside' feeds', graph.Visits opset outside feeds g outside' feeds' →
      g.Faithful opset outside' feeds')
    (tidy : m.Tidy) {outers : List Tensor}
    (houters : List.Forall₂ (fun name t => ∃ e, outside name = some e ∧ e.tensor = t)
      left.outerInputs outers) {results : List Entry}
    (hrun : (graph.meaning opset).run outside feeds = .ok results) :
    m.LabelsHold ((feeds ++ outers).map some) := by
  obtain ⟨hfeeds, initial, last, hinitial, hbefore, hlast, houtputs⟩ := Graph.run_eq_ok hrun
  have hinner := Graph.capturesReads_inner hscoped
  have hinputNames := (lowered.labels hstart hscoped hinner).1
  have harity := hinputNames ▸ lowered.arity hstart hscoped hinner
  obtain ⟨-, -, hnone, hdeclarations, hnamed, -⟩ := lowered.fed_eq hstart
  obtain ⟨hgrows, hgrows'⟩ := lowered.grows hstart hscoped hinner
  obtain ⟨-, -, -, -, -, htied, -⟩ := ofGraph_feedsAll hstart lowered.feeds
  have faithful := hfaithful _ _ _ .self
  have fits := @Lowered.fits _ _ _ _ _ _ _ outside lowered tidy ((feeds ++ outers).map some)
    fun i name hname => by
      rw [hinputNames, ← hfeeds]
      exact getElem?_captured houters hname
  have hfed := @Lowered.fed_holds _ _ _ _ outside _ _
    ⟨m.map Loop.meaning, (feeds ++ outers).map some⟩ _ _ lowered hstart hinitial hfeeds
    fun i t ht => getElem?_feeds ht
  have htold := @Lowered.fed_told _ _ _ _ feeds _ _ ⟨m.map Loop.meaning, (feeds ++ outers).map some⟩
    lowered hstart hfeeds (fun i t ht => getElem?_feeds ht) faithful.truthful.inputs
  have hnodesScoped := Graph.nodesScoped hscoped
  have hvisible' := lowered.visible_fed hstart hvisible
  have fits' := fits.of_grows hgrows'
  -- the nodes have values, and then the outputs
  have hmeans := hfed.lowersNodes hnodesScoped seen hvisible' hinner htied lowered.nodes fits'
    fun node _ g _ => simulates opset g
  rw [hdeclarations] at hmeans
  have hnodes : (graph.body.nodes.map (NodeOf.map (Graph.meaning opset))).foldlM
      (evalNode opset (Handlers.standard.prepare graph).declarations)
      ((Handlers.standard.prepare graph).entries outside initial feeds) = .ok last := by
    rw [Graph.after, hinitial] at hlast
    exact hlast
  rw [hnodes] at hmeans
  obtain ⟨done, hadvance, hholds⟩ := hmeans
  have hlowered := htold.lowersNodes hnodesScoped seen houtside hfed hvisible' hinner
    htied lowered.nodes fits' (fun node _ g _ => simulates opset g) htells hfaithful hdeclarations
    (List.nil_append _).symm hbefore hlast hadvance
  obtain ⟨es, done', -, hadvance', -, -⟩ := hholds.getsAll seen lowered.outputs fits
  have htied' := (lowerNodes_grows lowered.nodes hnodesScoped hinner htied).2
  have hmoves := (@Scope.GetsAll.moves _ (Rules.between lowered.last.scope.outputs []).reading _ _ _ _
    lowered.outputs (fun name hname => hname) htied').1
  have hended := hlowered.moves seen hholds
    (faithful.truthful.after houtside faithful.names List.prefix_rfl hlast) hmoves
    (Rules.within_reading fun name hname => hname) fits hadvance'
    (lowered.outputs.appends fun _ place _ =>
      ⟨fun _ _ hcall => (by cases hcall), fun hload => absurd rfl (hload place)⟩)
  have hall : m.nodes = lowered.ended.nodes := congrArg ModuleOf.nodes lowered.module
  have hins : m.inputs = lowered.ended.inputs := congrArg ModuleOf.inputs lowered.module
  have hloops : m.loops = lowered.ended.loops := congrArg ModuleOf.loops lowered.module
  have hlength : ((feeds ++ outers).map some).length = m.inputs.length := by
    rw [harity, List.length_map, List.length_append, houters.length_eq, hfeeds]
  refine (ModuleOf.labelsHold_iff tidy.legible hlength).2 ⟨done', ?_, fun ref href => ?_, ?_⟩
  · have hboth := @World.advance_trans ⟨m.map Loop.meaning, (feeds ++ outers).map some⟩ _ _ _ _ _ _ []
      hgrows hgrows'
    rw [hadvance, Except.ok_bind, hadvance', World.advance, hnone, ← hall] at hboth
    exact hboth
  · rw [hins, hall] at href
    rw [lowered.label_eq]
    exact hended.labels ref href
  · intro node hnode name refs haction wiring arity body hloop
    rw [hall] at hnode
    rw [hloops] at hloop
    exact (hended.calls node hnode name refs haction).2 wiring arity body hloop

/-- At any depth, labels are true. -/
theorem tells (opset : Int) (graph : Graph) : Tells opset graph := by
  induction graph using Graph.induct with
  | step graph ih =>
      intro visible scopes env subgraph feeds outers results hscoped hvisible hseen henv hfaithful h htidy
        houters hrun
      rw [Graph.fold_eq] at h
      obtain ⟨start, left, hstart, ⟨lowered⟩, -, -, houterInputs⟩ := importer_eq_ok h
      exact lowered.labelsHold hstart hscoped hvisible ih hseen henv hfaithful htidy
        (houterInputs ▸ houters) hrun

/-- What a graph is lowered to has true labels in every run in which all
that is declared is true of what it is declared of. Each shape that is
declared of a result of a node has to be declared of nothing else that the
node becomes, and what is known of the states of a scan has to be true of
them at every step. -/
theorem labels_hold (h : (graph.lower Handlers.standard opset asTuple).1 = .ok m)
    (hscoped : graph.scoped (fun _ => false) = true) (tidy : m.Tidy) {results : List Entry}
    (hrun : (graph.meaning opset).run (fun _ => none) feeds = .ok results)
    (htruthful : ∀ g outside fed, graph.Visits opset (fun _ => none) feeds g outside fed →
      g.Truthful opset outside fed)
    (hnames : ∀ g outside fed, graph.Visits opset (fun _ => none) feeds g outside fed →
      ∀ node ∈ g.body.nodes, node.NamesResults opset g.body.declarations)
    (hsteady : ∀ g outside fed, graph.Visits opset (fun _ => none) feeds g outside fed →
      g.Steady opset outside fed) : m.LabelsHold (feeds.map some) := by
  obtain ⟨start, session, hstart, hlower⟩ := runIn_eq_ok h
  obtain ⟨lowered⟩ := lowerGraph_eq_ok hstart hlower
  have hnone : session.scope.outerInputs = [] := by
    refine List.eq_nil_iff_forall_not_mem.2 fun name hname => ?_
    obtain ⟨-, -, hvisible, -⟩ := (lowered.captured hstart hscoped
      (Graph.capturesReads_inner hscoped)).2 name hname
    cases hvisible
  have hlabels := @Lowered.labelsHold _ _ _ _ _ _ _ _ (fun _ => none) feeds lowered hstart hscoped
    (fun _ hname => nomatch hname) (fun _ _ g _ => tells opset g) (fun _ hname => nomatch hname)
    (fun _ _ he => nomatch he)
    (fun g outside fed visits => ⟨htruthful g outside fed visits, hsteady g outside fed visits,
      hnames g outside fed visits⟩)
    tidy [] (hnone ▸ .nil) results hrun
  rw [List.append_nil] at hlabels
  exact hlabels

/-- Sums of the elements of a vector so far, by a scan. All shapes are
declared. -/
def runningBody : Graph :=
  ⟨{ nodes := [{ op := "Add", inputs := ["s", "x"], outputs := ["t"] }]
     inputs := [{ name := "s", shape := some [] }, { name := "x", shape := some [] }]
     outputs := [{ name := "t", shape := some [] }, { name := "x", shape := some [] }] }⟩

def runningGraph : Graph :=
  ⟨{ nodes := [pairScan "s" "x" runningBody ["t", "y"]]
     inputs := [{ name := "s", shape := some [] }, { name := "x", shape := some [.value 2] }]
     outputs := [{ name := "t", shape := some [] }, { name := "y", shape := some [.value 2] }] }⟩

def runningFeeds : List Tensor := [.scalar .int64 1, .vector .int64 [2, 3]]

/-- What names stand for before the scan. -/
def runningEnv : Env := runningGraph.body.entries (fun _ => none) [] runningFeeds

/-- What the scan hands to its body. -/
def runningHanded : Nat → List Tensor
  | 0 => [.scalar .int64 1, .scalar .int64 2]
  | _ => [.scalar .int64 3, .scalar .int64 3]

theorem runningBody_flat : ∀ node ∈ runningBody.body.nodes, node.op ≠ "Scan" := by decide

/-- The shapes of the state and of the vector are known before the scan. -/
def runningKnown : List (List KnownShape) := [[[]], [[some 2]]]

def runningPlan : Handler.ScanPlan := ⟨1, [0], [0], [0], [0]⟩

/-- There are two runs of the body. -/
theorem running_hands {env : Env} {body : Graph} {plan : Handler.ScanPlan}
    {known : List (List KnownShape)} {xs : List Tensor}
    (h : runningGraph.Hands 9 (fun _ => none) runningFeeds env body plan known xs) :
    env = runningEnv ∧ body = runningBody ∧ plan = runningPlan ∧ known = runningKnown
      ∧ ∃ step < 2, xs = runningHanded step := by
  obtain @⟨before, after, node, entries, xs, hnodes, hreached, scans, hgiven⟩ := h
  obtain ⟨rfl, rfl, rfl⟩ : before = [] ∧ node = pairScan "s" "x" runningBody ["t", "y"] ∧ after = [] := by
    cases before with
    | nil =>
        cases hnodes
        exact ⟨rfl, rfl, rfl⟩
    | cons first rest => cases rest <;> cases hnodes
  cases hreached
  obtain ⟨-, hbody, hinputs, values, scanInputs, hvalues, hcount, hplan⟩ := scans
  cases hbody
  cases hvalues
  have hentries : ["s", "x"].mapM runningEnv.read = .ok [⟨.scalar .int64 1, false, [[]]⟩,
    ⟨.vector .int64 [2, 3], false, [[some 2]]⟩] := by decide +kernel
  cases hentries.symm.trans hinputs
  have hcount' : scanInputCount (NameMap.empty.insert "num_scan_inputs" (.int 1)) = .ok 1 := rfl
  cases hcount'.symm.trans hcount
  have hplan' : planOf (.ofOpset 9) (NameMap.empty.insert "num_scan_inputs" (.int 1)) 1 2 2
      = .ok runningPlan := rfl
  cases hplan'.symm.trans hplan
  obtain ⟨ks, size, step, progress, hks, hsize, hstep, hprogress, rfl⟩ := hgiven
  have hks' : runningPlan.dimensions [.vector .int64 [2, 3]] = .ok [0] := by decide +kernel
  cases hks'.symm.trans hks
  have hsize' : Handler.ScanPlan.steps [2] = .ok 2 := by decide +kernel
  cases hsize'.symm.trans hsize
  have hfirst : (List.range 1).foldlM (runningPlan.advance (scanned runningGraph.body.declarations
      runningEnv (runningBody.meaning 9) runningPlan runningKnown) [.vector .int64 [2, 3]] [0] 2)
      ⟨[.scalar .int64 1], []⟩ = .ok ⟨[.scalar .int64 3], [[.scalar .int64 2]]⟩ := by decide +kernel
  refine ⟨rfl, rfl, rfl, rfl, step, hstep, ?_⟩
  interval_cases step
  · cases hprogress
    decide +kernel
  · cases hfirst.symm.trans hprogress
    decide +kernel

theorem running_truthful : runningGraph.Truthful 9 (fun _ => none) runningFeeds ∧ ∀ step < 2,
    runningBody.Truthful 9 (runningEnv.within runningGraph.body.declarations) (runningHanded step) := by
  decide +kernel

theorem running_names :
    (∀ node ∈ runningGraph.body.nodes, node.NamesResults 9 runningGraph.body.declarations)
      ∧ ∀ node ∈ runningBody.body.nodes, node.NamesResults 9 runningBody.body.declarations := by
  refine ⟨List.forall_mem_singleton.2 ⟨fun hop => absurd rfl hop, ?_, ?_⟩,
    List.forall_mem_singleton.2 ⟨fun _ hnone => (nomatch hnone), fun hop => absurd hop (by decide), ?_⟩⟩
  · rintro _ _ ⟨⟩ i hi known hknown
    replace hi : i < 2 := hi.elim id id
    interval_cases i
    · exact ⟨"t", rfl, rfl, by decide⟩
    · exact ⟨"y", rfl, rfl, by decide⟩
  · rintro (hop | ⟨-, hopset, -⟩)
    · exact absurd hop (by decide)
    · exact absurd hopset (by decide)
  · rintro (hop | ⟨-, hopset, -⟩)
    · exact absurd hop (by decide)
    · exact absurd hopset (by decide)

theorem running_steady : runningGraph.Steady 9 (fun _ => none) runningFeeds := by
  intro env body plan known xs hands i t possible hi ht hpossible
  obtain ⟨-, -, rfl, rfl, step, hstep, rfl⟩ := running_hands hands
  obtain rfl : i = 0 := Nat.lt_one_iff.1 hi
  cases hpossible
  interval_cases step <;> cases ht <;> decide

/-- The labels on the sums and on the scan are true, and so are those in the
body of its loop. -/
theorem labels_hold_running :
    ∃ m, (runningGraph.lower Handlers.standard 9 true).1 = .ok m ∧ m.loops.entries.length = 1
      ∧ m.LabelsHold (runningFeeds.map some) := by
  obtain ⟨m, hm, htest⟩ : ∃ m, (runningGraph.lower Handlers.standard 9 true).1 = .ok m
      ∧ (decide (m.loops.entries.length = 1) && ({ m with loops := .empty } : Module).harmless
        && m.loops.entries.all fun entry => match entry.2 with
          | .mk _ _ body => body.harmless
          | .unknown => true) = true := Except.exists_of_test (by decide +kernel)
  simp only [Bool.and_eq_true, decide_eq_true_eq, List.all_eq_true] at htest
  obtain ⟨⟨hloops, hharmless⟩, hbodies⟩ := htest
  have tidy := ModuleOf.Tidy.of_harmless_bodies hharmless fun _ _ _ _ hmem => hbodies _ hmem
  have hsums : List.map Entry.tensor <$> (runningGraph.meaning 9).run (fun _ => none) runningFeeds
      = .ok [.scalar .int64 6, .vector .int64 [2, 3]] := by decide +kernel
  obtain ⟨entries, hrun, -⟩ := Outcome.bind_eq_ok.1 hsums
  have hvisits {g : Graph} {outside : Env} {fed : List Tensor}
      (visits : runningGraph.Visits 9 (fun _ => none) runningFeeds g outside fed) :
      (g = runningGraph ∧ outside = (fun _ => none) ∧ fed = runningFeeds)
        ∨ g = runningBody ∧ outside = runningEnv.within runningGraph.body.declarations
          ∧ ∃ step < 2, fed = runningHanded step := by
    cases visits with
    | self => exact .inl ⟨rfl, rfl, rfl⟩
    | inside hands rest =>
        obtain ⟨rfl, rfl, -, -, step, hstep, rfl⟩ := running_hands hands
        obtain ⟨rfl, rfl, rfl⟩ := rest.eq_of_flat runningBody_flat
        exact .inr ⟨rfl, rfl, step, hstep, rfl⟩
  refine ⟨m, hm, hloops, labels_hold hm (by decide +kernel) tidy hrun (fun g outside fed visits => ?_)
    (fun g outside fed visits => ?_) fun g outside fed visits => ?_⟩
  · rcases hvisits visits with ⟨rfl, rfl, rfl⟩ | ⟨rfl, rfl, step, hstep, rfl⟩
    · exact running_truthful.1
    · exact running_truthful.2 step hstep
  · rcases hvisits visits with ⟨rfl, rfl, rfl⟩ | ⟨rfl, rfl, step, hstep, rfl⟩
    · exact running_names.1
    · exact running_names.2
  · rcases hvisits visits with ⟨rfl, rfl, rfl⟩ | ⟨rfl, rfl, step, hstep, rfl⟩
    · exact running_steady
    · exact Graph.steady_of_flat runningBody_flat

/-- A vector added to the rows of a matrix, as it was done up to version 6.
The shape of the sum is declared. -/
def rowsGraph : Graph :=
  ⟨{ nodes := [{
       op := "Add"
       inputs := ["a", "b"]
       outputs := ["y"]
       attributes := [("broadcast", .int 1)] }]
     inputs := [{ name := "a", shape := some [.value 2, .value 3] },
       { name := "b", shape := some [.value 3] }]
     outputs := [{ name := "y", shape := some [.value 2, .value 3] }] }⟩

def rowsFeeds : List Tensor :=
  [⟨.int64, [2, 3], #[1, 2, 3, 4, 5, 6], rfl⟩, .vector .int64 [10, 20, 30]]

theorem rowsGraph_flat : ∀ node ∈ rowsGraph.body.nodes, node.op ≠ "Scan" := by decide

/-- The shape of the sum is on the vector that has been brought to the rank
of the matrix, too, although all that is declared is true. -/
theorem labels_lie_rows :
    ∃ m results, (rowsGraph.lower Handlers.standard 6 false).1 = .ok m
      ∧ rowsGraph.scoped (fun _ => false) = true ∧ m.Tidy
      ∧ (rowsGraph.meaning 6).run (fun _ => none) rowsFeeds = .ok results
      ∧ (∀ g outside fed, rowsGraph.Visits 6 (fun _ => none) rowsFeeds g outside fed →
        g.Truthful 6 outside fed)
      ∧ ¬ m.LabelsHold (rowsFeeds.map some) := by
  obtain ⟨m, hm, htest⟩ : ∃ m, (rowsGraph.lower Handlers.standard 6 false).1 = .ok m
      ∧ (m.harmless && decide (m.inputs.length = 2) && decide (m.nodes.length = 2)
        && decide ((m.label (.node 0)).shape.join = some [some 2, some 3])
        && match (m.map Loop.meaning).valuesFrom (rowsFeeds.map some) [] m.nodes with
          | .ok done => decide ((Ref.value (rowsFeeds.map some) done (.node 0)).operand.map
              Tensor.shape = some [1, 3])
          | .error _ => false) = true := Except.exists_of_test (by decide +kernel)
  have hsum : List.map Entry.tensor <$> (rowsGraph.meaning 6).run (fun _ => none) rowsFeeds
      = .ok [⟨.int64, [2, 3], #[11, 22, 33, 14, 25, 36], rfl⟩] := by decide +kernel
  obtain ⟨entries, hrun, -⟩ := Outcome.bind_eq_ok.1 hsum
  simp only [Bool.and_eq_true, decide_eq_true_eq] at htest
  obtain ⟨⟨⟨⟨hharmless, hinputs⟩, hnodes⟩, hlabel⟩, hvalue⟩ := htest
  have tidy := ModuleOf.Tidy.of_harmless hharmless
  have htrue : rowsGraph.Truthful 6 (fun _ => none) rowsFeeds := by decide +kernel
  refine ⟨m, entries, hm, by decide +kernel, tidy, hrun, fun g outside fed visits => ?_, fun h => ?_⟩
  · obtain ⟨rfl, rfl, rfl⟩ := visits.eq_of_flat rowsGraph_flat
    exact htrue
  · obtain ⟨done, hdone⟩ := (ModuleOf.labelsHold_iff tidy.legible (hinputs ▸ rfl)).1 h
    rw [hdone.values] at hvalue
    have hshape := of_decide_eq_true hvalue
    obtain ⟨t, ht, hmatches⟩ := hdone.labels (.node 0) (hnodes ▸ Nat.zero_lt_two) _ hlabel
    rw [ht] at hshape
    replace hshape : t.shape = [1, 3] := Option.some.inj hshape
    unfold KnownShape.Matches at hmatches
    rw [hshape] at hmatches
    exact absurd hmatches (by decide)

end

end OnnxLowering
