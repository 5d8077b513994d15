/-
Lowering simulates the meaning of graphs. After a node has been lowered,
its outputs stand for what the node means (`Holds.lowersNode`), and so
after all nodes of a graph; what the module of the graph returns is then
what the graph means. A graph inside a node is the same thing in another
place: names that it does not define stand for what they do around it, so
the simulation of a graph follows from that of the graphs inside.
-/
import OnnxLowering.Proofs.Handler.Simulation
import OnnxLowering.Proofs.Lowering.Capture

namespace OnnxLowering

/-- Wherever the graph stands, its module does what it means. -/
def Simulates (opset : Int) (g : Graph) : Prop :=
  ∀ visible scopes env subgraph, g.scoped visible = true →
    (∀ name, scopes.defines name = true → visible name = true) → Seen scopes env →
    ((g.fold Handlers.standard.importer).lower ⟨opset, scopes⟩).1 = .ok subgraph →
    subgraph.module.Tidy → subgraph.Means (g.meaning opset) env

/-- The graphs inside a node that is about to be lowered become modules
that do what they mean. -/
def InnerMeans (opset : Int) (scopes : Scopes) (declarations : NameMap KnownType) (env : Env)
    (node : NodeOf Graph) : Prop :=
  ∀ g ∈ node.inner, ∀ subgraph,
    ((g.fold Handlers.standard.importer).lower ⟨opset, scopes⟩).1 = .ok subgraph →
    subgraph.module.Tidy → subgraph.Means (g.meaning opset) (env.within declarations)

namespace World

variable {w : World} {outer : Scopes} {scope scope' : Scope} {outside env : Env} {done : List Value}

-- =================================================================== nodes

/-- Names of which nothing is known get values. -/
theorem Holds.bound {pairs : List (String × Ref)} {entries : List (String × Entry)}
    (h : w.Holds outside scope done env) (yields : w.Yields scope done pairs entries)
    (new : ∀ pair ∈ pairs, pair.1.isEmpty = false → Unknown scope pair.1) :
    w.Holds outside { scope with bindings := OnnxLowering.bound scope.bindings pairs } done
      (env.insertAll entries) := by
  induction pairs generalizing scope env entries with
  | nil =>
      cases yields
      exact h
  | cons pair pairs ih =>
      obtain ⟨⟨name', e⟩, rest, first, others, rfl⟩ := List.forall₂_cons_left_iff.1 yields
      obtain ⟨name, ref⟩ := pair
      obtain ⟨hname, hconstant, hdenotes⟩ := first
      obtain rfl : name = name' := hname
      replace hconstant : e.constant = false := hconstant
      rw [List.forall_mem_cons] at new
      rw [bound_cons]
      show w.Holds outside _ done (Env.insertAll (if name.isEmpty then env else env.insert name e) rest)
      by_cases hempty : name.isEmpty = true
      · rw [if_pos hempty, if_pos hempty]
        exact ih h others new.2
      · rw [if_neg hempty, if_neg hempty]
        have hunknown : Unknown scope name := new.1 (Bool.eq_false_iff.2 hempty)
        have hknown : e.known? = none := if_neg (by rw [hconstant]; exact Bool.false_ne_true)
        have hbound : w.Holds outside (scope.bind name ref) done (env.insert name e) := by
          refine h.bind hdenotes ⟨hunknown.tensors.trans hknown.symm, fun t ht => ?_, fun htrue => ?_⟩
            fun ref' href => ?_
          · rw [hunknown.initializers] at ht
            cases ht
          · rw [hconstant] at htrue
            cases htrue
          · rw [hunknown.constants] at href
            cases href
        exact ih hbound (others.imp fun _ _ hrest => ⟨hrest.1, hrest.2.1, hrest.2.2.congr rfl rfl⟩)
          fun other hother hgiven =>
            have hold := new.2 other hother hgiven
            ⟨hold.tensors, hold.initializers, hold.constants⟩

section

variable {node : NodeOf Graph} {opset : Int} {session session' : Session}

/-- What a handler makes of a node other than a constant is what the node
means. -/
theorem Holds.served {handler : Handler} {result : Result} (seen : Seen outer outside)
    (h : w.Holds outside session.scope done env) (served : Served opset node.op handler)
    (hop : node.op ≠ "Constant")
    (handled : handler (node.map (Graph.fold Handlers.standard.importer)) ⟨opset, outer⟩ session
      = .ok result session')
    (fits : w.Fits outside session'.scope)
    (hmeans : InnerMeans opset (session.scope :: outer) session.scope.declarations env node) :
    Realises (fun done' entries => w.Holds outside session'.scope done' env
        ∧ w.Yields session'.scope done'
          (result.pairs (node.map (Graph.fold Handlers.standard.importer))) entries)
      (w.advance session.scope session'.scope done)
      (results opset session.scope.declarations env (node.map (Graph.meaning opset))) := by
  have hname : (node.map (Graph.meaning opset)).op = node.op := rfl
  unfold results
  rw [hname]
  generalize node.op = name at served hop
  cases served with
  | constant => exact absurd rfl hop
  | identity =>
      obtain ⟨name, ref, hinput, hgets, rfl⟩ := Handler.identity_eq_ok handled
      obtain ⟨e, done', henv, hadvance, hholds, hdenotes⟩ := h.gets seen hgets fits
      rw [hadvance, operand_eq hinput, Env.read_eq_ok.2 henv]
      exact .ok ⟨hholds, Denotes.yields
        ⟨hdenotes.valid, hdenotes.value, hdenotes.shapes⟩ rfl⟩
  | add hversion =>
      simp only [if_pos hversion]
      exact h.applied seen (Handler.binary_eq_ok handled) fits fun _ hitem => nomatch hitem
  | addAligned hversion =>
      simp only [if_neg hversion]
      exact h.alignedBinary seen handled fits fun _ hitem => nomatch hitem
  | multiply hversion =>
      simp only [if_pos hversion]
      exact h.applied seen (Handler.binary_eq_ok handled) fits fun _ hitem => nomatch hitem
  | multiplyAligned hversion =>
      simp only [if_neg hversion]
      exact h.alignedBinary seen handled fits fun _ hitem => nomatch hitem
  | sqrt => exact h.applied seen (Handler.sqrt_eq_ok handled) fits fun _ hitem => nomatch hitem
  | random =>
      obtain ⟨values, op, hvalues, hrandom, happlied⟩ := Handler.random_eq_ok handled
      exact h.appliedChosen seen hvalues hrandom happlied fits (ne_item_of_random hrandom)
  | randomLike =>
      obtain ⟨values, op, hvalues, hrandom, happlied⟩ := Handler.randomLike_eq_ok handled
      exact h.appliedChosen seen hvalues hrandom happlied fits (ne_item_of_randomLike hrandom)
  | scatter => exact h.applied seen (Handler.scatter_eq_ok handled) fits fun _ hitem => nomatch hitem
  | scanBatched hversion =>
      simp only [if_neg hversion]
      exact h.scanWith seen (Handler.scanBatched_eq_ok handled) fits hmeans
  | scan hversion =>
      simp only [if_pos hversion]
      exact h.scanWith seen handled fits hmeans
  | spectrum =>
      obtain ⟨values, hvalues, ⟨happlied⟩⟩ := Handler.spectrum_eq_ok handled
      rw [ofExcept_values hvalues]
      exact h.appliedSpectrum seen happlied fits

/-- A constant stands for its tensor from then on. -/
theorem Holds.lowersConstant {t : Tensor} {values : Attributes} (h : w.Holds outside scope done env)
    {visible : Visible} (gives : node.givesNew visible = true) (hop : node.op = "Constant")
    (hvalues : node.values = .ok values) (ht : Handler.constantTensor values = .ok t)
    (new : scope.defines (Handler.constantSource node) = false)
    (stores : scope.Stores (Handler.constantSource node) t scope') {bindings : NameMap Ref}
    (hbindings : bindings = OnnxLowering.bound scope'.bindings
      ((Result.one (.node scope.nodes.length)).pairs
        (node.map (Graph.fold Handlers.standard.importer))))
    (fits : w.Fits outside { scope' with bindings }) :
    Realises (w.Holds outside { scope' with bindings }) (w.advance scope { scope' with bindings } done)
      (evalNode opset scope.declarations env (node.map (Graph.meaning opset))) := by
  have hname := NodeOf.constantSource_eq gives hop
  have hempty : (Handler.constantSource node).isEmpty = false :=
    Bool.not_inj (List.mem_filter.1 (NodeOf.constantSource_mem gives hop)).2
  have hresults : results opset scope.declarations env (node.map (Graph.meaning opset))
      = .ok [(Handler.constantSource node, .ofConstant t)] := by
    have hnamed : named (node.map (Graph.meaning opset)) (.ofConstant t)
        = [(Handler.constantSource node, .ofConstant t)] :=
      congrArg (List.map (·, Entry.ofConstant t)) hname
    unfold results
    rw [show (node.map (Graph.meaning opset)).op = "Constant" from hop, NodeOf.values_map, ← hnamed]
    simp only [Outcome.ofExcept_eq_ok.2 hvalues, Outcome.ok_bind, Outcome.ofExcept_eq_ok.2 ht,
      Outcome.pure_eq]
  have hinsert : env.insertAll [(Handler.constantSource node, .ofConstant t)]
      = env.insert (Handler.constantSource node) (.ofConstant t) := by
    show (if (Handler.constantSource node).isEmpty then env else _) = _
    rw [hempty]
    rfl
  have hpairs : (Result.one (.node scope.nodes.length)).pairs
      (node.map (Graph.fold Handlers.standard.importer))
      = [(Handler.constantSource node, .node scope.nodes.length)] :=
    congrArg (List.map (·, Ref.node scope.nodes.length)) hname
  rw [hpairs, bound_cons, hempty] at hbindings
  subst hbindings
  obtain ⟨done', hadvance, hholds, -⟩ := h.stores_bind (e := .ofConstant t) stores fits
    (fun hdefines => nomatch new.symm.trans hdefines) rfl fun _ => List.mem_singleton_self _
  unfold evalNode
  rw [hresults, Outcome.ok_bind, hinsert]
  exact ⟨done', hadvance, hholds⟩

/-- What a node makes of what names stand for is what it means. -/
theorem Holds.lowersNode {visible : Visible} (seen : Seen outer outside)
    (h : w.Holds outside session.scope done env) (gives : node.givesNew visible = true)
    (hvisible : ∀ name, Scopes.defines (session.scope :: outer) name = true → visible name = true)
    (hinner : ∀ g ∈ node.inner, CapturesReads g) (tied : session.scope.Tied)
    (lowered : Lower.lowerNode Handlers.standard
      (node.map (Graph.fold Handlers.standard.importer)) ⟨opset, outer⟩ session = .ok () session')
    (fits : w.Fits outside session'.scope)
    (hmeans : InnerMeans opset (session.scope :: outer) session.scope.declarations env node) :
    Realises (w.Holds outside session'.scope) (w.advance session.scope session'.scope done)
      (evalNode opset session.scope.declarations env (node.map (Graph.meaning opset))) := by
  obtain ⟨-, version, handler, result, log, middle, hfind, hhandler, rfl⟩ :=
    Lower.lowerNode_eq_ok lowered
  have served : Served opset node.op handler := Handlers.served_of_find? hfind
  have hnew : ∀ name ∈ node.namedOutputs, session.scope.defines name = false
      ∧ outer.defines name = false := by
    intro name hname
    have hhidden := NodeOf.not_visible_of_givesNew gives hname
    rw [← Bool.or_eq_false_iff, ← Bool.not_eq_true]
    exact fun hdefines => nomatch hhidden.symm.trans (hvisible name hdefines)
  by_cases hop : node.op = "Constant"
  · obtain rfl : handler = Handler.constant := served.of_constant hop
    obtain ⟨values, t, hvalues, ht, rfl, hstores⟩ := Handler.constant_eq_ok hhandler
    rw [NodeOf.values_map] at hvalues
    exact h.lowersConstant gives hop hvalues ht
      (hnew _ (NodeOf.constantSource_mem gives hop)).1 hstores rfl fits
  · have hserved := World.Holds.served seen
      (show w.Holds outside { session with log }.scope done env from h) served hop hhandler
      ⟨fits.distinct, fits.attributes, fits.loops, fits.bodies, fits.captured⟩ hmeans
    have hmoves := served.moves_between hop hhandler gives hinner tied
    have hgrows := hmoves.grows (Rules.within_reading fun name hname => hname)
    -- what the handler reads it only sees, so the outputs are still new
    refine hserved.map_right fun done' entries hresult => hresult.1.bound hresult.2
      fun pair hpair hname => hresult.1.unknown ?_
    obtain ⟨hunknown, hunseen⟩ := hnew pair.1 (Result.mem_namedOutputs_of_mem_pairs hpair hname)
    rw [← Bool.not_eq_true]
    intro hdefines
    rcases hgrows.origin pair.1 hdefines with hold | hold | hnone
    · exact nomatch hunknown.symm.trans hold
    · exact nomatch hunseen.symm.trans hold
    · cases hnone

end

/-- What the first of some nodes does to the scope, and what the others do
to it then. -/
theorem lowersNodes_cons {visible : Visible} {rest : List (NodeOf Graph)} {opset : Int}
    {node : NodeOf Graph} {session middle session' : Session}
    (hfirst : Lower.lowerNode Handlers.standard
      (node.map (Graph.fold Handlers.standard.importer)) ⟨opset, outer⟩ session = .ok () middle)
    (hrest : Lower.lowerNodes Handlers.standard
      (rest.map (NodeOf.map (Graph.fold Handlers.standard.importer))) ⟨opset, outer⟩ middle
      = .ok () session')
    (gives : node.givesNew visible = true)
    (others : NodesScoped (visible.adding node.namedOutputs) rest)
    (hvisible : ∀ name, Scopes.defines (session.scope :: outer) name = true → visible name = true)
    (hinner : (∀ g ∈ node.inner, CapturesReads g)
      ∧ ∀ node ∈ rest, ∀ g ∈ node.inner, CapturesReads g) (tied : session.scope.Tied) :
    ∃ reads gives, session.scope.Grows outer reads gives middle.scope
      ∧ middle.scope.Grows outer reads gives session'.scope ∧ middle.scope.Tied
      ∧ ∀ name, Scopes.defines (middle.scope :: outer) name = true →
        visible.adding node.namedOutputs name = true := by
  obtain ⟨hgrows, htied⟩ := lowerNode_grows hfirst gives hinner.1 tied
  obtain ⟨hgrows', -⟩ := lowerNodes_grows hrest others hinner.2 htied
  refine ⟨_, _, hgrows.mono (List.subset_append_left _ (rest.flatMap NodeOf.reads))
      (List.subset_append_left _ (rest.flatMap NodeOf.namedOutputs)),
    hgrows'.mono (List.subset_append_right node.reads _)
      (List.subset_append_right node.namedOutputs _), htied, fun name hname => ?_⟩
  rcases Bool.or_eq_true _ _ ▸ hname with hname | hname
  · rcases hgrows.origin name hname with hold | hold | hgiven
    · exact Visible.adding_of_visible (hvisible name (Bool.or_eq_true _ _ ▸ .inl hold))
    · exact Visible.adding_of_visible (hvisible name (Bool.or_eq_true _ _ ▸ .inr hold))
    · exact Visible.adding_of_mem hgiven
  · exact Visible.adding_of_visible (hvisible name (Bool.or_eq_true _ _ ▸ .inr hname))

theorem Holds.lowersNodes {nodes : List (NodeOf Graph)} {opset : Int} {session session' : Session}
    {visible : Visible} (hscoped : NodesScoped visible nodes) (seen : Seen outer outside)
    (h : w.Holds outside session.scope done env)
    (hvisible : ∀ name, Scopes.defines (session.scope :: outer) name = true → visible name = true)
    (hinner : ∀ node ∈ nodes, ∀ g ∈ node.inner, CapturesReads g) (tied : session.scope.Tied)
    (lowered : Lower.lowerNodes Handlers.standard
      (nodes.map (NodeOf.map (Graph.fold Handlers.standard.importer))) ⟨opset, outer⟩ session
      = .ok () session')
    (fits : w.Fits outside session'.scope)
    (hsimulates : ∀ node ∈ nodes, ∀ g ∈ node.inner, Simulates opset g) :
    Realises (w.Holds outside session'.scope) (w.advance session.scope session'.scope done)
      ((nodes.map (NodeOf.map (Graph.meaning opset))).foldlM
        (evalNode opset session.scope.declarations) env) := by
  induction hscoped generalizing session done env with
  | nil =>
      cases lowered
      rw [advance_refl]
      exact .ok h
  | @cons visible node rest gives inner others ih =>
      rw [List.forall_mem_cons] at hinner hsimulates
      obtain ⟨middle, hfirst, hrest⟩ := Lower.lowerNodes_cons_eq_ok lowered
      obtain ⟨_, _, hgrows, hgrows', htied, hadded⟩ :=
        lowersNodes_cons hfirst hrest gives others hvisible hinner tied
      rw [advance_trans hgrows hgrows', List.map_cons, List.foldlM_cons]
      refine (h.lowersNode seen gives hvisible hinner.1 tied hfirst (fits.of_grows hgrows')
        fun g hg subgraph himported htidy => hsimulates.1 g hg visible _ _ subgraph (inner g hg)
          hvisible (h.seen seen) himported htidy).bind fun done' env' _ hholds => ?_
      rw [← hgrows.declarations]
      exact ih hholds hadded hinner.2 htied hrest hsimulates.2

end World

end OnnxLowering
