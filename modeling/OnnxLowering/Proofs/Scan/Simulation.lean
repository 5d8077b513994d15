/-
The scan handler does what a scan means, if the graph inside does what
it means wherever the scan stands (`Subgraph.Means`). The values from
outside that the body reads come behind the inputs of the scan, and the
loop hands them to its body at every step.
-/
import OnnxLowering.Proofs.Handler.Simulation
import OnnxLowering.Proofs.Scan.Meaning

namespace OnnxLowering

-- ============================================================= loop body

namespace ModuleOf

variable {m : Module} {inputs : List Input} {first : Nat} {inAxes outAxes : List Int}

/-- The new nodes refer to no tensor and no loop. -/
theorem targetsOf_loopBody :
    targetsOf (m.loopBody inputs first inAxes outAxes).nodes = targetsOf m.nodes := by
  have hnone {α : Type} (f : α → Node) (xs : List α) (hf : ∀ x, (f x).action.target? = none) :
      targetsOf (xs.map f) = [] := by
    unfold targetsOf
    rw [List.filterMap_map, List.filterMap_eq_nil_iff]
    exact fun x _ => hf x
  have hsame (nodes : List Node) (f : Ref → Ref) :
      targetsOf (nodes.map fun node => { node with action := node.action.map f })
        = targetsOf nodes := by
    unfold targetsOf
    rw [List.filterMap_map]
    refine List.filterMap_congr fun node _ => ?_
    obtain ⟨action, label⟩ := node
    cases action <;> rfl
  show targetsOf ((_ ++ _) ++ _) = _
  rw [targetsOf_append, targetsOf_append, hsame, hnone _ _ fun _ => rfl, hnone _ _ fun _ => rfl,
    List.nil_append, List.append_nil]

/-- If the body of a loop is tidy, so is the module that it is made of,
and no parameter hides the library. -/
theorem Tidy.of_loopBody (h : (m.loopBody inputs first inAxes outAxes).Tidy)
    (hnames : inputs.map Input.name = m.inputs.map Input.name) (haxes : inAxes ≠ []) :
    m.Tidy ∧ Reserved.library ∉ m.parameters := by
  have hlength : inputs.length = m.inputs.length := by
    rw [← List.length_map (f := Input.name), hnames, List.length_map]
  have hlegible := h.legible.of_unsqueezeResults.of_squeezeInputs
  refine ⟨⟨⟨?_, fun node hnode word hword => ?_⟩, ?_, ?_⟩, ?_⟩
  · have hsources := hlegible.sources
    unfold parameters at hsources ⊢
    rw [← hnames, ← hlength]
    exact hsources
  · have hvisible := hlegible.visible node hnode word hword
    unfold parameters at hvisible ⊢
    rw [← hnames]
    exact hvisible
  · rw [← targetsOf_loopBody]
    exact h.distinct
  · intro name hname wiring arity body hloop
    rw [← @targetsOf_loopBody m inputs first inAxes outAxes] at hname
    exact h.body hname hloop
  · obtain ⟨axis, axes, rfl⟩ := List.exists_cons_of_ne_nil haxes
    have hvisible := h.legible.visible _ List.mem_cons_self _ List.mem_cons_self
    unfold parameters at hvisible ⊢
    rw [← hnames]
    exact hvisible

end ModuleOf

/-- A loop returns as many values as it has outputs. -/
theorem Wiring.length_run {wiring : Wiring} {arity : Nat} {body : Wiring.Body}
    {inputs outputs : List Operand} (h : wiring.run arity body inputs = .ok outputs) :
    outputs.length = wiring.outputs.length := by
  obtain ⟨arguments, -, h⟩ := Except.bind_eq_ok.1 h
  obtain ⟨count, -, h⟩ := Except.bind_eq_ok.1 h
  obtain ⟨state, -, h⟩ := Except.bind_eq_ok.1 h
  rw [← (Except.mapM_eq_ok.1 h).length_eq, List.length_zipIdx]

-- ============================================================== subgraphs

namespace Subgraph

/-- What the module of a nested graph has returned is what the graph
means. A result that is an input is the tensor that has been fed to
it. -/
def Returns (subgraph : Subgraph) (feeds : List Tensor) (output : Output)
    (entries : List Entry) : Prop :=
  output.Are (entries.map Entry.tensor)
    ∧ List.Forall₂ (fun ref e => KnownAs (subgraph.module.label ref).shape.join e.shapes
        ∧ ∀ i t, ref = .input i → feeds[i]? = some t → t = e.tensor)
      subgraph.module.results.refs entries

/-- A nested graph has become a module that does what it means, where
names around it stand for something: it runs on the inputs of the graph
and then on what the captured names stand for. -/
structure Means (subgraph : Subgraph) (nested : Nested) (outside : Env) : Prop where
  inputCount : subgraph.inputNames.length = nested.inputCount
  outputCount : subgraph.outputNames.length = nested.outputCount
  arity : subgraph.module.inputs.length
    = subgraph.inputNames.length + subgraph.outerInputs.length
  results : subgraph.module.results.refs.length = subgraph.outputNames.length
  run : ∀ feeds outers : List Tensor,
    List.Forall₂ (fun name t => ∃ e, outside name = some e ∧ e.tensor = t)
      subgraph.outerInputs outers →
    Realises (subgraph.Returns feeds) (subgraph.module.eval ((feeds ++ outers).map some))
      (nested.run outside feeds)

end Subgraph

-- =================================================================== plan

open Handler (ScanPlan ScanSyntax Scanned)

theorem planOf_eq_ok {plan : ScanPlan} {spelling : ScanSyntax} {values : Attributes}
    {scanInputs : Int} {inputCount outputCount : Nat}
    (h : plan.Describes spelling values scanInputs inputCount outputCount) :
    planOf spelling values scanInputs inputCount outputCount = .ok plan := by
  have hpositive := h.positive
  have hinputs := h.inputs
  have houtputs := h.outputs
  have hstates : (inputCount - scanInputs : Int).toNat = plan.states := by omega
  have hcount : outputCount - plan.states = plan.outputAxes.length := by omega
  unfold planOf
  simp only [hstates, hcount, h.inputAxes, h.inputDirections, h.outputAxes, h.outputDirections]
  rfl

section

variable {plan : ScanPlan} {known : List (List KnownShape)} {shapes : List (Option KnownShape)}

/-- Tensors of the ranks that count have the known ones. -/
theorem fitsAt_of_hasRank {axis : Int} {dims : Option KnownShape} {possible : List KnownShape}
    {t : Tensor} (hknown : KnownAs dims possible) (h : HasRank axis possible t) :
    KnownShape.FitsAt (dims, axis) t := by
  rintro hnegative dims rfl
  exact h hnegative dims hknown

/-- The scan inputs have the known ranks. -/
theorem fitsAt_scans {es : List Entry} (hknown : List.Forall₂ KnownAs shapes known)
    (hes : es.length = known.length)
    (haxes : plan.inputAxes.length = (shapes.drop plan.states).length)
    (h : ∀ entry ∈ ((es.zip known).drop plan.states).zip plan.inputAxes,
      HasRank entry.2 entry.1.2 entry.1.1.tensor) :
    List.Forall₂ KnownShape.FitsAt ((shapes.drop plan.states).zip plan.inputAxes)
      ((es.map Entry.tensor).drop plan.states) := by
  refine forall₂_of_getElem? ?_ fun j entry t hentry ht => ?_
  · have hlength := hknown.length_eq
    simp only [List.length_zip, List.length_drop, List.length_map] at haxes ⊢
    omega
  · obtain ⟨hdims, haxis⟩ := List.getElem?_zip_eq_some.1 hentry
    rw [List.getElem?_drop] at hdims ht
    rw [List.getElem?_map, Option.map_eq_some_iff] at ht
    obtain ⟨e, he, rfl⟩ := ht
    obtain ⟨possible, hpossible⟩ : ∃ possible, known[plan.states + j]? = some possible :=
      ⟨_, List.getElem?_eq_getElem (hes ▸ (List.getElem?_eq_some_iff.1 he).1)⟩
    have hpair : ((es.zip known).drop plan.states)[j]? = some (e, possible) := by
      rw [List.getElem?_drop]
      exact List.getElem?_zip_eq_some.2 ⟨he, hpossible⟩
    have hmem : ((e, possible), entry.2) ∈ ((es.zip known).drop plan.states).zip plan.inputAxes :=
      List.mem_of_getElem? (List.getElem?_zip_eq_some.2 ⟨hpair, haxis⟩)
    exact fitsAt_of_hasRank (getElem?_forall₂ hknown hdims hpossible) (h _ hmem)

/-- A result of the body has the rank that it is known to have. -/
theorem fitsAt_result {module : Module} {ref : Ref} {e : Entry} {xs : List Tensor} {axis : Int}
    (hlabel : KnownAs (module.label ref).shape.join e.shapes)
    (hfed : ∀ i t, ref = .input i → xs[i]? = some t → t = e.tensor)
    (hxs : xs.length = plan.inputCount) (hknown : List.Forall₂ KnownAs shapes known)
    (hstates : ∀ entry ∈ xs.zip (known.take plan.states), HasRank axis entry.2 entry.1)
    (hrank : HasRank axis e.shapes e.tensor) :
    KnownShape.FitsAt (plan.resultShape shapes module ref, axis) e.tensor := by
  cases ref with
  | node i => exact fitsAt_of_hasRank hlabel hrank
  | input i =>
      simp only [ScanPlan.resultShape]
      by_cases hstate : i < plan.states
      · rw [if_pos hstate]
        intro hnegative dims hdims
        obtain ⟨input, -, hdims⟩ := Option.bind_eq_some_iff.1 hdims
        have hshape : shapes[i]? = some (some dims) := by
          rw [List.getD_eq_getElem?_getD] at hdims
          cases hshape : shapes[i]? with
          | none =>
              rw [hshape] at hdims
              cases hdims
          | some shape =>
              rw [hshape] at hdims
              exact congrArg some hdims
        obtain ⟨t, ht⟩ : ∃ t, xs[i]? = some t := by
          refine ⟨_, List.getElem?_eq_getElem ?_⟩
          rw [hxs, ScanPlan.inputCount]
          omega
        obtain ⟨possible, hpossible⟩ : ∃ possible, known[i]? = some possible := by
          have hi := (List.getElem?_eq_some_iff.1 hshape).1
          exact ⟨_, List.getElem?_eq_getElem (hknown.length_eq ▸ hi)⟩
        have hmem : (t, possible) ∈ xs.zip (known.take plan.states) := by
          refine List.mem_of_getElem? (List.getElem?_zip_eq_some.2 ⟨ht, ?_⟩)
          rw [List.getElem?_take_of_lt hstate]
          exact hpossible
        rw [← hfed i t rfl ht]
        exact hstates _ hmem hnegative dims (getElem?_forall₂ hknown hshape hpossible)
      · rw [if_neg hstate]
        by_cases helement : i < plan.inputCount
        · rw [if_pos helement]
          intro _ _ hdims
          cases hdims
        · rw [if_neg helement]
          exact fitsAt_of_hasRank hlabel hrank

end

-- =================================================================== body

section

variable {subgraph : Subgraph} {nested : Nested} {declarations : NameMap KnownType} {env : Env}
  {plan : ScanPlan} {known : List (List KnownShape)} {shapes : List (Option KnownShape)}
  {outers xs values : List Tensor}

/-- The module of the body does what the scan iterates. -/
theorem Subgraph.Means.realises_scanned (means : subgraph.Means nested (env.within declarations))
    (houters : List.Forall₂ (fun name t => ∃ e, env.within declarations name = some e
      ∧ e.tensor = t) subgraph.outerInputs outers) :
    Realises Output.Are (subgraph.module.eval ((xs ++ outers).map some))
      (scanned declarations env nested plan known xs) := by
  have hrun := means.run xs outers houters
  unfold scanned
  cases hcase : nested.run (env.within declarations) xs with
  | ok entries =>
      rw [hcase] at hrun
      obtain ⟨output, heval, hare, -⟩ := hrun
      refine Realises.require_bind fun _ => Realises.require_bind fun _ => ?_
      exact ⟨output, heval, hare⟩
  | failed =>
      rw [hcase] at hrun
      exact hrun
  | unspecified => trivial

/-- What the scan iterates gives as many values as the plan says, and
these have the ranks that are known. -/
theorem Subgraph.Means.fitsAt_scanned (means : subgraph.Means nested (env.within declarations))
    (houters : List.Forall₂ (fun name t => ∃ e, env.within declarations name = some e
      ∧ e.tensor = t) subgraph.outerInputs outers)
    (hinputs : subgraph.inputNames.length = plan.inputCount)
    (houtputs : subgraph.outputNames.length = plan.states + plan.outputAxes.length)
    (hknown : List.Forall₂ KnownAs shapes known)
    (h : scanned declarations env nested plan known xs = .ok values) :
    values.length = plan.states + plan.outputAxes.length
      ∧ List.Forall₂ (fun entry value =>
          KnownShape.FitsAt (plan.resultShape shapes subgraph.module entry.1, entry.2) value)
        ((subgraph.module.results.refs.drop plan.states).zip plan.outputAxes)
        (values.drop plan.states) := by
  obtain ⟨entries, hentries, h⟩ := Outcome.bind_eq_ok.1 h
  rw [Outcome.require_bind_eq_ok] at h
  obtain ⟨hstates, h⟩ := h
  rw [Outcome.require_bind_eq_ok] at h
  obtain ⟨hranks, h⟩ := h
  cases h
  have hrun := means.run xs outers houters
  rw [hentries] at hrun
  obtain ⟨output, heval, hare, hrefs⟩ := hrun
  have hlength : entries.length = plan.states + plan.outputAxes.length := by
    rw [← hrefs.length_eq, means.results, houtputs]
  have hxs : xs.length = plan.inputCount := by
    have harguments := (ModuleOf.evalNodes_of_run_eq_ok heval).1
    have harity : (subgraph.module.map Loop.meaning).inputs.length = _ := means.arity
    rw [harity, List.length_map, List.length_append, ← houters.length_eq, hinputs] at harguments
    omega
  refine ⟨by rw [List.length_map, hlength], forall₂_of_getElem? ?_ fun j entry t hentry ht => ?_⟩
  · rw [List.length_zip, List.length_drop, List.length_drop, List.length_map, hrefs.length_eq,
      hlength]
    omega
  · obtain ⟨href, haxis⟩ := List.getElem?_zip_eq_some.1 hentry
    rw [← List.map_drop, List.getElem?_map, Option.map_eq_some_iff] at ht
    obtain ⟨e, he, rfl⟩ := ht
    have hmem : (e, entry.2) ∈ (entries.drop plan.states).zip plan.outputAxes :=
      List.mem_of_getElem? (List.getElem?_zip_eq_some.2 ⟨he, haxis⟩)
    rw [List.getElem?_drop] at href he
    obtain ⟨hlabel, hfed⟩ := getElem?_forall₂ hrefs href he
    exact fitsAt_result hlabel hfed hxs hknown (hstates _ (List.mem_of_getElem? haxis))
      (hranks _ hmem)

end

-- ================================================================ handler

namespace World

variable {w : World} {outer : Scopes} {scope scope' : Scope} {outside env : Env}
  {done : List Value} {A : Type} {node : NodeOf A} {f : A → Importer} {g : A → Nested}

/-- Names that get values are defined. -/
theorem Holds.defines_of_getsAll {names : List String} {refs : List Ref} (seen : Seen outer outside)
    (h : w.Holds outside scope done env) (gets : scope.GetsAll outer names refs scope')
    (fits : w.Fits outside scope') {name : String} (hname : name ∈ names) :
    Scopes.defines (scope :: outer) name = true := by
  induction gets generalizing done with
  | nil => cases hname
  | @cons scope middle scope' first names ref refs gets rest ih =>
      have hrest : middle.Grows outer names [] scope' := rest.grows (List.Subset.refl names)
      rcases List.mem_cons.1 hname with rfl | hname
      · exact h.defines_of_gets gets
      · obtain ⟨e, done', -, -, hholds, -⟩ := h.gets seen gets (fits.of_grows hrest)
        have hdefines := ih hholds fits hname
        have hfirst : scope.Grows outer [first] [] middle := gets.grows List.mem_cons_self
        unfold Scopes.defines at hdefines ⊢
        rw [Bool.or_eq_true] at hdefines ⊢
        rcases hdefines with hdefines | hdefines
        · rcases hfirst.origin name hdefines with hold | hvisible | hgiven
          · exact .inl hold
          · exact .inr hvisible
          · cases hgiven
        · exact .inr hdefines

/-- What is known of a name that is about to get a value. -/
theorem Holds.knownAs_of_getsAll {names : List String} {refs : List Ref} {name : String} {e : Entry}
    (seen : Seen outer outside) (h : w.Holds outside scope done env)
    (gets : scope.GetsAll outer names refs scope') (fits : w.Fits outside scope')
    (hname : name ∈ names) (henv : env name = some e) :
    KnownAs (Scopes.shape? (scope :: outer) name) (e.known scope.declarations name) := by
  obtain ⟨e', henv', -, -, hshape⟩ := h.knows seen (h.defines_of_getsAll seen gets fits hname)
  rw [henv] at henv'
  cases henv'
  exact hshape

/-- A call of a loop has been appended, and one node for each of its
outputs. -/
inductive Calls (scope : Scope) (node : NodeOf Importer) (name : String) (loop : Loop)
    (refs : List Ref) (count : Nat) : Scope → Prop
  | mk (nodeNames : List String) (supply : NameSupply) (loopCounters : Counters) :
      Calls scope node name loop refs count { scope with
        loops := scope.loops.insert name loop
        nodes := scope.nodes ++ ⟨.call name refs, Lower.labelOf scope node 0 false⟩
          :: (List.range count).map fun i =>
            ⟨.apply (.item i) [.node scope.nodes.length], Lower.labelOf scope node i true⟩
        nodeNames, supply, loopCounters }

theorem Calls.grows {node : NodeOf Importer} {name : String} {loop : Loop} {refs : List Ref}
    {count : Nat} {reads gives : List String} (h : Calls scope node name loop refs count scope') :
    scope.Grows outer reads gives scope' := by
  obtain ⟨nodeNames, supply, loopCounters⟩ := h
  refine .of_nodes fun other hother => ⟨rfl, NameMap.find?_insert_of_ne _ _ ?_⟩
  rintro rfl
  exact hother List.mem_cons_self

theorem Calls.called {node : NodeOf Importer} {name : String} {loop : Loop} {refs : List Ref}
    {count : Nat} (h : Calls scope node name loop refs count scope') :
    name ∈ targetsOf scope'.nodes ∧ scope'.loops.find? name = some loop := by
  obtain ⟨nodeNames, supply, loopCounters⟩ := h
  exact ⟨by simp [targetsOf, Action.target?], NameMap.find?_insert_self _ _ _⟩

/-- The nodes for the outputs of a loop have these as their values. -/
theorem valuesFrom_items (w : World) (ts : List Tensor) (label : Nat → Label)
    (h : done.length = scope.nodes.length) :
    w.module.valuesFrom w.inputs (done ++ [.many (ts.map some)])
        ((List.range ts.length).map fun i : Nat =>
          ⟨.apply (.item i) [.node scope.nodes.length], label i⟩)
      = .ok (done ++ [.many (ts.map some)] ++ ts.map Value.ofTensor) := by
  have hnodes : List.Forall₂ (fun node t => ∀ new,
      Realises (fun value t => value = Value.ofTensor t)
        (w.module.valueOf w.inputs (done ++ [.many (ts.map some)] ++ new) node) (.ok t))
      ((List.range ts.length).map fun i : Nat =>
        (⟨.apply (.item i) [.node scope.nodes.length], label i⟩ : Node)) ts := by
    rw [List.forall₂_map_left_iff]
    refine forall₂_of_getElem? List.length_range fun j i t hi ht new => ?_
    obtain ⟨hj, hi⟩ := List.getElem?_eq_some_iff.1 hi
    rw [List.getElem_range] at hi
    subst hi
    refine ⟨_, ?_, rfl⟩
    have hread : Ref.value w.inputs (done ++ [.many (ts.map some)] ++ new)
        (.node scope.nodes.length) = .many (ts.map some) := by
      rw [Ref.value, List.getD_eq_getElem?_getD, ← h, List.append_assoc,
        List.getElem?_append_right (Nat.le_refl _), Nat.sub_self]
      rfl
    have helement : elementAt (ts.map some) (j : Int) = .ok (some t) := by
      refine elementAt_natCast ?_
      rw [List.getElem?_map, ht]
      rfl
    rw [ModuleOf.valueOf_apply, List.map_singleton, hread]
    show (do return Value.one (← elementAt (ts.map some) (j : Int))) = _
    rw [helement]
    rfl
  have hvalues := ModuleOf.realises_valuesFrom hnodes
  rw [Outcome.mapM_ok, List.map_id'] at hvalues
  obtain ⟨values, hvalues, rfl⟩ := hvalues
  exact hvalues

/-- Behind what a loop returns stand its outputs, one by one, -/
theorem getElem?_itemValue {done : List Value} {first : Value} {ts : List Tensor} {j : Nat}
    {t : Tensor} (ht : ts[j]? = some t) :
    (done ++ [first] ++ ts.map Value.ofTensor)[done.length + 1 + j]? = some (.ofTensor t) := by
  rw [List.getElem?_append_right (by simp), List.length_append, List.length_singleton,
    Nat.add_sub_cancel_left, List.getElem?_map, ht]
  rfl

/-- and behind its call the nodes for them. -/
theorem getElem?_itemNode {nodes : List Node} {call : Node} {item : Nat → Node} {count j : Nat}
    (hj : j < count) :
    (nodes ++ call :: (List.range count).map item)[nodes.length + 1 + j]? = some (item j) := by
  rw [List.getElem?_append_right (by omega), Nat.add_assoc, Nat.add_sub_cancel_left, Nat.add_comm,
    List.getElem?_cons_succ, List.getElem?_map, List.getElem?_range hj]
  rfl

/-- The nodes for the outputs of a loop are what the loop returns. -/
theorem Holds.calls {name : String} {loop : Loop} {refs : List Ref} {count : Nat} {es : List Entry}
    {o : Outcome (List Tensor)} (g : A → Nested) (h : w.Holds outside scope done env)
    (calls : Calls scope (node.map f) name loop refs count scope') (fits : w.Fits outside scope')
    (hrefs : List.Forall₂ (w.Denotes scope done) refs es)
    (hloop : Realises (fun outputs ts => outputs = ts.map some)
      (loop.meaning ((es.map Entry.tensor).map some)) o)
    (hcount : ∀ outputs, loop.meaning ((es.map Entry.tensor).map some) = .ok outputs →
      outputs.length = count) :
    Realises (fun done' entries => w.Holds outside scope' done' env
        ∧ w.Yields scope' done' ((Result.many ((List.range count).map fun i =>
          .node (scope.nodes.length + 1 + i))).pairs (node.map f)) entries)
      (w.advance scope scope' done)
      (o >>= fun ts => .ok ((node.map g).outputs.zip
        (ts.zipIdx.map fun (t, i) => produced scope.declarations (node.map g) i t))) := by
  obtain ⟨nodeNames, supply, loopCounters⟩ := calls
  have hmeaning : w.module.loops.find? name = some loop.meaning := by
    rw [fits.loops name (by simp [targetsOf, Action.target?]), NameMap.find?_insert_self]
    rfl
  have hvalues : (refs.map (Ref.value w.inputs done)).map Value.operand
      = (es.map Entry.tensor).map some := by
    rw [List.map_map, List.map_map]
    refine map_eq_map_iff_forall₂.2 (hrefs.imp fun ref e hdenotes => ?_)
    exact congrArg Value.operand hdenotes.value
  rw [advance_of_nodes rfl, ModuleOf.valuesFrom_cons, ModuleOf.valueOf_call]
  simp only [hmeaning, hvalues]
  cases o with
  | unspecified => trivial
  | failed =>
      obtain ⟨error, hloop⟩ := hloop
      rw [hloop]
      exact ⟨error, rfl⟩
  | ok ts =>
      obtain ⟨outputs, hreturn, rfl⟩ := hloop
      have hlength : ts.length = count := by
        rw [← hcount _ hreturn, List.length_map]
      subst hlength
      have hitems := valuesFrom_items w ts (fun i => Lower.labelOf scope (node.map f) i true) h.count
      rw [hreturn]
      refine Realises.bind_left rfl ⟨_, hitems, ?_, ?_⟩
      · refine h.of_nodes ?_
        rw [ModuleOf.valuesFrom_cons, ModuleOf.valueOf_call]
        simp only [hmeaning, hvalues, hreturn]
        exact hitems
      · refine forall₂_of_getElem? ?_ fun j pair entry hpair hentry => ?_
        · show ((node.map f).outputs.zip _).length = _
          simp only [List.length_zip, List.length_map, List.length_range, List.length_zipIdx]
          rfl
        · obtain ⟨hname, href⟩ := List.getElem?_zip_eq_some.1 hpair
          obtain ⟨hname', hproduced⟩ := List.getElem?_zip_eq_some.1 hentry
          rw [getElem?_map_range href]
          rw [List.getElem?_map, List.getElem?_zipIdx, Option.map_map, Option.map_eq_some_iff,
            Nat.zero_add] at hproduced
          obtain ⟨t, ht, hproduced⟩ := hproduced
          refine ⟨Option.some.inj (hname.symm.trans hname'), ?_, ?_⟩
          · rw [← hproduced]
            rfl
          · have hj : j < ts.length := (List.getElem?_eq_some_iff.1 ht).1
            rw [← hproduced]
            refine ⟨?_, ?_, ?_⟩
            · simp only [List.length_append, List.length_cons, List.length_map, List.length_range]
              omega
            · rw [Ref.value, List.getD_eq_getElem?_getD, ← h.count, getElem?_itemValue ht]
              rfl
            · rw [Scope.label, getElem?_itemNode hj]
              exact knownAs_labelOf scope node f g j t

end World

namespace Handler.Scanned

variable {w : World} {outside : Env} {node : NodeOf Importer} {spelling : ScanSyntax}
  {context : Context} {session session' : Session} {result : Result}
  (scanned : Scanned spelling node context session result session')

theorem gets : session.scope.GetsAll context.outer
    (spelling.names node ++ scanned.subgraph.outerInputs) scanned.operands scanned.middle.scope := by
  have hgets := Lower.mapM_value_eq_ok scanned.evaluated
  exact hgets

theorem calls : ∃ name, World.Calls scanned.middle.scope node name scanned.loop scanned.operands
    (scanned.loopPlan.states + scanned.loopPlan.outputAxes.length) session'.scope := by
  obtain ⟨base, nodeNames, supply, log, hleft⟩ := scanned.left
  have hscope : session'.scope = _ := congrArg (·.scope) hleft
  rw [hscope]
  exact ⟨_, .mk nodeNames supply _⟩

theorem grows_operands : session.scope.Grows context.outer
    (spelling.names node ++ scanned.subgraph.outerInputs) [] scanned.middle.scope :=
  scanned.gets.grows (List.Subset.refl _)

theorem grows_call : scanned.middle.scope.Grows context.outer
    (spelling.names node ++ scanned.subgraph.outerInputs) [] session'.scope := by
  obtain ⟨name, hcalls⟩ := scanned.calls
  exact hcalls.grows

/-- The module of the body is tidy if the loop that has been made of it
is part of what is. -/
theorem tidy (fits : w.Fits outside session'.scope) :
    scanned.subgraph.module.Tidy ∧ Reserved.library ∉ scanned.subgraph.module.parameters := by
  obtain ⟨name, hcalls⟩ := scanned.calls
  have hbody := fits.bodies name hcalls.called.1 _ _ _ hcalls.called.2
  obtain ⟨inputs, inAxes, outAxes, hnames, hmodule, -, hslices, -⟩ :=
    scanBody_eq_ok scanned.length_shapes scanned.body
  rw [hmodule] at hbody
  refine hbody.of_loopBody hnames ?_
  have hne := scanned.describes.inputAxes_ne_nil
  have hlength := scanned.length_shapes
  rw [← List.length_pos_iff] at hne ⊢
  rw [← hslices.length_eq, List.length_zip, List.length_drop, hlength, ScanPlan.inputCount]
  omega

/-- The loop returns the states and the values that are stacked. -/
theorem length_meaning {inputs outputs : List Operand}
    (h : scanned.loop.meaning inputs = .ok outputs) :
    outputs.length = scanned.loopPlan.states + scanned.loopPlan.outputAxes.length := by
  obtain ⟨loopInputs, inAxes, outAxes, -, -, hplan, -, houtAxes⟩ :=
    scanBody_eq_ok scanned.length_shapes scanned.body
  have hlength := houtAxes.length_eq
  have hdirections := scanned.describes.outputDirectionsLength
  unfold loop Loop.meaning at h
  rw [Loop.fold_mk] at h
  rw [Wiring.length_run h, hplan]
  simp only [ScanPlan.wiring, ScanPlan.withAxes, List.length_append, List.length_map,
    List.length_range, List.length_zipIdx, List.length_zip] at hlength ⊢
  omega

section

variable {nested : Nested} {declarations : NameMap KnownType} {env : Env}
  {known : List (List KnownShape)} {es captured : List Entry}

/-- The loop carries out the scan. -/
theorem carriesOut (means : scanned.subgraph.Means nested (env.within declarations))
    (htidy : scanned.subgraph.module.Tidy ∧ Reserved.library ∉ scanned.subgraph.module.parameters)
    (hknown : List.Forall₂ KnownAs (spelling.shapes node (session.scope :: context.outer)) known)
    (hes : es.length = (spelling.names node).length)
    (hcaptured : List.Forall₂ (fun name e => env name = some e) scanned.subgraph.outerInputs captured)
    (hranks : ∀ entry ∈ ((es.zip known).drop scanned.plan.states).zip scanned.plan.inputAxes,
      HasRank entry.2 entry.1.2 entry.1.1.tensor) :
    ∃ inputs inAxes outAxes,
      inputs.map Input.name = scanned.subgraph.module.inputs.map Input.name
      ∧ scanned.loopModule
        = scanned.subgraph.module.loopBody inputs scanned.plan.states inAxes outAxes
      ∧ scanned.loopPlan = scanned.plan.withAxes inAxes outAxes
      ∧ List.Forall₂ (fun entry axis => ∃ known,
          sliceAxis node.describe entry.1 entry.2 = .ok (axis, known))
        (((spelling.shapes node (session.scope :: context.outer)).drop scanned.plan.states).zip
          scanned.plan.inputAxes) inAxes
      ∧ scanned.plan.CarriesOut inAxes outAxes ((es.map Entry.tensor).take scanned.plan.states)
        ((es.map Entry.tensor).drop scanned.plan.states) (captured.map Entry.tensor)
        (fun arguments => (scanned.loopModule.eval arguments).map Output.operands)
        (OnnxLowering.scanned declarations env nested scanned.plan known) := by
  have hshapes := scanned.length_shapes
  have hdescribes := scanned.describes
  have hinputs : scanned.subgraph.inputNames.length = scanned.plan.inputCount := by
    have hcount := hdescribes.inputs
    have haxes := hdescribes.inputAxesLength
    rw [ScanPlan.inputCount]
    omega
  have hcount : es.length = scanned.plan.inputCount := by
    rw [hes, scanned.inputCount, hinputs]
  have houters : List.Forall₂ (fun name t => ∃ e, env.within declarations name = some e
      ∧ e.tensor = t) scanned.subgraph.outerInputs (captured.map Entry.tensor) := by
    rw [List.forall₂_map_right_iff]
    refine hcaptured.imp fun name e he => ⟨_, congrArg _ he, rfl⟩
  have hfits := fitsAt_scans hknown (by rw [← hknown.length_eq, hshapes, hcount]) (by
    rw [List.length_drop, hshapes, ScanPlan.inputCount]
    omega) hranks
  have hlength : ((es.map Entry.tensor).take scanned.plan.states).length = scanned.plan.states := by
    rw [List.length_take, List.length_map, hcount, ScanPlan.inputCount]
    omega
  exact carriesOut_scanBody hshapes scanned.body hdescribes.inputDirectionsLength
    hdescribes.outputDirectionsLength (means.results.trans hdescribes.outputs.symm)
    (by rw [means.arity, hinputs, houters.length_eq]) htidy.1.legible htidy.2 hlength hfits
    (fun states elements _ _ => means.realises_scanned houters)
    (fun xs values => means.fitsAt_scanned houters hinputs hdescribes.outputs.symm hknown)

/-- The loop does what the scan means. -/
theorem realises_loop (means : scanned.subgraph.Means nested (env.within declarations))
    (htidy : scanned.subgraph.module.Tidy ∧ Reserved.library ∉ scanned.subgraph.module.parameters)
    (hknown : List.Forall₂ KnownAs (spelling.shapes node (session.scope :: context.outer)) known)
    (hes : es.length = (spelling.names node).length)
    (hcaptured : List.Forall₂ (fun name e => env name = some e) scanned.subgraph.outerInputs captured)
    (hranks : ∀ entry ∈ ((es.zip known).drop scanned.plan.states).zip scanned.plan.inputAxes,
      HasRank entry.2 entry.1.2 entry.1.1.tensor) :
    Realises (fun outputs ts => outputs = ts.map some)
      (scanned.loop.meaning (((es ++ captured).map Entry.tensor).map some))
      (scanned.plan.run (OnnxLowering.scanned declarations env nested scanned.plan known)
        (es.map Entry.tensor)) := by
  obtain ⟨inputs, inAxes, outAxes, -, -, hplan, -, hcarries⟩ :=
    scanned.carriesOut means htidy hknown hes hcaptured hranks
  have hmeaning := hcarries.realises_meaning
  rw [List.take_append_drop, List.length_map, ← hcaptured.length_eq, ← hplan] at hmeaning
  unfold loop
  unfold ScanPlan.operands at hmeaning
  rw [List.take_append_drop] at hmeaning
  rw [List.map_append]
  exact hmeaning

end

theorem scanInputCount_eq : scanInputCount scanned.values = .ok scanned.scanInputs := by
  obtain ⟨value, hvalue, hscanInputs⟩ := scanned.count
  unfold scanInputCount
  rw [hvalue]
  exact Outcome.ofExcept_eq_ok.2 hscanInputs

theorem planOf_eq {nested : Nested} {env : Env} (means : scanned.subgraph.Means nested env) :
    planOf spelling scanned.values scanned.scanInputs nested.inputCount nested.outputCount
      = .ok scanned.plan := by
  rw [← means.inputCount, ← means.outputCount]
  exact planOf_eq_ok scanned.describes

/-- What a scan imports as its body is the graph that the node has under
this name. -/
theorem exists_body {A : Type} {node : NodeOf A} {f : A → Importer}
    (scanned : Scanned spelling (node.map f) context session result session') :
    ∃ a, node.graph? "body" = some a
      ∧ ((f a).lower ⟨context.opset, session.scope :: context.outer⟩).1 = .ok scanned.subgraph := by
  have hgraph := scanned.graph
  rw [NodeOf.graph?_map] at hgraph
  obtain ⟨a, hbody, himporter⟩ := Option.map_eq_some_iff.1 hgraph
  exact ⟨a, hbody, himporter ▸ scanned.imported⟩

end Handler.Scanned

namespace World

variable {w : World} {outside env : Env} {done : List Value} {A : Type} {node : NodeOf A}
  {f : A → Importer} {g : A → Nested}

/-- What a scan has read around it before its loop is called: its own
inputs, and behind them what its body captures. -/
structure Gathers (w : World) (outside : Env) {node : NodeOf Importer} {spelling : ScanSyntax}
    {context : Context} {session session' : Session} {result : Result}
    (scanned : Scanned spelling node context session result session') (env : Env)
    (done : List Value) (es captured : List Entry) (done' : List Value) : Prop where
  inputs : (spelling.names node).mapM env.read = .ok es
  captures : List.Forall₂ (fun name e => env name = some e) scanned.subgraph.outerInputs captured
  known : List.Forall₂ KnownAs (spelling.shapes node (session.scope :: context.outer))
    ((es.zip (spelling.names node)).map fun entry =>
      entry.1.known session.scope.declarations entry.2)
  advance : w.advance session.scope scanned.middle.scope done = .ok done'
  holds : w.Holds outside scanned.middle.scope done' env
  denotes : List.Forall₂ (w.Denotes scanned.middle.scope done') scanned.operands (es ++ captured)

theorem Holds.gathers {node : NodeOf Importer} {spelling : ScanSyntax} {context : Context}
    {session session' : Session} {result : Result} (seen : Seen context.outer outside)
    (h : w.Holds outside session.scope done env)
    (scanned : Scanned spelling node context session result session')
    (fits : w.Fits outside session'.scope) :
    ∃ es captured done', w.Gathers outside scanned env done es captured done' := by
  have fits' := fits.of_grows scanned.grows_call
  obtain ⟨all, done', hall, hadvance, hholds, hdenotes⟩ := h.getsAll seen scanned.gets fits'
  obtain ⟨es, captured, hes, hcaptured, rfl⟩ := forall₂_append_left (Outcome.mapM_eq_ok.1 hall)
  refine ⟨es, captured, done', Outcome.mapM_eq_ok.2 hes,
    hcaptured.imp fun _ _ hread => Env.read_eq_ok.1 hread, ?_, hadvance, hholds, hdenotes⟩
  rw [ScanSyntax.shapes, List.forall₂_map_left_iff, List.forall₂_map_right_iff]
  refine forall₂_of_getElem? ?_ fun i name entry hname hentry => ?_
  · rw [List.length_zip, hes.length_eq, Nat.min_self]
  · obtain ⟨he, hname'⟩ := List.getElem?_zip_eq_some.1 hentry
    cases hname.symm.trans hname'
    exact h.knownAs_of_getsAll seen scanned.gets fits'
      (List.mem_append_left _ (List.mem_of_getElem? hname))
      (Env.read_eq_ok.1 (getElem?_forall₂ hes hname he))

theorem Gathers.length {node : NodeOf Importer} {spelling : ScanSyntax} {context : Context}
    {session session' : Session} {result : Result} {es captured : List Entry} {done' : List Value}
    {scanned : Scanned spelling node context session result session'}
    (h : w.Gathers outside scanned env done es captured done') :
    es.length = (spelling.names node).length :=
  (Outcome.mapM_eq_ok.1 h.inputs).length_eq.symm

/-- A scan. -/
theorem Holds.scanned {spelling : ScanSyntax} {context : Context} {session session' : Session}
    {result : Result} (seen : Seen context.outer outside) (h : w.Holds outside session.scope done env)
    (scanned : Scanned spelling (node.map f) context session result session')
    (fits : w.Fits outside session'.scope)
    (hmeans : ∀ a ∈ node.inner, ∀ subgraph,
      ((f a).lower ⟨context.opset, session.scope :: context.outer⟩).1 = .ok subgraph →
      subgraph.module.Tidy → subgraph.Means (g a) (env.within session.scope.declarations)) :
    Realises (fun done' entries => w.Holds outside session'.scope done' env
        ∧ w.Yields session'.scope done' (result.pairs (node.map f)) entries)
      (w.advance session.scope session'.scope done)
      (scan session.scope.declarations env (node.map g) spelling scanned.values) := by
  obtain ⟨a, hbody, himported⟩ := scanned.exists_body
  obtain ⟨name, hcalls⟩ := scanned.calls
  have htidy := scanned.tidy fits
  have means := hmeans a (NodeOf.mem_inner_of_graph? hbody) scanned.subgraph himported htidy.1
  obtain ⟨es, captured, done₁, gathers⟩ := h.gathers seen scanned fits
  have hentries : ((node.map g).inputs.drop spelling.firstInput).mapM env.read = .ok es :=
    gathers.inputs
  unfold scan
  simp only [scanned.scanInputCount_eq, Outcome.ok_bind, NodeOf.graph?_map, hbody, Option.map_some,
    hentries, scanned.planOf_eq means]
  refine Realises.require_bind fun hranks => ?_
  have hloop := scanned.realises_loop means htidy gathers.known gathers.length gathers.captures hranks
  have hresult := gathers.holds.calls g hcalls fits gathers.denotes hloop fun _ =>
    scanned.length_meaning
  rw [scanned.grows_operands.declarations, ← scanned.returned] at hresult
  rw [advance_trans scanned.grows_operands scanned.grows_call]
  exact Realises.bind_left gathers.advance hresult

/-- A scan, whatever its attributes are called and wherever its inputs
begin. -/
theorem Holds.scanWith {spelling : ScanSyntax} {context : Context} {session session' : Session}
    {result : Result} (seen : Seen context.outer outside) (h : w.Holds outside session.scope done env)
    (handled : Handler.scanWith spelling (node.map f) context session = .ok result session')
    (fits : w.Fits outside session'.scope)
    (hmeans : ∀ a ∈ node.inner, ∀ subgraph,
      ((f a).lower ⟨context.opset, session.scope :: context.outer⟩).1 = .ok subgraph →
      subgraph.module.Tidy → subgraph.Means (g a) (env.within session.scope.declarations)) :
    Realises (fun done' entries => w.Holds outside session'.scope done' env
        ∧ w.Yields session'.scope done' (result.pairs (node.map f)) entries)
      (w.advance session.scope session'.scope done) (do
        scan session.scope.declarations env (node.map g) spelling
          (← .ofExcept (node.map g).values)) := by
  obtain ⟨scanned⟩ := Handler.scanWith_eq_ok handled
  rw [ofExcept_values scanned.attributes, Outcome.ok_bind]
  exact h.scanned seen scanned fits hmeans

end World

end OnnxLowering
