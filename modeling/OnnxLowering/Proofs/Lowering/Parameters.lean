/-
The names of a module's inputs. An input is given a name made from the
name of the value that it stands for, which for a value from outside has
a prefix in front; each is counted among the earlier inputs whose names
come to the same identifier (`Scope.Handed`). These names are the
parameters of the textual form, and a module with a parameter twice is
refused.

`parameters_nodup_iff` says exactly when the names are distinct. That the
inputs of the graph have distinct names is not enough: the numbered name
of one can be the name of another.
-/
import OnnxLowering.Proofs.Handler.Effects
import OnnxLowering.Proofs.Lowering.Answers
import OnnxLowering.Proofs.Naming.Handed

namespace OnnxLowering

namespace Scope

/-- The names that the names of the inputs are made from. -/
def wishes (scope : Scope) : List String :=
  scope.inputNames ++ scope.outerInputs.map ("outer_" ++ ·)

/-- The identifiers that they come to. -/
def bases (scope : Scope) : List String := scope.wishes.map Identifier.sanitize

/-- The inputs have the names that are handed out for these, one after
another. -/
structure Handed (scope : Scope) : Prop where
  names : scope.inputs.map Input.name = Counters.handed scope.bases
  counts : ∀ base, scope.inputCounters.count base = scope.bases.count base

variable {scope scope' : Scope} {wish : String}

theorem Handed.same (h : scope.Handed) (hinputs : scope'.inputs = scope.inputs)
    (hcounters : scope'.inputCounters = scope.inputCounters)
    (hnames : scope'.inputNames = scope.inputNames)
    (houter : scope'.outerInputs = scope.outerInputs) : scope'.Handed where
  names := by rw [hinputs, h.names, bases, wishes, bases, wishes, hnames, houter]
  counts base := by rw [hcounters, h.counts, bases, wishes, bases, wishes, hnames, houter]

/-- There is an input more. -/
theorem Handed.more (h : scope.Handed) (hwishes : scope'.wishes = scope.wishes ++ [wish])
    (hinputs : scope'.inputs.map Input.name = scope.inputs.map Input.name
      ++ [(scope.inputCounters.take (Identifier.sanitize wish)).1])
    (hcounters : scope'.inputCounters = (scope.inputCounters.take (Identifier.sanitize wish)).2) :
    scope'.Handed := by
  have hbases : scope'.bases = scope.bases ++ [Identifier.sanitize wish] := by
    rw [bases, hwishes, List.map_append, List.map_singleton]
    rfl
  refine ⟨?_, fun base => ?_⟩
  · rw [hinputs, h.names, hbases, Counters.handed_append_singleton, ← h.counts]
    rfl
  · rw [hcounters, hbases, List.count_append, List.count_singleton]
    by_cases hbase : base = Identifier.sanitize wish
    · rw [hbase, Counters.count_take_self, h.counts, if_pos BEq.rfl]
    · rw [Counters.count_take_of_ne _ hbase, h.counts, if_neg (by simpa using Ne.symm hbase),
        Nat.add_zero]

theorem Handed.stores {source : String} {t : Tensor} (h : scope.Handed)
    (stores : scope.Stores source t scope') : scope'.Handed := by
  obtain ⟨place, trainable, label, nodeNames, supply, attributeCounters, -, rfl⟩ := stores
  exact h.same rfl rfl rfl rfl

/-- Asking for a value hands out a name if the value comes from outside. -/
theorem Handed.answers {outer : Scopes} {name : String} {ref : Ref} (h : scope.Handed)
    (answers : scope.Answers outer name ref scope') : scope'.Handed := by
  cases answers with
  | stands _ => exact h
  | initial _ _ _ stores => exact h.stores stores
  | known _ _ _ _ stores => exact (h.stores stores).same rfl rfl rfl rfl
  | copied _ _ stores => exact (h.stores stores).same rfl rfl rfl rfl
  | captured _ _ imports =>
      obtain ⟨label, supply, -, rfl⟩ := imports
      refine @Handed.more _ _ ("outer_" ++ name) h ?_ ?_ rfl
      · simp only [wishes, List.map_append, List.map_singleton, List.append_assoc]
      · simp only [List.map_append, List.map_singleton]

end Scope

/-- Nothing that happens to a scope hands out names in another way. -/
theorem keeps_handed (context : Context) : Effects.Keeps context Scope.Handed where
  happens h hscope := by
    cases h with
    | value h => exact hscope.answers (Lower.value_answers h)
    | store h => exact hscope.stores (Lower.materialise_eq_ok h).2
    | node => exact hscope.same rfl rfl rfl rfl
    | loop => exact hscope.same rfl rfl rfl rfl
  bind _ hscope := hscope.same rfl rfl rfl rfl

namespace Lower

variable {context : Context} {session session' : Session}

-- ==================================================================== inputs

/-- An input of the graph is given a name. Nothing must have been read from
outside yet. -/
theorem addGraphInput_handed {info : ValueInfo} {u : Unit} (hscope : session.scope.Handed)
    (houter : session.scope.outerInputs = [])
    (h : addGraphInput info context session = .ok u session') :
    session'.scope.Handed ∧ session'.scope.outerInputs = [] := by
  unfold addGraphInput at h
  obtain ⟨ref, middle, hinput, h⟩ := bind_eq_ok.1 h
  rw [withScope_apply, Scope.addInput_eq] at hinput
  cases hinput
  cases h
  simp only [Scope.labelInput, Scope.bind, modify_concat]
  refine ⟨@Scope.Handed.more session.scope _ info.name hscope ?_ ?_ rfl, houter⟩
  · simp only [Scope.wishes, houter, List.map_nil, List.append_nil]
  · simp only [List.map_append, List.map_singleton]

theorem forIn_addGraphInput_handed {initializers : NameMap Tensor} {inputs : List ValueInfo}
    {u : PUnit} (hscope : session.scope.Handed) (houter : session.scope.outerInputs = [])
    (h : (forIn inputs PUnit.unit fun info _ =>
        if initializers.contains info.name = true then pure (ForInStep.yield PUnit.unit)
        else do
          addGraphInput info
          pure (ForInStep.yield PUnit.unit) : Lower PUnit) context session = .ok u session') :
    session'.scope.Handed := by
  induction inputs generalizing session with
  | nil =>
      cases h
      exact hscope
  | cons info inputs ih =>
      rw [List.forIn_cons] at h
      obtain ⟨_, middle, hfirst, h⟩ := bind_eq_ok.1 h
      by_cases hinitial : initializers.contains info.name = true
      · rw [if_pos hinitial] at hfirst
        cases hfirst
        exact ih hscope houter h
      · rw [if_neg hinitial] at hfirst
        obtain ⟨_, _, hadded, hyield⟩ := bind_eq_ok.1 hfirst
        cases hyield
        obtain ⟨hmiddle, hnone⟩ := addGraphInput_handed hscope houter hadded
        exact ih hmiddle hnone h

theorem addGraphInputs_handed {inputs : List ValueInfo} {u : Unit} (hscope : session.scope.Handed)
    (houter : session.scope.outerInputs = [])
    (h : addGraphInputs inputs context session = .ok u session') : session'.scope.Handed := by
  unfold addGraphInputs at h
  obtain ⟨scope, _, hread, h⟩ := bind_eq_ok.1 h
  cases hread
  obtain ⟨_, _, hfor, h⟩ := bind_eq_ok.1 h
  cases h
  exact forIn_addGraphInput_handed hscope houter hfor

-- ================================================================= parameters

/-- The inputs of a graph are added, some nodes are lowered, and the values
of some names are asked for. -/
def lowerParts (graph : GraphOf Importer) (nodes : List (NodeOf Importer)) (names : List String) :
    Lower (List Ref) := do
  addGraphInputs graph.inputs
  lowerNodes Handlers.standard nodes
  names.mapM value

/-- What a scope has from its graph stays as it is while inputs and nodes are
added. -/
theorem sameGraph_of_parts {graph : GraphOf Importer} {nodes : List (NodeOf Importer)} {start : Scope}
    {fed last : Session} {u v : Unit} (hstart : Scope.ofGraph graph = .ok start)
    (hfed : addGraphInputs graph.inputs context { scope := start } = .ok u fed)
    (hnodes : lowerNodes Handlers.standard nodes context fed = .ok v last) :
    last.scope.inputNames = graph.feedNames
      ∧ last.scope.outputs = graph.outputs.map ValueInfo.name := by
  have hsame := (feedNames_eq hstart ▸ addGraphInputs_eq_ok hfed : start.FeedsAll _ _).same
  have hkept := (keeps_sameGraph context fed.scope).lowerNodes hnodes (.refl _)
  obtain ⟨initial, -, rfl⟩ := ofGraph_eq_ok hstart
  exact ⟨hkept.inputNames.trans (congrArg Scope.inputNames hsame),
    hkept.outputs.trans (congrArg Scope.outputs hsame)⟩

/-- A whole graph has these parts, and is finished then. -/
theorem lowerGraph_eq_ok_iff_parts {graph : GraphOf Importer} {asTuple : Bool} {start : Scope}
    {m : Module} (hstart : Scope.ofGraph graph = .ok start) :
    lowerGraph Handlers.standard graph asTuple context { scope := start } = .ok m session'
      ↔ ∃ refs session, lowerParts graph graph.nodes (graph.outputs.map ValueInfo.name) context
          { scope := start } = .ok refs session
        ∧ finish (.ofRefs asTuple refs) context session = .ok m session' := by
  unfold lowerGraph lowerParts
  constructor
  · intro h
    obtain ⟨_, fed, hfed, h⟩ := bind_eq_ok.1 h
    obtain ⟨_, last, hnodes, h⟩ := bind_eq_ok.1 h
    obtain ⟨r, ended, hresults, h⟩ := bind_eq_ok.1 h
    obtain ⟨refs, hrefs, rfl⟩ := results_eq_ok_iff.1 hresults
    rw [(sameGraph_of_parts hstart hfed hnodes).2] at hrefs
    exact ⟨refs, ended, bind_eq_ok.2 ⟨_, _, hfed, bind_eq_ok.2 ⟨_, _, hnodes, hrefs⟩⟩, h⟩
  · rintro ⟨refs, ended, hparts, h⟩
    obtain ⟨_, fed, hfed, hparts⟩ := bind_eq_ok.1 hparts
    obtain ⟨_, last, hnodes, hrefs⟩ := bind_eq_ok.1 hparts
    rw [← (sameGraph_of_parts hstart hfed hnodes).2] at hrefs
    exact bind_eq_ok.2 ⟨_, _, hfed, bind_eq_ok.2 ⟨_, _, hnodes, bind_eq_ok.2 ⟨_, _,
      results_eq_ok_iff.2 ⟨refs, hrefs, rfl⟩, h⟩⟩⟩

end Lower

namespace Scope

/-- No parameter is refused if and only if all are legal and none occurs
twice. -/
theorem illegalParameter?_eq_none {earlier names : List String} :
    illegalParameter? earlier names = none
      ↔ (∀ name ∈ names, Reserved.isIllegalParameter name = false ∧ name ∉ earlier) ∧ names.Nodup := by
  induction names generalizing earlier with
  | nil => simp [illegalParameter?]
  | cons name names ih =>
      rw [illegalParameter?]
      split
      · next hfault =>
          refine ⟨fun h => (nomatch h), fun h => ?_⟩
          have hname := h.1 name List.mem_cons_self
          simp [hname.1, hname.2] at hfault
      · next hfault =>
          simp only [Bool.or_eq_true, not_or, Bool.not_eq_true, List.contains_iff_mem] at hfault
          rw [ih, List.forall_mem_cons, List.nodup_cons]
          simp only [List.mem_cons, not_or]
          constructor
          · rintro ⟨hrest, hnodup⟩
            exact ⟨⟨⟨hfault.1, hfault.2⟩, fun other hother => ⟨(hrest other hother).1,
              (hrest other hother).2.2⟩⟩, fun hmem => (hrest name hmem).2.1 rfl, hnodup⟩
          · rintro ⟨⟨-, hrest⟩, hnew, hnodup⟩
            exact ⟨fun other hother => ⟨(hrest other hother).1,
              fun heq => hnew (heq ▸ hother), (hrest other hother).2⟩, hnodup⟩

/-- Of distinct parameters only an illegal one is refused. -/
theorem isIllegalParameter_of_refused {earlier names : List String} {name : String}
    (hnodup : (earlier.reverse ++ names).Nodup) (h : illegalParameter? earlier names = some name) :
    Reserved.isIllegalParameter name = true := by
  induction names generalizing earlier with
  | nil => cases h
  | cons first names ih =>
      rw [illegalParameter?] at h
      split at h
      · next hfault =>
          cases h
          rw [Bool.or_eq_true, List.contains_iff_mem] at hfault
          refine hfault.resolve_right fun hmem => ?_
          exact (List.disjoint_of_nodup_append hnodup) (List.mem_reverse.2 hmem) List.mem_cons_self
      · refine @ih (first :: earlier) ?_ h
        rwa [List.reverse_cons, List.append_assoc, List.singleton_append]

-- The other checks of a finished scope complain of names in other ways.

theorem reservedFault?_ne {scope : Scope} {members : List String} {name : String} :
    scope.reservedFault? members ≠ some (.illegalName name) := by
  intro h
  obtain ⟨other, -, heq⟩ := Option.map_eq_some_iff.1 h
  cases heq

theorem hostFault?_ne {scope : Scope} {name : String} :
    scope.hostFault? ≠ some (.illegalName name) := by
  intro h
  unfold hostFault? at h
  split at h
  · next hfind =>
      cases h
      obtain ⟨target, -, hfault⟩ := List.exists_of_findSome?_eq_some hfind
      unfold moveFault? at hfault
      repeat' split at hfault
      all_goals cases hfault
  · exact reservedFault?_ne h

theorem finishedFault?_ne {scope : Scope} {name : String} :
    scope.finishedFault? ≠ some (.illegalName name) := by
  intro h
  unfold finishedFault? at h
  split at h
  · cases h
  · split at h
    · cases h
    · obtain ⟨other, -, heq⟩ := Option.map_eq_some_iff.1 h
      cases heq

end Scope

namespace Lower

variable {r : Results}

theorem refuse_eq_error {fault? : Option LowerError} {error : LowerError}
    (h : refuse fault? context session = .error error session') : fault? = some error := by
  cases fault? with
  | none => cases h
  | some other =>
      cases h
      rfl

/-- A module is only made of a scope whose inputs have distinct names. -/
theorem nodup_of_finish {m : Module} (h : finish r context session = .ok m session') :
    (session.scope.inputs.map Input.name).Nodup := by
  unfold finish at h
  obtain ⟨_, _, hnode, h⟩ := bind_eq_ok.1 h
  rw [addNode_apply, Scope.addNode_eq] at hnode
  cases hnode
  obtain ⟨_, _, hscope, h⟩ := bind_eq_ok.1 h
  cases hscope
  obtain ⟨_, _, hhost, h⟩ := bind_eq_ok.1 h
  obtain ⟨-, rfl⟩ := refuse_eq_ok hhost
  obtain ⟨_, _, hmodify, h⟩ := bind_eq_ok.1 h
  cases hmodify
  obtain ⟨_, _, htext, h⟩ := bind_eq_ok.1 h
  obtain ⟨htext, -⟩ := refuse_eq_ok htext
  unfold Scope.textFault? at htext
  split at htext
  · cases htext
  · next hlegal => exact (Scope.illegalParameter?_eq_none.1 hlegal).2

/-- If the inputs have distinct names, a name that the textual form refuses
is no name at all. -/
theorem isIllegalParameter_of_finish {name : String}
    (hnodup : (session.scope.inputs.map Input.name).Nodup)
    (h : finish r context session = .error (.illegalName name) session') :
    Reserved.isIllegalParameter name = true := by
  -- Of all that is checked only the textual form complains of such a name.
  have htext : (session.scope.addNode (.yield r) {}).2.textFault? = some (.illegalName name) := by
    unfold finish at h
    rw [bind_apply, addNode_apply] at h
    replace h := (bind_eq_error.1 h).resolve_left (by rintro ⟨⟩)
    obtain ⟨_, _, hscope, h⟩ := h
    cases hscope
    rcases bind_eq_error.1 h with hhost | ⟨_, _, hhost, h⟩
    · exact absurd (refuse_eq_error hhost) Scope.hostFault?_ne
    obtain ⟨-, rfl⟩ := refuse_eq_ok hhost
    replace h := (bind_eq_error.1 h).resolve_left (by rintro ⟨⟩)
    obtain ⟨_, _, hmodify, h⟩ := h
    cases hmodify
    rcases bind_eq_error.1 h with htext | ⟨_, _, htext, h⟩
    · exact refuse_eq_error htext
    rcases bind_eq_error.1 h with hdata | ⟨_, _, hdata, h⟩
    · exact absurd (refuse_eq_error hdata) Scope.reservedFault?_ne
    rcases bind_eq_error.1 h with hfinished | ⟨_, _, hfinished, h⟩
    · exact absurd (refuse_eq_error hfinished) Scope.finishedFault?_ne
    cases h
  rw [Scope.addNode_eq] at htext
  unfold Scope.textFault? at htext
  split at htext
  · next other hrefused =>
      cases htext
      exact @Scope.isIllegalParameter_of_refused [] _ _ hnodup hrefused
  · obtain ⟨other, hfind, heq⟩ := Option.map_eq_some_iff.1 htext
    cases heq
    rw [Reserved.isIllegalParameter, List.find?_some hfind, Bool.true_or, Bool.true_or]

end Lower

-- ============================================================== distinct names

section

variable {graph : GraphOf Importer} {nodes : List (NodeOf Importer)} {names : List String}
  {context : Context} {start : Scope} {session : Session} {refs : List Ref}

open Lower

/-- The names that the inputs of a module are made from are those of the
inputs of the graph that have no initial tensor, and then those of the
values from outside. -/
theorem handed_of_parts (hstart : Scope.ofGraph graph = .ok start)
    (h : lowerParts graph nodes names context { scope := start } = .ok refs session) :
    session.scope.Handed ∧ session.scope.inputNames = graph.feedNames := by
  obtain ⟨_, fed, hfed, h⟩ := bind_eq_ok.1 h
  obtain ⟨_, last, hnodes, hrefs⟩ := bind_eq_ok.1 h
  have hfirst : start.Handed ∧ start.outerInputs = [] := by
    obtain ⟨initial, -, rfl⟩ := ofGraph_eq_ok hstart
    exact ⟨⟨rfl, fun _ => rfl⟩, rfl⟩
  have hhanded := (keeps_handed context).lowerNodes hnodes
    (addGraphInputs_handed hfirst.1 hfirst.2 hfed)
  have hkept := (keeps_sameGraph context last.scope).mapM_value hrefs (.refl _)
  exact ⟨(keeps_handed context).mapM_value hrefs hhanded,
    hkept.inputNames.trans (sameGraph_of_parts hstart hfed hnodes).1⟩

/-- **The inputs of a module have distinct names** if and only if no
identifier that one is made from is that of another with a number behind
it which is handed out as well. A module is made only then; and then no
input is refused that could be a parameter by itself. -/
theorem parameters_nodup_iff (hstart : Scope.ofGraph graph = .ok start)
    (h : lowerParts graph nodes names context { scope := start } = .ok refs session) :
    let given := session.scope.inputs.map Input.name
    let bases := (graph.feedNames ++ session.scope.outerInputs.map ("outer_" ++ ·)).map
      Identifier.sanitize
    given = Counters.handed bases
      ∧ (given.Nodup
        ↔ ∀ base ∈ bases, ∀ n < bases.count base, n ≠ 0 → Counters.numbered base n ∉ bases)
      ∧ ∀ r last, (∀ m, finish r context session = .ok m last → given.Nodup)
        ∧ ∀ name, finish r context session = .error (.illegalName name) last → given.Nodup →
          Reserved.isIllegalParameter name = true := by
  obtain ⟨hhanded, hnames⟩ := handed_of_parts hstart h
  have hgiven := hhanded.names
  rw [Scope.bases, Scope.wishes, hnames] at hgiven
  refine ⟨hgiven, ?_, fun r last => ⟨fun m => nodup_of_finish, fun name hname hnodup =>
    isIllegalParameter_of_finish hnodup hname⟩⟩
  rw [hgiven]
  exact Counters.nodup_handed_iff

end

/-- A graph whose inputs have these names. -/
def feedGraph (names : List String) : Graph :=
  ⟨{ inputs := names.map fun name => { name, elementCode := 1, shape := some [] } }⟩

/-- Two inputs whose names come to one identifier, and a value from
outside. -/
theorem parameters_nodup_pair :
    let graph := Handlers.standard.prepare (feedGraph ["a.", "a:"])
    let outer : Scope := { bindings := .ofList [("x", .input 0)] }
    ∃ start refs session, Scope.ofGraph graph = .ok start
      ∧ Lower.lowerParts graph [] ["x"] ⟨13, [outer]⟩ { scope := start } = .ok refs session
      ∧ session.scope.outerInputs = ["x"] ∧ (session.scope.inputs.map Input.name).Nodup := by
  intro graph outer
  let start : Scope := { declarations := graph.declarations }
  have hstart : Scope.ofGraph graph = .ok start := rfl
  obtain ⟨refs, hrefs, -⟩ := @Lower.exists_of_succeedsWith _ ⟨13, [outer]⟩ { scope := start }
    (Lower.lowerParts graph [] ["x"]) (fun _ => true) (by decide +kernel)
  have houter : ((Lower.lowerParts graph [] ["x"]).last ⟨13, [outer]⟩
      { scope := start }).scope.outerInputs = ["x"] := by decide +kernel
  refine ⟨start, refs, _, hstart, hrefs, houter, (parameters_nodup_iff hstart hrefs).2.1.2 ?_⟩
  rw [houter]
  decide +kernel

/-- Three inputs whose names differ. The numbered name of the second is the
name of the third, so the module has a parameter twice, and is refused. -/
theorem lower_refuses_numberedInput :
    let graph := feedGraph ["a.", "a:", "a__1"]
    (graph.body.inputs.map ValueInfo.name).Nodup
      ∧ Reserved.isIllegalParameter "a__1" = false
      ∧ (graph.lower Handlers.standard 13 false).1 = .error (.illegalName "a__1") := by
  refine ⟨by decide, by decide +kernel, ?_⟩
  exact Except.eq_error_of_map (f := fun _ => ()) (by decide +kernel)

end OnnxLowering
