/-
Which output of a node stands for which value. A list of values is bound
position by position, and an output that is left out takes its position
with it. A single value stands for the first output; but the lowering
gives it to the first output that is not left out, which is another one
if the first is.

`lowerNode_binds_iff` says that the outputs stand for the values by
position in all cases but this, and in which of these it does no harm.
Both kinds of result go through `bound`; what is particular to each is
only where the name of an output stands among the pairs.
-/
import OnnxLowering.Proofs.Handler.Effects
import OnnxLowering.Proofs.Lowering.Failure

namespace OnnxLowering

-- ==================================================================== readers

namespace GraphOf

variable {G : Type} {graph : GraphOf G} {name : String}

/-- No node of a graph reads a name, and the graph does not return it. -/
structure Unread (graph : GraphOf G) (name : String) : Prop where
  nodes : ∀ node ∈ graph.nodes, name ∉ node.inputs
  outputs : name ∉ graph.outputs.map ValueInfo.name

theorem count_users_eq_zero (hname : name.isEmpty = false) :
    graph.users.count name = 0 ↔ graph.Unread name := by
  rw [count_users, List.count_eq_zero, List.mem_filter, hname, List.mem_append, List.mem_flatMap]
  constructor
  · intro h
    exact ⟨fun node hnode hinput => h ⟨.inl ⟨node, hnode, hinput⟩, rfl⟩,
      fun houtput => h ⟨.inr houtput, rfl⟩⟩
  · rintro ⟨hnodes, houtputs⟩ ⟨⟨node, hnode, hinput⟩ | houtput, -⟩
    · exact hnodes node hnode hinput
    · exact houtputs houtput

end GraphOf

-- ================================================================== positions

/-- The values of a result, by the position of the output. -/
def Result.values : Result → List Ref
  | .one ref => [ref]
  | .many refs => refs
  | _ => []

namespace NodeOf

variable {G : Type} {node : NodeOf G} {name : String} {i j : Nat}

theorem mem_namedOutputs (hi : node.outputs[i]? = some name) (hname : name.isEmpty = false) :
    name ∈ node.namedOutputs :=
  List.mem_filter.2 ⟨List.mem_of_getElem? hi, by rw [hname]; rfl⟩

/-- Of distinct outputs each has one position. -/
theorem position_unique (hdistinct : node.namedOutputs.Nodup) (hi : node.outputs[i]? = some name)
    (hj : node.outputs[j]? = some name) (hname : name.isEmpty = false) : i = j := by
  unfold namedOutputs at hdistinct
  generalize node.outputs = outputs at hi hj hdistinct
  induction outputs generalizing i j with
  | nil => cases hi
  | cons first outputs ih =>
      have hrest : (outputs.filter (!·.isEmpty)).Nodup :=
        hdistinct.sublist ((List.sublist_cons_self first outputs).filter _)
      have hlater (hfirst : first = name) {k : Nat} : outputs[k]? ≠ some name := by
        intro hk
        subst hfirst
        rw [List.filter_cons_of_pos (by rw [hname]; rfl), List.nodup_cons] at hdistinct
        exact hdistinct.1 (List.mem_filter.2 ⟨List.mem_of_getElem? hk, by rw [hname]; rfl⟩)
      cases i with
      | zero =>
          cases j with
          | zero => rfl
          | succ j => exact absurd hj (hlater (Option.some.inj hi))
      | succ i =>
          cases j with
          | zero => exact absurd hi (hlater (Option.some.inj hj))
          | succ j => rw [ih hi hj hrest]

variable {graph : GraphOf G} {values : List Ref} {before after : NameMap Ref}

/-- The outputs of a node have come to stand for values by position, and by
nothing else. No other name stands for anything else than before, and an
output that has no value is never read. -/
structure BoundByPosition (node : NodeOf G) (graph : GraphOf G) (values : List Ref)
    (before after : NameMap Ref) : Prop where
  outputs : ∀ (i : Nat) name, node.outputs[i]? = some name → name.isEmpty = false →
    after.find? name = values[i]?.or (before.find? name)
  others : ∀ name, name ∉ node.namedOutputs → after.find? name = before.find? name
  unread : ∀ (i : Nat) name, node.outputs[i]? = some name → name.isEmpty = false → values.length ≤ i →
    graph.Unread name

theorem find?_bound_of_others {pairs : List (String × Ref)} (hname : name ∉ node.namedOutputs)
    (hpairs : ∀ pair ∈ pairs, pair.1 ∈ node.outputs) :
    (bound before pairs).find? name = before.find? name := by
  induction pairs generalizing before with
  | nil => rfl
  | cons pair pairs ih =>
      rw [List.forall_mem_cons] at hpairs
      rw [bound_cons, ih hpairs.2]
      cases hempty : pair.1.isEmpty with
      | true => rfl
      | false =>
          refine NameMap.find?_insert_of_ne _ _ ?_
          rintro rfl
          exact hname (List.mem_filter.2 ⟨hpairs.1, by rw [hempty]; rfl⟩)

/-- A list of values, of which there are enough. -/
theorem bound_zip (hdistinct : node.namedOutputs.Nodup) (hlength : node.outputs.length ≤ values.length) :
    node.BoundByPosition graph values before (bound before (node.outputs.zip values)) where
  outputs i name hi hname := by
    have hlt := (List.getElem?_eq_some_iff.1 hi).1
    obtain ⟨ref, href⟩ : ∃ ref, values[i]? = some ref :=
      ⟨_, List.getElem?_eq_getElem (Nat.lt_of_lt_of_le hlt hlength)⟩
    rw [href, Option.some_or]
    refine find?_bound (List.getElem?_zip_eq_some.2 ⟨hi, href⟩) hname fun pair hpair heq => ?_
    obtain ⟨j, hj⟩ := List.mem_iff_getElem?.1 hpair
    rw [List.getElem?_drop, List.getElem?_zip_eq_some, heq] at hj
    have hsame := position_unique hdistinct hi hj.1 hname
    omega
  others name hname := find?_bound_of_others hname fun pair hpair => (List.of_mem_zip hpair).1
  unread i name hi _ hle := by
    have hlt := (List.getElem?_eq_some_iff.1 hi).1
    omega

/-- An output that is not left out, and has no other in front of it, is the
first of these. -/
theorem eq_first_of_zero {first : String} {others : List String}
    (hnames : node.namedOutputs = first :: others) (hi : node.outputs[0]? = some name)
    (hname : name.isEmpty = false) : name = first := by
  obtain ⟨rest, hrest⟩ : ∃ rest, node.outputs = name :: rest :=
    List.head?_eq_some_iff.1 (by rw [List.head?_eq_getElem?, hi])
  rw [namedOutputs, hrest, List.filter_cons_of_pos (by rw [hname]; rfl)] at hnames
  exact (List.cons.inj hnames).1

/-- A single value, in its place or where it does no harm. -/
theorem bound_insert {first : String} {others : List String} {ref : Ref}
    (hnames : node.namedOutputs = first :: others)
    (hothers : ∀ name ∈ others, graph.Unread name)
    (hlater : ∀ i : Nat, node.outputs[i]? = some first → 1 ≤ i →
      before.find? first = some ref ∧ graph.Unread first) :
    node.BoundByPosition graph [ref] before (before.insert first ref) where
  outputs i name hi hname := by
    by_cases hfirst : name = first
    · subst hfirst
      rw [NameMap.find?_insert_self]
      cases i with
      | zero => rfl
      | succ i => exact (hlater _ hi (Nat.le_add_left 1 i)).1.symm
    · rw [NameMap.find?_insert_of_ne _ _ hfirst]
      cases i with
      | zero => exact absurd (eq_first_of_zero hnames hi hname) hfirst
      | succ i => rfl
  others name hname := by
    refine NameMap.find?_insert_of_ne _ _ ?_
    rintro rfl
    exact hname (hnames ▸ List.mem_cons_self)
  unread i name hi hname hle := by
    by_cases hfirst : name = first
    · subst hfirst
      exact (hlater _ hi hle).2
    · have hmem := mem_namedOutputs hi hname
      rw [hnames, List.mem_cons] at hmem
      exact hothers name (hmem.resolve_left hfirst)

/-- A single value goes to the first output that is not left out. That is
where it belongs if no output in front of it is left out; else it does no
harm only if the output stood for the value before, and is not read. -/
theorem bound_head_iff {ref : Ref} (hdistinct : node.namedOutputs.Nodup)
    (hothers : ∀ name ∈ node.namedOutputs.tail, graph.Unread name) :
    node.BoundByPosition graph [ref] before (bound before ((node.namedOutputs.take 1).map (·, ref)))
      ↔ ∀ first, node.namedOutputs.head? = some first → node.outputs.head? = some first
        ∨ before.find? first = some ref ∧ graph.Unread first := by
  cases hnames : node.namedOutputs with
  | nil =>
      have hnone {i : Nat} {name : String} (hi : node.outputs[i]? = some name)
          (hname : name.isEmpty = false) : False :=
        List.not_mem_nil (hnames ▸ mem_namedOutputs hi hname)
      refine ⟨fun _ _ hhead => (nomatch hhead), fun _ => ⟨?_, fun _ _ => rfl, ?_⟩⟩
      · exact fun i name hi hname => (hnone hi hname).elim
      · exact fun i name hi hname => (hnone hi hname).elim
  | cons first others =>
      have hmem : first ∈ node.outputs ∧ (!first.isEmpty) = true :=
        List.mem_filter.1 (show first ∈ node.namedOutputs from hnames ▸ List.mem_cons_self)
      have hfirst : first.isEmpty = false := by simpa using hmem.2
      have hafter : bound before (((first :: others).take 1).map (·, ref)) = before.insert first ref := by
        rw [List.take_succ_cons, List.take_zero, List.map_singleton, bound_cons, hfirst]
        rfl
      rw [hafter]
      constructor
      · intro h other hhead
        cases hhead
        obtain ⟨i, hi⟩ := List.mem_iff_getElem?.1 hmem.1
        cases i with
        | zero => exact .inl (by rw [List.head?_eq_getElem?, hi])
        | succ i =>
            have hbound := h.outputs (i + 1) first hi hfirst
            rw [NameMap.find?_insert_self] at hbound
            exact .inr ⟨hbound.symm, h.unread (i + 1) first hi hfirst (Nat.le_add_left 1 i)⟩
      · intro h
        refine bound_insert hnames (fun name hname => hothers name (hnames ▸ hname)) ?_
        intro i hi hle
        refine (h first rfl).resolve_left fun hhead => ?_
        rw [List.head?_eq_getElem?] at hhead
        have hsame := position_unique hdistinct hi hhead hfirst
        omega

end NodeOf

-- ====================================================================== nodes

section

variable {outer : Scopes} {scope scope' : Scope} {name source : String} {ref ref' : Ref}

/-- A name only comes to stand for something if it stood for nothing. -/
theorem Scope.Answers.bindings (answers : scope.Answers outer source ref' scope')
    (h : scope.bindings.find? name = some ref) : scope'.bindings.find? name = some ref := by
  have hinsert {bindings : NameMap Ref} (hbindings : bindings = scope.bindings)
      (hunbound : scope.bindings.find? source = none) {other : Ref} :
      (bindings.insert source other).find? name = some ref := by
    rw [NameMap.find?_insert_of_ne, hbindings, h]
    rintro rfl
    rw [hunbound] at h
    cases h
  cases answers with
  | stands _ => exact h
  | initial _ _ _ stores => exact stores.extends.2.2.1 ▸ h
  | known unbound _ _ _ stores => exact hinsert stores.extends.2.2.1 unbound
  | copied unseen _ stores => exact hinsert stores.extends.2.2.1 unseen.bindings
  | captured unseen _ imports =>
      obtain ⟨label, supply, -, rfl⟩ := imports
      exact hinsert rfl unseen.bindings

theorem Effect.Happens.bindings {context : Context} {node : NodeOf Importer} {effect : Effect}
    (happened : effect.Happens context node scope scope')
    (h : scope.bindings.find? name = some ref) : scope'.bindings.find? name = some ref := by
  cases happened with
  | value hrun => exact (Lower.value_answers hrun).bindings h
  | store hrun => exact (Lower.materialise_eq_ok hrun).2.extends.2.2.1 ▸ h
  | node => exact h
  | loop => exact h

end

namespace Lower

variable {context : Context} {session session' : Session} {node : NodeOf Importer}
  {graph : GraphOf Importer}

/-- A single value is only bound if nothing reads the outputs that it does
not go to. -/
theorem unread_of_bindOne {ref : Ref} {u : Unit} (husers : session.scope.users = graph.users)
    (h : bindResult node (.one ref) context session = .ok u session') :
    ∀ name ∈ node.namedOutputs.tail, graph.Unread name := by
  unfold bindResult bindOne at h
  intro name hname
  have hgiven : name.isEmpty = false := by
    simpa using (List.mem_filter.1 (List.mem_of_mem_tail hname)).2
  cases hnames : node.namedOutputs with
  | nil =>
      rw [hnames] at hname
      cases hname
  | cons first others =>
      rw [hnames] at h hname
      obtain ⟨_, _, hbind, h⟩ := bind_eq_ok.1 h
      cases hbind
      obtain ⟨_, _, hscope, h⟩ := bind_eq_ok.1 h
      cases hscope
      split at h
      · cases h
      · next hread =>
          rw [List.any_eq_true] at hread
          have hcount : ¬ 0 < graph.users.count name := fun hpositive =>
            hread ⟨name, hname, decide_eq_true (husers ▸ hpositive)⟩
          exact (GraphOf.count_users_eq_zero hgiven).1 (Nat.eq_zero_of_not_pos hcount)

/-- What a standard handler does leaves alone what names stand for, and what
the scope has from its graph. -/
theorem kept_of_served {opset : Int} {op : String} {handler : Handler} {result : Result}
    (served : Served opset op handler) (h : handler node context session = .ok result session') :
    session.scope.SameGraph session'.scope ∧ ∀ name ref,
      session.scope.bindings.find? name = some ref → session'.scope.bindings.find? name = some ref := by
  obtain ⟨effects, heffects⟩ := Handler.exists_effects served h
  refine heffects.keeps (P := fun scope => session.scope.SameGraph scope ∧ ∀ name ref,
    session.scope.bindings.find? name = some ref → scope.bindings.find? name = some ref)
    (fun happened kept => ⟨kept.1.trans happened.sameGraph, fun name ref hname => ?_⟩)
    ⟨.refl _, fun _ _ hname => hname⟩
  exact happened.bindings (kept.2 name ref hname)

/-- **Outputs stand for values by position** once a handler has returned one
value or a list of values, unless the lowering stops at the node; except
where the first output is left out and there is one value only. That value
is given to the first output that is not left out, which is right only if
the output stood for it before and is not read. -/
theorem lowerNode_binds_iff {handlers : Handlers} {version : Int} {handler : Handler}
    {middle : Session} {result : Result} (hdomain : defaultDomains.contains node.domain = true)
    (hfind : handlers.find? node.op context.opset = some (version, handler))
    (hresult : handler node context { session with
      log := session.log ++ [.converting node.describe context.opset] } = .ok result middle)
    (husers : middle.scope.users = graph.users)
    (hvalues : (∃ ref, result = .one ref) ∨ ∃ refs, result = .many refs)
    (hdistinct : node.namedOutputs.Nodup) :
    (∀ error, lowerNode handlers node context session = .error error session' →
        error.isConversion = true)
      ∧ ∀ u, lowerNode handlers node context session = .ok u session' →
        (node.BoundByPosition graph result.values middle.scope.bindings session'.scope.bindings
          ↔ ∀ ref, result = .one ref → ∀ first, node.namedOutputs.head? = some first →
            node.outputs.head? = some first
              ∨ middle.scope.bindings.find? first = some ref ∧ graph.Unread first) := by
  have hruns : lowerNode handlers node context session = bindResult node result context middle := by
    unfold lowerNode
    rw [bind_apply, handlerOf_eq_ok.2 ⟨hdomain, ⟨version, hfind⟩, rfl⟩]
    simp only [bind_apply, opset_apply, report_apply, hresult]
  rw [hruns]
  constructor
  · intro error herror
    have hends := @bindResult_ends context _ node result (fun error => error.isConversion = true)
      (fun _ => True) (fun _ h => h) (fun _ _ _ _ => trivial) middle trivial
    rw [herror] at hends
    exact hends
  · intro u hbind
    rw [bindResult_eq_ok hbind]
    rcases hvalues with ⟨ref, rfl⟩ | ⟨refs, rfl⟩
    · refine (NodeOf.bound_head_iff hdistinct (unread_of_bindOne husers hbind)).trans ?_
      exact ⟨fun h other hother => Result.one.inj hother ▸ h, fun h => h ref rfl⟩
    · exact iff_of_true (NodeOf.bound_zip hdistinct (length_outputs_le hbind)) fun _ h => nomatch h

end Lower

/-- A graph that takes the root of what it gets, for some outputs, and
returns a value. -/
def rootGraph (outputs : List String) (returned : String) : GraphOf Importer :=
  { nodes := [{ op := "Sqrt", inputs := ["x"], outputs }]
    inputs := [{ name := "x", elementCode := 1, shape := some [] }]
    outputs := [{ name := returned }] }

/-- The session in which the input of such a graph has been added. -/
def rootSession (graph : GraphOf Importer) : Session :=
  (Lower.addGraphInputs graph.inputs).last ⟨13, []⟩ { scope :=
    { declarations := graph.declarations
      outputs := graph.outputs.map ValueInfo.name
      users := graph.users } }

namespace Lower

theorem last_of_ok {α : Type} {x : Lower α} {a : α} {context : Context} {session session' : Session}
    (h : x context session = .ok a session') : x.last context session = session' := by
  unfold last
  rw [h]

/-- A node whose handler returns the first node of the module. -/
theorem lowerNode_root {node : NodeOf Importer} {session : Session}
    (hhandler : (Handler.sqrt node).succeedsWith (· matches .one (.node 0)) ⟨13, []⟩ { session with
      log := session.log ++ [.converting node.describe 13] } = true)
    (hnode : (lowerNode Handlers.standard node).succeeds ⟨13, []⟩ session = true) :
    ∃ middle last, Handler.sqrt node ⟨13, []⟩ { session with
        log := session.log ++ [.converting node.describe 13] } = .ok (.one (.node 0)) middle
      ∧ lowerNode Handlers.standard node ⟨13, []⟩ session = .ok () last := by
  obtain ⟨result, hresult, htest⟩ := exists_of_succeedsWith hhandler
  obtain ⟨_, last, hlast⟩ := exists_of_succeeds hnode
  split at htest
  · exact ⟨_, last, hresult, hlast⟩
  · cases htest

/-- The root stands for the first output. The third has no value, and is not
read. -/
theorem lowerNode_binds_root :
    let graph := rootGraph ["y", "", "z"] "y"
    let node : NodeOf Importer := { op := "Sqrt", inputs := ["x"], outputs := ["y", "", "z"] }
    let session := rootSession graph
    ∃ middle last, Handler.sqrt node ⟨13, []⟩ { session with
        log := session.log ++ [.converting node.describe 13] } = .ok (.one (.node 0)) middle
      ∧ lowerNode Handlers.standard node ⟨13, []⟩ session = .ok () last
      ∧ node.BoundByPosition graph [.node 0] middle.scope.bindings last.scope.bindings := by
  intro graph node session
  obtain ⟨middle, last, hresult, hlast⟩ :=
    @lowerNode_root node session (by decide +kernel) (by decide +kernel)
  have hfind : Handlers.standard.find? "Sqrt" 13 = some (1, Handler.sqrt) := rfl
  have husers : middle.scope.users = graph.users :=
    (kept_of_served (Handlers.served_of_find? hfind) hresult).1.users.trans rfl
  have hiff := (@lowerNode_binds_iff ⟨13, []⟩ session last node graph _ _ _ middle _ rfl hfind hresult
    husers (.inl ⟨_, rfl⟩) (by decide)).2 () hlast
  exact ⟨middle, last, hresult, hlast, hiff.2 fun _ _ first hfirst => .inl hfirst⟩

/-- The root is given to the second output, though there is nothing but a
first value. -/
theorem lowerNode_binds_next :
    let graph := rootGraph ["", "y"] "x"
    let node : NodeOf Importer := { op := "Sqrt", inputs := ["x"], outputs := ["", "y"] }
    let session := rootSession graph
    ∃ middle last, Handler.sqrt node ⟨13, []⟩ { session with
        log := session.log ++ [.converting node.describe 13] } = .ok (.one (.node 0)) middle
      ∧ lowerNode Handlers.standard node ⟨13, []⟩ session = .ok () last
      ∧ node.namedOutputs.Nodup
      ∧ ¬ node.BoundByPosition graph [.node 0] middle.scope.bindings last.scope.bindings := by
  intro graph node session
  obtain ⟨middle, last, hresult, hlast⟩ :=
    @lowerNode_root node session (by decide +kernel) (by decide +kernel)
  have hmiddle : ((Handler.sqrt node).last ⟨13, []⟩ { session with
      log := session.log ++ [.converting node.describe 13] }).scope.bindings.find? "y" = none := by
    decide +kernel
  have hbound : ((lowerNode Handlers.standard node).last ⟨13, []⟩ session).scope.bindings.find? "y"
      = some (.node 0) := by
    decide +kernel
  rw [last_of_ok hresult] at hmiddle
  rw [last_of_ok hlast] at hbound
  refine ⟨middle, last, hresult, hlast, by decide, fun hposition => ?_⟩
  have hsecond := hposition.outputs 1 "y" rfl rfl
  rw [hmiddle, hbound] at hsecond
  cases hsecond

end Lower

end OnnxLowering
