/-
Another name for a value. In the second of two scopes, `y` stands for the
value of `x` (`Aliased`), or will do so as soon as the first one has that
value too (`Ahead`). A node that reads `y` in the second scope mirrors one
that reads `x` in the first, provided that it asks for nothing that is
known by the name and not by the value (`NodeOf.Transparent`,
`mirrors_alias`).
-/
import OnnxLowering.Proofs.Lowering.Asking
import OnnxLowering.Proofs.Lowering.Blind

namespace OnnxLowering

open Lower

namespace NodeOf

variable {G : Type}

/-- An input `x` of a node may as well go by another name of its value. -/
structure Transparent (node : NodeOf G) (context : Context) (scope : Scope) (i : Nat) (x : String) :
    Prop where
  /-- The tensor does not have to be known before the module runs. -/
  tensor : node.asksTensor i = false
  /-- Where the shape matters, it is known by the value. -/
  shape : node.asksShape context.opset i = true → ∀ log ref left,
    value x context ⟨scope, log⟩ = .ok ref left →
      Scopes.shape? (scope :: context.outer) x = (left.scope.label ref).shape.join
  /-- The value is there already, or the next one that the node asks
  for. -/
  order : (∃ ref, scope.Stands x ref) ∨ node.asksValue i = true ∧ ∀ j name, j < i →
    node.asksValue j = true → node.inputs[j]? = some name →
      name.isEmpty = true ∨ name = x ∨ ∃ ref, scope.Stands name ref

end NodeOf

-- =================================================================== aliases

/-- In the second of two scopes, `y` is another name of the value of `x`.
If it `matters` what is known of the shape of `x`, it is known by the
value. -/
structure Aliased (x y : String) (matters : Prop) (outer : Scopes) (ref : Ref) (scope scope' : Scope) :
    Prop where
  alike : scope.Alike y scope'
  tied : scope.Tied
  stands : scope.Stands x ref
  bound : scope'.bindings.find? y = some ref
  undeclared : scope.declarations.find? y = none
  shape : matters → Scopes.shape? (scope :: outer) x = (scope.label ref).shape.join

/-- The second of two scopes is ahead of the first one: it has the value
of `x` already, and `y` is another name of it. -/
structure Ahead (x y : String) (context : Context) (ref : Ref) (scope scope' : Scope) : Prop where
  gets : ∃ log left, value x context ⟨scope, log⟩ = .ok ref left
  alike : ∀ log a left, value x context ⟨scope, log⟩ = .ok a left →
    a = ref ∧ left.scope.Alike y scope'
  bound : scope'.bindings.find? y = some ref

section

variable {x y name : String} {matters : Prop} {context context' : Context} {outer : Scopes} {ref : Ref}
  {scope scope' : Scope}

theorem Scope.Stands.has (h : scope.Stands name ref) (tied : scope.Tied) : scope.Has ref :=
  h.elim (tied.bindings _ _) fun h => tied.constants _ _ h.2

/-- A name that stands for a value does so in scopes that are alike. -/
theorem Scope.Stands.alike (h : scope.Stands name ref) (hname : name ≠ y) (halike : scope.Alike y scope') :
    scope'.Stands name ref := by
  have hbindings := halike.bindings name hname
  obtain ⟨bindings, users, rfl⟩ := halike.exists_eq
  unfold Stands
  rwa [hbindings]

/-- Nothing is known of the shape of a name that is neither declared nor
a tensor, but by its value. -/
theorem Scopes.shape?_of_bound (hdeclared : scope.declarations.find? name = none)
    (htensor : scope.tensors.find? name = none) (hbound : scope.bindings.find? name = some ref) :
    Scopes.shape? (scope :: outer) name = (scope.label ref).shape.join := by
  simp only [Scopes.shape?, hdeclared, htensor, hbound, Option.bind_none]

/-- The other name is known by the value. -/
theorem Aliased.shape?_eq (h : Aliased x y matters outer ref scope scope') {outer' : Scopes} :
    Scopes.shape? (scope' :: outer') y = (scope.label ref).shape.join := by
  have hbound := h.bound
  have hunknown := h.alike.unknown
  have hundeclared := h.undeclared
  obtain ⟨bindings, users, rfl⟩ := h.alike.exists_eq
  exact Scopes.shape?_of_bound hundeclared hunknown hbound

/-- Other values are asked for. -/
theorem Aliased.value_follows (contexts : context.Alike y context') (hname : name ≠ y) :
    Follows context context' (fun scope scope' => ∃ ref, Aliased x y matters context.outer ref scope scope')
      (fun scope scope' => ∃ ref, Aliased x y matters context.outer ref scope scope') (value name)
      (value name) := by
  rintro session session' a left ⟨ref, h⟩ hrun
  obtain ⟨left', hrun', halike⟩ := Lower.value_follows contexts hname _ _ _ _ h.alike hrun
  obtain ⟨-, hgets⟩ := value_eq_ok hrun
  have hgrows : session.scope.Grows context.outer [name] [] left.scope := hgets.grows List.mem_cons_self
  refine ⟨left', hrun', ref, halike, (hgets.tied h.tied).1, stands_of_stands hrun h.stands, ?_, ?_,
    fun hmatters => ?_⟩
  · rw [((value_eq_ok hrun').2.find?_of_ne hname.symm).1]
    exact h.bound
  · rw [hgrows.declarations]
    exact h.undeclared
  · rw [Scope.label_eq_of_extends hgrows.extends (h.stands.has h.tied), ← h.shape hmatters]
    by_cases hne : x = name
    · subst hne
      rcases value_cases hrun with ⟨-, rfl⟩ | ⟨hbinding, hconstant, -⟩
      · rfl
      · rcases h.stands with hold | ⟨-, hold⟩
        · exact nomatch hbinding.symm.trans hold
        · exact nomatch hconstant.symm.trans hold
    · exact (hgets.agree_of_ne h.tied hne).shape?

/-- The first scope has caught up once `x` has been asked for. -/
theorem Ahead.aliased (h : Ahead x y context ref scope scope') (tied : scope.Tied)
    (undeclared : scope.declarations.find? y = none)
    (shape : matters → ∀ log a left, value x context ⟨scope, log⟩ = .ok a left →
      Scopes.shape? (scope :: context.outer) x = (left.scope.label a).shape.join)
    {log : List LogRecord} {a : Ref} {left : Session} (hrun : value x context ⟨scope, log⟩ = .ok a left) :
    a = ref ∧ Aliased x y matters context.outer ref left.scope scope' := by
  obtain ⟨rfl, halike⟩ := h.alike log a left hrun
  obtain ⟨-, hgets⟩ := value_eq_ok hrun
  have hgrows : scope.Grows context.outer [x] [] left.scope := hgets.grows List.mem_cons_self
  refine ⟨rfl, halike, (hgets.tied tied).1, stands_of_value hrun, h.bound, ?_, fun hmatters => ?_⟩
  · exact hgrows.declarations ▸ undeclared
  · have hknown := shape hmatters log a left hrun
    exact hgets.shape?_self.elim (fun heq => heq.trans hknown) id

/-- The scope that is ahead knows the same of the other names. -/
theorem Ahead.agree_of_ne (h : Ahead x y context ref scope scope') (contexts : context.Alike y context')
    (tied : scope.Tied) (hx : name ≠ x) (hy : name ≠ y) :
    Scopes.Agree (scope :: context.outer) (scope' :: context'.outer) name := by
  obtain ⟨log, left, hrun⟩ := h.gets
  obtain ⟨-, halike⟩ := h.alike log ref left hrun
  exact ((value_eq_ok hrun).2.agree_of_ne tied hx).trans (halike.agree hy (contexts.outer name hy))

theorem Ahead.tensor?_eq (h : Ahead x y context ref scope scope') (contexts : context.Alike y context')
    (tied : scope.Tied) (stocked : scope.Stocked) (hy : name ≠ y) :
    Scopes.tensor? (scope' :: context'.outer) name = Scopes.tensor? (scope :: context.outer) name := by
  obtain ⟨log, left, hrun⟩ := h.gets
  obtain ⟨-, halike⟩ := h.alike log ref left hrun
  exact (halike.agree hy (contexts.outer name hy)).tensor?.trans (tensor?_of_value hrun tied stocked)

/-- And of `x` itself, if that is known by its value. -/
theorem Ahead.agree (h : Ahead x y context ref scope scope') (contexts : context.Alike y context')
    (tied : scope.Tied) (stocked : scope.Stocked)
    (shape : ∀ log a left, value x context ⟨scope, log⟩ = .ok a left →
      Scopes.shape? (scope :: context.outer) x = (left.scope.label a).shape.join) (hy : name ≠ y) :
    Scopes.Agree (scope :: context.outer) (scope' :: context'.outer) name := by
  obtain ⟨log, left, hrun⟩ := h.gets
  obtain ⟨-, halike⟩ := h.alike log ref left hrun
  exact (agree_of_value hrun tied stocked (shape log ref left hrun)).trans
    (halike.agree hy (contexts.outer name hy))

/-- The other name is known by the value. -/
theorem Ahead.shape?_eq (h : Ahead x y context ref scope scope')
    (undeclared : scope.declarations.find? y = none) {outer' : Scopes} :
    ∃ log left, value x context ⟨scope, log⟩ = .ok ref left
      ∧ Scopes.shape? (scope' :: outer') y = (left.scope.label ref).shape.join := by
  obtain ⟨log, left, hrun⟩ := h.gets
  obtain ⟨-, halike⟩ := h.alike log ref left hrun
  have hgrows : scope.Grows context.outer [x] [] left.scope := (value_eq_ok hrun).2.grows List.mem_cons_self
  have hbound := h.bound
  have hunknown := halike.unknown
  obtain ⟨bindings, users, rfl⟩ := halike.exists_eq
  exact ⟨log, left, hrun, Scopes.shape?_of_bound (hgrows.declarations ▸ undeclared) hunknown hbound⟩

/-- A value that is there in the first scope is there in the second. -/
theorem Ahead.stands {ref' : Ref} (h : Ahead x y context ref scope scope') (hname : name ≠ y)
    (hstands : scope.Stands name ref') : scope'.Stands name ref' := by
  obtain ⟨log, left, hrun⟩ := h.gets
  obtain ⟨-, halike⟩ := h.alike log ref left hrun
  exact (stands_of_stands hrun hstands).alike hname halike

end

-- ==================================================================== nodes

/-- A node has dealt with `k` of its inputs and not asked for the value of
`x`, its `i`-th one, yet. It is going to, and until then the values that it
asks for are there. -/
structure Pending (x : String) {G : Type} (node : NodeOf G) (i : Nat) (start : Scope) (k : Nat) : Prop where
  before : k ≤ i
  asks : node.asksValue i = true
  others : ∀ j name, j < i → node.asksValue j = true → node.inputs[j]? = some name →
    name.isEmpty = true ∨ name = x ∨ ∃ ref, start.Stands name ref
  new : ∀ j, j < k → node.asksValue j = true → node.inputs[j]? ≠ some x

/-- How the scopes of a node are related to those of the same node with an
identity in front of it: either both have the value of `x`, or nothing has
happened in the first one yet. -/
inductive Trails (x y : String) {G : Type} (node : NodeOf G) (i : Nat) (context : Context) (start : Scope)
    (k : Nat) : Scope → Scope → Prop
  | level {ref : Ref} {scope scope' : Scope}
      (aliased : Aliased x y (node.asksShape context.opset i = true) context.outer ref scope scope') :
      Trails x y node i context start k scope scope'
  | behind {ref : Ref} {scope' : Scope} (ahead : Ahead x y context ref start scope')
      (pending : Pending x node i start k) : Trails x y node i context start k start scope'

section

variable {x : String} {G : Type} {node : NodeOf G} {i k : Nat} {start : Scope}

/-- Another value is there already. -/
theorem Pending.next (h : Pending x node i start k) {name : String} (hname : node.inputs[k]? = some name)
    (hnamed : name.isEmpty = false) (hasks : node.asksValue k = true) (hk : k ≠ i) (hx : name ≠ x) :
    (∃ ref, start.Stands name ref) ∧ Pending x node i start (k + 1) := by
  have hlt : k < i := Nat.lt_of_le_of_ne h.before hk
  refine ⟨?_, hlt, h.asks, h.others, fun j hj hasks' hj' => ?_⟩
  · rcases h.others k name hlt hasks hname with hempty | heq | hstands
    · exact nomatch hnamed.symm.trans hempty
    · exact absurd heq hx
    · exact hstands
  · rcases Nat.lt_succ_iff_lt_or_eq.1 hj with hj | rfl
    · exact h.new j hj hasks' hj'
    · exact hx (Option.some.inj (hname.symm.trans hj'))

/-- Inputs whose values are not asked for do not matter. -/
theorem Pending.skip (h : Pending x node i start k) (hx : x.isEmpty = false)
    (hinput : node.inputs[i]? = some x) (hidle : node.Idle k) : Pending x node i start (k + 1) := by
  have hnot {j : Nat} (hj : node.inputs[j]? = some x) (hidle : node.Idle j) :
      node.asksValue j ≠ true := fun hasks => nomatch hx.symm.trans (hidle hasks x hj)
  have hk : k ≠ i := by
    rintro rfl
    exact hnot hinput hidle h.asks
  refine ⟨Nat.lt_of_le_of_ne h.before hk, h.asks, h.others, fun j hj hasks hj' => ?_⟩
  rcases Nat.lt_succ_iff_lt_or_eq.1 hj with hj | rfl
  · exact h.new j hj hasks hj'
  · exact hnot hj' hidle hasks

/-- The value is asked for in the end. -/
theorem Pending.not_idle (h : Pending x node i start k) (hx : x.isEmpty = false)
    (hinput : node.inputs[i]? = some x) : ¬ ∀ j, k ≤ j → node.Idle j :=
  fun hidle => nomatch hx.symm.trans (hidle i h.before h.asks x hinput)

end

/-- What an operation asks the shape of, it asks the value of. -/
theorem NodeOf.asksValue_of_asksShape {G : Type} {node : NodeOf G} {opset : Int} {i : Nat}
    (h : node.asksShape opset i = true) : node.asksValue i = true := by
  unfold asksShape at h
  unfold asksValue
  split at h
  · next hop =>
      simp only [hop, Bool.and_eq_true, decide_eq_true_eq] at h ⊢
      omega
  · next hop =>
      simp only [hop, Bool.and_eq_true, decide_eq_true_eq] at h ⊢
      omega
  · next hop => simpa only [hop] using h
  · next hop => simp only [hop]
  · cases h

section

variable {x y : String} {context context' : Context} {node : NodeOf Importer} {i k : Nat}
  {start scope scope' : Scope}

/-- Both have the value of `x` once it has been asked for. -/
theorem Trails.aliased (h : Trails x y node i context start k scope scope') (hx : x.isEmpty = false)
    (transparent : node.Transparent context start i x) (tied : start.Tied)
    (undeclared : start.declarations.find? y = none) {log : List LogRecord} {a : Ref} {left : Session}
    (hrun : value x context ⟨scope, log⟩ = .ok a left) :
    Aliased x y (node.asksShape context.opset i = true) context.outer a left.scope scope' := by
  cases h with
  | level aliased =>
      rw [value_of_stands hx aliased.stands] at hrun
      cases hrun
      exact aliased
  | behind ahead =>
      obtain ⟨rfl, aliased⟩ := ahead.aliased tied undeclared transparent.shape hrun
      exact aliased

/-- Any other value is there already, unless both have that of `x`. -/
theorem Trails.value_follows (contexts : context.Alike y context') {name : String}
    (hname : node.inputs[k]? = some name) (hnamed : name.isEmpty = false)
    (hasks : node.asksValue k = true) (hk : k ≠ i) (hx : name ≠ x) (hy : name ≠ y) :
    Follows context context' (Trails x y node i context start k) (Trails x y node i context start (k + 1))
      (value name) (value name) := by
  rintro ⟨scope, log⟩ ⟨scope', log'⟩ a left (h : Trails x y node i context start k scope scope') hrun
  cases h with
  | level aliased =>
      obtain ⟨left', hrun', _, haliased⟩ := Aliased.value_follows contexts hy ⟨scope, log⟩ ⟨scope', log'⟩
        a left ⟨_, aliased⟩ hrun
      exact ⟨left', hrun', .level haliased⟩
  | behind ahead pending =>
      obtain ⟨⟨ref, hstands⟩, hnext⟩ := pending.next hname hnamed hasks hk hx
      rw [value_of_stands hnamed hstands] at hrun
      cases hrun
      exact ⟨_, value_of_stands hnamed (ahead.stands hy hstands), .behind ahead hnext⟩

theorem Trails.skip (h : Trails x y node i context start k scope scope') (hx : x.isEmpty = false)
    (hinput : node.inputs[i]? = some x) (hidle : node.Idle k) :
    Trails x y node i context start (k + 1) scope scope' := by
  cases h with
  | level aliased => exact .level aliased
  | behind ahead pending => exact .behind ahead (pending.skip hx hinput hidle)

/-- The scopes are alike when all inputs have been dealt with. -/
theorem Trails.done (h : Trails x y node i context start k scope scope') (hx : x.isEmpty = false)
    (hinput : node.inputs[i]? = some x) (hidle : ∀ j, k ≤ j → node.Idle j) : scope.Alike y scope' := by
  cases h with
  | level aliased => exact aliased.alike
  | behind _ pending => exact absurd hidle (pending.not_idle hx hinput)

/-- What is known of `y` in the second scope is known of `x` in the
first. -/
theorem Trails.shape?_eq (h : Trails x y node i context start k scope scope')
    (transparent : node.Transparent context start i x) (undeclared : start.declarations.find? y = none)
    (hasks : node.asksShape context.opset i = true) :
    Scopes.shape? (scope' :: context'.outer) y = Scopes.shape? (scope :: context.outer) x := by
  cases h with
  | level aliased => rw [aliased.shape?_eq, aliased.shape hasks]
  | behind ahead _ =>
      obtain ⟨log, left, hrun, hshape⟩ := ahead.shape?_eq undeclared
      rw [hshape, transparent.shape hasks log _ left hrun]

/-- Which other names are known to be tensors is the same. -/
theorem Trails.tensor?_eq (h : Trails x y node i context start k scope scope')
    (contexts : context.Alike y context') (tied : start.Tied) (stocked : start.Stocked) {name : String}
    (hy : name ≠ y) :
    Scopes.tensor? (scope' :: context'.outer) name = Scopes.tensor? (scope :: context.outer) name := by
  cases h with
  | level aliased => exact (aliased.alike.agree hy (contexts.outer name hy)).tensor?
  | behind ahead _ => exact ahead.tensor?_eq contexts tied stocked hy

/-- All else is known of them where the shape of `x` matters. -/
theorem Trails.agree (h : Trails x y node i context start k scope scope')
    (contexts : context.Alike y context') (transparent : node.Transparent context start i x)
    (tied : start.Tied) (stocked : start.Stocked) (hasks : node.asksShape context.opset i = true)
    {name : String} (hy : name ≠ y) :
    Scopes.Agree (scope :: context.outer) (scope' :: context'.outer) name := by
  cases h with
  | level aliased => exact aliased.alike.agree hy (contexts.outer name hy)
  | behind ahead _ => exact ahead.agree contexts tied stocked (transparent.shape hasks) hy

/-- So it is of an input whose value has been asked for. -/
theorem Trails.agree_of_asked (h : Trails x y node i context start k scope scope')
    (contexts : context.Alike y context') (tied : start.Tied) {j : Nat} {name : String} (hj : j < k)
    (hasks : node.asksValue j = true) (hname : node.inputs[j]? = some name) (hy : name ≠ y) :
    Scopes.Agree (scope :: context.outer) (scope' :: context'.outer) name := by
  cases h with
  | level aliased => exact aliased.alike.agree hy (contexts.outer name hy)
  | behind ahead pending =>
      refine ahead.agree_of_ne contexts tied ?_ hy
      rintro rfl
      exact pending.new j hj hasks hname

/-- A node that reads `x` under another name reads the same. -/
theorem mirrors_alias (contexts : context.Alike y context') (avoids : node.Avoids y)
    (hinput : node.inputs[i]? = some x) (hx : x.isEmpty = false) (hy : y.isEmpty = false)
    (transparent : node.Transparent context start i x) (tied : start.Tied) (stocked : start.Stocked)
    (undeclared : start.declarations.find? y = none) :
    Mirrors y context context' node (node.inputs.set i y) node.attributes
      (Trails x y node i context start) (Scope.Alike y) := by
  have hlt : i < node.inputs.length := (List.getElem?_eq_some_iff.1 hinput).1
  have hne {j : Nat} {name : String} (hname : node.inputs[j]? = some name) : name ≠ y := by
    rintro rfl
    exact avoids.inputs (List.mem_of_getElem? hname)
  -- the two names of an input
  have hnames {j : Nat} {name name' : String} (hname : node.inputs[j]? = some name)
      (hname' : (node.inputs.set i y)[j]? = some name') :
      j = i ∧ name = x ∧ name' = y ∨ j ≠ i ∧ name' = name := by
    by_cases hj : j = i
    · subst hj
      rw [List.getElem?_set_self hlt] at hname'
      exact .inl ⟨rfl, Option.some.inj (hname.symm.trans hinput), (Option.some.inj hname').symm⟩
    · rw [List.getElem?_set_ne (Ne.symm hj)] at hname'
      exact .inr ⟨hj, Option.some.inj (hname'.symm.trans hname)⟩
  have hscan (hop : node.op = "Scan") (j : Nat) : node.asksShape context.opset j = true := by
    simp only [NodeOf.asksShape, hop]
  exact {
    empty := by
      rw [List.map_set, hy]
      refine List.ext_getElem? fun j => ?_
      by_cases hj : j = i
      · subst hj
        rw [List.getElem?_set_self (by rwa [List.length_map]), List.getElem?_map, hinput,
          Option.map_some, hx]
      · rw [List.getElem?_set_ne (Ne.symm hj)]
    values := rfl
    value := fun j name name' hname hname' hnamed hasks => by
      by_cases heq : name = x
      · subst heq
        rintro ⟨scope, log⟩ ⟨scope', log'⟩ a left (h : Trails name y node i context start j scope scope')
          hrun
        have haliased := h.aliased hx transparent tied undeclared hrun
        refine ⟨⟨scope', log'⟩, ?_, .level haliased⟩
        rcases hnames hname hname' with ⟨-, -, rfl⟩ | ⟨-, rfl⟩
        · exact value_of_stands hy (.inl haliased.bound)
        · exact value_of_stands hx (haliased.stands.alike (hne hname) haliased.alike)
      · rcases hnames hname hname' with ⟨-, hname, -⟩ | ⟨hj, rfl⟩
        · exact absurd hname heq
        · exact Trails.value_follows contexts hname hnamed hasks hj heq (hne hname)
    skip := fun j _ _ hidle h => h.skip hx hinput hidle
    shape := fun j k name name' scope scope' hasks hk hname hname' h => by
      rcases hnames hname hname' with ⟨rfl, rfl, rfl⟩ | ⟨-, rfl⟩
      · exact h.shape?_eq transparent undeclared hasks
      · rcases hk with hk | hop
        · exact (h.agree_of_asked contexts tied hk (NodeOf.asksValue_of_asksShape hasks) hname
            (hne hname)).shape?
        · exact (h.agree contexts transparent tied stocked (hscan hop i) (hne hname)).shape?
    tensor := fun j k name name' scope scope' hasks hname hname' h => by
      rcases hnames hname hname' with ⟨rfl, -, -⟩ | ⟨-, rfl⟩
      · exact absurd (transparent.tensor.symm.trans hasks) Bool.false_ne_true
      · exact h.tensor?_eq contexts tied stocked (hne hname)
    inner := fun hop scope scope' h name importer himporter =>
      ⟨importer, himporter, avoids.inner importer (NodeOf.mem_inner_of_graph? himporter)
        ⟨context.opset, scope :: context.outer⟩ ⟨context'.opset, scope' :: context'.outer⟩
        ⟨contexts.opset, fun _ hname => h.agree contexts transparent tied stocked (hscan hop i) hname⟩⟩
    done := fun k _ _ hidle h => h.done hx hinput hidle }

/-- A node that can be lowered gets the value of `x`. -/
theorem exists_value (avoids : node.Avoids y) (hinput : node.inputs[i]? = some x)
    (hx : x.isEmpty = false) {session next : Session}
    (transparent : node.Transparent context session.scope i x) {u : Unit}
    (h : lowerNode Handlers.standard node context session = .ok u next) :
    ∃ log ref left, value x context ⟨session.scope, log⟩ = .ok ref left := by
  rcases transparent.order with ⟨ref, hstands⟩ | ⟨hasks, hothers⟩
  · exact ⟨session.log, ref, session, value_of_stands hx hstands⟩
  · by_contra hnone
    -- nothing comes of a node that gets stuck at `x`
    have hstuck : Mirrors y context context node node.inputs node.attributes
        (fun k scope scope' => scope = session.scope ∧ scope' = session.scope
          ∧ Pending x node i session.scope k) (fun _ _ => False) := {
      empty := rfl
      values := rfl
      value := fun j name name' hname hname' hnamed hasks => by
        obtain rfl : name = name' := Option.some.inj (hname.symm.trans hname')
        rintro ⟨_, log⟩ ⟨_, log'⟩ a left ⟨rfl, rfl, pending⟩ hrun
        by_cases heq : name = x
        · exact absurd ⟨log, a, left, heq ▸ hrun⟩ hnone
        · have hj : j ≠ i := by
            rintro rfl
            exact heq (Option.some.inj (hname.symm.trans hinput))
          obtain ⟨⟨ref, hstands⟩, hnext⟩ := pending.next hname hnamed hasks hj heq
          rw [@value_of_stands context ⟨session.scope, log⟩ _ _ hnamed hstands] at hrun
          cases hrun
          exact ⟨⟨session.scope, log'⟩, value_of_stands hnamed hstands, rfl, rfl, hnext⟩
      skip := fun _ _ _ hidle ⟨hscope, hscope', pending⟩ =>
        ⟨hscope, hscope', pending.skip hx hinput hidle⟩
      shape := by
        rintro j k name name' _ _ - - hname hname' ⟨rfl, rfl, -⟩
        rw [Option.some.inj (hname.symm.trans hname')]
      tensor := by
        rintro j k name name' _ _ - hname hname' ⟨rfl, rfl, -⟩
        rw [Option.some.inj (hname.symm.trans hname')]
      inner := by
        rintro - _ _ ⟨rfl, rfl, -⟩ name importer himporter
        exact ⟨importer, himporter, avoids.inner importer (NodeOf.mem_inner_of_graph? himporter) _ _
          (.refl y _)⟩
      done := fun _ _ _ hidle ⟨_, _, pending⟩ => pending.not_idle hx hinput hidle }
    obtain ⟨-, version, handler, result, log, middle, hfind, hhandler, -⟩ := lowerNode_bindResult h
    have hfollows := Handler.follows_of_served hstuck steady_false (fun _ => avoids.source)
      (Handlers.served_of_find? hfind)
    obtain ⟨_, -, hfalse⟩ := hfollows { session with log } { session with log } result middle
      ⟨rfl, rfl, Nat.zero_le i, hasks, hothers, nofun⟩ hhandler
    exact hfalse

end

end OnnxLowering
