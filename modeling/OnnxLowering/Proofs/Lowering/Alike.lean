/-
Two lowerings that keep step. `Follows` relates two steps of the lowering:
where the scopes of the graph are related and the first step succeeds, the
second one succeeds with the same value and leaves a related scope. Nothing
is said of their logs.

The relation at hand is `Alike`: one module, and names that stand for the
same in it, but for one name. Steps that never ask for this name, and give
it no value, keep scopes alike; and if what surrounds the two graphs is
alike too, a graph inside sees no difference (`Importer.Blind`).
-/
import OnnxLowering.Proofs.Lowering.Whole

namespace OnnxLowering

-- ================================================================ knowledge

/-- What is known of a name is the same in two chains of scopes. -/
structure Scopes.Agree (scopes scopes' : Scopes) (name : String) : Prop where
  defines : scopes'.defines name = scopes.defines name
  tensor? : scopes'.tensor? name = scopes.tensor? name
  shape? : scopes'.shape? name = scopes.shape? name

theorem Scopes.Agree.refl (scopes : Scopes) (name : String) : scopes.Agree scopes name :=
  ⟨rfl, rfl, rfl⟩

theorem Scopes.Agree.trans {scopes scopes' scopes'' : Scopes} {name : String}
    (h : scopes.Agree scopes' name) (h' : scopes'.Agree scopes'' name) :
    scopes.Agree scopes'' name :=
  ⟨h'.defines.trans h.defines, h'.tensor?.trans h.tensor?, h'.shape?.trans h.shape?⟩

/-- It is, if the nearest scopes tell the same of the name. -/
theorem Scopes.Agree.cons {outer outer' : Scopes} {scope scope' : Scope} {name : String}
    (declared : scope'.declarations.find? name = scope.declarations.find? name)
    (known : scope'.tensors.find? name = scope.tensors.find? name)
    (initial : scope'.initializers.find? name = scope.initializers.find? name)
    (bound : scope'.bindings.find? name = scope.bindings.find? name)
    (labels : ∀ ref, scope.bindings.find? name = some ref → scope'.label ref = scope.label ref)
    (h : outer.Agree outer' name) : Agree (scope :: outer) (scope' :: outer') name where
  defines := by
    simp only [Scopes.defines, Scope.defines, NameMap.contains, known, initial, bound, h.defines]
  tensor? := by
    have hcontains : scope'.bindings.contains name = scope.bindings.contains name := by
      rw [NameMap.contains, bound, NameMap.contains]
    simp only [Scopes.tensor?]
    rw [known, hcontains, h.tensor?]
  shape? := by
    simp only [Scopes.shape?, declared, known, bound, h.shape?]
    cases hbound : scope.bindings.find? name with
    | none => rfl
    | some ref => simp only [labels ref hbound]

/-- Two graphs are lowered for one version of the operator set, and around
them the same is known of every name but `y`. -/
structure Context.Alike (y : String) (context context' : Context) : Prop where
  opset : context'.opset = context.opset
  outer : ∀ name, name ≠ y → Scopes.Agree context.outer context'.outer name

theorem Context.Alike.refl (y : String) (context : Context) : context.Alike y context :=
  ⟨rfl, fun name _ => .refl context.outer name⟩

namespace Scope

/-- Two scopes with the same module. Every name but `y` stands for the
same in both, and has as many readers; the first scope knows nothing of
`y`. -/
structure Alike (y : String) (scope scope' : Scope) : Prop where
  same : scope' = { scope with bindings := scope'.bindings, users := scope'.users }
  bindings : ∀ name, name ≠ y → scope'.bindings.find? name = scope.bindings.find? name
  users : ∀ name, name ≠ y → scope'.users.count name = scope.users.count name
  outputs : y ∉ scope.outputs
  outerInputs : y ∉ scope.outerInputs
  unknown : scope.tensors.find? y = none

variable {y : String} {scope scope' : Scope}

theorem Alike.refl (outputs : y ∉ scope.outputs) (outerInputs : y ∉ scope.outerInputs)
    (unknown : scope.tensors.find? y = none) : scope.Alike y scope :=
  ⟨rfl, fun _ _ => rfl, fun _ _ => rfl, outputs, outerInputs, unknown⟩

/-- The scopes differ in two fields only. -/
theorem Alike.exists_eq (h : scope.Alike y scope') :
    ∃ bindings users, scope' = { scope with bindings, users } :=
  ⟨_, _, h.same⟩

/-- Both scopes have been changed in the same way, apart from the bindings
and users. -/
theorem Alike.step {after after' : Scope} (h : scope.Alike y scope')
    (same : after' = { after with bindings := scope'.bindings, users := scope'.users })
    (bindings : after.bindings = scope.bindings) (users : after.users = scope.users)
    (outputs : after.outputs = scope.outputs) (outerInputs : after.outerInputs = scope.outerInputs)
    (unknown : after.tensors.find? y = scope.tensors.find? y) : after.Alike y after' := by
  subst same
  refine ⟨rfl, fun name hname => ?_, fun name hname => ?_, ?_, ?_, ?_⟩
  · rw [bindings]
    exact h.bindings name hname
  · rw [users]
    exact h.users name hname
  · rw [outputs]
    exact h.outputs
  · rw [outerInputs]
    exact h.outerInputs
  · rw [unknown]
    exact h.unknown

theorem Alike.bind {name : String} (h : scope.Alike y scope') (ref : Ref) :
    (scope.bind name ref).Alike y (scope'.bind name ref) where
  same := by
    obtain ⟨bindings, users, rfl⟩ := h.exists_eq
    rfl
  bindings other hother := by
    simp only [Scope.bind, NameMap.find?_insert, h.bindings other hother]
  users := h.users
  outputs := h.outputs
  outerInputs := h.outerInputs
  unknown := h.unknown

theorem Alike.labelInput (h : scope.Alike y scope') (ref : Ref) (f : Label → Label) :
    (scope.labelInput ref f).Alike y (scope'.labelInput ref f) := by
  obtain ⟨bindings, users, rfl⟩ := h.exists_eq
  cases ref with
  | input i => exact h.step rfl rfl rfl rfl rfl rfl
  | node i => exact h

/-- Another name has been read from outside. -/
theorem Alike.reads {name : String} (h : scope.Alike y scope') (hname : name ≠ y) :
    Alike y { scope with outerInputs := scope.outerInputs ++ [name] }
      { scope' with outerInputs := scope'.outerInputs ++ [name] } where
  same := by
    obtain ⟨bindings, users, rfl⟩ := h.exists_eq
    rfl
  bindings := h.bindings
  users := h.users
  outputs := h.outputs
  outerInputs hmem := by
    rcases List.mem_append.1 hmem with hmem | hmem
    · exact h.outerInputs hmem
    · exact hname (List.mem_singleton.1 hmem).symm
  unknown := h.unknown

/-- Another input of the graph has been added. -/
theorem Alike.feeds (h : scope.Alike y scope') (name : String) :
    Alike y { scope with inputNames := scope.inputNames ++ [name] }
      { scope' with inputNames := scope'.inputNames ++ [name] } := by
  obtain ⟨bindings, users, rfl⟩ := h.exists_eq
  exact h.step rfl rfl rfl rfl rfl rfl

/-- Whether any of the other names has a reader. -/
theorem Alike.any_users {names : List String} (h : scope.Alike y scope') (hnames : y ∉ names) :
    names.any (0 < scope'.users.count ·) = names.any (0 < scope.users.count ·) := by
  induction names with
  | nil => rfl
  | cons name names ih =>
      rw [List.mem_cons, not_or] at hnames
      rw [List.any_cons, List.any_cons, h.users name (Ne.symm hnames.1), ih hnames.2]

/-- The second scope may give the one name a meaning. -/
theorem Alike.bind_right (h : scope.Alike y scope') (ref : Ref) :
    scope.Alike y (scope'.bind y ref) where
  same := by
    obtain ⟨bindings, users, rfl⟩ := h.exists_eq
    rfl
  bindings other hother := by
    rw [Scope.bind, NameMap.find?_insert_of_ne _ _ hother]
    exact h.bindings other hother
  users := h.users
  outputs := h.outputs
  outerInputs := h.outerInputs
  unknown := h.unknown

theorem Alike.label_eq (h : scope.Alike y scope') (ref : Ref) : scope'.label ref = scope.label ref := by
  obtain ⟨bindings, users, rfl⟩ := h.exists_eq
  rfl

/-- Where scopes are alike, and those around them, the same is known of
every other name. -/
theorem Alike.agree {outer outer' : Scopes} {name : String} (h : scope.Alike y scope')
    (hname : name ≠ y) (houter : outer.Agree outer' name) :
    Scopes.Agree (scope :: outer) (scope' :: outer') name := by
  have hbound := h.bindings name hname
  have hlabel := h.label_eq
  obtain ⟨bindings, users, rfl⟩ := h.exists_eq
  exact .cons rfl rfl rfl hbound (fun ref _ => hlabel ref) houter

end Scope

-- ==================================================================== steps

namespace Lower

variable {α β : Type} {context context' : Context} {R Q T : Scope → Scope → Prop}

/-- Where scopes are related and one step succeeds, another one succeeds
with the same value, and the scopes that they leave are related. -/
def Follows (context context' : Context) (R Q : Scope → Scope → Prop) (x x' : Lower α) : Prop :=
  ∀ session session' a left, R session.scope session'.scope → x context session = .ok a left →
    ∃ left', x' context' session' = .ok a left' ∧ Q left.scope left'.scope

namespace Follows

variable {x x' : Lower α} {f f' : α → Lower β}

theorem pure {a : α} (h : ∀ scope scope', R scope scope' → Q scope scope') :
    Follows context context' R Q (pure a) (pure a) := by
  intro session session' b left hrelated hrun
  obtain ⟨rfl, rfl⟩ := pure_eq_ok.1 hrun
  exact ⟨session', rfl, h _ _ hrelated⟩

/-- A step that fails is followed by anything. -/
theorem throw {error : LowerError} : Follows context context' R Q (throw error : Lower α) x' :=
  fun _ _ _ _ _ hrun => nomatch hrun

/-- What follows may rely on the first step having had its value. -/
theorem bind_of (h : Follows context context' R Q x x')
    (hnext : ∀ a session left, x context session = .ok a left →
      Follows context context' Q T (f a) (f' a)) :
    Follows context context' R T (x >>= f) (x' >>= f') := by
  intro session session' b left hrelated hrun
  obtain ⟨a, middle, hfirst, hrest⟩ := bind_eq_ok.1 hrun
  obtain ⟨middle', hfirst', hmiddle⟩ := h _ _ _ _ hrelated hfirst
  obtain ⟨left', hrest', hleft⟩ := hnext a _ _ hfirst _ _ _ _ hmiddle hrest
  exact ⟨left', bind_eq_ok.2 ⟨a, middle', hfirst', hrest'⟩, hleft⟩

theorem bind (h : Follows context context' R Q x x')
    (hnext : ∀ a, Follows context context' Q T (f a) (f' a)) :
    Follows context context' R T (x >>= f) (x' >>= f') :=
  h.bind_of fun a _ _ _ => hnext a

theorem map {g : α → β} (h : Follows context context' R Q x x') :
    Follows context context' R Q (g <$> x) (g <$> x') := by
  intro session session' b left hrelated hrun
  obtain ⟨a, hfirst, rfl⟩ := map_eq_ok.1 hrun
  obtain ⟨left', hrun', hleft⟩ := h _ _ _ _ hrelated hfirst
  exact ⟨left', map_eq_ok.2 ⟨a, hrun', rfl⟩, hleft⟩

theorem mono {R' Q' : Scope → Scope → Prop} (h : Follows context context' R Q x x')
    (hbefore : ∀ scope scope', R' scope scope' → R scope scope')
    (hafter : ∀ scope scope', Q scope scope' → Q' scope scope') :
    Follows context context' R' Q' x x' := by
  intro session session' a left hrelated hrun
  obtain ⟨left', hrun', hleft⟩ := h _ _ _ _ (hbefore _ _ hrelated) hrun
  exact ⟨left', hrun', hafter _ _ hleft⟩

theorem guard {c : Prop} [Decidable c] {error error' : LowerError}
    (h : ¬ c → Follows context context' R Q x x') :
    Follows context context' R Q
      (if c then (MonadExcept.throw error : Lower PUnit) >>= fun _ => x else x)
      (if c then (MonadExcept.throw error' : Lower PUnit) >>= fun _ => x' else x') := by
  by_cases hc : c
  · rw [if_pos hc, if_pos hc]
    exact fun _ _ _ _ _ hrun => nomatch hrun
  · rw [if_neg hc, if_neg hc]
    exact h hc

theorem guard' {c : Prop} [Decidable c] {error error' : LowerError}
    (h : c → Follows context context' R Q x x') :
    Follows context context' R Q
      (if c then x else (MonadExcept.throw error : Lower PUnit) >>= fun _ => x)
      (if c then x' else (MonadExcept.throw error' : Lower PUnit) >>= fun _ => x') := by
  by_cases hc : c
  · rw [if_pos hc, if_pos hc]
    exact h hc
  · rw [if_neg hc, if_neg hc]
    exact fun _ _ _ _ _ hrun => nomatch hrun

/-- What happens to any related scopes happens to these. -/
theorem here {scope scope' : Scope} (hrelated : R scope scope')
    (h : Follows context context' R Q x x') :
    Follows context context' (fun next next' => next = scope ∧ next' = scope') Q x x' := by
  refine h.mono ?_ fun _ _ hleft => hleft
  rintro _ _ ⟨rfl, rfl⟩
  exact hrelated

/-- Two steps that look at the scopes first. -/
theorem scope {f f' : Scope → Lower α}
    (h : ∀ scope scope', R scope scope' →
      Follows context context' (fun next next' => next = scope ∧ next' = scope') Q (f scope)
        (f' scope')) :
    Follows context context' R Q (Lower.scope >>= f) (Lower.scope >>= f') := by
  intro session session' a left hrelated hrun
  rw [bind_apply, scope_apply] at hrun ⊢
  exact h _ _ hrelated session session' a left ⟨rfl, rfl⟩ hrun

/-- Two steps that look at all scopes first. -/
theorem scopes {f f' : Scopes → Lower α}
    (h : ∀ scope scope', R scope scope' →
      Follows context context' (fun next next' => next = scope ∧ next' = scope') Q
        (f (scope :: context.outer)) (f' (scope' :: context'.outer))) :
    Follows context context' R Q (Lower.scopes >>= f) (Lower.scopes >>= f') := by
  intro session session' a left hrelated hrun
  rw [bind_apply, scopes_apply] at hrun ⊢
  exact h _ _ hrelated session session' a left ⟨rfl, rfl⟩ hrun

/-- Two steps that look at the contexts first. -/
theorem read {f f' : Context → Lower α} (h : Follows context context' R Q (f context) (f' context')) :
    Follows context context' R Q (MonadReader.read >>= f) (MonadReader.read >>= f') := h

theorem ofExcept {ε : Type} {wrap : ε → LowerError} {result : Except ε α} :
    Follows context context' R R (ofExcept wrap result) (ofExcept wrap result) := by
  intro session session' a left hrelated hrun
  obtain ⟨rfl, rfl⟩ := ofExcept_eq_ok.1 hrun
  exact ⟨session', rfl, hrelated⟩

theorem report {record record' : LogRecord} :
    Follows context context' R R (report record) (report record') := by
  intro session session' a left hrelated hrun
  cases hrun
  exact ⟨_, rfl, hrelated⟩

theorem modifyScope {g g' : Scope → Scope}
    (h : ∀ scope scope', R scope scope' → Q (g scope) (g' scope')) :
    Follows context context' R Q (modifyScope g) (modifyScope g') := by
  intro session session' a left hrelated hrun
  cases hrun
  exact ⟨_, rfl, h _ _ hrelated⟩

theorem withScope {g g' : Scope → α × Scope}
    (h : ∀ scope scope', R scope scope' →
      (g' scope').1 = (g scope).1 ∧ Q (g scope).2 (g' scope').2) :
    Follows context context' R Q (withScope g) (withScope g') := by
  intro session session' a left hrelated hrun
  rw [withScope_apply] at hrun ⊢
  cases hrun
  obtain ⟨hvalue, hscope⟩ := h _ _ hrelated
  exact ⟨_, by rw [hvalue], hscope⟩

/-- Steps over two lists, entry by entry. The relation may depend on how
many entries have been dealt with. -/
theorem mapM {A B : Type} {x : A → Lower B} {x' : A → Lower B} {V : Nat → Scope → Scope → Prop}
    {xs xs' : List A} (hlength : xs'.length = xs.length)
    (h : ∀ i a a', xs[i]? = some a → xs'[i]? = some a' →
      Follows context context' (V i) (V (i + 1)) (x a) (x' a')) :
    Follows context context' (V 0) (V xs.length) (xs.mapM x) (xs'.mapM x') := by
  induction xs generalizing xs' V with
  | nil =>
      obtain rfl : xs' = [] := List.eq_nil_of_length_eq_zero hlength
      exact .pure fun _ _ hrelated => hrelated
  | cons a xs ih =>
      cases xs' with
      | nil => cases hlength
      | cons a' xs' =>
          rw [List.mapM_cons, List.mapM_cons]
          refine (h 0 a a' rfl rfl).bind fun b => ?_
          have hrest := @ih (fun i => V (i + 1)) xs' (Nat.succ.inj hlength)
            fun i b b' hb hb' => h (i + 1) b b' hb hb'
          exact hrest.bind fun bs => .pure fun _ _ hrelated => hrelated

theorem mapM_same {A B : Type} {x x' : A → Lower B} {xs : List A}
    (h : ∀ a ∈ xs, Follows context context' R R (x a) (x' a)) :
    Follows context context' R R (xs.mapM x) (xs.mapM x') := by
  refine @Follows.mapM context context' A B x x' (fun _ => R) xs xs rfl fun i a a' ha ha' => ?_
  obtain rfl : a = a' := Option.some.inj (ha.symm.trans ha')
  exact h a (List.mem_of_getElem? ha)

theorem forIn {A B : Type} {x x' : A → B → Lower (ForInStep B)} {xs : List A} {b : B}
    (h : ∀ a ∈ xs, ∀ b, Follows context context' R R (x a b) (x' a b)) :
    Follows context context' R R (forIn xs b x) (forIn xs b x') := by
  induction xs generalizing b with
  | nil => exact .pure fun _ _ hrelated => hrelated
  | cons a xs ih =>
      rw [List.forall_mem_cons] at h
      rw [List.forIn_cons, List.forIn_cons]
      refine (h.1 b).bind fun step => ?_
      cases step with
      | done b => exact .pure fun _ _ hrelated => hrelated
      | yield b => exact ih h.2

end Follows

-- ============================================================== alike scopes

section

variable {y : String}

theorem addNode_follows {action : Action} {label : Label} :
    Follows context context' (Scope.Alike y) (Scope.Alike y) (addNode action label)
      (addNode action label) :=
  .withScope fun scope scope' h => by
    rw [Scope.addNode_eq, Scope.addNode_eq]
    obtain ⟨bindings, users, rfl⟩ := h.exists_eq
    exact ⟨rfl, h.step rfl rfl rfl rfl rfl rfl⟩

theorem bind_follows {name : String} {ref : Ref} :
    Follows context context' (Scope.Alike y) (Scope.Alike y) (Lower.bind name ref)
      (Lower.bind name ref) :=
  .modifyScope fun _ _ h => h.bind ref

theorem labelOf_eq {G : Type} {node : NodeOf G} {output : Nat} {typed : Bool} {scope scope' : Scope}
    (h : scope.Alike y scope') : labelOf scope' node output typed = labelOf scope node output typed := by
  obtain ⟨bindings, users, rfl⟩ := h.exists_eq
  rfl

theorem apply_follows {G : Type} {node : NodeOf G} {op : Op} {operands : List Ref} {output : Nat} :
    Follows context context' (Scope.Alike y) (Scope.Alike y) (apply node op operands output)
      (apply node op operands output) := by
  refine .scope fun scope scope' h => ?_
  rw [labelOf_eq h]
  exact addNode_follows.here h

theorem call_follows {G : Type} {node : NodeOf G} {name : String} {operands : List Ref} {output : Nat}
    {typed : Bool} :
    Follows context context' (Scope.Alike y) (Scope.Alike y) (call node name operands output typed)
      (call node name operands output typed) := by
  refine .scope fun scope scope' h => ?_
  have hfinished : scope'.finished = scope.finished := by
    obtain ⟨bindings, users, rfl⟩ := h.exists_eq
    rfl
  rw [hfinished]
  refine .guard fun _ => .scope ?_
  rintro _ _ ⟨rfl, rfl⟩
  rw [labelOf_eq h]
  exact addNode_follows.here h

theorem materialise_follows {source : String} {t : Tensor} {trainable : Option Bool}
    (hsource : source ≠ y) :
    Follows context context' (Scope.Alike y) (Scope.Alike y) (materialise source t trainable)
      (materialise source t trainable) := by
  rintro session ⟨scope', log⟩ ref left (h : session.scope.Alike y scope') hrun
  obtain ⟨bindings, users, rfl⟩ := h.exists_eq
  rw [materialise_apply] at hrun ⊢
  simp only at hrun
  split at hrun
  · cases hrun
  · next hflag =>
      split at hrun
      · next hadmits =>
          cases hrun
          refine ⟨_, (if_neg hflag).trans (if_pos hadmits), ?_⟩
          simp only [Scope.store, Scope.addNode_eq]
          exact h.step rfl rfl rfl rfl rfl (NameMap.find?_insert_of_ne _ _ hsource.symm)
      · cases hrun

theorem registerLoop_follows {base : String} {loop : Loop} :
    Follows context context' (Scope.Alike y) (Scope.Alike y) (registerLoop base loop)
      (registerLoop base loop) := by
  rintro session ⟨scope', log⟩ name left (h : session.scope.Alike y scope') hrun
  obtain ⟨bindings, users, rfl⟩ := h.exists_eq
  rw [registerLoop_apply] at hrun ⊢
  simp only at hrun
  split at hrun
  · next hadmits =>
      cases hrun
      exact ⟨_, if_pos hadmits, h.step rfl rfl rfl rfl rfl rfl⟩
  · cases hrun

/-- An input more, for a value from outside. -/
theorem addInput_follows {source preferred : String} :
    Follows context context' (Scope.Alike y) (Scope.Alike y)
      (withScope (·.addInput source preferred)) (withScope (·.addInput source preferred)) :=
  .withScope fun scope scope' h => by
    rw [Scope.addInput_eq, Scope.addInput_eq]
    obtain ⟨bindings, users, rfl⟩ := h.exists_eq
    exact ⟨rfl, h.step rfl rfl rfl rfl rfl rfl⟩

theorem capture_follows (contexts : context.Alike y context') {name : String} (hname : name ≠ y) :
    Follows context context' (Scope.Alike y) (Scope.Alike y) (capture name) (capture name) := by
  obtain ⟨-, htensor, hshape⟩ := contexts.outer name hname
  refine .read ?_
  simp only
  rw [htensor, hshape]
  cases Scopes.tensor? context.outer name with
  | some t =>
      exact (materialise_follows hname).bind fun ref => bind_follows.bind fun _ =>
        .pure fun _ _ h => h
  | none =>
      refine addInput_follows.bind fun ref => ?_
      refine (Follows.modifyScope fun scope scope' h => ?_).bind fun _ => Follows.report.bind fun _ =>
        .pure fun _ _ h => h
      exact ((h.labelInput ref _).bind ref).reads hname

/-- The value of any other name is the same. -/
theorem value_follows (contexts : context.Alike y context') {name : String} (hname : name ≠ y) :
    Follows context context' (Scope.Alike y) (Scope.Alike y) (value name) (value name) := by
  refine .guard fun _ => .scope fun scope scope' h => ?_
  rw [h.bindings name hname]
  have hrest : scope'.constants = scope.constants ∧ scope'.initializers = scope.initializers
      ∧ scope'.tensors = scope.tensors := by
    obtain ⟨bindings, users, rfl⟩ := h.exists_eq
    exact ⟨rfl, rfl, rfl⟩
  rw [hrest.1, hrest.2.1, hrest.2.2]
  refine Follows.here h ?_
  split
  · exact .pure fun _ _ h => h
  · exact .pure fun _ _ h => h
  · exact materialise_follows hname
  · exact (materialise_follows hname).bind fun ref => bind_follows.bind fun _ => .pure fun _ _ h => h
  · refine .read ?_
    rw [(contexts.outer name hname).defines]
    split
    · exact capture_follows contexts hname
    · exact .throw

-- =================================================================== graphs

/-- The outputs of a node get their values. -/
theorem bindResult_follows {G : Type} {node : NodeOf G} {result : Result} (houtputs : y ∉ node.outputs) :
    Follows context context' (Scope.Alike y) (Scope.Alike y) (bindResult node result)
      (bindResult node result) := by
  cases result with
  | nothing => exact .pure fun _ _ h => h
  | unsupported => exact .throw
  | many refs =>
      refine .guard fun _ => (Follows.forIn fun pair _ _ => ?_).bind fun _ => .pure fun _ _ h => h
      have hbind : Follows context context' (Scope.Alike y) (Scope.Alike y)
          (bindOutput pair.1 pair.2) (bindOutput pair.1 pair.2) := by
        unfold bindOutput
        split
        · exact .pure fun _ _ h => h
        · exact bind_follows
      exact hbind.bind fun _ => .pure fun _ _ h => h
  | one ref =>
      show Follows context context' _ _ (bindOne node ref) (bindOne node ref)
      unfold bindOne
      split
      · exact .pure fun _ _ h => h
      · next name others hnamed =>
          refine bind_follows.bind fun _ => .scope fun scope scope' h => ?_
          have hothers : y ∉ others := by
            intro hmem
            have hname : y ∈ node.namedOutputs := hnamed ▸ List.mem_cons_of_mem _ hmem
            exact houtputs (List.mem_of_mem_filter hname)
          simp only
          rw [h.any_users hothers]
          refine Follows.here h ?_
          split
          · exact .throw
          · exact .pure fun _ _ h => h

theorem addGraphInput_follows {info : ValueInfo} :
    Follows context context' (Scope.Alike y) (Scope.Alike y) (addGraphInput info)
      (addGraphInput info) := by
  refine addInput_follows.bind fun ref => .modifyScope fun scope scope' h => ?_
  have hdeclarations : scope'.declarations = scope.declarations := by
    obtain ⟨bindings, users, rfl⟩ := h.exists_eq
    rfl
  rw [hdeclarations]
  exact ((h.labelInput ref _).bind ref).feeds info.name

theorem addGraphInputs_follows {inputs : List ValueInfo} :
    Follows context context' (Scope.Alike y) (Scope.Alike y) (addGraphInputs inputs)
      (addGraphInputs inputs) := by
  refine .scope fun scope scope' h => ?_
  have hinitializers : scope'.initializers = scope.initializers := by
    obtain ⟨bindings, users, rfl⟩ := h.exists_eq
    rfl
  rw [hinitializers]
  refine Follows.here h ((Follows.forIn fun info _ _ => ?_).bind fun _ => .pure fun _ _ h => h)
  split
  · exact .pure fun _ _ h => h
  · exact addGraphInput_follows.bind fun _ => .pure fun _ _ h => h

/-- The outputs of the graph have the same values. -/
theorem results_follows (contexts : context.Alike y context') {asTuple : Bool} :
    Follows context context' (Scope.Alike y) (Scope.Alike y) (results asTuple) (results asTuple) := by
  refine .scope fun scope scope' h => ?_
  have houtputs : scope'.outputs = scope.outputs := by
    obtain ⟨bindings, users, rfl⟩ := h.exists_eq
    rfl
  rw [houtputs]
  refine Follows.here h ((Follows.mapM_same fun name hname => ?_).bind fun refs => ?_)
  · exact value_follows contexts fun heq => h.outputs (heq ▸ hname)
  · split
    · exact .pure fun _ _ h => h
    · exact .pure fun _ _ h => h

theorem refuse_follows {R : Scope → Scope → Prop} {fault? : Option LowerError} :
    Follows context context' R R (refuse fault?) (refuse fault?) := by
  unfold refuse
  split
  · exact .throw
  · exact .pure fun _ _ h => h

/-- And the scopes become the same module. -/
theorem finish_follows {r : Results} :
    Follows context context' (Scope.Alike y) (Scope.Alike y) (finish r) (finish r) := by
  refine addNode_follows.bind fun _ => .scope fun scope scope' h => ?_
  obtain ⟨bindings, users, rfl⟩ := h.exists_eq
  refine Follows.here h (refuse_follows.bind fun _ =>
    (Follows.modifyScope fun next next' hnext => ?_).bind fun _ => refuse_follows.bind fun _ =>
      refuse_follows.bind fun _ => refuse_follows.bind fun _ => .pure fun _ _ h => h)
  obtain ⟨bindings, users, rfl⟩ := hnext.exists_eq
  exact hnext.step rfl rfl rfl rfl rfl rfl

/-- Where the nodes of two graphs keep step, so do the graphs. -/
theorem lowerGraph_alike (contexts : context.Alike y context') {graph graph' : GraphOf Importer}
    (hinputs : graph'.inputs = graph.inputs) {start start' left : Session} {asTuple : Bool} {m : Module}
    (hstart : start.scope.Alike y start'.scope)
    (hnodes : ∀ fed fed' last, addGraphInputs graph.inputs context start = .ok () fed →
      fed.scope.Alike y fed'.scope → lowerNodes Handlers.standard graph.nodes context fed = .ok () last →
        ∃ last', lowerNodes Handlers.standard graph'.nodes context' fed' = .ok () last'
          ∧ last.scope.Alike y last'.scope)
    (h : lowerGraph Handlers.standard graph asTuple context start = .ok m left) :
    ∃ left', lowerGraph Handlers.standard graph' asTuple context' start' = .ok m left'
      ∧ left.scope.Alike y left'.scope := by
  obtain ⟨_, fed, hfed, h⟩ := bind_eq_ok.1 h
  obtain ⟨_, last, hlast, h⟩ := bind_eq_ok.1 h
  obtain ⟨fed', hfed', hfedAlike⟩ :=
    @addGraphInputs_follows context context' y graph.inputs start start' () fed hstart hfed
  obtain ⟨last', hlast', hlastAlike⟩ := hnodes fed fed' last hfed hfedAlike hlast
  have hend : Follows context context' (Scope.Alike y) (Scope.Alike y)
      (results asTuple >>= finish) (results asTuple >>= finish) :=
    (results_follows contexts).bind fun _ => finish_follows
  obtain ⟨left', hleft', halike⟩ := hend _ _ _ _ hlastAlike h
  refine ⟨left', bind_eq_ok.2 ⟨(), fed', hinputs ▸ hfed', bind_eq_ok.2 ⟨(), last', hlast', hleft'⟩⟩, halike⟩

end

end Lower

end OnnxLowering
