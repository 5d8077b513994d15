/-
The handlers do what their operations mean. The values that a handler
reads are what the names stand for, each operation that it applies makes
the tensor that the meaning says or fails like it, and the label of a
result has the shape that is known of the name it is for.
-/
import OnnxLowering.Proofs.Handler.Standard
import OnnxLowering.Proofs.Handler.Steps
import OnnxLowering.Proofs.Lowering.Reading

namespace OnnxLowering

/-- An operation makes a tensor, if it makes anything. The one that takes
a component of what a loop returns need not. -/
theorem Op.exists_tensor_of_eval {op : Op} (hop : ∀ index, op ≠ .item index) {values : List Value}
    {value : Value} (h : op.eval values = .ok value) : ∃ t, value = .ofTensor t := by
  unfold eval at h
  cases op with
  | item index => exact absurd rfl (hop index)
  | _ =>
      rcases values with _ | ⟨a, _ | ⟨b, _ | ⟨c, _ | ⟨d, rest⟩⟩⟩⟩ <;>
        first
        | cases h
        | (repeat obtain ⟨_, -, h⟩ := Except.bind_eq_ok.1 h
           exact ⟨_, (Except.ok.inj h).symm⟩)

/-- The label of a result has the shape that is known of the output. -/
theorem knownAs_labelOf {A : Type} (scope : Scope) (node : NodeOf A) (f : A → Importer)
    (g : A → Nested) (i : Nat) (t : Tensor) :
    KnownAs (Lower.labelOf scope (node.map f) i true).shape.join
      (produced scope.declarations (node.map g) i t).shapes := by
  show KnownAs (((if (node.namedOutputs.getD i node.name).isEmpty || !true then none
      else scope.declarations.find? (node.namedOutputs.getD i node.name)).map
        KnownType.shape).join)
    ((if (node.namedOutputs.getD i node.name).isEmpty then none
      else scope.declarations.find? (node.namedOutputs.getD i node.name)).bind
        KnownType.shape).toList
  rw [Bool.not_true, Bool.or_false]
  generalize (if (node.namedOutputs.getD i node.name).isEmpty = true then none
    else scope.declarations.find? (node.namedOutputs.getD i node.name)) = known
  cases known with
  | none => rfl
  | some known =>
      show KnownAs known.shape known.shape.toList
      cases known.shape with
      | none => rfl
      | some dims => exact List.mem_singleton_self dims

namespace World

variable {w : World} {outer : Scopes} {scope scope' : Scope} {outside env : Env}
  {done done' : List Value} {A : Type} {node : NodeOf A} {f : A → Importer} {g : A → Nested}
  {op : Op} {result : Result}

/-- Values of names are what these stand for. -/
theorem Holds.getsAll {names : List String} {refs : List Ref} (seen : Seen outer outside)
    (h : w.Holds outside scope done env) (gets : scope.GetsAll outer names refs scope')
    (fits : w.Fits outside scope') :
    ∃ es done', names.mapM env.read = .ok es ∧ w.advance scope scope' done = .ok done'
      ∧ w.Holds outside scope' done' env ∧ List.Forall₂ (w.Denotes scope' done') refs es := by
  induction gets generalizing done with
  | nil => exact ⟨[], done, rfl, advance_refl _ done, h, .nil⟩
  | @cons scope middle scope' name names ref refs first rest ih =>
      have hfirst : scope.Grows outer (name :: names) [] middle := first.grows List.mem_cons_self
      have hrest : middle.Grows outer (name :: names) [] scope' :=
        rest.grows (List.subset_cons_self name names)
      obtain ⟨e, done₁, henv, hadvance, hholds, hdenotes⟩ :=
        h.gets seen first (fits.of_grows hrest)
      obtain ⟨es, done₂, hes, hadvance', hholds', hdenotes'⟩ := ih hholds fits
      refine ⟨e :: es, done₂, ?_, ?_, hholds', ?_⟩
      · rw [List.mapM_cons, hes, Env.read, henv]
        rfl
      · rw [advance_trans hfirst hrest, hadvance]
        exact hadvance'
      · exact .cons (hdenotes.mono hrest (prefix_of_advance hadvance')) hdenotes'

/-- The result of an operation is what the operation makes of the
tensors, labelled with what is known of the output. -/
theorem Holds.applies {refs : List Ref} {es : List Entry} (g : A → Nested)
    (h : w.Holds outside scope done env)
    (applies : scope.Applies (node.map f) op refs scope')
    (hrefs : List.Forall₂ (w.Denotes scope done) refs es) (hop : ∀ index, op ≠ .item index) :
    Realises (fun done' t => w.Holds outside scope' done' env
        ∧ w.Denotes scope' done' (.node scope.nodes.length)
          (produced scope.declarations (node.map g) 0 t))
      (w.advance scope scope' done) (computed op (es.map Entry.tensor)) := by
  obtain ⟨nodeNames, supply⟩ := applies
  have hvalues : refs.map (Ref.value w.inputs done) = (es.map Entry.tensor).map Value.ofTensor := by
    rw [List.map_map]
    exact map_eq_map_iff_forall₂.2 (hrefs.imp fun _ _ hdenotes => hdenotes.value)
  rw [advance_of_nodes rfl, ModuleOf.valuesFrom_cons, ModuleOf.valueOf_apply, hvalues]
  unfold computed
  cases heval : op.eval ((es.map Entry.tensor).map Value.ofTensor) with
  | error error => exact ⟨error, rfl⟩
  | ok value =>
      obtain ⟨t, rfl⟩ := Op.exists_tensor_of_eval hop heval
      refine Realises.ok ⟨h.of_nodes ?_, ?_, ?_, ?_⟩
      · rw [ModuleOf.valuesFrom_cons, ModuleOf.valueOf_apply, hvalues, heval]
        rfl
      · simp only [List.length_append, List.length_singleton, Nat.lt_succ_self]
      · rw [Ref.value, List.getD_eq_getElem?_getD, ← h.count, List.getElem?_concat_length]
        rfl
      · rw [Scope.label, List.getElem?_concat_length, Option.map_some, Option.getD_some]
        exact knownAs_labelOf scope node f g 0 t

/-- The values for some names have the tensors of entries for the same
names, none of which is a constant. -/
def Yields (w : World) (scope : Scope) (done : List Value) (pairs : List (String × Ref))
    (entries : List (String × Entry)) : Prop :=
  List.Forall₂ (fun pair entry => pair.1 = entry.1 ∧ entry.2.constant = false
    ∧ w.Denotes scope done pair.2 entry.2) pairs entries

theorem Denotes.yields {ref : Ref} {e : Entry} (hdenotes : w.Denotes scope done ref e)
    (hconstant : e.constant = false) :
    w.Yields scope done ((Result.one ref).pairs (node.map f)) (named (node.map g) e) :=
  List.forall₂_map_left_iff.2 (List.forall₂_map_right_iff.2 (List.forall₂_same.2
    fun _ _ => ⟨rfl, hconstant, hdenotes⟩))

theorem operand_eq {index : Nat} {name : String} (h : (node.map f).inputs[index]? = some name) :
    operand env (node.map g) index = env.read name := by
  unfold operand
  rw [show (node.map g).inputs[index]? = some name from h]

/-- Graphs as attributes have no part in what the other attributes are. -/
theorem ofExcept_values {values : Attributes} (h : (node.map f).values = .ok values) :
    Outcome.ofExcept (node.map g).values = .ok values := by
  rw [NodeOf.values_map] at h ⊢
  exact Outcome.ofExcept_eq_ok.2 h

/-- One operation on as many inputs as it takes. -/
theorem Holds.applied {count : Nat} (seen : Seen outer outside) (h : w.Holds outside scope done env)
    (happlied : Handler.Applied (node.map f) op count outer scope scope' result)
    (fits : w.Fits outside scope') (hop : ∀ index, op ≠ .item index) :
    Realises (fun done' entries => w.Holds outside scope' done' env
        ∧ w.Yields scope' done' (result.pairs (node.map f)) entries)
      (w.advance scope scope' done) (applied scope.declarations env (node.map g) op count) := by
  obtain ⟨names, refs, middle, hinputs, hgets, happlies, rfl⟩ := happlied
  have hfirst : scope.Grows outer names [] middle := hgets.grows (List.Subset.refl names)
  have hrest : middle.Grows outer names [] scope' := happlies.grows
  obtain ⟨es, done₁, hes, hadvance, hholds, hdenotes⟩ :=
    h.getsAll seen hgets (fits.of_grows hrest)
  have hoperands : (List.range count).mapM (operand env (node.map g)) = .ok es := by
    rw [← hes]
    have hread : operand env (node.map g) = fun index =>
        node.inputs[index]?.elim .failed env.read := by
      funext index
      show operand env (node.map g) index = (node.map g).inputs[index]?.elim .failed env.read
      unfold operand
      cases (node.map g).inputs[index]? <;> rfl
    rw [hread]
    have hmap := congrArg (List.mapM fun name? : Option String => name?.elim .failed env.read)
      hinputs
    rw [List.mapM_map, List.mapM_map] at hmap
    exact hmap
  rw [advance_trans hfirst hrest, hadvance]
  unfold OnnxLowering.applied
  rw [hoperands]
  refine (hholds.applies g happlies hdenotes hop).map_right fun done' t hresult => ?_
  exact ⟨hresult.1, Denotes.yields (hfirst.declarations ▸ hresult.2) rfl⟩

-- ============================================================== alignment

theorem agreed_of_mem {α : Type} [DecidableEq α] {x : α} {xs : List α} (hx : x ∈ xs) :
    (agreed xs).Allows (some x) := by
  cases xs with
  | nil => cases hx
  | cons first rest =>
      show Outcome.Allows (Outcome.require (∀ other ∈ rest, other = first) >>= _) _
      unfold Outcome.require
      by_cases hsame : ∀ other ∈ rest, other = first
      · rw [if_pos hsame]
        rcases List.mem_cons.1 hx with rfl | hrest
        · exact .inl rfl
        · rw [hsame x hrest]
          exact .inl rfl
      · rw [if_neg hsame]
        exact .inr rfl

/-- An axis from the end means the same as the position that it has in the
rank of the left operand. -/
theorem align_of_negative {lhs rhs : Tensor} {axis : Int} (h : -(lhs.rank : Int) ≤ axis) :
    Tensor.align lhs rhs (some (if axis < 0 then axis + lhs.rank else axis))
      = Tensor.align lhs rhs (some axis) := by
  unfold Tensor.align
  by_cases hnegative : axis < 0
  · have hpositive : ¬ axis + lhs.rank < 0 := by omega
    simp only [if_pos hnegative, if_neg hpositive]
  · simp only [if_neg hnegative]

/-- The axis that the handler has means the same as the given one, where
anything is said. -/
theorem alignment_of_known {declarations : NameMap KnownType} {lhs : Entry} {values : Attributes}
    {known : Option KnownShape} {axis : Option Int} (h : Handler.IsAlignment values known axis)
    (hknown : KnownAs known (lhs.known declarations (node.inputs.getD 0 ""))) :
    alignment declarations (node.map g) lhs values = .unspecified
      ∨ ∃ given, alignment declarations (node.map g) lhs values = .ok given
        ∧ ∀ rhs, Tensor.align lhs.tensor rhs axis = Tensor.align lhs.tensor rhs given := by
  unfold Handler.IsAlignment at h
  unfold alignment
  cases hfind : values.find? "axis" with
  | none =>
      rw [hfind] at h
      exact .inr ⟨none, rfl, fun rhs => by rw [h]⟩
  | some value =>
      rw [hfind] at h
      obtain ⟨given, hgiven, haxis⟩ := h
      simp only [Outcome.ofExcept_eq_ok.2 hgiven, Outcome.ok_bind, Outcome.require]
      split
      · next hrank =>
          refine .inr ⟨some given, rfl, fun rhs => ?_⟩
          cases known with
          | none => rw [haxis]
          | some dims =>
              obtain ⟨hrange, rfl⟩ := haxis
              by_cases hnegative : given < 0
              · have hlength : lhs.tensor.rank = dims.length := hrank hnegative dims hknown
                rw [← hlength] at hrange ⊢
                exact align_of_negative hrange
              · rw [if_neg hnegative]
      · exact .inl rfl

/-- A name that gets a value is defined. -/
theorem Holds.defines_of_gets {name : String} {ref : Ref} (h : w.Holds outside scope done env)
    (gets : scope.Gets outer name ref scope') : Scopes.defines (scope :: outer) name = true := by
  unfold Scopes.defines
  rw [Bool.or_eq_true]
  cases gets with
  | bound hbound => exact .inl (by simp [Scope.defines, NameMap.contains, hbound])
  | constant hconstant =>
      have hstored := h.stored name (by rw [NameMap.contains, hconstant]; rfl)
      exact .inl (by simp [Scope.defines, hstored])
  | initial _ hinitial _ => exact .inl (by simp [Scope.defines, NameMap.contains, hinitial])
  | known htensor _ => exact .inl (by simp [Scope.defines, NameMap.contains, htensor])
  | copied _ visible _ _ => exact .inr visible
  | captured _ visible _ _ => exact .inr visible

/-- What is known of a name that has got a value. -/
theorem Holds.knows_of_gets {name : String} {ref : Ref} {middle : Scope} {e : Entry}
    {reads gives : List String} (seen : Seen outer outside) (h : w.Holds outside scope done env)
    (gets : scope.Gets outer name ref middle) (hgrows : middle.Grows outer reads gives scope')
    (hholds : w.Holds outside scope' done' env) (henv : env name = some e) :
    Scopes.tensor? (scope' :: outer) name = e.known? ∧ e.Exact
      ∧ KnownAs (Scopes.shape? (scope' :: outer) name) (e.known scope.declarations name) := by
  have hfirst : scope.Grows outer [name] [] middle := gets.grows List.mem_cons_self
  have hdefines : Scopes.defines (scope' :: outer) name = true := by
    have hbefore := h.defines_of_gets gets
    unfold Scopes.defines at hbefore ⊢
    rw [Bool.or_eq_true] at hbefore ⊢
    exact hbefore.imp_left fun hname => hgrows.kept name (hfirst.kept name hname)
  obtain ⟨e', henv', hknows⟩ := hholds.knows seen hdefines
  rw [henv] at henv'
  cases henv'
  rw [hgrows.declarations, hfirst.declarations] at hknows
  exact hknows

/-- An operation whose right operand is put at dimensions of the left
one. -/
theorem Holds.appliedAligned {values : Attributes} (seen : Seen outer outside)
    (h : w.Holds outside scope done env)
    (happlied : Handler.AppliedAligned (node.map f) op values outer scope scope' result)
    (fits : w.Fits outside scope') (hop : ∀ index, op ≠ .item index) {broadcast : Int}
    (hbroadcast : intOr values "broadcast" 0 = .ok broadcast) (hzero : broadcast ≠ 0) :
    Realises (fun done' entries => w.Holds outside scope' done' env
        ∧ w.Yields scope' done' (result.pairs (node.map f)) entries)
      (w.advance scope scope' done) (aligned scope.declarations env (node.map g) op values) := by
  obtain ⟨lhsName, rhsName, lhs, rhs, axis, middle, placed, hlhs, hrhs, hgets, haxis, haligns,
    happlies, rfl⟩ := happlied
  have hfirst : scope.Grows outer [lhsName, rhsName] [] middle :=
    hgets.grows (List.Subset.refl _)
  have hsecond : middle.Grows outer [lhsName, rhsName] [] placed := haligns.grows
  have hthird : placed.Grows outer [lhsName, rhsName] [] scope' := happlies.grows
  obtain ⟨es, done₁, hes, hadvance, hholds, hdenotes⟩ :=
    h.getsAll seen hgets (fits.of_grows (hsecond.trans hthird))
  obtain ⟨l, _, hl, hrest, rfl⟩ := List.forall₂_cons_left_iff.1 (Outcome.mapM_eq_ok.1 hes)
  obtain ⟨r, _, hr, hnil, rfl⟩ := List.forall₂_cons_left_iff.1 hrest
  cases hnil
  unfold aligned
  rw [operand_eq hlhs, operand_eq hrhs, hl, hr, hbroadcast, Outcome.ok_bind, Outcome.ok_bind,
    Outcome.ok_bind, if_neg hzero]
  have hknown : KnownAs (Scopes.shape? (middle :: outer) lhsName)
      (l.known scope.declarations (node.inputs.getD 0 "")) := by
    cases hgets with
    | cons first rest =>
        have henv : env lhsName = some l := Env.read_eq_ok.1 hl
        have hname : node.inputs.getD 0 "" = lhsName := by
          rw [List.getD_eq_getElem?_getD, show node.inputs[0]? = some lhsName from hlhs]
          rfl
        have hrest : Scope.Grows outer [rhsName] [] _ middle := rest.grows (List.Subset.refl _)
        rw [hname]
        exact (h.knows_of_gets seen first hrest hholds henv).2.2
  rcases alignment_of_known (g := g) haxis hknown with halignment | ⟨given, halignment, hsame⟩
  · rw [halignment]
    trivial
  have hcomputed : computed (.align axis) ([l, r].map Entry.tensor)
      = computed (.align given) [l.tensor, r.tensor] := by
    have heval : (Op.align axis).eval ([l.tensor, r.tensor].map Value.ofTensor)
        = (Op.align given).eval ([l.tensor, r.tensor].map Value.ofTensor) := by
      show (do return Value.one (some (← Tensor.align l.tensor r.tensor axis))) = _
      rw [hsame]
      rfl
    unfold computed
    exact congrArg (Outcome.ofExcept · >>= _) heval
  rw [halignment, Outcome.ok_bind, ← hcomputed, advance_trans hfirst (hsecond.trans hthird), hadvance]
  show Realises _ (w.advance middle scope' done₁) _
  rw [advance_trans hsecond hthird]
  refine (hholds.applies g haligns hdenotes (fun _ hitem => nomatch hitem)).returned.bind
    fun done₂ t _ haligned => ?_
  obtain ⟨⟨hholds', hplaced⟩, hadvance'⟩ := haligned
  have hlhs' : w.Denotes placed done₂ lhs l :=
    ((List.forall₂_cons.1 hdenotes).1).mono hsecond (prefix_of_advance hadvance')
  refine (hholds'.applies g happlies (.cons hlhs' (.cons hplaced .nil)) hop).map_right
    fun done' u hresult => ?_
  refine ⟨hresult.1, Denotes.yields ?_ rfl⟩
  exact hfirst.declarations ▸ hsecond.declarations ▸ hresult.2

/-- An operation on two operands, of which the right one is put at
dimensions of the left one where `broadcast` says so. -/
theorem Holds.alignedBinary {context : Context} {session session' : Session}
    (seen : Seen context.outer outside) (h : w.Holds outside session.scope done env)
    (handled : Handler.alignedBinary op (node.map f) context session = .ok result session')
    (fits : w.Fits outside session'.scope) (hop : ∀ index, op ≠ .item index) :
    Realises (fun done' entries => w.Holds outside session'.scope done' env
        ∧ w.Yields session'.scope done' (result.pairs (node.map f)) entries)
      (w.advance session.scope session'.scope done) (do
        aligned session.scope.declarations env (node.map g) op
          (← .ofExcept (node.map g).values)) := by
  obtain ⟨values, broadcast, hvalues, hbroadcast, happlied⟩ := Handler.alignedBinary_eq_ok handled
  rw [ofExcept_values hvalues, Outcome.ok_bind]
  split at happlied
  · next hzero =>
      have hresult := h.applied (g := g) seen happlied fits hop
      rw [applied_two] at hresult
      unfold aligned
      simp only [hbroadcast, Outcome.ok_bind, if_pos hzero]
      exact hresult
  · next hzero =>
      obtain ⟨happlied⟩ := happlied
      exact h.appliedAligned seen happlied fits hop hbroadcast hzero

-- ========================================================= random numbers

/-- Random numbers are tensors. -/
theorem ne_item_of_random {values : Attributes} (h : random values = .ok op) (index : Nat) :
    op ≠ .item index := by
  unfold random at h
  split at h
  · cases h
  · obtain ⟨_, -, h⟩ := Outcome.bind_eq_ok.1 h
    obtain ⟨_, -, h⟩ := Outcome.bind_eq_ok.1 h
    obtain ⟨_, -, h⟩ := Outcome.bind_eq_ok.1 h
    obtain ⟨_, -, h⟩ := Outcome.bind_eq_ok.1 h
    cases h
    exact fun hitem => nomatch hitem

theorem ne_item_of_randomLike {values : Attributes} (h : randomLike values = .ok op)
    (index : Nat) : op ≠ .item index := by
  obtain ⟨_, -, h⟩ := Outcome.bind_eq_ok.1 h
  obtain ⟨_, -, h⟩ := Outcome.bind_eq_ok.1 h
  cases h
  exact fun hitem => nomatch hitem

/-- An operation that the attributes choose, on as many inputs as it
takes. -/
theorem Holds.appliedChosen {choose : Attributes → Outcome Op} {values : Attributes} {count : Nat}
    (seen : Seen outer outside) (h : w.Holds outside scope done env)
    (hvalues : (node.map f).values = .ok values) (hchoose : choose values = .ok op)
    (happlied : Handler.Applied (node.map f) op count outer scope scope' result)
    (fits : w.Fits outside scope') (hop : ∀ index, op ≠ .item index) :
    Realises (fun done' entries => w.Holds outside scope' done' env
        ∧ w.Yields scope' done' (result.pairs (node.map f)) entries)
      (w.advance scope scope' done) (do
        OnnxLowering.applied scope.declarations env (node.map g)
          (← choose (← .ofExcept (node.map g).values)) count) := by
  rw [ofExcept_values hvalues, Outcome.ok_bind, hchoose, Outcome.ok_bind]
  exact h.applied seen happlied fits hop

-- ================================================================ spectra

theorem integer_of_known {e : Entry} {i : Int} (h : Handler.IsInteger e.known? i) :
    integer e = .ok i := by
  obtain ⟨t, hknown, hsize, hi⟩ := h
  unfold Entry.known? at hknown
  split at hknown
  · next hconstant =>
      cases hknown
      unfold integer
      rw [Outcome.demand_bind_eq_ok]
      exact ⟨⟨hconstant, hsize⟩, Outcome.ofExcept_eq_ok.2 hi⟩
  · cases hknown

/-- The integer that a name is known to be is what it stands for. -/
theorem Holds.integer {index : Nat} {name : String} {i : Int} (seen : Seen outer outside)
    (h : w.Holds outside scope done env) (hname : (node.map f).inputs[index]? = some name)
    (hi : Handler.IsInteger (Scopes.tensor? (scope :: outer) name) i) :
    ∃ e, operand env (node.map g) index = .ok e ∧ OnnxLowering.integer e = .ok i := by
  obtain ⟨t, htensor, -⟩ := id hi
  obtain ⟨e, henv, hknown, -⟩ := h.knows seen (Scopes.defines_of_tensor? htensor)
  exact ⟨e, (operand_eq hname).trans (Env.read_eq_ok.2 henv), integer_of_known (hknown ▸ hi)⟩

theorem GetsWindow.grows {window : Option (String × Ref)}
    (h : Handler.GetsWindow (node.map f) outer scope window scope') :
    scope.Grows outer node.inputs [] scope' := by
  cases h with
  | none _ => exact .refl _
  | some hname _ gets => exact gets.grows (List.mem_of_getElem? hname)

theorem Multiplies.grows {frames frames' : Ref} {window : Option (String × Ref)}
    {reads gives : List String}
    (h : Handler.Multiplies (node.map f) scope frames window frames' scope') :
    scope.Grows outer reads gives scope' := by
  cases h with
  | none => exact .refl _
  | some applies => exact applies.grows

/-- The value of the window, if there is one, and what is known of it. -/
theorem Holds.getsWindow {window : Option (String × Ref)} (seen : Seen outer outside)
    (h : w.Holds outside scope done env)
    (gets : Handler.GetsWindow (node.map f) outer scope window scope')
    (fits : w.Fits outside scope') :
    ∃ entry done', optionalOperand env (node.map g) 2 = .ok entry
      ∧ w.advance scope scope' done = .ok done' ∧ w.Holds outside scope' done' env
      ∧ List.Forall₂ (fun named e => w.Denotes scope' done' named.2 e
          ∧ KnownAs (Scopes.shape? (scope' :: outer) named.1)
            (e.known scope.declarations (node.inputs.getD 2 "")))
        window.toList entry.toList := by
  unfold optionalOperand
  cases gets with
  | none hempty =>
      refine ⟨none, done, if_pos hempty, advance_refl scope done, h, .nil⟩
  | @some name ref _ hname given gets =>
      obtain ⟨e, done', henv, hadvance, hholds, hdenotes⟩ := h.gets seen gets fits
      have hget : node.inputs.getD 2 "" = name := by
        rw [List.getD_eq_getElem?_getD, show node.inputs[2]? = some name from hname]
        rfl
      have hsame : scope'.Grows outer [] [] scope' := .refl scope'
      have hknown := (h.knows_of_gets seen gets hsame hholds henv).2.2
      refine ⟨some e, done', ?_, hadvance, hholds, .cons ⟨hdenotes, hget ▸ hknown⟩ .nil⟩
      rw [show (node.map g).inputs.getD 2 "" = name from hget, given, operand_eq hname,
        Env.read_eq_ok.2 henv]
      rfl

/-- The length of the frames that the handler has is the one that is
meant. -/
theorem framing_of_known {declarations : NameMap KnownType} {signal : Entry}
    {window : Option (String × Ref)} {entry : Option Entry} {scopes : Scopes}
    {dims : Int × Int × Int} {size : Option Int} {step length : Int}
    (hsignal : [some dims.1, some dims.2.1, some dims.2.2]
      ∈ signal.known declarations (node.inputs.getD 0 ""))
    (hwindow : List.Forall₂ (fun named e => KnownAs (scopes.shape? named.1)
      (e.known declarations (node.inputs.getD 2 ""))) window.toList entry.toList)
    (hsize : Handler.IsWindowLength scopes size window)
    (hlength : if (node.inputs.getD 3 "").isEmpty then length = size.getD (dims.2.1.fdiv step)
      else ∃ e, operand env (node.map g) 3 = .ok e ∧ OnnxLowering.integer e = .ok length) :
    (framing declarations env (node.map g) signal entry step).Allows length := by
  unfold framing
  by_cases hempty : (node.inputs.getD 3 "").isEmpty = true
  · rw [if_pos hempty] at hlength
    rw [show (node.map g).inputs = node.inputs from rfl, if_pos hempty]
    have hshape : ∃ known, (windowShape declarations (node.map g) entry).Allows known
        ∧ (known = none ∧ size = none ∨ known = some [size]) := by
      unfold windowShape
      cases window with
      | none =>
          rw [List.forall₂_nil_left_iff.1 hwindow |> Option.toList_eq_nil_iff.1]
          exact ⟨none, .inl rfl, .inl ⟨rfl, hsize⟩⟩
      | some named =>
          cases entry with
          | none => cases hwindow
          | some e =>
              have hknown := (List.forall₂_cons.1 hwindow).1
              obtain ⟨name, ref⟩ := named
              replace hsize : Handler.IsLength size (scopes.shape? name) := hsize
              cases hshape : scopes.shape? name with
              | none =>
                  rw [hshape] at hknown hsize
                  replace hknown : e.known declarations (node.inputs.getD 2 "") = [] := hknown
                  exact ⟨none, .inl (congrArg agreed hknown), .inl ⟨rfl, hsize⟩⟩
              | some dims =>
                  rw [hshape] at hknown hsize
                  cases hsize
                  exact ⟨_, agreed_of_mem hknown, .inr rfl⟩
    obtain ⟨known, hallows, hknown⟩ := hshape
    refine hallows.bind ((agreed_of_mem hsignal).bind ?_)
    rcases hknown with ⟨rfl, rfl⟩ | rfl
    · exact .inl (congrArg _ hlength.symm)
    · cases size with
      | none => exact .inl (congrArg _ hlength.symm)
      | some size => exact .inl (congrArg _ hlength.symm)
  · rw [if_neg hempty] at hlength
    rw [show (node.map g).inputs = node.inputs from rfl, if_neg hempty]
    obtain ⟨e, hoperand, hinteger⟩ := hlength
    rw [hoperand]
    exact .inl hinteger

/-- The frames multiplied by the window. -/
theorem Holds.multiplies {window : Option (String × Ref)} {entry : Option Entry} {frames frames' : Ref}
    {e : Entry} (g : A → Nested) (h : w.Holds outside scope done env)
    (hframes : w.Denotes scope done frames e)
    (hwindow : List.Forall₂ (fun named e => w.Denotes scope done named.2 e) window.toList
      entry.toList)
    (multiplies : Handler.Multiplies (node.map f) scope frames window frames' scope') :
    Realises (fun done' t => w.Holds outside scope' done' env
        ∧ ∃ e, e.tensor = t ∧ w.Denotes scope' done' frames' e)
      (w.advance scope scope' done) (windowed e.tensor entry) := by
  cases multiplies with
  | none =>
      rw [Option.toList_eq_nil_iff.1 (List.forall₂_nil_left_iff.1 hwindow), advance_refl]
      exact .ok ⟨h, e, rfl, hframes⟩
  | some applies =>
      cases entry with
      | none => cases hwindow
      | some ew =>
          have hdenotes := (List.forall₂_cons.1 hwindow).1
          refine (h.applies g applies (.cons hframes (.cons hdenotes .nil))
            (fun _ hitem => nomatch hitem)).mono fun done' t hresult => ?_
          exact ⟨hresult.1, _, rfl, hresult.2⟩

/-- A spectrum over time. -/
theorem Holds.appliedSpectrum {values : Attributes} (seen : Seen outer outside)
    (h : w.Holds outside scope done env)
    (happlied : Handler.AppliedSpectrum (node.map f) values outer scope scope' result)
    (fits : w.Fits outside scope') :
    Realises (fun done' entries => w.Holds outside scope' done' env
        ∧ w.Yields scope' done' (result.pairs (node.map f)) entries)
      (w.advance scope scope' done) (spectrum scope.declarations env (node.map g) values) := by
  obtain ⟨oneSided, signalName, signal, stepName, step, dims, window, size, length, frames, started,
    middle, framed, multiplied, hone, hsignalName, hsignal, hstepName, hstep, hdims, hwindow, hsize,
    hlength, -, hcuts, hmultiplies, htransforms, rfl⟩ := happlied
  have h₁ : scope.Grows outer node.inputs [] started := hsignal.grows (List.mem_of_getElem? hsignalName)
  have h₂ : started.Grows outer node.inputs [] middle := GetsWindow.grows hwindow
  have h₃ : middle.Grows outer node.inputs [] framed := hcuts.grows
  have h₄ : framed.Grows outer node.inputs [] multiplied := Multiplies.grows hmultiplies
  have h₅ : multiplied.Grows outer node.inputs [] scope' := htransforms.grows
  have hdeclarations : started.declarations = scope.declarations := h₁.declarations
  obtain ⟨e, done₁, henv, hadvance₁, hholds₁, hdenotes⟩ :=
    h.gets seen hsignal (fits.of_grows (h₂.trans (h₃.trans (h₄.trans h₅))))
  obtain ⟨entry, done₂, hentry, hadvance₂, hholds₂, hrefs⟩ :=
    hholds₁.getsWindow (g := g) seen hwindow (fits.of_grows (h₃.trans (h₄.trans h₅)))
  obtain ⟨es, hoperand, hinteger⟩ := hholds₁.integer (g := g) seen hstepName hstep
  have hsame : started.Grows outer [] [] started := .refl started
  have hknown := (h.knows_of_gets seen hsignal hsame hholds₁ henv).2.2
  rw [hdims] at hknown
  have hframing : (framing scope.declarations env (node.map g) e entry step).Allows length := by
    have hname : node.inputs.getD 0 "" = signalName := by
      rw [List.getD_eq_getElem?_getD, show node.inputs[0]? = some signalName from hsignalName]
      rfl
    refine framing_of_known (hname ▸ hknown) (hrefs.imp fun _ _ href => hdeclarations ▸ href.2)
      hsize ?_
    by_cases hempty : (node.inputs.getD 3 "").isEmpty = true
    · rw [if_pos hempty]
      exact (if_pos hempty).mp hlength
    · rw [if_neg hempty]
      obtain ⟨name, hname, hi⟩ := (if_neg hempty).mp hlength
      exact hholds₂.integer seen hname hi
  unfold spectrum
  rw [hone, operand_eq hsignalName, Env.read_eq_ok.2 henv, hoperand, hentry]
  simp only [Outcome.ok_bind, hinteger]
  refine Realises.of_allows hframing ?_
  rw [advance_trans h₁ (h₂.trans (h₃.trans (h₄.trans h₅))), hadvance₁]
  show Realises _ (w.advance started scope' done₁) _
  rw [advance_trans h₂ (h₃.trans (h₄.trans h₅)), hadvance₂]
  show Realises _ (w.advance middle scope' done₂) _
  rw [advance_trans h₃ (h₄.trans h₅)]
  have hsignal₂ := hdenotes.mono h₂ (prefix_of_advance hadvance₂)
  refine (hholds₂.applies g hcuts (.cons hsignal₂ .nil) (fun _ hitem => nomatch hitem)).returned.bind
    fun done₃ t _ hframed => ?_
  obtain ⟨⟨hholds₃, hframes⟩, hadvance₃⟩ := hframed
  rw [advance_trans h₄ h₅]
  refine (hholds₃.multiplies g hframes (hrefs.imp fun _ _ href => href.1.mono h₃
    (prefix_of_advance hadvance₃)) hmultiplies).bind fun done₄ u _ hmultiplied => ?_
  obtain ⟨hholds₄, e', rfl, hframes'⟩ := hmultiplied
  refine (hholds₄.applies g htransforms (.cons hframes' .nil)
    (fun _ hitem => nomatch hitem)).map_right fun done' t hresult => ?_
  refine ⟨hresult.1, Denotes.yields ?_ rfl⟩
  have hsameDeclarations : multiplied.declarations = scope.declarations :=
    (h₁.trans (h₂.trans (h₃.trans h₄))).declarations
  exact hsameDeclarations ▸ hresult.2

end World

end OnnxLowering
