/-
What the handlers leave behind. A handler reads values one after the
other and then applies operations, each of them one node more. For
nearly all operations that is one application to as many inputs as the
operation takes (`Applied`).
-/
import OnnxLowering.Handler.Standard
import OnnxLowering.Proofs.Graph.Reference
import OnnxLowering.Proofs.Lowering.Growth

namespace OnnxLowering

namespace Scope

-- ============================================================= operations

/-- Values of names, one after the other. -/
inductive GetsAll (outer : Scopes) : Scope → List String → List Ref → Scope → Prop
  | nil {scope : Scope} : GetsAll outer scope [] [] scope
  | cons {scope middle scope' : Scope} {name : String} {names : List String} {ref : Ref}
      {refs : List Ref} (first : scope.Gets outer name ref middle)
      (rest : GetsAll outer middle names refs scope') :
      GetsAll outer scope (name :: names) (ref :: refs) scope'

/-- One operation more, on behalf of a node. -/
inductive Applies {G : Type} (scope : Scope) (node : NodeOf G) (op : Op) (operands : List Ref) :
    Scope → Prop
  | mk (nodeNames : List String) (supply : NameSupply) :
      Applies scope node op operands { scope with
        nodes := scope.nodes ++ [⟨.apply op operands, Lower.labelOf scope node 0 true⟩]
        nodeNames, supply }

variable {outer : Scopes} {reads gives : List String} {scope scope' : Scope}

theorem GetsAll.grows {names : List String} {refs : List Ref}
    (h : GetsAll outer scope names refs scope') (hnames : names ⊆ reads) :
    Grows outer reads gives scope scope' := by
  induction h with
  | nil => exact .refl _
  | cons first rest ih =>
      exact (first.grows (hnames List.mem_cons_self)).trans
        (ih fun _ hname => hnames (List.mem_cons_of_mem _ hname))

theorem GetsAll.length_eq {names : List String} {refs : List Ref}
    (h : GetsAll outer scope names refs scope') : refs.length = names.length := by
  induction h with
  | nil => rfl
  | cons _ _ ih => exact congrArg (· + 1) ih

theorem Applies.grows {G : Type} {node : NodeOf G} {op : Op} {operands : List Ref}
    (h : scope.Applies node op operands scope') : Grows outer reads gives scope scope' := by
  obtain ⟨nodeNames, supply⟩ := h
  exact .of_nodes fun _ _ => ⟨rfl, rfl⟩

end Scope

namespace Lower

variable {G : Type} {node : NodeOf G} {context : Context} {session session' : Session}

theorem inputName_eq_ok {index : Nat} {name : String}
    (h : inputName node index context session = .ok name session') :
    node.inputs[index]? = some name ∧ session = session' := by
  unfold inputName at h
  cases hname : node.inputs[index]? with
  | none =>
      rw [hname] at h
      cases h
  | some given =>
      rw [hname] at h
      obtain ⟨rfl, rfl⟩ := pure_eq_ok.1 h
      exact ⟨rfl, rfl⟩

theorem input_eq_ok {index : Nat} {ref : Ref}
    (h : input node index context session = .ok ref session') :
    ∃ name, node.inputs[index]? = some name
      ∧ session.scope.Gets context.outer name ref session'.scope := by
  unfold input at h
  obtain ⟨name, _, hread, h⟩ := bind_eq_ok.1 h
  obtain ⟨hname, rfl⟩ := inputName_eq_ok hread
  exact ⟨name, hname, (value_eq_ok h).2⟩

theorem apply_eq_ok {op : Op} {operands : List Ref} {ref : Ref}
    (h : apply node op operands 0 context session = .ok ref session') :
    ref = .node session.scope.nodes.length
      ∧ session.scope.Applies node op operands session'.scope := by
  unfold apply at h
  rw [bind_apply, scope_apply] at h
  simp only [addNode_apply, Scope.addNode_eq] at h
  cases h
  exact ⟨rfl, .mk _ _⟩

theorem mapM_value_eq_ok {names : List String} {refs : List Ref}
    (h : names.mapM value context session = .ok refs session') :
    Scope.GetsAll context.outer session.scope names refs session'.scope := by
  induction names generalizing session refs with
  | nil =>
      obtain ⟨rfl, rfl⟩ := pure_eq_ok.1 h
      exact .nil
  | cons name names ih =>
      rw [List.mapM_cons] at h
      obtain ⟨ref, middle, hfirst, h⟩ := bind_eq_ok.1 h
      obtain ⟨rest, last, hrest, h⟩ := bind_eq_ok.1 h
      obtain ⟨rfl, rfl⟩ := pure_eq_ok.1 h
      exact .cons (value_eq_ok hfirst).2 (ih hrest)

end Lower

namespace Handler

open Lower

variable {node : NodeOf Importer} {context : Context} {session session' : Session}
  {result : Result}

/-- An integer among the attributes, and what comes after it. -/
theorem intOr_eq_ok {α : Type} {values : Attributes} {name : String} {default : Int}
    {f : Int → Lower α} {a : α}
    (h : (match values.find? name with
      | some value => do
          let i ← ofExcept .argument value.toInt
          f i
      | none => do
          let i ← pure default
          f i) context session = .ok a session') :
    ∃ i, intOr values name default = .ok i ∧ f i context session = .ok a session' := by
  unfold intOr
  cases hfind : values.find? name with
  | none =>
      rw [hfind] at h
      exact ⟨default, rfl, h⟩
  | some value =>
      rw [hfind] at h
      obtain ⟨i, _, hint, h⟩ := bind_eq_ok.1 h
      obtain ⟨hvalue, rfl⟩ := ofExcept_eq_ok.1 hint
      exact ⟨i, Outcome.ofExcept_eq_ok.2 hvalue, h⟩

/-- An operation has been applied to as many inputs as it takes. -/
def Applied (node : NodeOf Importer) (op : Op) (count : Nat) (outer : Scopes) (scope scope' : Scope)
    (result : Result) : Prop :=
  ∃ names refs middle, (List.range count).map (node.inputs[·]?) = names.map some
    ∧ scope.GetsAll outer names refs middle ∧ middle.Applies node op refs scope'
    ∧ result = .one (.node middle.nodes.length)

/-- The name under which a constant is stored: that of its first output,
if there is one. -/
def constantSource {G : Type} (node : NodeOf G) : String :=
  if !(node.outputs.headD node.name).isEmpty then node.outputs.headD node.name
  else if !node.name.isEmpty then node.name
  else node.outputs.headD "const"

theorem constant_eq_ok (h : constant node context session = .ok result session') :
    ∃ values t, node.values = .ok values ∧ constantTensor values = .ok t
      ∧ result = .one (.node session.scope.nodes.length)
      ∧ session.scope.Stores (constantSource node) t session'.scope := by
  unfold constant at h
  obtain ⟨values, _, hattributes, h⟩ := bind_eq_ok.1 h
  obtain ⟨hvalues, rfl⟩ := ofExcept_eq_ok.1 hattributes
  obtain ⟨t, _, htensor, h⟩ := bind_eq_ok.1 h
  obtain ⟨ht, rfl⟩ := ofExcept_eq_ok.1 htensor
  obtain ⟨ref, _, hstore, h⟩ := bind_eq_ok.1 h
  obtain ⟨rfl, rfl⟩ := pure_eq_ok.1 h
  obtain ⟨rfl, hstores⟩ := materialise_eq_ok hstore
  exact ⟨values, t, hvalues, ht, rfl, hstores⟩

theorem identity_eq_ok (h : identity node context session = .ok result session') :
    ∃ name ref, node.inputs[0]? = some name
      ∧ session.scope.Gets context.outer name ref session'.scope ∧ result = .one ref := by
  unfold identity at h
  obtain ⟨ref, _, hinput, h⟩ := bind_eq_ok.1 h
  obtain ⟨rfl, rfl⟩ := pure_eq_ok.1 h
  obtain ⟨name, hname, hgets⟩ := input_eq_ok hinput
  exact ⟨name, ref, hname, hgets, rfl⟩

theorem binary_eq_ok {op : Op} (h : binary op node context session = .ok result session') :
    Applied node op 2 context.outer session.scope session'.scope result := by
  unfold binary at h
  obtain ⟨lhs, _, hlhs, h⟩ := bind_eq_ok.1 h
  obtain ⟨rhs, _, hrhs, h⟩ := bind_eq_ok.1 h
  obtain ⟨ref, _, happly, h⟩ := bind_eq_ok.1 h
  obtain ⟨rfl, rfl⟩ := pure_eq_ok.1 h
  obtain ⟨name, hname, hlhs⟩ := input_eq_ok hlhs
  obtain ⟨name', hname', hrhs⟩ := input_eq_ok hrhs
  obtain ⟨rfl, happlies⟩ := apply_eq_ok happly
  refine ⟨[name, name'], _, _, ?_, .cons hlhs (.cons hrhs .nil), happlies, rfl⟩
  simp only [List.range_succ, List.range_zero, List.nil_append, List.cons_append, List.map_cons,
    List.map_nil, hname, hname']

theorem sqrt_eq_ok (h : sqrt node context session = .ok result session') :
    Applied node .sqrt 1 context.outer session.scope session'.scope result := by
  unfold sqrt at h
  obtain ⟨operand, _, hinput, h⟩ := bind_eq_ok.1 h
  obtain ⟨ref, _, happly, h⟩ := bind_eq_ok.1 h
  obtain ⟨rfl, rfl⟩ := pure_eq_ok.1 h
  obtain ⟨name, hname, hgets⟩ := input_eq_ok hinput
  obtain ⟨rfl, happlies⟩ := apply_eq_ok happly
  refine ⟨[name], _, _, ?_, .cons hgets .nil, happlies, rfl⟩
  simp only [List.range_succ, List.range_zero, List.nil_append, List.map_cons, List.map_nil, hname]

theorem scatter_eq_ok (h : scatter node context session = .ok result session') :
    Applied node .scatter 3 context.outer session.scope session'.scope result := by
  unfold scatter at h
  obtain ⟨values, _, hattributes, h⟩ := bind_eq_ok.1 h
  obtain ⟨-, rfl⟩ := ofExcept_eq_ok.1 hattributes
  have hread : (do
      let data ← input node 0
      let indices ← input node 1
      let updates ← input node 2
      return .one (← apply node .scatter [data, indices, updates] 0) : Lower Result)
        context session = .ok result session' := by
    cases hfind : values.find? "reduction" with
    | none =>
        rw [hfind] at h
        exact h
    | some value =>
        rw [hfind] at h
        simp only at h
        split at h
        · exact h
        · cases h
  obtain ⟨data, _, hdata, h⟩ := bind_eq_ok.1 hread
  obtain ⟨indices, _, hindices, h⟩ := bind_eq_ok.1 h
  obtain ⟨updates, _, hupdates, h⟩ := bind_eq_ok.1 h
  obtain ⟨ref, _, happly, h⟩ := bind_eq_ok.1 h
  obtain ⟨rfl, rfl⟩ := pure_eq_ok.1 h
  obtain ⟨name, hname, hdata⟩ := input_eq_ok hdata
  obtain ⟨name', hname', hindices⟩ := input_eq_ok hindices
  obtain ⟨name'', hname'', hupdates⟩ := input_eq_ok hupdates
  obtain ⟨rfl, happlies⟩ := apply_eq_ok happly
  refine ⟨[name, name', name''], _, _, ?_, .cons hdata (.cons hindices (.cons hupdates .nil)),
    happlies, rfl⟩
  simp only [List.range_succ, List.range_zero, List.nil_append, List.cons_append, List.map_cons,
    List.map_nil, hname, hname', hname'']

-- ============================================================== alignment

/-- The axis of an aligned operation, given what is known of the shape of
the left operand. -/
def IsAlignment (values : Attributes) (known : Option KnownShape) (axis : Option Int) : Prop :=
  match values.find? "axis" with
  | none => axis = none
  | some value => ∃ given, value.toInt = .ok given
      ∧ match known with
        | none => axis = some given
        | some dims => -(dims.length : Int) ≤ given
            ∧ axis = some (if given < 0 then given + dims.length else given)

theorem normalizeAxis_eq_ok {description : String} {axis rank normal : Int}
    (h : normalizeAxis description axis rank = .ok normal) :
    -rank ≤ axis ∧ normal = if axis < 0 then axis + rank else axis := by
  unfold normalizeAxis at h
  split at h
  · next hrange =>
      cases h
      simp only [Bool.and_eq_true, decide_eq_true_eq] at hrange
      exact ⟨hrange.1, rfl⟩
  · cases h

theorem alignmentAxis_eq_ok {values : Attributes} {axis : Option Int} {name : String}
    (hname : node.inputs[0]? = some name)
    (h : alignmentAxis node values context session = .ok axis session') :
    IsAlignment values (Scopes.shape? (session.scope :: context.outer) name) axis
      ∧ session = session' := by
  unfold alignmentAxis at h
  unfold IsAlignment
  cases hfind : values.find? "axis" with
  | none =>
      rw [hfind] at h
      cases h
      exact ⟨rfl, rfl⟩
  | some value =>
      rw [hfind] at h
      obtain ⟨given, _, hint, h⟩ := bind_eq_ok.1 h
      obtain ⟨hgiven, rfl⟩ := ofExcept_eq_ok.1 hint
      obtain ⟨name', _, hread, h⟩ := bind_eq_ok.1 h
      obtain ⟨hname', rfl⟩ := inputName_eq_ok hread
      rw [hname] at hname'
      cases hname'
      obtain ⟨known, _, hshape, h⟩ := bind_eq_ok.1 h
      cases hshape
      cases hknown : Scopes.shape? (session.scope :: context.outer) name with
      | none =>
          rw [hknown] at h
          cases h
          exact ⟨⟨given, hgiven, rfl⟩, rfl⟩
      | some dims =>
          rw [hknown] at h
          obtain ⟨normal, _, hexcept, h⟩ := bind_eq_ok.1 h
          obtain ⟨hnormal, rfl⟩ := ofExcept_eq_ok.1 hexcept
          obtain ⟨rfl, rfl⟩ := pure_eq_ok.1 h
          obtain ⟨hrange, hnormal⟩ := normalizeAxis_eq_ok hnormal
          exact ⟨⟨given, hgiven, hrange, congrArg some hnormal⟩, rfl⟩

/-- An operation has been applied to the first input and to the second
one put at dimensions of the first. -/
structure AppliedAligned (node : NodeOf Importer) (op : Op) (values : Attributes) (outer : Scopes)
    (scope scope' : Scope) (result : Result) where
  lhsName : String
  rhsName : String
  lhs : Ref
  rhs : Ref
  axis : Option Int
  middle : Scope
  aligned : Scope
  lhsInput : node.inputs[0]? = some lhsName
  rhsInput : node.inputs[1]? = some rhsName
  operands : scope.GetsAll outer [lhsName, rhsName] [lhs, rhs] middle
  isAlignment : IsAlignment values (Scopes.shape? (middle :: outer) lhsName) axis
  aligns : middle.Applies node (.align axis) [lhs, rhs] aligned
  applies : aligned.Applies node op [lhs, .node middle.nodes.length] scope'
  returned : result = .one (.node aligned.nodes.length)

theorem alignedBinary_eq_ok {op : Op}
    (h : alignedBinary op node context session = .ok result session') :
    ∃ values broadcast, node.values = .ok values ∧ intOr values "broadcast" 0 = .ok broadcast
      ∧ if broadcast = 0 then Applied node op 2 context.outer session.scope session'.scope result
        else Nonempty (AppliedAligned node op values context.outer session.scope session'.scope
          result) := by
  unfold alignedBinary at h
  obtain ⟨values, _, hattributes, h⟩ := bind_eq_ok.1 h
  obtain ⟨hvalues, rfl⟩ := ofExcept_eq_ok.1 hattributes
  obtain ⟨lhs, _, hinput, h⟩ := bind_eq_ok.1 h
  obtain ⟨lhsName, hlhsName, hlhs⟩ := input_eq_ok hinput
  obtain ⟨rhs, middle, hinput', h⟩ := bind_eq_ok.1 h
  obtain ⟨rhsName, hrhsName, hrhs⟩ := input_eq_ok hinput'
  have hrest : ∃ broadcast, intOr values "broadcast" 0 = .ok broadcast
      ∧ (if broadcast = 0 then do return .one (← apply node op [lhs, rhs] 0)
        else do
          let axis ← alignmentAxis node values
          let placed ← apply node (.align axis) [lhs, rhs] 0
          return .one (← apply node op [lhs, placed] 0) : Lower Result)
        context middle = .ok result session' := by
    cases hfind : values.find? "broadcast" with
    | none =>
        rw [hfind] at h
        refine ⟨0, ?_, h⟩
        unfold intOr
        rw [hfind]
    | some value =>
        rw [hfind] at h
        obtain ⟨broadcast, _, hint, h⟩ := bind_eq_ok.1 h
        obtain ⟨hvalue, rfl⟩ := ofExcept_eq_ok.1 hint
        refine ⟨broadcast, ?_, h⟩
        unfold intOr
        rw [hfind]
        exact Outcome.ofExcept_eq_ok.2 hvalue
  obtain ⟨broadcast, hbroadcast, h⟩ := hrest
  refine ⟨values, broadcast, hvalues, hbroadcast, ?_⟩
  by_cases hzero : broadcast = 0
  · rw [if_pos hzero] at h ⊢
    obtain ⟨ref, _, happly, h⟩ := bind_eq_ok.1 h
    obtain ⟨rfl, rfl⟩ := pure_eq_ok.1 h
    obtain ⟨rfl, happlies⟩ := apply_eq_ok happly
    refine ⟨[lhsName, rhsName], _, _, ?_, .cons hlhs (.cons hrhs .nil), happlies, rfl⟩
    simp only [List.range_succ, List.range_zero, List.nil_append, List.cons_append, List.map_cons,
      List.map_nil, hlhsName, hrhsName]
  · rw [if_neg hzero] at h ⊢
    obtain ⟨axis, _, haxis, h⟩ := bind_eq_ok.1 h
    obtain ⟨hisAlignment, rfl⟩ := alignmentAxis_eq_ok hlhsName haxis
    obtain ⟨placed, aligned, halign, h⟩ := bind_eq_ok.1 h
    obtain ⟨rfl, haligns⟩ := apply_eq_ok halign
    obtain ⟨ref, _, happly, h⟩ := bind_eq_ok.1 h
    obtain ⟨rfl, rfl⟩ := pure_eq_ok.1 h
    obtain ⟨rfl, happlies⟩ := apply_eq_ok happly
    exact ⟨{
      lhsName, rhsName, lhs, rhs, axis
      middle := middle.scope
      aligned := aligned.scope
      lhsInput := hlhsName
      rhsInput := hrhsName
      operands := .cons hlhs (.cons hrhs .nil)
      isAlignment := hisAlignment
      aligns := haligns
      applies := happlies
      returned := rfl }⟩

-- ========================================================= random numbers

theorem randomType_eq_ok {code : Int} {dtype : DType}
    (h : randomType node code context session = .ok dtype session') :
    realType code = .ok dtype ∧ session = session' := by
  unfold randomType at h
  unfold realType
  cases hcode : (DType.ofCode code).filter DType.isReal with
  | none =>
      rw [hcode] at h
      cases h
  | some found =>
      rw [hcode] at h
      obtain ⟨rfl, rfl⟩ := pure_eq_ok.1 h
      exact ⟨rfl, rfl⟩

theorem numberOr_eq_ok {values : Attributes} {name : String} {default number : Nat}
    (h : numberOr values name default context session = .ok number session') :
    OnnxLowering.numberOr values name default = .ok number ∧ session = session' := by
  unfold numberOr at h
  unfold OnnxLowering.numberOr
  cases hfind : values.find? name with
  | none =>
      rw [hfind] at h
      obtain ⟨rfl, rfl⟩ := pure_eq_ok.1 h
      exact ⟨rfl, rfl⟩
  | some value =>
      rw [hfind] at h
      obtain ⟨hvalue, rfl⟩ := ofExcept_eq_ok.1 h
      exact ⟨Outcome.ofExcept_eq_ok.2 hvalue, rfl⟩

theorem distribution_eq_ok {values : Attributes} {numbers : Nat × Nat × Option Nat}
    (h : distribution values context session = .ok numbers session') :
    OnnxLowering.distribution values = .ok numbers ∧ session = session' := by
  unfold distribution at h
  unfold OnnxLowering.distribution
  obtain ⟨mean, _, hmean, h⟩ := bind_eq_ok.1 h
  obtain ⟨hmean', rfl⟩ := numberOr_eq_ok hmean
  obtain ⟨scale, _, hscale, h⟩ := bind_eq_ok.1 h
  obtain ⟨hscale', rfl⟩ := numberOr_eq_ok hscale
  rw [hmean', hscale']
  cases hfind : values.find? "seed" with
  | none =>
      rw [hfind] at h
      cases h
      exact ⟨rfl, rfl⟩
  | some value =>
      rw [hfind] at h
      obtain ⟨seed, _, hseed, h⟩ := bind_eq_ok.1 h
      obtain ⟨rfl, rfl⟩ := pure_eq_ok.1 h
      obtain ⟨number, hnumber, rfl⟩ := map_eq_ok.1 hseed
      obtain ⟨hvalue, rfl⟩ := ofExcept_eq_ok.1 hnumber
      refine ⟨?_, rfl⟩
      simp only [Outcome.ok_bind, hvalue, Outcome.ofExcept, Outcome.pure_eq]

theorem random_eq_ok (h : random node context session = .ok result session') :
    ∃ values op, node.values = .ok values ∧ OnnxLowering.random values = .ok op
      ∧ Applied node op 0 context.outer session.scope session'.scope result := by
  unfold random at h
  obtain ⟨values, _, hattributes, h⟩ := bind_eq_ok.1 h
  obtain ⟨hvalues, rfl⟩ := ofExcept_eq_ok.1 hattributes
  cases hshape : values.find? "shape" with
  | none =>
      rw [hshape] at h
      cases h
  | some value =>
      rw [hshape] at h
      obtain ⟨dims, _, hints, h⟩ := bind_eq_ok.1 h
      obtain ⟨hdims, rfl⟩ := ofExcept_eq_ok.1 hints
      obtain ⟨code, hcode, h⟩ := intOr_eq_ok h
      obtain ⟨dtype, _, htype, h⟩ := bind_eq_ok.1 h
      obtain ⟨hdtype, rfl⟩ := randomType_eq_ok htype
      obtain ⟨⟨mean, scale, seed⟩, _, hdistribution, h⟩ := bind_eq_ok.1 h
      obtain ⟨hnumbers, rfl⟩ := distribution_eq_ok hdistribution
      obtain ⟨ref, _, happly, h⟩ := bind_eq_ok.1 h
      obtain ⟨rfl, rfl⟩ := pure_eq_ok.1 h
      obtain ⟨rfl, happlies⟩ := apply_eq_ok happly
      refine ⟨values, _, hvalues, ?_, [], [], _, rfl, .nil, happlies, rfl⟩
      unfold OnnxLowering.random
      simp only [hshape, hdims, hcode, hdtype, hnumbers, Outcome.ofExcept, Outcome.ok_bind,
        Outcome.pure_eq]

theorem randomLike_eq_ok (h : randomLike node context session = .ok result session') :
    ∃ values op, node.values = .ok values ∧ OnnxLowering.randomLike values = .ok op
      ∧ Applied node op 1 context.outer session.scope session'.scope result := by
  unfold randomLike at h
  obtain ⟨values, _, hattributes, h⟩ := bind_eq_ok.1 h
  obtain ⟨hvalues, rfl⟩ := ofExcept_eq_ok.1 hattributes
  obtain ⟨like, middle, hinput, h⟩ := bind_eq_ok.1 h
  obtain ⟨name, hname, hlike⟩ := input_eq_ok hinput
  have hrest : ∃ dtype, optionalType values = .ok dtype
      ∧ (do
        let numbers ← distribution values
        return .one (← apply node (.randomLike dtype numbers.1 numbers.2.1 numbers.2.2) [like] 0)
          : Lower Result) context middle = .ok result session' := by
    unfold optionalType
    cases hcode : values.find? "dtype" with
    | none =>
        rw [hcode] at h
        exact ⟨none, rfl, h⟩
    | some value =>
        rw [hcode] at h
        obtain ⟨code, _, hint, h⟩ := bind_eq_ok.1 h
        obtain ⟨hvalue, rfl⟩ := ofExcept_eq_ok.1 hint
        obtain ⟨dtype, _, hmap, h⟩ := bind_eq_ok.1 h
        obtain ⟨found, htype, rfl⟩ := map_eq_ok.1 hmap
        obtain ⟨hdtype, rfl⟩ := randomType_eq_ok htype
        refine ⟨some found, ?_, h⟩
        simp only [hvalue, hdtype, Outcome.ofExcept, Outcome.ok_bind, Outcome.pure_eq]
  obtain ⟨dtype, hdtype, h⟩ := hrest
  obtain ⟨⟨mean, scale, seed⟩, _, hdistribution, h⟩ := bind_eq_ok.1 h
  obtain ⟨hnumbers, rfl⟩ := distribution_eq_ok hdistribution
  obtain ⟨ref, _, happly, h⟩ := bind_eq_ok.1 h
  obtain ⟨rfl, rfl⟩ := pure_eq_ok.1 h
  obtain ⟨rfl, happlies⟩ := apply_eq_ok happly
  refine ⟨values, _, hvalues, ?_, [name], _, _, ?_, .cons hlike .nil, happlies, rfl⟩
  · unfold OnnxLowering.randomLike
    rw [hdtype, Outcome.ok_bind, hnumbers]
    rfl
  · simp only [List.range_succ, List.range_zero, List.nil_append, List.map_cons, List.map_nil, hname]

-- ================================================================ spectra

/-- The integer that a known tensor holds. -/
def IsInteger (known : Option Tensor) (i : Int) : Prop :=
  ∃ t, known = some t ∧ t.data.size = 1 ∧ integerElement t.dtype (t.data.getD 0 0) = .ok i

theorem knownInteger_eq_ok {index : Nat} {what : String} {i : Int}
    (h : knownInteger node index what context session = .ok i session') :
    (∃ name, node.inputs[index]? = some name
      ∧ IsInteger (Scopes.tensor? (session.scope :: context.outer) name) i) ∧ session = session' := by
  unfold knownInteger at h
  obtain ⟨scopes, _, hscopes, h⟩ := bind_eq_ok.1 h
  cases hscopes
  obtain ⟨name, _, hread, h⟩ := bind_eq_ok.1 h
  obtain ⟨hname, rfl⟩ := inputName_eq_ok hread
  cases htensor : Scopes.tensor? (session.scope :: context.outer) name with
  | none =>
      rw [htensor] at h
      cases h
  | some t =>
      rw [htensor] at h
      obtain ⟨hsize, h⟩ := guard_eq_ok'.1 h
      obtain ⟨hi, rfl⟩ := ofExcept_eq_ok.1 h
      exact ⟨⟨name, hname, t, htensor, hsize, hi⟩, rfl⟩

/-- The value of the window of a spectrum, if there is one, under its
name. -/
inductive GetsWindow (node : NodeOf Importer) (outer : Scopes) (scope : Scope) :
    Option (String × Ref) → Scope → Prop
  | none (h : (node.inputs.getD 2 "").isEmpty = true) : GetsWindow node outer scope none scope
  | some {name : String} {ref : Ref} {scope' : Scope} (h : node.inputs[2]? = some name)
      (given : name.isEmpty = false) (gets : scope.Gets outer name ref scope') :
      GetsWindow node outer scope (some (name, ref)) scope'

/-- The one dimension of a shape, as far as it is known. -/
def IsLength (length : Option Int) : Option KnownShape → Prop
  | none => length = none
  | some dims => dims = [length]

/-- The known length of a window. -/
def IsWindowLength (scopes : Scopes) (length : Option Int) : Option (String × Ref) → Prop
  | none => length = none
  | some (name, _) => IsLength length (scopes.shape? name)

/-- The frames, multiplied by the window if there is one. -/
inductive Multiplies (node : NodeOf Importer) (scope : Scope) (frames : Ref) :
    Option (String × Ref) → Ref → Scope → Prop
  | none : Multiplies node scope frames none frames scope
  | some {name : String} {ref : Ref} {scope' : Scope}
      (applies : scope.Applies node .window [frames, ref] scope') :
      Multiplies node scope frames (some (name, ref)) (.node scope.nodes.length) scope'

/-- What the dimensions of the frames have been checked for: they can be cut
out of the signal, the window has their length as far as its own is known,
and a one-sided spectrum is one of a real signal. -/
structure FramesFit (oneSided step length : Int) (dims : Int × Int × Int)
    (windowSize : Option Int) : Prop where
  step_pos : 0 < step
  channels : dims.2.2 = 1 ∨ dims.2.2 = 2
  window : ∀ size, windowSize = some size → size = length
  real : oneSided = 1 → dims.2.2 = 1
  length_pos : 0 < length
  count_pos : 0 < (dims.2.1 - length).fdiv step + 1

/-- The three steps of a spectrum. -/
structure AppliedSpectrum (node : NodeOf Importer) (values : Attributes) (outer : Scopes)
    (scope scope' : Scope) (result : Result) where
  oneSided : Int
  signalName : String
  signal : Ref
  stepName : String
  step : Int
  dims : Int × Int × Int
  window : Option (String × Ref)
  windowSize : Option Int
  length : Int
  frames : Ref
  started : Scope
  middle : Scope
  framed : Scope
  multiplied : Scope
  isOneSided : intOr values "onesided" 1 = .ok oneSided
  signalInput : node.inputs[0]? = some signalName
  getsSignal : scope.Gets outer signalName signal started
  stepInput : node.inputs[1]? = some stepName
  isStep : IsInteger (Scopes.tensor? (started :: outer) stepName) step
  isShape : Scopes.shape? (started :: outer) signalName
    = some [some dims.1, some dims.2.1, some dims.2.2]
  getsWindow : GetsWindow node outer started window middle
  isWindowSize : IsWindowLength (middle :: outer) windowSize window
  isLength : if (node.inputs.getD 3 "").isEmpty then
      length = windowSize.getD (dims.2.1.fdiv step)
    else ∃ name, node.inputs[3]? = some name
      ∧ IsInteger (Scopes.tensor? (middle :: outer) name) length
  fits : FramesFit oneSided step length dims windowSize
  cuts : middle.Applies node (.frames length step) [signal] framed
  multiplies : Multiplies node framed (.node middle.nodes.length) window frames multiplied
  transforms : multiplied.Applies node (.transform length (oneSided = 1)) [frames] scope'
  returned : result = .one (.node multiplied.nodes.length)

theorem signalDims_eq_ok {known : Option KnownShape} {dims : Int × Int × Int}
    (h : signalDims node known context session = .ok dims session') :
    known = some [some dims.1, some dims.2.1, some dims.2.2] ∧ (dims.2.2 = 1 ∨ dims.2.2 = 2)
      ∧ session = session' := by
  unfold signalDims at h
  split at h
  · obtain ⟨hchannels, h⟩ := guard_eq_ok'.1 h
    cases h
    exact ⟨rfl, by simpa using hchannels, rfl⟩
  · cases h

theorem optionalInput_eq_ok {window : Option Ref}
    (h : optionalInput node 2 context session = .ok window session') :
    ∃ named : Option (String × Ref), named.map Prod.snd = window
      ∧ GetsWindow node context.outer session.scope named session'.scope := by
  unfold optionalInput at h
  cases hname : node.inputs[2]? with
  | none =>
      rw [hname] at h
      cases h
      refine ⟨none, rfl, .none ?_⟩
      rw [List.getD_eq_getElem?_getD, hname]
      rfl
  | some name =>
      rw [hname] at h
      simp only at h
      by_cases hempty : name.isEmpty = true
      · rw [if_pos hempty] at h
        cases h
        refine ⟨none, rfl, .none ?_⟩
        rw [List.getD_eq_getElem?_getD, hname]
        exact hempty
      · rw [if_neg hempty] at h
        obtain ⟨ref, _, hvalue, h⟩ := bind_eq_ok.1 h
        obtain ⟨rfl, rfl⟩ := pure_eq_ok.1 h
        exact ⟨some (name, ref), rfl,
          .some hname (Bool.eq_false_iff.2 hempty) (value_eq_ok hvalue).2⟩

theorem windowLength_eq_ok {known : Option KnownShape} {length : Option Int}
    (h : windowLength node known context session = .ok length session') :
    IsLength length known ∧ session = session' := by
  unfold windowLength at h
  split at h <;> cases h <;> exact ⟨rfl, rfl⟩

theorem frameLength_eq_ok {signalLength step length : Int} {window : Option Int}
    (h : frameLength node signalLength step window context session = .ok length session') :
    (if (node.inputs.getD 3 "").isEmpty then length = window.getD (signalLength.fdiv step)
      else ∃ name, node.inputs[3]? = some name
        ∧ IsInteger (Scopes.tensor? (session.scope :: context.outer) name) length)
      ∧ session = session' := by
  unfold frameLength at h
  by_cases hempty : (node.inputs.getD 3 "").isEmpty = true
  · rw [if_pos hempty] at h ⊢
    cases h
    exact ⟨rfl, rfl⟩
  · rw [if_neg hempty] at h ⊢
    exact knownInteger_eq_ok h

/-- The known length of the window, and what comes after it. -/
theorem windowSize_eq_ok {α : Type} {scope : Scope} {window : Option (String × Ref)}
    {f : Option Int → Lower α} {a : α} (hwindow : GetsWindow node context.outer scope window
      session.scope)
    (h : (match window.map Prod.snd with
      | some _ => do
          let size ← windowLength node (← shape (← inputName node 2))
          f size
      | none => do
          let size ← pure none
          f size) context session = .ok a session') :
    ∃ size, IsWindowLength (session.scope :: context.outer) size window
      ∧ f size context session = .ok a session' := by
  cases window with
  | none => exact ⟨none, rfl, h⟩
  | some named =>
      obtain ⟨name, ref⟩ := named
      cases hwindow with
      | some hname given gets =>
          obtain ⟨name', _, hread, h⟩ := bind_eq_ok.1 h
          obtain ⟨hname', rfl⟩ := inputName_eq_ok hread
          rw [hname] at hname'
          cases hname'
          obtain ⟨known, _, hshape, h⟩ := bind_eq_ok.1 h
          cases hshape
          obtain ⟨size, _, hlength, h⟩ := bind_eq_ok.1 h
          obtain ⟨hsize, rfl⟩ := windowLength_eq_ok hlength
          exact ⟨size, hsize, h⟩

/-- The frames multiplied by the window, and what comes after that. -/
theorem multiplies_eq_ok {α : Type} {window : Option (String × Ref)} {frames : Ref}
    {f : Ref → Lower α} {a : α}
    (h : (match window.map Prod.snd with
      | some window => do
          let frames ← apply node .window [frames, window] 0
          f frames
      | none => do
          let frames ← pure frames
          f frames) context session = .ok a session') :
    ∃ frames' middle, Multiplies node session.scope frames window frames' middle.scope
      ∧ f frames' context middle = .ok a session' := by
  cases window with
  | none => exact ⟨frames, session, .none, h⟩
  | some named =>
      obtain ⟨ref, middle, happly, h⟩ := bind_eq_ok.1 h
      obtain ⟨rfl, happlies⟩ := apply_eq_ok happly
      exact ⟨_, middle, .some happlies, h⟩

theorem spectrum_eq_ok (h : spectrum node context session = .ok result session') :
    ∃ values, node.values = .ok values ∧ Nonempty (AppliedSpectrum node values context.outer
      session.scope session'.scope result) := by
  unfold spectrum at h
  obtain ⟨values, _, hattributes, h⟩ := bind_eq_ok.1 h
  obtain ⟨hvalues, rfl⟩ := ofExcept_eq_ok.1 hattributes
  obtain ⟨oneSided, hone, h⟩ := intOr_eq_ok h
  obtain ⟨signal, started, hinput, h⟩ := bind_eq_ok.1 h
  obtain ⟨signalName, hsignalName, hsignal⟩ := input_eq_ok hinput
  obtain ⟨step, _, hread, h⟩ := bind_eq_ok.1 h
  obtain ⟨⟨stepName, hstepName, hstep⟩, rfl⟩ := knownInteger_eq_ok hread
  obtain ⟨hpositive, h⟩ := guard_eq_ok.1 h
  obtain ⟨name, _, hname, h⟩ := bind_eq_ok.1 h
  obtain ⟨hname', rfl⟩ := inputName_eq_ok hname
  rw [hsignalName] at hname'
  cases hname'
  obtain ⟨known, _, hshape, h⟩ := bind_eq_ok.1 h
  cases hshape
  obtain ⟨dims, _, hsignalDims, h⟩ := bind_eq_ok.1 h
  obtain ⟨hdims, hchannels, rfl⟩ := signalDims_eq_ok hsignalDims
  obtain ⟨window, middle, hoptional, h⟩ := bind_eq_ok.1 h
  obtain ⟨named, rfl, hwindow⟩ := optionalInput_eq_ok hoptional
  obtain ⟨size, hsize, h⟩ := windowSize_eq_ok hwindow h
  obtain ⟨length, _, hframeLength, h⟩ := bind_eq_ok.1 h
  obtain ⟨hlength, rfl⟩ := frameLength_eq_ok hframeLength
  obtain ⟨hsame, h⟩ := guard_eq_ok.1 h
  obtain ⟨hreal, h⟩ := guard_eq_ok.1 h
  obtain ⟨hcount, h⟩ := guard_eq_ok.1 h
  replace hcount : 0 < length ∧ 0 < (dims.2.1 - length).fdiv step + 1 := by simpa using hcount
  obtain ⟨_, _, hreport, h⟩ := bind_eq_ok.1 h
  cases hreport
  obtain ⟨frames, framed, happly, h⟩ := bind_eq_ok.1 h
  obtain ⟨rfl, hcuts⟩ := apply_eq_ok happly
  obtain ⟨frames, multiplied, hmultiplies, h⟩ := multiplies_eq_ok h
  obtain ⟨ref, _, htransform, h⟩ := bind_eq_ok.1 h
  obtain ⟨rfl, rfl⟩ := pure_eq_ok.1 h
  obtain ⟨rfl, htransforms⟩ := apply_eq_ok htransform
  exact ⟨values, hvalues, ⟨{
    oneSided, signalName, signal, stepName, step, dims, length, frames
    window := named
    windowSize := size
    started := started.scope
    middle := middle.scope
    framed := framed.scope
    multiplied := multiplied.scope
    isOneSided := hone
    signalInput := hsignalName
    getsSignal := hsignal
    stepInput := hstepName
    isStep := hstep
    isShape := hdims
    getsWindow := hwindow
    isWindowSize := hsize
    isLength := hlength
    fits := {
      step_pos := Int.not_le.1 hpositive
      channels := hchannels
      window := fun size hknown => by simpa [hknown] using hsame
      real := fun hone => hchannels.resolve_right fun htwo =>
        hreal (by simp [hone, hdims, htwo, isComplexShape])
      length_pos := hcount.1
      count_pos := hcount.2 }
    cuts := hcuts
    multiplies := hmultiplies
    transforms := htransforms
    returned := rfl }⟩⟩

end Handler

end OnnxLowering
