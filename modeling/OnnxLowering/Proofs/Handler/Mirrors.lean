/-
A node whose inputs go by other names. `Mirrors` says what it takes that
one node reads under other names what another one reads: wherever its
operation asks for a value, a shape or a known tensor, both nodes get the
same. Then they are lowered to the same (`Handler.follows_of_served`).

The scopes of the two nodes are related by `U`, which may depend on how
many inputs have been dealt with, and by `Z` as soon as no more values are
asked for. A node mirrors itself wherever scopes are alike.
-/
import OnnxLowering.Proofs.Handler.Moves
import OnnxLowering.Proofs.Lowering.Alike

namespace OnnxLowering

-- =================================================================== demands

namespace NodeOf

variable {G : Type} (node : NodeOf G)

/-- Whether the operation of a node asks for the value of an input. -/
def asksValue (i : Nat) : Bool :=
  match node.op with
  | "Identity" | "Sqrt" | "RandomNormalLike" => i = 0
  | "Add" | "Mul" => i < 2
  | "ScatterND" => i < 3
  | "STFT" => i = 0 || i = 2
  | "Scan" => true
  | _ => false

/-- Whether the operation asks for what is known of the shape of an
input. Sums and products of early versions do so to place their second
operand. -/
def asksShape (opset : Int) (i : Nat) : Bool :=
  match node.op with
  | "Add" | "Mul" => opset < 7 && i = 0 &&
      match node.values with
      | .ok values => values.contains "broadcast" && values.contains "axis"
      | .error _ => false
  | "STFT" => i = 0 || i = 2
  | "Scan" => true
  | _ => false

/-- Whether the operation asks for the tensor that an input is known to
be. -/
def asksTensor (i : Nat) : Bool :=
  match node.op with
  | "STFT" => i = 1 || i = 3
  | _ => false

/-- The value of an input is not asked for. -/
def Idle (i : Nat) : Prop :=
  node.asksValue i = true → ∀ name, node.inputs[i]? = some name → name.isEmpty = true

end NodeOf

/-- What a graph inside becomes does not depend on what `y` stands for
around it, and it does not read `y`. -/
def Importer.Blind (y : String) (importer : Importer) : Prop :=
  ∀ context context', Context.Alike y context context' → ∀ subgraph,
    (importer.lower context).1 = .ok subgraph →
      (importer.lower context').1 = .ok subgraph ∧ y ∉ subgraph.outerInputs

open Lower

/-- Related scopes stay related when something is done to both that has
nothing to do with `y`. -/
structure Steady (y : String) (context context' : Context) (Z : Scope → Scope → Prop) : Prop where
  value : ∀ name, name ≠ y → Follows context context' Z Z (value name) (value name)
  materialise : ∀ source t trainable, source ≠ y →
    Follows context context' Z Z (materialise source t trainable) (materialise source t trainable)
  apply : ∀ {G : Type} {node : NodeOf G} {inputs : List String}
    {attributes : List (String × AttributeOf G)} {op : Op} {operands : List Ref} {output : Nat},
    Follows context context' Z Z (apply node op operands output)
      (apply { node with inputs, attributes } op operands output)
  registerLoop : ∀ {base : String} {loop : Loop},
    Follows context context' Z Z (registerLoop base loop) (registerLoop base loop)
  call : ∀ {G : Type} {node : NodeOf G} {inputs : List String}
    {attributes : List (String × AttributeOf G)} {name : String} {operands : List Ref} {output : Nat}
    {typed : Bool}, Follows context context' Z Z (call node name operands output typed)
      (call { node with inputs, attributes } name operands output typed)

/-- Alike scopes stay alike. -/
theorem steady_alike {y : String} {context context' : Context} (contexts : context.Alike y context') :
    Steady y context context' (Scope.Alike y) where
  value _ hname := value_follows contexts hname
  materialise _ _ _ hsource := materialise_follows hsource
  apply := apply_follows
  registerLoop := registerLoop_follows
  call := call_follows

theorem steady_false {y : String} {context context' : Context} :
    Steady y context context' fun _ _ => False where
  value _ _ := fun _ _ _ _ hrelated => hrelated.elim
  materialise _ _ _ _ := fun _ _ _ _ hrelated => hrelated.elim
  apply := fun _ _ _ _ hrelated => hrelated.elim
  registerLoop := fun _ _ _ _ hrelated => hrelated.elim
  call := fun _ _ _ _ hrelated => hrelated.elim

/-- A node with other inputs, and maybe other graphs inside, reads what a
node reads. `U i` relates the scopes once the inputs before the `i`-th have
been dealt with. -/
structure Mirrors (y : String) (context context' : Context) (node : NodeOf Importer)
    (inputs : List String) (attributes : List (String × AttributeOf Importer))
    (U : Nat → Scope → Scope → Prop) (Z : Scope → Scope → Prop) : Prop where
  empty : inputs.map String.isEmpty = node.inputs.map String.isEmpty
  values : { node with inputs, attributes }.values = node.values
  value : ∀ i name name', node.inputs[i]? = some name → inputs[i]? = some name' →
    name.isEmpty = false → node.asksValue i = true →
      Follows context context' (U i) (U (i + 1)) (value name) (value name')
  skip : ∀ i scope scope', node.Idle i → U i scope scope' → U (i + 1) scope scope'
  /-- A shape is asked for after the value, but in scans. -/
  shape : ∀ i k name name' scope scope', node.asksShape context.opset i = true →
    i < k ∨ node.op = "Scan" → node.inputs[i]? = some name → inputs[i]? = some name' →
      U k scope scope' →
        Scopes.shape? (scope' :: context'.outer) name' = Scopes.shape? (scope :: context.outer) name
  tensor : ∀ i k name name' scope scope', node.asksTensor i = true →
    node.inputs[i]? = some name → inputs[i]? = some name' → U k scope scope' →
      Scopes.tensor? (scope' :: context'.outer) name'
        = Scopes.tensor? (scope :: context.outer) name
  /-- Graphs inside are lowered before anything else is done. -/
  inner : node.op = "Scan" → ∀ scope scope', U 0 scope scope' → ∀ name importer,
    node.graph? name = some importer → ∃ importer',
      { node with inputs, attributes }.graph? name = some importer' ∧ ∀ subgraph,
        (importer.lower ⟨context.opset, scope :: context.outer⟩).1 = .ok subgraph →
          (importer'.lower ⟨context'.opset, scope' :: context'.outer⟩).1 = .ok subgraph
            ∧ y ∉ subgraph.outerInputs
  done : ∀ k scope scope', (∀ i, k ≤ i → node.Idle i) → U k scope scope' → Z scope scope'

namespace Mirrors

variable {y : String} {context context' : Context} {node : NodeOf Importer} {inputs : List String}
  {attributes : List (String × AttributeOf Importer)} {U : Nat → Scope → Scope → Prop}
  {R Q Z : Scope → Scope → Prop} {α : Type} (h : Mirrors y context context' node inputs attributes U Z)

include h

-- ==================================================================== inputs

theorem length_eq : inputs.length = node.inputs.length := by
  have hlength := congrArg List.length h.empty
  rwa [List.length_map, List.length_map] at hlength

/-- The other name of an input, and that neither is left out alone. -/
theorem exists_getElem? {i : Nat} {name : String} (hname : node.inputs[i]? = some name) :
    ∃ name', inputs[i]? = some name' ∧ name'.isEmpty = name.isEmpty := by
  have hempty := congrArg (·[i]?) h.empty
  simp only [List.getElem?_map, hname, Option.map_some] at hempty
  exact Option.map_eq_some_iff.1 hempty

theorem getElem?_eq_none {i : Nat} (hname : node.inputs[i]? = none) : inputs[i]? = none := by
  rw [List.getElem?_eq_none_iff, h.length_eq]
  exact List.getElem?_eq_none_iff.1 hname

theorem getD_isEmpty (i : Nat) :
    (inputs.getD i "").isEmpty = (node.inputs.getD i "").isEmpty := by
  rw [List.getD_eq_getElem?_getD, List.getD_eq_getElem?_getD]
  cases hname : node.inputs[i]? with
  | none => rw [h.getElem?_eq_none hname]
  | some name =>
      obtain ⟨name', hname', hempty⟩ := h.exists_getElem? hname
      rw [hname']
      exact hempty

theorem headD_isEmpty : (inputs.headD "").isEmpty = (node.inputs.headD "").isEmpty := by
  have hfirst := h.getD_isEmpty 0
  rwa [← List.headD_eq_getD, ← List.headD_eq_getD] at hfirst

/-- The names of an input. -/
theorem inputName {i : Nat} {f f' : String → Lower α}
    (hf : ∀ name name', node.inputs[i]? = some name → inputs[i]? = some name' →
      Follows context context' R Q (f name) (f' name')) :
    Follows context context' R Q (inputName node i >>= f)
      (Lower.inputName { node with inputs, attributes } i >>= f') := by
  unfold Lower.inputName
  cases hname : node.inputs[i]? with
  | none => exact fun _ _ _ _ _ hrun => nomatch hrun
  | some name =>
      obtain ⟨name', hname', -⟩ := h.exists_getElem? hname
      simp only [hname', pure_bind]
      exact hf name name' hname hname'

/-- An input gets its value. -/
theorem input {i : Nat} (hasks : node.asksValue i = true) :
    Follows context context' (U i) (U (i + 1)) (input node i)
      (Lower.input { node with inputs, attributes } i) := by
  refine h.inputName fun name name' hname hname' => ?_
  intro session session' ref left hrelated hrun
  exact h.value i name name' hname hname' (value_eq_ok hrun).1 hasks session session' ref left
    hrelated hrun

theorem shapeOf {i k : Nat} {name name' : String} (hasks : node.asksShape context.opset i = true)
    (hk : i < k ∨ node.op = "Scan") (hname : node.inputs[i]? = some name)
    (hname' : inputs[i]? = some name') :
    Follows context context' (U k) (U k) (Lower.shape name) (Lower.shape name') := by
  intro session session' known left hrelated hrun
  cases hrun
  refine ⟨session', ?_, hrelated⟩
  rw [← h.shape i k name name' _ _ hasks hk hname hname' hrelated]
  rfl

/-- No more values are asked for. -/
theorem finish {k : Nat} {x x' : Lower α} (hidle : ∀ i, k ≤ i → node.Idle i)
    (hx : Follows context context' Z Q x x') : Follows context context' (U k) Q x x' :=
  hx.mono (fun scope scope' => h.done k scope scope' hidle) fun _ _ hleft => hleft

/-- The operation asks for the first inputs only. -/
theorem finish_first {n : Nat} {x x' : Lower α} (hasks : ∀ i, node.asksValue i = decide (i < n))
    (hx : Follows context context' Z Q x x') : Follows context context' (U n) Q x x' :=
  h.finish (fun i hi hread => by
    rw [hasks, decide_eq_true_eq] at hread
    omega) hx

theorem input_first {i n : Nat} (hasks : ∀ i, node.asksValue i = decide (i < n)) (hi : i < n) :
    Follows context context' (U i) (U (i + 1)) (Lower.input node i)
      (Lower.input { node with inputs, attributes } i) :=
  h.input (by rw [hasks, decide_eq_true_eq]; exact hi)

end Mirrors

namespace Handler

variable {y : String} {context context' : Context} {node : NodeOf Importer} {inputs : List String}
  {attributes : List (String × AttributeOf Importer)} {U : Nat → Scope → Scope → Prop}
  {R Z : Scope → Scope → Prop} {α : Type} (h : Mirrors y context context' node inputs attributes U Z)
  (steady : Steady y context context' Z)

-- ============================================================== elementwise

/-- An integer among the attributes, and what comes after it. -/
theorem intOr_follows {values : Attributes} {name : String} {default : Int} {f f' : Int → Lower α}
    (hf : ∀ i, Follows context context' R Z (f i) (f' i)) :
    Follows context context' R Z
      (match values.find? name with
        | some value => do
            let i ← ofExcept .argument value.toInt
            f i
        | none => do
            let i ← pure default
            f i)
      (match values.find? name with
        | some value => do
            let i ← ofExcept .argument value.toInt
            f' i
        | none => do
            let i ← pure default
            f' i) := by
  cases values.find? name with
  | none => exact hf default
  | some value => exact Follows.ofExcept.bind hf

section

include h

/-- Both nodes have the same values among their attributes. -/
theorem attributes_follows : Follows context context' R R (Lower.attributes node)
    (Lower.attributes { node with inputs, attributes }) := by
  unfold Lower.attributes
  rw [h.values]
  exact .ofExcept

theorem identity_follows (hasks : ∀ i, node.asksValue i = decide (i < 1)) :
    Follows context context' (U 0) Z (identity node) (identity { node with inputs, attributes }) :=
  (h.input_first hasks (by decide)).bind fun _ => h.finish_first hasks (.pure fun _ _ h => h)

/-- The axis is read off the attributes, unless there is none. -/
theorem alignmentAxis_follows {values : Attributes}
    (hshape : values.contains "axis" = true → node.asksShape context.opset 0 = true) :
    Follows context context' (U 2) (U 2) (alignmentAxis node values)
      (alignmentAxis { node with inputs, attributes } values) := by
  unfold alignmentAxis
  cases haxis : values.find? "axis" with
  | none => exact .pure fun _ _ h => h
  | some value =>
      have hasks := hshape (by rw [NameMap.contains, haxis]; rfl)
      refine Follows.ofExcept.bind fun axis => h.inputName fun name name' hname hname' => ?_
      refine (h.shapeOf hasks (.inl (by decide)) hname hname').bind fun known => ?_
      cases known with
      | none => exact .pure fun _ _ h => h
      | some dims => exact Follows.ofExcept.bind fun _ => .pure fun _ _ h => h

end

section

include h steady

theorem constant_follows (hasks : ∀ i, node.asksValue i = decide (i < 0))
    (hsource : constantSource node ≠ y) :
    Follows context context' (U 0) Z (constant node) (constant { node with inputs, attributes }) := by
  refine (attributes_follows h).bind fun values => Follows.ofExcept.bind fun t => ?_
  exact h.finish_first hasks
    ((steady.materialise (constantSource node) t (some false) hsource).bind fun _ => .pure fun _ _ h => h)

theorem sqrt_follows (hasks : ∀ i, node.asksValue i = decide (i < 1)) :
    Follows context context' (U 0) Z (sqrt node) (sqrt { node with inputs, attributes }) :=
  (h.input_first hasks (by decide)).bind fun _ => h.finish_first hasks
    (steady.apply.bind fun _ => .pure fun _ _ h => h)

theorem binary_follows {op : Op} (hasks : ∀ i, node.asksValue i = decide (i < 2)) :
    Follows context context' (U 0) Z (binary op node) (binary op { node with inputs, attributes }) :=
  (h.input_first hasks (by decide)).bind fun _ => (h.input_first hasks (by decide)).bind fun _ =>
    h.finish_first hasks (steady.apply.bind fun _ => .pure fun _ _ h => h)

theorem scatter_follows (hasks : ∀ i, node.asksValue i = decide (i < 3)) :
    Follows context context' (U 0) Z (scatter node) (scatter { node with inputs, attributes }) := by
  have hrest : Follows context context' (U 0) Z
      (do
        let data ← input node 0
        let indices ← input node 1
        let updates ← input node 2
        return Result.one (← apply node .scatter [data, indices, updates] 0))
      (do
        let data ← input { node with inputs, attributes } 0
        let indices ← input { node with inputs, attributes } 1
        let updates ← input { node with inputs, attributes } 2
        return Result.one (← apply { node with inputs, attributes } .scatter [data, indices, updates] 0)) :=
    (h.input_first hasks (by decide)).bind fun _ => (h.input_first hasks (by decide)).bind fun _ =>
      (h.input_first hasks (by decide)).bind fun _ =>
        h.finish_first hasks (steady.apply.bind fun _ => .pure fun _ _ h => h)
  refine (attributes_follows h).bind fun values => ?_
  cases values.find? "reduction" with
  | none => exact hrest
  | some value => exact .guard' fun _ => hrest

theorem alignedBinary_follows {op : Op} (hasks : ∀ i, node.asksValue i = decide (i < 2))
    (hshape : ∀ values, node.values = .ok values → values.contains "broadcast" = true →
      values.contains "axis" = true → node.asksShape context.opset 0 = true) :
    Follows context context' (U 0) Z (alignedBinary op node)
      (alignedBinary op { node with inputs, attributes }) := by
  refine (attributes_follows h (R := U 0)).bind_of fun values session left hvalues => ?_
  obtain ⟨hvalues, -⟩ := ofExcept_eq_ok.1 hvalues
  refine (h.input_first hasks (by decide)).bind fun lhs =>
    (h.input_first hasks (by decide)).bind fun rhs => ?_
  have hlast {operands : List Ref} : Follows context context' Z Z
      (do return Result.one (← apply node op operands 0))
      (do return Result.one (← apply { node with inputs, attributes } op operands 0)) :=
    steady.apply.bind fun _ => .pure fun _ _ h => h
  cases hbroadcast : values.find? "broadcast" with
  | none => exact h.finish_first hasks hlast
  | some value =>
      refine Follows.ofExcept.bind fun aligned => ?_
      simp only
      split
      · exact h.finish_first hasks hlast
      · refine (alignmentAxis_follows h ?_).bind fun axis =>
          h.finish_first hasks (steady.apply.bind fun placed => hlast)
        exact hshape values hvalues (by rw [NameMap.contains, hbroadcast]; rfl)

end

-- =================================================================== random

theorem randomType_follows {code : Int} : Follows context context' R R (randomType node code)
    (randomType { node with inputs, attributes } code) := by
  unfold randomType
  split
  · exact .pure fun _ _ h => h
  · exact .throw

theorem numberOr_follows {values : Attributes} {name : String} {default : Nat} :
    Follows context context' R R (numberOr values name default) (numberOr values name default) := by
  unfold numberOr
  split
  · exact .ofExcept
  · exact .pure fun _ _ h => h

theorem distribution_follows {values : Attributes} :
    Follows context context' R R (distribution values) (distribution values) := by
  refine numberOr_follows.bind fun mean => numberOr_follows.bind fun scale => ?_
  cases values.find? "seed" with
  | none => exact .pure fun _ _ h => h
  | some value => exact Follows.ofExcept.map.bind fun _ => .pure fun _ _ h => h

section

include h steady

theorem random_follows (hasks : ∀ i, node.asksValue i = decide (i < 0)) :
    Follows context context' (U 0) Z (random node) (random { node with inputs, attributes }) := by
  refine (attributes_follows h).bind fun values => ?_
  cases values.find? "shape" with
  | none => exact .throw
  | some value =>
      refine Follows.ofExcept.bind fun dims => ?_
      have hrest (code : Int) : Follows context context' (U 0) Z
          (do
            let dtype ← randomType node code
            let drawn ← distribution values
            return Result.one
              (← apply node (.random dims dtype drawn.1 drawn.2.1 drawn.2.2) [] 0))
          (do
            let dtype ← randomType { node with inputs, attributes } code
            let drawn ← distribution values
            return Result.one (← apply { node with inputs, attributes }
              (.random dims dtype drawn.1 drawn.2.1 drawn.2.2) [] 0)) :=
        h.finish_first hasks (randomType_follows.bind fun _ => distribution_follows.bind fun _ =>
          steady.apply.bind fun _ => .pure fun _ _ h => h)
      simp only
      cases values.find? "dtype" with
      | none => exact hrest randomTypeCode
      | some value => exact Follows.ofExcept.bind hrest

theorem randomLike_follows (hasks : ∀ i, node.asksValue i = decide (i < 1)) :
    Follows context context' (U 0) Z (randomLike node) (randomLike { node with inputs, attributes }) := by
  refine (attributes_follows h).bind fun values => (h.input_first hasks (by decide)).bind fun like => ?_
  have hrest (dtype : Option DType) : Follows context context' (U 1) Z
      (do
        let drawn ← distribution values
        return Result.one
          (← apply node (.randomLike dtype drawn.1 drawn.2.1 drawn.2.2) [like] 0))
      (do
        let drawn ← distribution values
        return Result.one (← apply { node with inputs, attributes }
          (.randomLike dtype drawn.1 drawn.2.1 drawn.2.2) [like] 0)) :=
    h.finish_first hasks (distribution_follows.bind fun _ => steady.apply.bind fun _ =>
      .pure fun _ _ h => h)
  simp only
  cases values.find? "dtype" with
  | none => exact hrest none
  | some value => exact Follows.ofExcept.bind fun _ => randomType_follows.map.bind hrest

end

-- ================================================================== spectra

theorem signalDims_follows {known : Option KnownShape} :
    Follows context context' R R (signalDims node known)
      (signalDims { node with inputs, attributes } known) := by
  unfold signalDims
  split
  · exact .guard' fun _ => .pure fun _ _ h => h
  · exact .throw

theorem windowLength_follows {known : Option KnownShape} :
    Follows context context' R R (windowLength node known)
      (windowLength { node with inputs, attributes } known) := by
  unfold windowLength
  split
  · exact .pure fun _ _ h => h
  · exact .pure fun _ _ h => h
  · exact .throw

section

include h

theorem knownInteger_follows {i k : Nat} {what : String} (hasks : node.asksTensor i = true) :
    Follows context context' (U k) (U k) (knownInteger node i what)
      (knownInteger { node with inputs, attributes } i what) := by
  refine .scopes fun scope scope' hrelated => h.inputName fun name name' hname hname' => ?_
  rw [h.tensor i k name name' scope scope' hasks hname hname' hrelated]
  refine Follows.here hrelated ?_
  split
  · exact .throw
  · exact .guard' fun _ => .ofExcept

theorem optionalInput_follows {i : Nat} (hasks : node.asksValue i = true) :
    Follows context context' (U i) (U (i + 1)) (optionalInput node i)
      (optionalInput { node with inputs, attributes } i) := by
  have hskip (hidle : node.Idle i) : Follows context context' (U i) (U (i + 1))
      (pure none : Lower (Option Ref)) (pure none) := .pure fun scope scope' => h.skip i scope scope' hidle
  unfold optionalInput
  cases hname : node.inputs[i]? with
  | none =>
      rw [h.getElem?_eq_none hname]
      exact hskip fun _ name hgiven => nomatch hname.symm.trans hgiven
  | some name =>
      obtain ⟨name', hname', hempty⟩ := h.exists_getElem? hname
      simp only [hname', hempty]
      split
      · next hgiven =>
          refine hskip fun _ other hother => ?_
          rwa [← Option.some.inj (hname.symm.trans hother)]
      · next hgiven =>
          exact (h.value i name name' hname hname' (Bool.eq_false_iff.2 hgiven) hasks).bind fun _ =>
            .pure fun _ _ h => h

theorem frameLength_follows {k : Nat} {signalLength step : Int} {window : Option Int}
    (hasks : node.asksTensor 3 = true) :
    Follows context context' (U k) (U k) (frameLength node signalLength step window)
      (frameLength { node with inputs, attributes } signalLength step window) := by
  unfold frameLength
  rw [h.getD_isEmpty 3]
  split
  · exact .pure fun _ _ h => h
  · exact knownInteger_follows h hasks

/-- The length of the window, if there is one. -/
theorem windowSize_follows {window : Option Ref} {f f' : Option Int → Lower Result}
    (hasks : node.asksShape context.opset 2 = true)
    (hf : ∀ size, Follows context context' (U 3) Z (f size) (f' size)) :
    Follows context context' (U 3) Z
      (match window with
        | some _ => do
            let size ← windowLength node (← shape (← inputName node 2))
            f size
        | none => do
            let size ← pure none
            f size)
      (match window with
        | some _ => do
            let size ← windowLength { node with inputs, attributes }
              (← shape (← inputName { node with inputs, attributes } 2))
            f' size
        | none => do
            let size ← pure none
            f' size) := by
  cases window with
  | none => exact hf none
  | some window =>
      refine h.inputName fun name name' hname hname' => ?_
      exact (h.shapeOf hasks (.inl (by decide)) hname hname').bind fun _ =>
        windowLength_follows.bind hf

end

section

include h steady

theorem spectrum_follows (hvalue : ∀ i, node.asksValue i = (decide (i = 0) || decide (i = 2)))
    (hshape : ∀ i, node.asksShape context.opset i = (decide (i = 0) || decide (i = 2)))
    (htensor : ∀ i, node.asksTensor i = (decide (i = 1) || decide (i = 3))) :
    Follows context context' (U 0) Z (spectrum node) (spectrum { node with inputs, attributes }) := by
  refine (attributes_follows h).bind fun values => intOr_follows fun oneSided => ?_
  have hidle (i : Nat) (hi : i = 1 ∨ 3 ≤ i) : node.Idle i := by
    intro hasks
    rw [hvalue, Bool.or_eq_true, decide_eq_true_eq, decide_eq_true_eq] at hasks
    omega
  have hsecond : Follows context context' (U 1) (U 3) (optionalInput node 2)
      (optionalInput { node with inputs, attributes } 2) :=
    (optionalInput_follows h (by rw [hvalue]; decide)).mono
      (fun scope scope' => h.skip 1 scope scope' (hidle 1 (.inl rfl))) fun _ _ h => h
  refine (h.input (by rw [hvalue]; decide)).bind fun signal =>
    (knownInteger_follows h (by rw [htensor]; decide)).bind fun step => .guard fun _ =>
      h.inputName fun name name' hname hname' => ?_
  refine (h.shapeOf (by rw [hshape]; decide) (.inl (by decide)) hname hname').bind fun known =>
    signalDims_follows.bind fun dims => hsecond.bind fun window =>
      windowSize_follows h (by rw [hshape]; decide) fun size =>
        (frameLength_follows h (by rw [htensor]; decide)).bind fun length =>
          .guard fun _ => .guard fun _ => .guard fun _ => Follows.report.bind fun _ => ?_
  refine h.finish (fun i hi => hidle i (.inr hi)) (steady.apply.bind fun frames => ?_)
  have hlast (frames : Ref) : Follows context context' Z Z
      (do
        let spectrum ← apply node (.transform length (oneSided = 1)) [frames] 0
        return Result.one spectrum)
      (do
        let spectrum ← apply { node with inputs, attributes } (.transform length (oneSided = 1)) [frames] 0
        return Result.one spectrum) :=
    steady.apply.bind fun _ => .pure fun _ _ h => h
  cases window with
  | none => exact hlast frames
  | some window => exact steady.apply.bind hlast

end

-- ==================================================================== scans

theorem checkEntries_follows {name : String} {entries : List Int} {expected : Int} :
    Follows context context' R R (checkEntries node name entries expected)
      (checkEntries { node with inputs, attributes } name entries expected) := by
  unfold checkEntries
  split
  · exact .pure fun _ _ h => h
  · exact .throw

theorem scanPlan_follows {spelling : ScanSyntax} {values : Attributes} {scanInputs : Int}
    {given bodyInputs bodyOutputs : Nat} :
    Follows context context' R R (scanPlan spelling node values scanInputs given bodyInputs bodyOutputs)
      (scanPlan spelling { node with inputs, attributes } values scanInputs given bodyInputs
        bodyOutputs) := by
  refine .guard fun _ => .guard fun _ => .guard' fun _ => ?_
  exact Follows.ofExcept.bind fun _ => Follows.ofExcept.bind fun _ => Follows.ofExcept.bind fun _ =>
    Follows.ofExcept.bind fun _ => checkEntries_follows.bind fun _ => checkEntries_follows.bind fun _ =>
      checkEntries_follows.bind fun _ => checkEntries_follows.bind fun _ => .pure fun _ _ h => h

section

include h

/-- A graph inside is lowered, and what it reads from outside is not
`y`. -/
theorem importGraph_follows (hop : node.op = "Scan") {name : String} {f f' : Subgraph → Lower α}
    (hf : ∀ subgraph, y ∉ subgraph.outerInputs →
      Follows context context' (U 0) Z (f subgraph) (f' subgraph)) :
    Follows context context' (U 0) Z (importGraph node name >>= f)
      (importGraph { node with inputs, attributes } name >>= f') := by
  intro session session' a left hrelated hrun
  obtain ⟨subgraph, middle, himport, hrest⟩ := bind_eq_ok.1 hrun
  obtain ⟨importer, log, himporter, hlowered, rfl⟩ := importGraph_eq_ok himport
  obtain ⟨importer', himporter', hinner⟩ := h.inner hop _ _ hrelated name importer himporter
  obtain ⟨hlowered', hnot⟩ := hinner subgraph hlowered
  obtain ⟨log', himport'⟩ := @exists_importGraph context' session'
    { node with inputs, attributes } name importer' subgraph himporter' hlowered'
  obtain ⟨left', hrest', hleft⟩ :=
    hf subgraph hnot { session with log } { session' with log := log' } _ _ hrelated hrest
  exact ⟨left', bind_eq_ok.2 ⟨subgraph, _, himport', hrest'⟩, hleft⟩

/-- The shapes of the inputs of a scan are the same. -/
theorem shapes_follows (hop : node.op = "Scan") (hasks : ∀ i, node.asksShape context.opset i = true)
    {first k : Nat} :
    Follows context context' (U k) (U k) ((node.inputs.drop first).mapM shape)
      ((inputs.drop first).mapM shape) := by
  refine @Follows.mapM context context' _ _ _ _ (fun _ => U k) _ _ ?_ fun i name name' hname hname' => ?_
  · rw [List.length_drop, List.length_drop, h.length_eq]
  · rw [List.getElem?_drop] at hname hname'
    exact h.shapeOf (hasks _) (.inr hop) hname hname'

/-- And so are their values, one after the other. -/
theorem operands_follows (hasks : ∀ i, node.asksValue i = true) {first : Nat}
    (hgiven : ∀ name ∈ node.inputs.drop first, name.isEmpty = false) :
    Follows context context' (U first) Z ((node.inputs.drop first).mapM value)
      ((inputs.drop first).mapM value) := by
  have hall : Follows context context' (U first) (U (first + (node.inputs.drop first).length))
      ((node.inputs.drop first).mapM value) ((inputs.drop first).mapM value) := by
    refine @Follows.mapM context context' _ _ _ _ (fun i => U (first + i)) _ _ ?_
      fun i name name' hname hname' => ?_
    · rw [List.length_drop, List.length_drop, h.length_eq]
    · have hempty := hgiven name (List.mem_of_getElem? hname)
      rw [List.getElem?_drop] at hname hname'
      exact h.value (first + i) name name' hname hname' hempty (hasks _)
  refine hall.mono (fun _ _ h => h) fun scope scope' => h.done _ scope scope' fun i hi _ name hname => ?_
  have hlt := (List.getElem?_eq_some_iff.1 hname).1
  rw [List.length_drop] at hi
  omega

end

section

include h steady

theorem scanWith_follows (hop : node.op = "Scan") {spelling : ScanSyntax}
    (hfirst : ∀ scope scope', U 0 scope scope' → U spelling.firstInput scope scope') :
    Follows context context' (U 0) Z (scanWith spelling node)
      (scanWith spelling { node with inputs, attributes }) := by
  have hvalue : ∀ i, node.asksValue i = true := by
    intro i
    simp only [NodeOf.asksValue, hop]
  have hshape : ∀ i, node.asksShape context.opset i = true := by
    intro i
    simp only [NodeOf.asksShape, hop]
  refine (attributes_follows h).bind fun values => ?_
  simp only
  cases values.find? "num_scan_inputs" with
  | none => exact .throw
  | some count =>
      have hany : (inputs.drop spelling.firstInput).any String.isEmpty
          = (node.inputs.drop spelling.firstInput).any String.isEmpty := by
        have hdrop := congrArg (fun flags => (flags.drop spelling.firstInput).any id) h.empty
        simpa only [← List.map_drop, List.any_map, Function.id_comp] using hdrop
      have hlength : (inputs.drop spelling.firstInput).length
          = (node.inputs.drop spelling.firstInput).length := by
        rw [List.length_drop, List.length_drop, h.length_eq]
      refine Follows.ofExcept.bind fun scanInputs => ?_
      simp only [hany, hlength]
      refine .guard fun hgiven => ?_
      have hgiven : ∀ name ∈ node.inputs.drop spelling.firstInput, name.isEmpty = false := by
        intro name hname
        rw [List.any_eq_true, not_exists] at hgiven
        exact Bool.eq_false_iff.2 fun hempty => hgiven name ⟨hname, hempty⟩
      refine importGraph_follows h hop fun subgraph houter => ?_
      have hoperands : Follows context context' (U 0) Z
          ((node.inputs.drop spelling.firstInput ++ subgraph.outerInputs).mapM value)
          ((inputs.drop spelling.firstInput ++ subgraph.outerInputs).mapM value) := by
        rw [List.mapM_append, List.mapM_append]
        refine ((operands_follows h hvalue hgiven).mono hfirst fun _ _ h => h).bind fun _ =>
          (Follows.mapM_same fun name hname => ?_).bind fun _ => .pure fun _ _ h => h
        exact steady.value name fun heq => houter (heq ▸ hname)
      refine scanPlan_follows.bind fun plan => Follows.report.bind fun _ =>
        (shapes_follows h hop hshape).bind fun shapes => Follows.ofExcept.bind fun loop =>
          hoperands.bind fun operands => ?_
      exact steady.registerLoop.bind fun name => steady.call.bind fun result =>
        (Follows.mapM_same fun i _ => steady.apply).bind fun refs => .pure fun _ _ h => h

/-- The first input of an early scan is left out. -/
theorem scanBatched_follows (hop : node.op = "Scan") :
    Follows context context' (U 0) Z (scanBatched node) (scanBatched { node with inputs, attributes }) := by
  unfold scanBatched
  rw [h.headD_isEmpty]
  refine .guard' fun hfirst => scanWith_follows h steady hop ?_
  refine fun scope scope' => h.skip 0 scope scope' fun _ name hname => ?_
  rwa [List.headD_eq_getD, List.getD_eq_getElem?_getD, hname] at hfirst

/-- A handler makes the same of both nodes. -/
theorem follows_of_served {handler : Handler} (hsource : node.op = "Constant" → constantSource node ≠ y)
    (served : Served context.opset node.op handler) :
    Follows context context' (U 0) Z (handler node) (handler { node with inputs, attributes }) := by
  obtain ⟨op, hop⟩ : ∃ op, node.op = op := ⟨_, rfl⟩
  rw [hop] at served
  cases served with
  | constant => exact constant_follows h steady (fun i => by simp [NodeOf.asksValue, hop]) (hsource hop)
  | identity => exact identity_follows h fun i => by simp [NodeOf.asksValue, hop]
  | add => exact binary_follows h steady fun i => by simp [NodeOf.asksValue, hop]
  | addAligned hopset =>
      refine alignedBinary_follows h steady (fun i => by simp [NodeOf.asksValue, hop])
        fun values hvalues hbroadcast haxis => ?_
      simp [NodeOf.asksShape, hop, hvalues, hbroadcast, haxis, Int.not_le.1 hopset]
  | multiply => exact binary_follows h steady fun i => by simp [NodeOf.asksValue, hop]
  | multiplyAligned hopset =>
      refine alignedBinary_follows h steady (fun i => by simp [NodeOf.asksValue, hop])
        fun values hvalues hbroadcast haxis => ?_
      simp [NodeOf.asksShape, hop, hvalues, hbroadcast, haxis, Int.not_le.1 hopset]
  | sqrt => exact sqrt_follows h steady fun i => by simp [NodeOf.asksValue, hop]
  | random => exact random_follows h steady fun i => by simp [NodeOf.asksValue, hop]
  | randomLike => exact randomLike_follows h steady fun i => by simp [NodeOf.asksValue, hop]
  | scatter => exact scatter_follows h steady fun i => by simp [NodeOf.asksValue, hop]
  | scanBatched => exact scanBatched_follows h steady hop
  | scan => exact scanWith_follows h steady hop fun _ _ h => h
  | spectrum =>
      exact spectrum_follows h steady (fun i => by simp [NodeOf.asksValue, hop])
        (fun i => by simp [NodeOf.asksShape, hop]) fun i => by simp [NodeOf.asksTensor, hop]

end

end Handler

-- ==================================================================== nodes

/-- A node neither reads `y` nor gives it a value, and carries no graph
that reads it. -/
structure NodeOf.Avoids (y : String) (node : NodeOf Importer) : Prop where
  inputs : y ∉ node.inputs
  outputs : y ∉ node.outputs
  source : Handler.constantSource node ≠ y
  inner : ∀ importer ∈ node.inner, importer.Blind y

/-- Such a node reads the same in scopes that are alike, also with other
graphs inside that become the same. `P` is what is known of the scope
where these graphs are lowered. -/
theorem mirrors_same {y : String} {context context' : Context} {node : NodeOf Importer}
    {attributes : List (String × AttributeOf Importer)} {P : Scope → Prop}
    (contexts : context.Alike y context') (avoids : y ∉ node.inputs)
    (values : { node with attributes }.values = node.values)
    (inner : ∀ scope scope', P scope → scope.Alike y scope' → ∀ name importer,
      node.graph? name = some importer → ∃ importer', { node with attributes }.graph? name = some importer'
        ∧ ∀ subgraph, (importer.lower ⟨context.opset, scope :: context.outer⟩).1 = .ok subgraph →
          (importer'.lower ⟨context'.opset, scope' :: context'.outer⟩).1 = .ok subgraph
            ∧ y ∉ subgraph.outerInputs) :
    Mirrors y context context' node node.inputs attributes
      (fun k scope scope' => scope.Alike y scope' ∧ (k = 0 → P scope)) (Scope.Alike y) := by
  have hne {i : Nat} {name : String} (hname : node.inputs[i]? = some name) : name ≠ y := by
    rintro rfl
    exact avoids (List.mem_of_getElem? hname)
  have hagree {scope scope' : Scope} {name : String} (h : scope.Alike y scope') (hname : name ≠ y) :
      Scopes.Agree (scope :: context.outer) (scope' :: context'.outer) name :=
    h.agree hname (contexts.outer name hname)
  exact {
    empty := rfl
    values := values
    value := fun i name name' hname hname' _ _ => by
      obtain rfl : name = name' := Option.some.inj (hname.symm.trans hname')
      exact (value_follows contexts (hne hname)).mono (fun _ _ h => h.1) fun _ _ h => ⟨h, nofun⟩
    skip := fun _ _ _ _ h => ⟨h.1, nofun⟩
    shape := fun i k name name' scope scope' _ _ hname hname' h => by
      obtain rfl : name = name' := Option.some.inj (hname.symm.trans hname')
      exact (hagree h.1 (hne hname)).shape?
    tensor := fun i k name name' scope scope' _ hname hname' h => by
      obtain rfl : name = name' := Option.some.inj (hname.symm.trans hname')
      exact (hagree h.1 (hne hname)).tensor?
    inner := fun _ scope scope' h => inner scope scope' (h.2 rfl) h.1
    done := fun _ _ _ _ h => h.1 }

namespace Lower

variable {y : String} {context context' : Context} {node : NodeOf Importer} {inputs : List String}
  {attributes : List (String × AttributeOf Importer)} {U : Nat → Scope → Scope → Prop}
  {R : Scope → Scope → Prop}

theorem handlerOf_follows {handlers : Handlers} (contexts : context.Alike y context') :
    Follows context context' R R (handlerOf handlers node)
      (handlerOf handlers { node with inputs, attributes }) := by
  intro session session' handler left hrelated hrun
  obtain ⟨hdomain, hfind, rfl⟩ := handlerOf_eq_ok.1 hrun
  exact ⟨session', handlerOf_eq_ok.2 ⟨hdomain, contexts.opset ▸ hfind, rfl⟩, hrelated⟩

/-- Both nodes are lowered to the same. -/
theorem lowerNode_follows (contexts : context.Alike y context')
    (h : Mirrors y context context' node inputs attributes U (Scope.Alike y))
    (houtputs : y ∉ node.outputs) (hsource : Handler.constantSource node ≠ y) :
    Follows context context' (U 0) (Scope.Alike y) (lowerNode Handlers.standard node)
      (lowerNode Handlers.standard { node with inputs, attributes }) := by
  refine (handlerOf_follows contexts).bind_of fun handler session left hhandler => ?_
  obtain ⟨-, ⟨version, hfind⟩, -⟩ := handlerOf_eq_ok.1 hhandler
  have hmakes := Handler.follows_of_served h (steady_alike contexts) (fun _ => hsource)
    (Handlers.served_of_find? hfind)
  refine Follows.bind (Q := U 0) (fun session session' a left hrelated hrun => ?_) fun version =>
    Follows.report.bind fun _ => hmakes.bind fun result => bindResult_follows houtputs
  cases hrun
  exact ⟨session', congrArg (EStateM.Result.ok · session') contexts.opset, hrelated⟩

/-- And so is a node that has nothing to do with `y`. -/
theorem lowerNode_alike (contexts : context.Alike y context') (avoids : node.Avoids y) :
    Follows context context' (Scope.Alike y) (Scope.Alike y) (lowerNode Handlers.standard node)
      (lowerNode Handlers.standard node) := by
  have hmirrors := @mirrors_same y context context' node node.attributes (fun _ => True) contexts
    avoids.inputs rfl fun scope scope' _ halike name importer himporter =>
      ⟨importer, himporter, avoids.inner importer (NodeOf.mem_inner_of_graph? himporter)
        ⟨context.opset, scope :: context.outer⟩ ⟨context'.opset, scope' :: context'.outer⟩
        ⟨contexts.opset, fun name hname => halike.agree hname (contexts.outer name hname)⟩⟩
  exact (lowerNode_follows contexts hmirrors avoids.outputs avoids.source).mono
    (fun _ _ h => ⟨h, fun _ => trivial⟩) fun _ _ h => h

theorem lowerNodes_follows (contexts : context.Alike y context') {nodes : List (NodeOf Importer)}
    (avoids : ∀ node ∈ nodes, node.Avoids y) :
    Follows context context' (Scope.Alike y) (Scope.Alike y) (lowerNodes Handlers.standard nodes)
      (lowerNodes Handlers.standard nodes) := by
  induction nodes with
  | nil => exact .pure fun _ _ h => h
  | cons node nodes ih =>
      rw [List.forall_mem_cons] at avoids
      exact (lowerNode_alike contexts avoids.1).bind fun _ => ih avoids.2

end Lower

end OnnxLowering
