/-
What a module does once it has been made the body of a loop. The module
with squeezed inputs, run on slices, does what the module did on the
elements (`run_squeezeInputs`); the one with unsqueezed results returns
what the module returned, some of it with one dimension more
(`realises_unsqueezeResults`). Both hold for legible modules only: the
new nodes refer to the library by name.
-/
import OnnxLowering.Module.LoopBody
import OnnxLowering.Proofs.Module.Evaluation
import OnnxLowering.Proofs.Outcome

namespace OnnxLowering

/-- The value that is a tensor. -/
def Value.ofTensor (t : Tensor) : Value := .one (some t)

/-- An output consists of tensors. -/
def Output.Are (output : Output) (tensors : List Tensor) : Prop :=
  output.operands = tensors.map some

theorem Output.Are.inj {output : Output} {ts us : List Tensor} (ht : output.Are ts)
    (hu : output.Are us) : ts = us :=
  List.map_injective_iff.2 (fun _ _ => Option.some.inj) (ht.symm.trans hu)

namespace Op

theorem eval_squeeze (axis : Int) (t : Tensor) :
    (squeeze axis).eval [.ofTensor t] = Value.ofTensor <$> t.squeeze axis := by
  show (do return Value.one (some (← t.squeeze axis))) = _
  cases t.squeeze axis <;> rfl

theorem eval_unsqueeze (axis : Int) (t : Tensor) :
    (unsqueeze axis).eval [.ofTensor t] = Value.ofTensor <$> t.unsqueeze axis := by
  show (do return Value.one (some (← t.unsqueeze axis))) = _
  cases t.unsqueeze axis <;> rfl

end Op

namespace ModuleOf

-- ================================================================ labels

/-- Naming other shapes for inputs changes nothing but the inputs, and
not their names. -/
theorem exists_setInputShapes {L : Type} (m : ModuleOf L)
    (shapes : List (Option KnownShape × Nat)) :
    ∃ inputs, shapes.foldl (fun m (shape, i) => m.setInputShape i shape) m = { m with inputs }
      ∧ inputs.map Input.name = m.inputs.map Input.name := by
  induction shapes generalizing m with
  | nil => exact ⟨m.inputs, rfl, rfl⟩
  | cons entry rest ih =>
      obtain ⟨inputs, hm, hnames⟩ := ih (m.setInputShape entry.2 entry.1)
      refine ⟨inputs, hm, hnames.trans ?_⟩
      refine List.ext_getElem? fun j => ?_
      rw [List.getElem?_map, List.getElem?_map, setInputShape, List.getElem?_modify]
      cases m.inputs[j]? with
      | none => rfl
      | some input => split <;> rfl

-- =============================================================== squeezing

section

variable {m : ModuleOf Meaning} {inputs inputs' : List Operand}

theorem valueOf_apply (done : List Value) (op : Op) (operands : List Ref) (label : Label) :
    m.valueOf inputs done ⟨.apply op operands, label⟩
      = op.eval (operands.map (Ref.value inputs done)) := rfl

theorem valueOf_call (done : List Value) (name : String) (operands : List Ref)
    (label : Label) :
    m.valueOf inputs done ⟨.call name operands, label⟩ =
      match m.loops.find? name with
      | some meaning =>
          (meaning ((operands.map (Ref.value inputs done)).map Value.operand)).map .many
      | none => .error .absentOperand := by
  rw [List.map_map]
  rfl

/-- Nodes that read other values under other references. -/
theorem valuesFrom_map {redirect : Ref → Ref} {front : List Value}
    (h : ∀ done ref, Ref.value inputs (front ++ done) (redirect ref)
      = Ref.value inputs' done ref) (nodes : List Node) (done : List Value) :
    m.valuesFrom inputs (front ++ done)
        (nodes.map fun node => { node with action := node.action.map redirect })
      = (front ++ ·) <$> m.valuesFrom inputs' done nodes := by
  induction nodes generalizing done with
  | nil => rfl
  | cons node nodes ih =>
      have hnode : m.valueOf inputs (front ++ done)
          { node with action := node.action.map redirect } = m.valueOf inputs' done node := by
        have hrefs (refs : List Ref) : (refs.map redirect).map (Ref.value inputs (front ++ done))
            = refs.map (Ref.value inputs' done) := by
          rw [List.map_map]
          exact List.map_congr_left fun ref _ => h done ref
        obtain ⟨action, label⟩ := node
        cases action with
        | load name => rfl
        | apply op refs =>
            show m.valueOf inputs _ ⟨.apply op (refs.map redirect), label⟩ = _
            rw [valueOf_apply, valueOf_apply, hrefs]
        | call name refs =>
            show m.valueOf inputs _ ⟨.call name (refs.map redirect), label⟩ = _
            rw [valueOf_call, valueOf_call, hrefs]
        | yield results => rfl
      rw [List.map_cons, valuesFrom_cons, valuesFrom_cons, hnode]
      cases m.valueOf inputs' done node with
      | error e => rfl
      | ok value =>
          show m.valuesFrom inputs (front ++ done ++ [value]) _ = _
          rw [List.append_assoc, ih]
          rfl

/-- Nodes that do not read each other. -/
theorem realises_valuesFrom {β γ : Type} {g : β → Outcome γ} {f : γ → Value}
    {done : List Value} {nodes : List Node} {bs : List β}
    (h : List.Forall₂ (fun node b => ∀ new,
      Realises (fun value c => value = f c) (m.valueOf inputs (done ++ new) node) (g b))
      nodes bs) :
    Realises (fun values cs => values = done ++ cs.map f) (m.valuesFrom inputs done nodes)
      (bs.mapM g) := by
  suffices hfrom : ∀ front, Realises (fun values cs => values = done ++ (front ++ cs.map f))
      (m.valuesFrom inputs (done ++ front) nodes) (bs.mapM g) from by
    simpa using hfrom []
  induction h with
  | nil =>
      intro front
      rw [List.mapM_nil]
      exact Realises.ok (by rw [List.map_nil, List.append_nil])
  | @cons node b nodes bs hnode hrest ih =>
      intro front
      rw [valuesFrom_cons, List.mapM_cons]
      refine (hnode front).bind fun value c _ hsame => ?_
      subst hsame
      rw [List.append_assoc, ← bind_pure (m.valuesFrom _ _ _)]
      refine (ih (front ++ [f c])).bind fun values cs _ hvalues => Realises.ok ?_
      rw [hvalues, List.append_assoc, List.singleton_append, List.map_cons]

end

-- =============================================================== squeezing

section

variable {m : ModuleOf Meaning} {first : Nat} {axes : List Int} {inputs : List Operand}
  {elements : List Tensor}

/-- Every axis squeezes the input that it is for to the element that it
is for. -/
def Squeezes (first : Nat) (axes : List Int) (inputs : List Operand)
    (elements : List Tensor) : Prop :=
  List.Forall₂ (fun entry element => ∃ part : Tensor,
      inputs[first + entry.2]? = some (some part) ∧ part.squeeze entry.1 = .ok element)
    axes.zipIdx elements

theorem value_squeezed (hlength : axes.length = elements.length)
    (hbound : first + axes.length ≤ inputs.length) (done : List Value) (ref : Ref) :
    Ref.value inputs (elements.map Value.ofTensor ++ done) (squeezed first axes.length ref)
      = Ref.value (splice first (elements.map some) inputs) done ref := by
  rw [hlength] at hbound ⊢
  cases ref with
  | node i =>
      show (elements.map Value.ofTensor ++ done).getD (i + elements.length) _ = done.getD i _
      rw [List.getD_eq_getElem?_getD, List.getD_eq_getElem?_getD,
        List.getElem?_append_right (by rw [List.length_map]; omega), List.length_map,
        Nat.add_sub_cancel]
  | input i =>
      show _ = Value.one ((splice first (elements.map some) inputs).getD i none)
      rw [List.getD_eq_getElem?_getD, getElem?_splice (by rw [List.length_map]; exact hbound),
        List.length_map, List.getElem?_map]
      show Ref.value inputs _ (if _ then _ else _) = _
      by_cases hwithin : first ≤ i ∧ i < first + elements.length
      · rw [if_pos hwithin, if_pos hwithin]
        show (elements.map Value.ofTensor ++ done).getD (i - first) _ = _
        have hi : i - first < elements.length := by omega
        rw [List.getD_eq_getElem?_getD, List.getElem?_append_left (by rw [List.length_map]; omega),
          List.getElem?_map, List.getElem?_eq_getElem hi]
        rfl
      · rw [if_neg hwithin, if_neg hwithin]
        show Value.one (inputs.getD i none) = _
        rw [List.getD_eq_getElem?_getD]

theorem valuesFrom_squeezes (h : Squeezes first axes inputs elements) :
    m.valuesFrom inputs [] (axes.zipIdx.map fun (axis, i) =>
        ⟨.apply (.squeeze axis) [.input (first + i)], {}⟩)
      = .ok (elements.map Value.ofTensor) := by
  have hnodes : List.Forall₂ (fun node element => ∀ new,
      Realises (fun value t => value = Value.ofTensor t) (m.valueOf inputs ([] ++ new) node)
        (.ok element))
      (axes.zipIdx.map fun (axis, i) => ⟨.apply (.squeeze axis) [.input (first + i)], {}⟩)
      elements := by
    rw [List.forall₂_map_left_iff]
    refine h.imp fun entry element => ?_
    rintro ⟨part, hpart, hsqueeze⟩ new
    refine ⟨_, ?_, rfl⟩
    rw [valueOf_apply]
    have hread : Ref.value inputs ([] ++ new) (.input (first + entry.2)) = Value.ofTensor part := by
      show Value.one (inputs.getD _ none) = _
      rw [List.getD_eq_getElem?_getD, hpart]
      rfl
    rw [List.map_singleton, hread, Op.eval_squeeze, hsqueeze]
    rfl
  have hvalues := realises_valuesFrom hnodes
  rw [Outcome.mapM_ok, List.map_id'] at hvalues
  obtain ⟨values, hvalues, rfl⟩ := hvalues
  exact hvalues

/-- What is legible with squeezes in front is legible without. -/
theorem Legible.of_squeezeInputs {L : Type} {m : ModuleOf L}
    (h : (m.squeezeInputs first axes).Legible) : m.Legible where
  sources := h.sources
  visible node hnode word hword := by
    refine h.visible { node with action := node.action.map (squeezed first axes.length) } ?_
      word ?_
    · exact List.mem_append_right _ (List.mem_map_of_mem hnode)
    · cases haction : node.action with
      | apply op refs =>
          rw [haction] at hword
          exact hword
      | _ =>
          rw [haction] at hword
          cases hword

/-- In the squeezed module the elements come first, and then what the
nodes had been on them. -/
theorem valuesFrom_squeezeInputs (hbound : first + axes.length ≤ inputs.length)
    (h : Squeezes first axes inputs elements) :
    (m.squeezeInputs first axes).valuesFrom inputs [] (m.squeezeInputs first axes).nodes
      = (elements.map Value.ofTensor ++ ·)
          <$> m.valuesFrom (splice first (elements.map some) inputs) [] m.nodes := by
  have hcount : axes.length = elements.length := by
    rw [← h.length_eq, List.length_zipIdx]
  show m.valuesFrom inputs [] (_ ++ _) = _
  rw [valuesFrom_append, valuesFrom_squeezes h, ← valuesFrom_map (value_squeezed hcount hbound),
    List.append_nil]
  rfl

/-- The squeezed module does on slices what the module did on the
elements. -/
theorem run_squeezeInputs (hlegible : (m.squeezeInputs first axes).Legible)
    (hlength : inputs.length = m.inputs.length) (hbound : first + axes.length ≤ inputs.length)
    (h : Squeezes first axes inputs elements) :
    (m.squeezeInputs first axes).run inputs = m.run (splice first (elements.map some) inputs) := by
  have hcount : axes.length = elements.length := by
    rw [← h.length_eq, List.length_zipIdx]
  have hwith : (splice first (elements.map some) inputs).length = inputs.length :=
    length_splice (by rw [List.length_map, ← hcount]; exact hbound)
  have hvalue := value_squeezed hcount hbound
  have hreturns (done : List Value) :
      (m.squeezeInputs first axes).returns inputs (elements.map Value.ofTensor ++ done)
        = m.returns (splice first (elements.map some) inputs) done := by
    simp only [returns, squeezeInputs]
    cases m.results with
    | single ref => simp only [Results.map, hvalue]
    | tuple refs => simp only [Results.map, List.map_map, Function.comp_def, hvalue]
  rw [run_of_legible hlegible hlength,
    run_of_legible hlegible.of_squeezeInputs (hwith.trans hlength), valuesFrom_squeezeInputs hbound h,
    bind_map_left]
  simp only [hreturns]

end

-- ============================================================= unsqueezing

section

variable {m : ModuleOf Meaning} {first : Nat} {axes : List Int} {inputs : List Operand}
  {done : List Value}

/-- A reference to a tensor still refers to it when there are more
values. -/
theorem value_append {ref : Ref} {t : Tensor} (h : (ref.value inputs done).operand = some t)
    (new : List Value) : ref.value inputs (done ++ new) = .ofTensor t := by
  have hvalue : ref.value inputs done = .ofTensor t := by
    cases hcase : ref.value inputs done with
    | one operand =>
        rw [hcase] at h
        exact congrArg Value.one h
    | many operands =>
        rw [hcase] at h
        cases h
  cases ref with
  | input i => exact hvalue
  | node i =>
      have hi : i < done.length := by
        by_contra hout
        rw [Ref.value, List.getD_eq_getElem?_getD, List.getElem?_eq_none (by omega)] at h
        cases h
      rw [← hvalue, Ref.value, Ref.value, List.getD_eq_getElem?_getD,
        List.getD_eq_getElem?_getD, List.getElem?_append_left hi]

theorem operands_returns :
    (m.returns inputs done).operands
      = m.results.refs.map fun ref => (ref.value inputs done).operand := by
  unfold returns
  cases m.results <;> rfl

theorem Legible.of_unsqueezeResults {L : Type} {m : ModuleOf L}
    (h : (m.unsqueezeResults first axes).Legible) : m.Legible where
  sources := h.sources
  visible node hnode := h.visible node (List.mem_append_left _ hnode)

/-- The results that are unsqueezed, and what becomes of them. -/
theorem forall₂_unsqueezes {refs : List Ref} {ts : List Tensor}
    (h : List.Forall₂ (fun ref t => (ref.value inputs done).operand = some t) refs ts) :
    List.Forall₂ (fun node (entry : Tensor × Int) => ∀ new,
        Realises (fun value t => value = Value.ofTensor t) (m.valueOf inputs (done ++ new) node)
          (.ofExcept (entry.1.unsqueeze entry.2)))
      (((refs.drop first).zip axes).map fun (ref, axis) =>
        ⟨.apply (.unsqueeze axis) [ref], {}⟩)
      ((ts.drop first).zip axes) := by
  rw [List.forall₂_map_left_iff]
  have hdrop := List.forall₂_drop first h
  generalize refs.drop first = refs at hdrop
  generalize ts.drop first = ts at hdrop
  induction hdrop generalizing axes with
  | nil => exact List.Forall₂.nil
  | @cons ref t refs ts hread hrest ih =>
      cases axes with
      | nil => exact List.Forall₂.nil
      | cons axis axes =>
          refine .cons (fun new => ?_) ih
          rw [valueOf_apply, List.map_singleton, value_append hread, Op.eval_unsqueeze]
          cases t.unsqueeze axis with
          | ok u => exact ⟨_, rfl, rfl⟩
          | error e => exact ⟨e, rfl⟩

/-- The module with unsqueezed results returns what the module returned,
and everything from `first` on with one dimension more. -/
theorem realises_unsqueezeResults (hlegible : (m.unsqueezeResults first axes).Legible)
    (hlength : inputs.length = m.inputs.length) {o : Outcome (List Tensor)}
    (h : Realises Output.Are (m.run inputs) o) :
    Realises Output.Are ((m.unsqueezeResults first axes).run inputs) (do
      let ts ← o
      let us ← ((ts.drop first).zip axes).mapM fun entry =>
        .ofExcept (entry.1.unsqueeze entry.2)
      return ts.take first ++ us) := by
  rw [run_of_legible hlegible.of_unsqueezeResults hlength] at h
  rw [run_of_legible hlegible hlength]
  show Realises _ (m.valuesFrom inputs [] (m.nodes ++ _) >>= _) _
  rw [valuesFrom_append, bind_assoc]
  cases o with
  | unspecified => trivial
  | failed =>
      obtain ⟨e, hrun⟩ := h
      cases hdone : m.valuesFrom inputs [] m.nodes with
      | error e => exact ⟨e, rfl⟩
      | ok done =>
          rw [hdone] at hrun
          cases hrun
  | ok ts =>
      obtain ⟨output, hrun, hare⟩ := h
      obtain ⟨done, hdone, hreturns⟩ := Except.bind_eq_ok.1 hrun
      cases hreturns
      rw [Output.Are, operands_returns] at hare
      have hread := map_eq_map_iff_forall₂.1 hare
      have hcount : done.length = m.nodes.length := by
        obtain ⟨new, rfl, hnew⟩ := valuesFrom_extends hdone
        exact hnew
      rw [hdone]
      refine (realises_valuesFrom (forall₂_unsqueezes hread)).bind fun values us hus hvalues => ?_
      subst hvalues
      refine Realises.ok ?_
      have huslength : us.length = ((m.results.refs.drop first).zip axes).length := by
        have hlengths := (Outcome.mapM_eq_ok.1 hus).length_eq
        rw [← hlengths, List.length_zip, List.length_zip, List.length_drop, List.length_drop,
          hread.length_eq]
      rw [Output.Are, operands_returns]
      show (m.results.refs.take first ++ (List.range _).map _).map _ = _
      rw [List.map_append, List.map_append, List.length_map, ← huslength]
      congr 1
      · refine map_eq_map_iff_forall₂.2 ((List.forall₂_take first hread).imp fun ref t hvalue => ?_)
        rw [value_append hvalue]
        rfl
      · rw [List.map_map]
        refine map_range_eq_map fun i u hu => ?_
        show (Ref.value inputs (done ++ us.map Value.ofTensor) (.node (m.nodes.length + i))).operand
          = some u
        rw [Ref.value, List.getD_eq_getElem?_getD, List.getElem?_append_right (by omega), hcount,
          Nat.add_sub_cancel_left, List.getElem?_map, hu]
        rfl

end

end ModuleOf

end OnnxLowering
