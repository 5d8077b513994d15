/-
The body of the loop that a scan becomes. `lifts_loopBody` says that it
does on slices what the module of the scan's body does on elements, if
no parameter hides the library that the new nodes refer to; with such a
parameter it never returns (`run_loopBody_ne_ok`). The axes are those of
the node, counted from the other end wherever a rank is known, so they
mean the same dimensions of all tensors that have the known ranks
(`cuts_of_fits`, `joins_of_fits`).
-/
import OnnxLowering.Proofs.Module.LoopBody
import OnnxLowering.Proofs.Scan.Loop

namespace OnnxLowering

-- ==================================================================== axes

/-- A tensor has the rank that it is known to have. -/
def KnownShape.Fits (known : Option KnownShape) (t : Tensor) : Prop :=
  ∀ dims, known = some dims → t.rank = dims.length

instance (known : Option KnownShape) (t : Tensor) : Decidable (KnownShape.Fits known t) :=
  match known with
  | none => isTrue fun _ h => nomatch h
  | some dims => decidable_of_iff (t.rank = dims.length)
      ⟨fun h _ hdims => Option.some.inj hdims ▸ h, fun h => h dims rfl⟩

/-- A tensor has the rank that it is known to have, if an axis counts from
the end. -/
def KnownShape.FitsAt (entry : Option KnownShape × Int) (t : Tensor) : Prop :=
  entry.2 < 0 → KnownShape.Fits entry.1 t

theorem resolveAxis_normalizeAxis {description : String} {axis axis' : Int} {rank : Nat}
    (h : normalizeAxis description axis rank = .ok axis') :
    Tensor.resolveAxis rank axis = Tensor.resolveAxis rank axis' := by
  unfold normalizeAxis at h
  split at h
  · next hrange =>
      cases h
      unfold Tensor.resolveAxis
      simp only [Bool.and_eq_true, decide_eq_true_eq] at hrange
      rw [if_pos (by simp only [Bool.and_eq_true, decide_eq_true_eq]; omega)]
      by_cases hneg : axis < 0
      · simp only [if_pos hneg]
        rw [if_pos (by simp only [Bool.and_eq_true, decide_eq_true_eq]; omega),
          if_neg (by omega)]
      · simp only [if_neg hneg]
        rw [if_pos (by simp only [Bool.and_eq_true, decide_eq_true_eq]; omega)]
  · cases h

namespace Handler

/-- An axis that is made positive means the same. -/
theorem resolveAxis_normalizeAxis_of_fits {description : String} {dims : KnownShape}
    {axis axis' : Int} {rank : Nat} (extra : Nat)
    (h : normalizeAxis description axis (dims.length + extra) = .ok axis')
    (hfits : axis < 0 → rank = dims.length) :
    Tensor.resolveAxis (rank + extra) axis = Tensor.resolveAxis (rank + extra) axis' := by
  by_cases hnegative : axis < 0
  · rw [hfits hnegative]
    exact resolveAxis_normalizeAxis (by exact_mod_cast h)
  · unfold normalizeAxis at h
    split at h
    · cases h
      rfl
    · cases h

/-- The axis of a scan input means the same as that of the node. -/
theorem resolveAxis_sliceAxis {description : String} {known known' : Option KnownShape}
    {axis axis' : Int} {t : Tensor}
    (h : sliceAxis description known axis = .ok (axis', known'))
    (hfits : KnownShape.FitsAt (known, axis) t) :
    Tensor.resolveAxis t.rank axis = Tensor.resolveAxis t.rank axis' := by
  cases known with
  | none =>
      cases h
      rfl
  | some dims =>
      obtain ⟨normal, hnormal, h⟩ := Except.bind_eq_ok.1 h
      cases h
      exact resolveAxis_normalizeAxis_of_fits 0 (by simpa using hnormal)
        fun hnegative => hfits hnegative dims rfl

/-- The axis of a scan output means the same as that of the node. -/
theorem resolveAxis_joinAxis {description : String} {known : Option KnownShape}
    {axis axis' : Int} {t : Tensor} (h : joinAxis description known axis = .ok axis')
    (hfits : KnownShape.FitsAt (known, axis) t) :
    Tensor.resolveAxis (t.rank + 1) axis = Tensor.resolveAxis (t.rank + 1) axis' := by
  cases known with
  | none =>
      cases h
      rfl
  | some dims =>
      exact resolveAxis_normalizeAxis_of_fits 1 h fun hnegative => hfits hnegative dims rfl

end Handler

-- =============================================================== loop body

namespace ModuleOf

/-- What is known of the inputs besides their names does not matter. -/
theorem run_withInputs {m : ModuleOf Meaning} {inputs : List Input}
    (h : inputs.map Input.name = m.inputs.map Input.name) (arguments : List Operand) :
    ({ m with inputs } : ModuleOf Meaning).run arguments = m.run arguments := by
  have hlength : inputs.length = m.inputs.length := by
    rw [← List.length_map (f := Input.name), h, List.length_map]
  unfold run evalNodes argument?
  simp only [hlength, h]
  rfl

/-- The module with squeezed inputs and unsqueezed results, and with
other labels on its inputs. -/
def loopBody {L : Type} (m : ModuleOf L) (inputs : List Input) (first : Nat)
    (inAxes outAxes : List Int) : ModuleOf L :=
  (({ m with inputs } : ModuleOf L).squeezeInputs first inAxes).unsqueezeResults first outAxes

variable {m : ModuleOf Meaning} {inputs : List Input} {first : Nat} {inAxes outAxes : List Int}

/-- The new nodes refer to nothing but the library. -/
theorem mem_words_loopBody {node : Node} {word : String}
    (hnode : node ∈ (m.loopBody inputs first inAxes outAxes).nodes)
    (hword : word ∈ node.action.words) :
    word = Reserved.library ∨ ∃ node ∈ m.nodes, word ∈ node.action.words := by
  rcases List.mem_append.1 hnode with hnode | hnode
  · rcases List.mem_append.1 hnode with hnode | hnode
    · obtain ⟨_, -, rfl⟩ := List.mem_map.1 hnode
      exact Or.inl (List.mem_singleton.1 hword)
    · obtain ⟨inner, hinner, rfl⟩ := List.mem_map.1 hnode
      refine Or.inr ⟨inner, hinner, ?_⟩
      cases haction : inner.action with
      | apply op refs =>
          rw [haction] at hword
          exact hword
      | _ =>
          rw [haction] at hword
          cases hword
  · obtain ⟨_, -, rfl⟩ := List.mem_map.1 hnode
    exact Or.inl (List.mem_singleton.1 hword)

theorem Legible.loopBody (h : m.Legible)
    (hnames : inputs.map Input.name = m.inputs.map Input.name)
    (hlibrary : Reserved.library ∉ m.parameters) :
    (m.loopBody inputs first inAxes outAxes).Legible where
  sources := by
    show Arguments.sources (inputs.map Input.name) = List.range inputs.length
    rw [hnames, ← List.length_map (f := Input.name), hnames, List.length_map]
    exact h.sources
  visible node hnode word hword := by
    show word ∉ inputs.map Input.name
    rw [hnames]
    rcases mem_words_loopBody hnode hword with rfl | ⟨inner, hinner, hword⟩
    · exact hlibrary
    · exact h.visible inner hinner word hword

/-- With a parameter that hides the library nothing can be squeezed. -/
theorem run_loopBody_ne_ok (hnames : inputs.map Input.name = m.inputs.map Input.name)
    (hlibrary : Reserved.library ∈ m.parameters) (haxes : inAxes ≠ [])
    (arguments : List Operand) (output : Output) :
    (m.loopBody inputs first inAxes outAxes).run arguments ≠ .ok output := by
  obtain ⟨axis, axes, rfl⟩ := List.exists_cons_of_ne_nil haxes
  have hmem : Reserved.library ∈ (m.loopBody inputs first (axis :: axes) outAxes).parameters := by
    show Reserved.library ∈ inputs.map Input.name
    rw [hnames]
    exact hlibrary
  exact run_ne_ok_of_hidden List.mem_cons_self List.mem_cons_self hmem arguments output

/-- The slices behind the states are squeezed to the elements. -/
theorem squeezes_operands {states parts outer elements : List Tensor}
    (hparts : parts.length = inAxes.length)
    (h : List.Forall₂ (fun entry element => Tensor.squeeze entry.1 entry.2 = .ok element)
      (parts.zip inAxes) elements) :
    Squeezes states.length inAxes (Handler.ScanPlan.operands states parts outer) elements := by
  refine forall₂_of_getElem? ?_ fun j entry element hentry helement => ?_
  · rw [List.length_zipIdx, ← h.length_eq, List.length_zip, hparts, Nat.min_self]
  · rw [List.getElem?_zipIdx, Option.map_eq_some_iff] at hentry
    obtain ⟨axis, haxis, rfl⟩ := hentry
    obtain ⟨part, hpart⟩ : ∃ part, parts[j]? = some part :=
      ⟨_, List.getElem?_eq_getElem (hparts ▸ (List.getElem?_eq_some_iff.1 haxis).1)⟩
    have hentry : (parts.zip inAxes)[j]? = some (part, axis) :=
      List.getElem?_zip_eq_some.2 ⟨hpart, haxis⟩
    refine ⟨part, ?_, getElem?_forall₂ h hentry helement⟩
    rw [Nat.zero_add]
    exact Handler.ScanPlan.getElem?_operands_scan hpart

/-- The elements in the place of the slices. -/
theorem splice_operands {states parts outer elements : List Tensor}
    (h : parts.length = elements.length) :
    splice states.length (elements.map some) (Handler.ScanPlan.operands states parts outer)
      = Handler.ScanPlan.operands states elements outer := by
  have hmiddle := splice_middle (states.map some) (parts.map some) (outer.map some)
    (elements.map some) (by rw [List.length_map, List.length_map, h])
  rw [List.length_map] at hmiddle
  rw [Handler.ScanPlan.operands, Handler.ScanPlan.operands, List.map_append, List.map_append,
    List.map_append, List.map_append, hmiddle]

/-- The loop's body does on slices what the module does on elements. -/
theorem lifts_loopBody {plan : Handler.ScanPlan} {outer : List Tensor}
    {body : Handler.ScanPlan.Body} (h : m.Legible)
    (hnames : inputs.map Input.name = m.inputs.map Input.name)
    (hlibrary : Reserved.library ∉ m.parameters)
    (hcount : m.inputs.length = plan.states + inAxes.length + outer.length)
    (hbody : ∀ states elements : List Tensor, states.length = plan.states →
      elements.length = inAxes.length →
      Realises Output.Are (m.run (Handler.ScanPlan.operands states elements outer))
        (body (states ++ elements))) :
    plan.Lifts inAxes outAxes outer (fun arguments =>
      ((m.loopBody inputs plan.states inAxes outAxes).run arguments).map Output.operands) body := by
  intro states parts elements hstates hparts hsqueeze
  have hlegible : (m.loopBody inputs plan.states inAxes outAxes).Legible :=
    h.loopBody hnames hlibrary
  have hinputs : inputs.length = m.inputs.length := by
    rw [← List.length_map (f := Input.name), hnames, List.length_map]
  have helements : elements.length = inAxes.length := by
    rw [← hsqueeze.length_eq, List.length_zip, hparts, Nat.min_self]
  have hlength : (Handler.ScanPlan.operands states parts outer).length = inputs.length := by
    rw [hinputs, hcount, Handler.ScanPlan.operands, List.length_map, List.length_append,
      List.length_append, hstates, hparts]
  have hsqueezes := @squeezes_operands inAxes states parts outer elements hparts hsqueeze
  have hspliced := @splice_operands states parts outer elements (hparts.trans helements.symm)
  rw [hstates] at hsqueezes hspliced
  have hbound : plan.states + inAxes.length
      ≤ (Handler.ScanPlan.operands states parts outer).length := by
    rw [hlength, hinputs, hcount]
    omega
  have hrun := run_squeezeInputs hlegible.of_unsqueezeResults hlength hbound hsqueezes
  rw [hspliced, run_withInputs hnames] at hrun
  have hbody := hbody states elements hstates helements
  rw [← hrun] at hbody
  exact (realises_unsqueezeResults hlegible hlength hbody).map_left fun _ _ h => h

-- ================================================================= shapes

section

variable {L : Type} {m : ModuleOf L}

/-- The inputs after those from number `k` on have been given shapes. -/
theorem getElem?_setInputShapes (known : List (Option KnownShape)) (k i : Nat) :
    ((known.zipIdx k).foldl (fun m (shape, i) => m.setInputShape i shape) m).inputs[i]?
      = m.inputs[i]?.map fun input =>
          match (if k ≤ i then known[i - k]? else none) with
          | some shape => { input with label := { input.label with shape := some shape } }
          | none => input := by
  induction known generalizing m k with
  | nil =>
      rw [List.zipIdx_nil, List.foldl_nil, List.getElem?_nil, ite_self]
      exact Option.map_id'.symm
  | cons shape rest ih =>
      rw [List.zipIdx_cons, List.foldl_cons, ih]
      unfold setInputShape
      rw [List.getElem?_modify]
      cases m.inputs[i]? with
      | none => rfl
      | some input =>
          by_cases hlt : i < k
          · simp only [Option.map_eq_map, Option.map_some]
            rw [if_neg (by omega), if_neg (by omega), if_neg (by omega)]
          · by_cases heq : k = i
            · subst heq
              simp only [Option.map_eq_map, Option.map_some, Nat.sub_self, List.getElem?_cons_zero,
                if_true, Nat.le_refl, Nat.not_succ_le_self, if_false]
            · simp only [Option.map_eq_map, Option.map_some]
              rw [if_neg heq, if_pos (by omega), if_pos (by omega),
                show i - k = i - (k + 1) + 1 by omega, List.getElem?_cons_succ]

/-- The label of a value after the inputs from `first` on have been
squeezed. -/
theorem label_squeezed (first : Nat) (axes : List Int) (ref : Ref) :
    (m.squeezeInputs first axes).label (squeezed first axes.length ref)
      = match ref with
        | .input i => if first ≤ i ∧ i < first + axes.length then {} else m.label (.input i)
        | .node i => m.label (.node i) := by
  cases ref with
  | node i =>
      show ((_ ++ m.nodes.map _)[i + axes.length]?.map Node.label).getD {} = _
      rw [List.getElem?_append_right (by rw [List.length_map, List.length_zipIdx]; omega),
        List.length_map, List.length_zipIdx, Nat.add_sub_cancel, List.getElem?_map, Option.map_map]
      rfl
  | input i =>
      show (m.squeezeInputs first axes).label (if _ then _ else _) = if _ then _ else _
      by_cases hwithin : first ≤ i ∧ i < first + axes.length
      · rw [if_pos hwithin, if_pos hwithin]
        show ((_ ++ m.nodes.map _)[i - first]?.map Node.label).getD {} = _
        rw [List.getElem?_append_left (by rw [List.length_map, List.length_zipIdx]; omega),
          List.getElem?_map, List.getElem?_zipIdx, List.getElem?_eq_getElem (by omega)]
        rfl
      · rw [if_neg hwithin, if_neg hwithin]
        rfl

end

end ModuleOf

namespace Handler

/-- What is known of the shape of a result of the body of a scan: of a
state what is known of its first value, and nothing of an element. -/
def ScanPlan.resultShape (plan : ScanPlan) (shapes : List (Option KnownShape)) (body : Module) :
    Ref → Option KnownShape
  | .node i => (body.label (.node i)).shape.join
  | .input i =>
      if i < plan.states then body.inputs[i]?.bind fun _ => shapes.getD i none
      else if i < plan.inputCount then none
      else (body.label (.input i)).shape.join

variable {description : String} {plan : ScanPlan} {body : Module}
  {shapes : List (Option KnownShape)}

theorem shape_label_squeezed {slices : List (Int × Option KnownShape)} {inputs : List Input}
    (hshapes : shapes.length = plan.inputCount) (hslices : slices.length = plan.inputAxes.length)
    (hinputs : ((shapes.take plan.states ++ slices.map Prod.snd).zipIdx.foldl
      (fun m (shape, i) => m.setInputShape i shape) body) = { body with inputs }) (ref : Ref) :
    ((({ body with inputs } : Module).squeezeInputs plan.states (slices.map Prod.fst)).label
        (ModuleOf.squeezed plan.states (slices.map Prod.fst).length ref)).shape.join
      = plan.resultShape shapes body ref := by
  rw [ModuleOf.label_squeezed]
  cases ref with
  | node i => rfl
  | input i =>
      have hat : inputs[i]? = _ := congrArg (·.inputs[i]?) hinputs.symm
      rw [ModuleOf.getElem?_setInputShapes, if_pos (Nat.zero_le i), Nat.sub_zero] at hat
      have htake : (shapes.take plan.states).length = plan.states := by
        rw [List.length_take, hshapes, ScanPlan.inputCount]
        omega
      show (if _ then _ else _ : Label).shape.join = if _ then _ else _
      rw [List.length_map, hslices]
      by_cases hstate : i < plan.states
      · rw [if_neg (by omega), if_pos hstate]
        show ((inputs[i]?.map Input.label).getD {}).shape.join = _
        rw [hat, List.getElem?_append_left (by omega), List.getElem?_take_of_lt hstate]
        have hi : i < shapes.length := by
          rw [hshapes, ScanPlan.inputCount]
          omega
        rw [List.getElem?_eq_getElem hi, List.getD_eq_getElem?_getD, List.getElem?_eq_getElem hi]
        cases body.inputs[i]? <;> rfl
      · rw [if_neg hstate]
        by_cases helement : i < plan.inputCount
        · rw [if_pos helement, if_pos ⟨by omega, helement⟩]
          rfl
        · rw [if_neg helement, if_neg (by rw [ScanPlan.inputCount] at helement; omega)]
          show ((inputs[i]?.map Input.label).getD {}).shape.join = _
          rw [hat, List.getElem?_eq_none (by
            rw [List.length_append, htake, List.length_map, hslices, ← ScanPlan.inputCount]
            omega)]
          show _ = ((body.inputs[i]?.map Input.label).getD {}).shape.join
          cases body.inputs[i]? <;> rfl

/-- What becomes of the body and of the axes. -/
theorem scanBody_eq_ok {loopModule : Module} {plan' : ScanPlan}
    (hshapes : shapes.length = plan.inputCount)
    (h : scanBody description plan body shapes = .ok (loopModule, plan')) :
    ∃ inputs inAxes outAxes, inputs.map Input.name = body.inputs.map Input.name
      ∧ loopModule = body.loopBody inputs plan.states inAxes outAxes
      ∧ plan' = plan.withAxes inAxes outAxes
      ∧ List.Forall₂ (fun entry axis => ∃ known,
          sliceAxis description entry.1 entry.2 = .ok (axis, known))
        ((shapes.drop plan.states).zip plan.inputAxes) inAxes
      ∧ List.Forall₂ (fun entry axis =>
          joinAxis description (plan.resultShape shapes body entry.1) entry.2 = .ok axis)
        ((body.results.refs.drop plan.states).zip plan.outputAxes) outAxes := by
  obtain ⟨slices, hslices, h⟩ := Except.bind_eq_ok.1 h
  obtain ⟨outAxes, houtAxes, h⟩ := Except.bind_eq_ok.1 h
  obtain ⟨inputs, hinputs, hnames⟩ := body.exists_setInputShapes
    (shapes.take plan.states ++ slices.map Prod.snd).zipIdx
  cases h
  replace hslices := Except.mapM_eq_ok.1 hslices
  have hlength : slices.length = plan.inputAxes.length := by
    rw [← hslices.length_eq, List.length_zip, List.length_drop, hshapes, ScanPlan.inputCount]
    omega
  refine ⟨inputs, slices.map Prod.fst, outAxes, hnames, ?_, rfl, ?_, ?_⟩
  · rw [hinputs]
    rfl
  · rw [List.forall₂_map_right_iff]
    exact hslices.imp fun entry slice hslice => ⟨slice.2, hslice⟩
  · rw [hinputs] at houtAxes
    have hrefs : (({ body with inputs } : Module).squeezeInputs plan.states
          (slices.map Prod.fst)).results.refs
        = body.results.refs.map
          (ModuleOf.squeezed plan.states (slices.map Prod.fst).length) := by
      show (body.results.map _).refs = _
      cases body.results <;> rfl
    rw [hrefs, ← List.map_drop, List.zip_map_left] at houtAxes
    replace houtAxes := List.forall₂_map_left_iff.1 (Except.mapM_eq_ok.1 houtAxes)
    refine houtAxes.imp fun entry axis haxis => ?_
    rw [← shape_label_squeezed hshapes hlength hinputs]
    exact haxis

/-- Where the scan inputs have the ranks that they are known to have, as
far as axes count from the end, the axes of the loop mean the same as
those of the node. -/
theorem ScanPlan.cuts_of_fits {inAxes : List Int} {scans : List Tensor}
    (hslices : List.Forall₂ (fun entry axis => ∃ known,
        sliceAxis description entry.1 entry.2 = .ok (axis, known))
      ((shapes.drop plan.states).zip plan.inputAxes) inAxes)
    (hfits : List.Forall₂ KnownShape.FitsAt ((shapes.drop plan.states).zip plan.inputAxes) scans) :
    plan.Cuts inAxes scans :=
  forall₂_zip_left hslices hfits fun _ _ _ _ ⟨_, hslice⟩ hfits => resolveAxis_sliceAxis hslice hfits

/-- Where the values have the ranks that the results of the body are
known to have, the axes of the loop mean the same as those of the
node. -/
theorem ScanPlan.joins_of_fits {outAxes : List Int} {row : List Tensor}
    (houtAxes : List.Forall₂ (fun entry axis =>
        joinAxis description (plan.resultShape shapes body entry.1) entry.2 = .ok axis)
      ((body.results.refs.drop plan.states).zip plan.outputAxes) outAxes)
    (hfits : List.Forall₂ (fun entry value =>
        KnownShape.FitsAt (plan.resultShape shapes body entry.1, entry.2) value)
      ((body.results.refs.drop plan.states).zip plan.outputAxes) row) :
    plan.Joins outAxes row :=
  forall₂_zip_left houtAxes hfits fun _ _ _ _ hjoin hfits => resolveAxis_joinAxis hjoin hfits

-- ================================================================= meaning

section

variable {loopModule : Module} {plan' : ScanPlan} {states scans outer : List Tensor}
  {function : ScanPlan.Body}

/-- The module of a body becomes that of a loop that carries out the
scan. -/
theorem carriesOut_scanBody (hshapes : shapes.length = plan.inputCount)
    (h : scanBody description plan body shapes = .ok (loopModule, plan'))
    (hinDirections : plan.inputDirections.length = plan.inputAxes.length)
    (houtDirections : plan.outputDirections.length = plan.outputAxes.length)
    (hresults : body.results.refs.length = plan.states + plan.outputAxes.length)
    (hcount : body.inputs.length = plan.inputCount + outer.length)
    (hlegible : body.Legible) (hlibrary : Reserved.library ∉ body.parameters)
    (hstates : states.length = plan.states)
    (hfits : List.Forall₂ KnownShape.FitsAt ((shapes.drop plan.states).zip plan.inputAxes) scans)
    (hbody : ∀ states elements : List Tensor, states.length = plan.states →
      elements.length = plan.inputAxes.length →
      Realises Output.Are (body.eval (ScanPlan.operands states elements outer))
        (function (states ++ elements)))
    (hvalues : ∀ xs values, function xs = .ok values →
      values.length = plan.states + plan.outputAxes.length
        ∧ List.Forall₂ (fun entry value =>
            KnownShape.FitsAt (plan.resultShape shapes body entry.1, entry.2) value)
          ((body.results.refs.drop plan.states).zip plan.outputAxes) (values.drop plan.states)) :
    ∃ inputs inAxes outAxes, inputs.map Input.name = body.inputs.map Input.name
      ∧ loopModule = body.loopBody inputs plan.states inAxes outAxes
      ∧ plan' = plan.withAxes inAxes outAxes
      ∧ List.Forall₂ (fun entry axis => ∃ known,
          sliceAxis description entry.1 entry.2 = .ok (axis, known))
        ((shapes.drop plan.states).zip plan.inputAxes) inAxes
      ∧ plan.CarriesOut inAxes outAxes states scans outer
        (fun arguments => (loopModule.eval arguments).map Output.operands) function := by
  obtain ⟨inputs, inAxes, outAxes, hnames, rfl, rfl, hslices, houtAxes⟩ := scanBody_eq_ok hshapes h
  have hscans : scans.length = plan.inputAxes.length := by
    rw [← hfits.length_eq, List.length_zip, List.length_drop, hshapes, ScanPlan.inputCount]
    omega
  have hinLength : inAxes.length = plan.inputAxes.length := by
    rw [← hslices.length_eq, hfits.length_eq, hscans]
  have houtLength : outAxes.length = plan.outputAxes.length := by
    rw [← houtAxes.length_eq, List.length_zip, List.length_drop, hresults]
    omega
  have hlegible' : (body.map Loop.meaning).Legible := ⟨hlegible.sources, hlegible.visible⟩
  have hcount' : (body.map Loop.meaning).inputs.length
      = plan.states + inAxes.length + outer.length := by
    rw [hinLength]
    exact hcount
  have hlifts : plan.Lifts inAxes outAxes outer (fun arguments =>
      (((body.map Loop.meaning).loopBody inputs plan.states inAxes outAxes).run arguments).map
        Output.operands) function :=
    ModuleOf.lifts_loopBody hlegible' hnames hlibrary hcount' fun states elements hstates helements =>
      hbody states elements hstates (helements.trans hinLength)
  exact ⟨inputs, inAxes, outAxes, hnames, rfl, rfl, hslices, hstates, hscans, hinDirections, houtLength,
    houtDirections, ScanPlan.cuts_of_fits hslices hfits, hlifts, fun xs values hxs =>
      ⟨(hvalues xs values hxs).1, ScanPlan.joins_of_fits houtAxes (hvalues xs values hxs).2⟩⟩

/-- A loop does what the scan means that it carries out. -/
theorem ScanPlan.CarriesOut.realises_meaning {inAxes outAxes : List Int}
    (h : plan.CarriesOut inAxes outAxes states scans outer
      (fun arguments => (loopModule.eval arguments).map Output.operands) function) :
    Realises (fun outputs ts => outputs = ts.map some)
      ((Loop.mk ((plan.withAxes inAxes outAxes).wiring outer.length)
          ((plan.withAxes inAxes outAxes).inputCount + outer.length) loopModule).meaning
        (ScanPlan.operands states scans outer))
      (plan.run function (states ++ scans)) := by
  have hinputCount : (plan.withAxes inAxes outAxes).inputCount = plan.inputCount := by
    have hlength := h.cuts.length_eq
    rw [List.length_zip, h.scanCount, Nat.min_self] at hlength
    exact congrArg (plan.states + ·) hlength.symm
  unfold Loop.meaning
  rw [Loop.fold_mk, hinputCount]
  exact h.realises_run

/-- The loop that a scan becomes does what the scan means. -/
theorem realises_meaning_scanBody (hshapes : shapes.length = plan.inputCount)
    (h : scanBody description plan body shapes = .ok (loopModule, plan'))
    (hinDirections : plan.inputDirections.length = plan.inputAxes.length)
    (houtDirections : plan.outputDirections.length = plan.outputAxes.length)
    (hresults : body.results.refs.length = plan.states + plan.outputAxes.length)
    (hcount : body.inputs.length = plan.inputCount + outer.length)
    (hlegible : body.Legible) (hlibrary : Reserved.library ∉ body.parameters)
    (hstates : states.length = plan.states)
    (hfits : List.Forall₂ KnownShape.FitsAt ((shapes.drop plan.states).zip plan.inputAxes) scans)
    (hbody : ∀ states elements : List Tensor, states.length = plan.states →
      elements.length = plan.inputAxes.length →
      Realises Output.Are (body.eval (ScanPlan.operands states elements outer))
        (function (states ++ elements)))
    (hvalues : ∀ xs values, function xs = .ok values →
      values.length = plan.states + plan.outputAxes.length
        ∧ List.Forall₂ (fun entry value =>
            KnownShape.FitsAt (plan.resultShape shapes body entry.1, entry.2) value)
          ((body.results.refs.drop plan.states).zip plan.outputAxes) (values.drop plan.states)) :
    Realises (fun outputs ts => outputs = ts.map some)
      ((Loop.mk (plan'.wiring outer.length) (plan'.inputCount + outer.length) loopModule).meaning
        (ScanPlan.operands states scans outer))
      (plan.run function (states ++ scans)) := by
  obtain ⟨inputs, inAxes, outAxes, -, -, rfl, -, hcarries⟩ := carriesOut_scanBody hshapes h hinDirections
    houtDirections hresults hcount hlegible hlibrary hstates hfits hbody hvalues
  exact hcarries.realises_meaning

end

end Handler

end OnnxLowering
