/-
The labels in the body of the loop that a scan becomes. They are those of
the module of the scan's body, but for its own inputs: a state has what is
known of its first value, and a scan input is a slice, of size one along
its axis. They hold in every run of the loop's body if those of the module
hold on the elements, and if what is known of the states stays true
(`Scanned.labelsHold`).
-/
import OnnxLowering.Proofs.Module.Labels
import OnnxLowering.Proofs.Scan.Simulation

namespace OnnxLowering

-- ================================================================== slices

/-- A slice has its own length along its axis. -/
theorem Tensor.shape_narrow {t part : Tensor} {axis start : Int} {length k : Nat}
    (hk : resolveAxis t.rank axis = .ok k) (h : t.narrow axis start length = .ok part) :
    part.shape = t.shape.set k length := by
  simp only [narrow, hk, bind, Except.bind, pure, Except.pure] at h
  repeat'
    split at h
    all_goals first | cases h | skip
  all_goals rfl

/-- What is known of a tensor is known of its slices, which have the size
one along their axis. -/
theorem KnownShape.Matches.slice {known : KnownShape} {t part : Tensor} {k : Nat}
    (h : known.Matches t) (hshape : part.shape = t.shape.set k 1) :
    KnownShape.Matches (known.set k (some 1)) part := by
  unfold Matches at h ⊢
  rw [hshape]
  clear hshape
  generalize t.shape = sizes at h
  induction h generalizing k with
  | nil => exact .nil
  | @cons size? size known sizes hsize hrest ih =>
      cases k with
      | zero => exact .cons (fun s hs => (Option.some.inj hs).symm) hrest
      | succ k => exact .cons hsize ih

namespace Handler.ScanPlan

theorem shape_part_walk {t part : Tensor} {axis direction : Int} {step k : Nat}
    (hk : Tensor.resolveAxis t.rank axis = .ok k)
    (h : (walk axis direction).part t step = .ok part) : part.shape = t.shape.set k 1 := by
  obtain ⟨length, -, hnarrow⟩ := Except.bind_eq_ok.1 h
  rw [axis_walk, partSize_walk] at hnarrow
  exact Tensor.shape_narrow hk hnarrow

-- =================================================================== steps

variable {plan : ScanPlan} {inAxes outAxes : List Int} {states scans outer : List Tensor}
  {loopBody : Wiring.Body} {body : Body}

/-- A fold over numbers comes by each of them. -/
theorem exists_of_foldlM_range {σ : Type} {f : σ → Nat → Outcome σ} {s last : σ} {size step : Nat}
    (h : (List.range size).foldlM f s = .ok last) (hstep : step < size) :
    ∃ s₁ s₂, (List.range step).foldlM f s = .ok s₁ ∧ f s₁ step = .ok s₂ := by
  obtain ⟨rest, rfl⟩ := Nat.exists_eq_add_of_lt hstep
  rw [Nat.add_right_comm, List.range_add, List.range_succ, List.foldlM_append,
    List.foldlM_append] at h
  obtain ⟨s₂, h, -⟩ := Outcome.bind_eq_ok.1 h
  obtain ⟨s₁, hbefore, h⟩ := Outcome.bind_eq_ok.1 h
  rw [List.foldlM_cons] at h
  obtain ⟨s₂, hat, -⟩ := Outcome.bind_eq_ok.1 h
  exact ⟨s₁, s₂, hbefore, hat⟩

/-- What a loop that carries out a scan hands to its body are the states
and slices of a step. Without their dimension the slices are the elements
that the scan hands to what it iterates, and either returns. -/
theorem CarriesOut.exists_of_hands
    (h : CarriesOut plan inAxes outAxes states scans outer loopBody body) {ts : List Tensor}
    (hrun : plan.run body (states ++ scans) = .ok ts) {arguments : List Operand}
    (hhands : ((plan.withAxes inAxes outAxes).wiring outer.length).Hands
      (plan.inputCount + outer.length) loopBody (operands states scans outer) arguments) :
    ∃ ks size step held parts, Reads plan inAxes scans ks size
      ∧ held.length = plan.states ∧ Parts plan inAxes scans ks size step parts
      ∧ arguments = operands held parts outer
      ∧ plan.Hands body (states ++ scans) (held ++ plan.elements scans ks size step)
      ∧ (∃ values, body (held ++ plan.elements scans ks size step) = .ok values)
      ∧ ∃ outputs, loopBody arguments = .ok outputs := by
  unfold run at hrun
  unfold Hands
  rw [List.drop_left' h.stateCount, List.take_left' h.stateCount] at hrun ⊢
  obtain ⟨haddressable, hrun⟩ := Outcome.require_bind_eq_ok.1 hrun
  obtain ⟨ks, hks, hrun⟩ := Outcome.bind_eq_ok.1 hrun
  obtain ⟨size, hsize, hrun⟩ := Outcome.bind_eq_ok.1 hrun
  obtain ⟨last, hlast, -⟩ := Outcome.bind_eq_ok.1 hrun
  obtain ⟨first, count, step, state, hstart, hcount, hstep, hiterate, hfeed⟩ := hhands
  cases hstart.symm.trans h.start_eq_ok
  obtain ⟨ks', hks', hcount⟩ :=
    (iterations_eq_ok h.stateCount h.scanCount h.inputDirections h.cuts).1 hcount
  cases hks.symm.trans hks'
  cases hsize.symm.trans hcount
  have hreads := Reads.of_cuts h.scanCount h.inputDirections h.cuts haddressable hks hsize
  obtain ⟨progress, next, hprogress, hadvance⟩ := exists_of_foldlM_range hlast hstep
  have htracks := h.realises_iterate hreads (Nat.le_of_lt hstep)
  rw [hprogress] at htracks
  obtain ⟨state', hiterate', htracks⟩ := htracks
  cases hiterate.symm.trans hiterate'
  obtain ⟨parts, hparts, hfed⟩ := htracks.feed_eq_ok h.stateCount h.scanCount hreads hstep
  cases hfeed.symm.trans hfed
  obtain ⟨values, hvalues, -⟩ := Outcome.bind_eq_ok.1 (id hadvance)
  have hstepped := realises_step h.stateCount h.scanCount h.axisCount h.outputDirections hreads h.lifts
    h.joins hstep htracks
  rw [hadvance] at hstepped
  obtain ⟨state'', hstepped, -⟩ := hstepped
  obtain ⟨arguments, hfed', hstepped⟩ := Except.bind_eq_ok.1 hstepped
  cases hfed.symm.trans hfed'
  obtain ⟨outputs, houtputs, -⟩ := Except.bind_eq_ok.1 hstepped
  exact ⟨ks, size, step, progress.states, parts, hreads, htracks.length, hparts, rfl,
    ⟨ks, size, step, progress, hks, hsize, hstep, hprogress, rfl⟩, ⟨values, hvalues⟩, outputs, houtputs⟩

end Handler.ScanPlan

-- ================================================================== inputs

namespace Handler

variable {description : String} {plan plan' : ScanPlan} {body loopModule : Module}
  {shapes : List (Option KnownShape)}

/-- What is known of an input of the loop's body: of a state what is known
of its first value, and of a slice what is known of the scan input. -/
def ScanPlan.inputShape (plan : ScanPlan) (inAxes : List Int) (shapes : List (Option KnownShape))
    (body : Module) (i : Nat) : Option KnownShape :=
  if i < plan.states then shapes.getD i none
  else if i < plan.states + inAxes.length then
    (shapes.getD i none).map (·.set (inAxes.getD (i - plan.states) 0).toNat (some 1))
  else (body.label (.input i)).shape.join

theorem known_of_sliceAxis {known known' : Option KnownShape} {axis axis' : Int}
    (h : sliceAxis description known axis = .ok (axis', known')) :
    known' = known.map (·.set axis'.toNat (some 1)) := by
  cases known with
  | none =>
      cases h
      rfl
  | some dims =>
      obtain ⟨normal, -, h⟩ := Except.bind_eq_ok.1 h
      cases h
      rfl

theorem shape_label_scanBody (hshapes : shapes.length = plan.inputCount)
    (h : scanBody description plan body shapes = .ok (loopModule, plan')) {i : Nat}
    (hi : i < body.inputs.length) :
    (loopModule.label (.input i)).shape.join = plan.inputShape plan'.inputAxes shapes body i := by
  obtain ⟨slices, hslices, h⟩ := Except.bind_eq_ok.1 h
  obtain ⟨outAxes, -, h⟩ := Except.bind_eq_ok.1 h
  replace hslices := Except.mapM_eq_ok.1 hslices
  have hlength : slices.length = plan.inputAxes.length := by
    rw [← hslices.length_eq, List.length_zip, List.length_drop, hshapes, ScanPlan.inputCount]
    omega
  have htake : (shapes.take plan.states).length = plan.states := by
    rw [List.length_take, hshapes, ScanPlan.inputCount]
    omega
  have hat := @ModuleOf.getElem?_setInputShapes _ body
    (shapes.take plan.states ++ slices.map Prod.snd) 0 i
  rw [if_pos (Nat.zero_le i), Nat.sub_zero, List.getElem?_eq_getElem hi] at hat
  cases h
  show ((((shapes.take plan.states ++ slices.map Prod.snd).zipIdx.foldl
    (fun m entry => ModuleOf.setInputShape m entry.2 entry.1) body).inputs[i]?.map
      Input.label).getD {}).shape.join = _
  rw [hat]
  unfold ScanPlan.inputShape
  by_cases hstate : i < plan.states
  · have hi' : i < shapes.length := by
      rw [hshapes, ScanPlan.inputCount]
      omega
    rw [if_pos hstate, List.getElem?_append_left (by omega), List.getElem?_take_of_lt hstate,
      List.getElem?_eq_getElem hi', List.getD_eq_getElem?_getD, List.getElem?_eq_getElem hi']
    rfl
  · rw [if_neg hstate, List.getElem?_append_right (by omega), htake]
    by_cases hslice : i < plan.states + plan.inputAxes.length
    · obtain ⟨j, rfl⟩ := Nat.exists_eq_add_of_le (Nat.le_of_not_lt hstate)
      have hj : j < slices.length := by omega
      have hshape : plan.states + j < shapes.length := by
        rw [hshapes, ScanPlan.inputCount]
        omega
      have haxis : j < plan.inputAxes.length := by omega
      have hentry : ((shapes.drop plan.states).zip plan.inputAxes)[j]?
          = some (shapes[plan.states + j], plan.inputAxes[j]) := by
        refine List.getElem?_zip_eq_some.2 ⟨?_, List.getElem?_eq_getElem haxis⟩
        rw [List.getElem?_drop, List.getElem?_eq_getElem hshape]
      have hknown := known_of_sliceAxis (getElem?_forall₂ hslices hentry (List.getElem?_eq_getElem hj))
      have hgiven : shapes.getD (plan.states + j) none = shapes[plan.states + j] := by
        rw [List.getD_eq_getElem?_getD, List.getElem?_eq_getElem hshape]
        rfl
      have hinAxes : (slices.map Prod.fst).getD j 0 = slices[j].1 := by
        rw [List.getD_eq_getElem?_getD, List.getElem?_map, List.getElem?_eq_getElem hj]
        rfl
      rw [if_pos (show _ < plan.states + (slices.map Prod.fst).length by
          rw [List.length_map, hlength]
          exact hslice),
        Nat.add_sub_cancel_left, List.getElem?_map, List.getElem?_eq_getElem hj, hgiven, hinAxes]
      exact hknown
    · rw [if_neg (show ¬ _ < plan.states + (slices.map Prod.fst).length by
          rw [List.length_map, hlength]
          exact hslice),
        List.getElem?_eq_none (by rw [List.length_map]; omega)]
      show _ = ((body.inputs[i]?.map Input.label).getD {}).shape.join
      rw [List.getElem?_eq_getElem hi]
      rfl

end Handler

-- =============================================================== loop body

namespace ModuleOf

variable {m : Module} {inputs : List Input} {first : Nat} {inAxes outAxes : List Int}
  {arguments : List Operand} {elements : List Tensor}

/-- The nodes of a loop's body are the ones that squeeze its inputs, those
of the module that it is made of, and the ones that unsqueeze results. New
nodes have no labels. -/
theorem node_loopBody {i : Nat} {node : Node}
    (h : (m.loopBody inputs first inAxes outAxes).nodes[i]? = some node) :
    (node.label = {} ∧ ∃ op operands, node.action = .apply op operands)
      ∨ ∃ j old, i = j + inAxes.length ∧ m.nodes[j]? = some old
          ∧ node = ⟨old.action.map (squeezed first inAxes.length), old.label⟩ := by
  rcases getElem?_unsqueezeResults h with h | ⟨-, axis, ref, -, rfl⟩
  · rcases getElem?_squeezeInputs h with ⟨-, axis, rfl⟩ | ⟨j, old, hi, hold, hnode⟩
    · exact .inl ⟨rfl, _, _, rfl⟩
    · exact .inr ⟨j, old, hi, hold, hnode⟩
  · exact .inl ⟨rfl, _, _, rfl⟩

/-- In the body of a loop the elements come first, then what the nodes of
the module are on them, and then the unsqueezed results. -/
theorem exists_values_loopBody {done : List Value} {output : Output}
    (hlegible : (m.loopBody inputs first inAxes outAxes).Legible)
    (hcount : inputs.length = m.inputs.length) (hlength : arguments.length = m.inputs.length)
    (hbound : first + inAxes.length ≤ arguments.length)
    (hsqueezes : Squeezes first inAxes arguments elements)
    (hrun : (m.loopBody inputs first inAxes outAxes).eval arguments = .ok output)
    (hdone : (m.map Loop.meaning).valuesFrom (splice first (elements.map some) arguments) []
      m.nodes = .ok done) :
    ∃ all, ((m.loopBody inputs first inAxes outAxes).map Loop.meaning).valuesFrom arguments []
        (m.loopBody inputs first inAxes outAxes).nodes = .ok all
      ∧ ∀ ref : Ref, ref.Within m.inputs.length m.nodes.length →
          Ref.value arguments all (squeezed first inAxes.length ref)
            = Ref.value (splice first (elements.map some) arguments) done ref := by
  have haxes : inAxes.length = elements.length := by
    rw [← hsqueezes.length_eq, List.length_zipIdx]
  have hdoneLength : done.length = m.nodes.length := by
    obtain ⟨new, rfl, hnew⟩ := valuesFrom_extends hdone
    exact hnew
  have hfront := @valuesFrom_squeezeInputs (m.map Loop.meaning) first inAxes arguments elements
    hbound hsqueezes
  rw [show (m.map Loop.meaning).nodes = m.nodes from rfl, hdone] at hfront
  unfold eval at hrun
  rw [run_of_legible hlegible.map_meaning (hlength.trans hcount.symm)] at hrun
  obtain ⟨all, hall, -⟩ := Except.bind_eq_ok.1 hrun
  refine ⟨all, hall, fun ref href => ?_⟩
  replace hall : ((m.map Loop.meaning).squeezeInputs first inAxes).valuesFrom arguments []
    (((m.map Loop.meaning).squeezeInputs first inAxes).nodes ++ _) = .ok all := hall
  rw [valuesFrom_append, hfront] at hall
  obtain ⟨us, rfl, -⟩ := valuesFrom_extends hall
  rw [← value_squeezed haxes hbound]
  refine @Ref.Within.value_append _ m.inputs.length _ _ ?_ us
  rw [List.length_append, List.length_map, ← haxes, hdoneLength, Nat.add_comm]
  exact within_squeezed href

/-- The labels of a loop's body hold on slices, if they hold for its inputs
and those of the module that it is made of hold on the elements. -/
theorem LabelsHold.loopBody {output : Output} (h : m.LabelsHold (splice first (elements.map some)
      arguments)) (hlegible : m.Legible)
    (hlegible' : (m.loopBody inputs first inAxes outAxes).Legible) (hsound : m.Sound)
    (hcount : inputs.length = m.inputs.length) (hlength : arguments.length = m.inputs.length)
    (hbound : first + inAxes.length ≤ arguments.length)
    (hsqueezes : Squeezes first inAxes arguments elements)
    (hrun : (m.loopBody inputs first inAxes outAxes).eval arguments = .ok output)
    (hinputs : ∀ i < m.inputs.length, ((m.loopBody inputs first inAxes outAxes).label
      (.input i)).Holds (.one (arguments.getD i none))) :
    (m.loopBody inputs first inAxes outAxes).LabelsHold arguments := by
  have hsplice : (splice first (elements.map some) arguments).length = m.inputs.length := by
    rw [length_splice, hlength]
    rw [List.length_map, ← hsqueezes.length_eq, List.length_zipIdx]
    exact hbound
  obtain ⟨done, hdone⟩ := (labelsHold_iff hlegible hsplice).1 h
  obtain ⟨all, hall, hvalue⟩ := exists_values_loopBody hlegible' hcount hlength hbound hsqueezes hrun
    hdone.values
  refine (labelsHold_iff hlegible' (hlength.trans hcount.symm)).2 ⟨all, hall, ?_, ?_⟩
  · intro ref href
    cases ref with
    | input i => exact hinputs i (hcount ▸ href)
    | node i =>
        obtain ⟨new, hnode⟩ : ∃ new, (m.loopBody inputs first inAxes outAxes).nodes[i]? = some new :=
          ⟨_, List.getElem?_eq_getElem href⟩
        have hlabel : (m.loopBody inputs first inAxes outAxes).label (.node i) = new.label := by
          rw [label, hnode]
          rfl
        rw [hlabel]
        rcases node_loopBody hnode with ⟨hempty, -⟩ | ⟨j, old, rfl, hold, hsame⟩
        · rw [hempty]
          exact Label.holds_empty _
        · have hj : j < m.nodes.length := (List.getElem?_eq_some_iff.1 hold).1
          have holdLabel : m.label (.node j) = old.label := by
            rw [label, hold]
            rfl
          have hholds := hdone.labels (.node j) hj
          rw [← hvalue (.node j) hj, holdLabel] at hholds
          rw [hsame]
          exact hholds
  · intro node hnode name operands haction wiring arity body hloop xs hhands
    obtain ⟨i, hi⟩ := List.mem_iff_getElem?.1 hnode
    rcases node_loopBody hi with ⟨-, op, refs, hop⟩ | ⟨j, old, -, hold, rfl⟩
    · cases hop.symm.trans haction
    · obtain ⟨action, oldLabel⟩ := old
      cases action with
      | call name' refs =>
          cases haction
          refine hdone.loops _ (List.mem_of_getElem? hold) _ refs rfl wiring arity body hloop xs ?_
          rw [List.map_map] at hhands
          refine (congrArg (wiring.Hands arity body.body · xs) ?_).mp hhands
          refine List.map_congr_left fun ref href => ?_
          have hthere := hsound.operands j _ hold ref href
          exact congrArg Value.operand (hvalue ref (hthere.mono (Nat.le_refl _)
            (Nat.le_of_lt (List.getElem?_eq_some_iff.1 hold).1)))
      | _ => cases haction

end ModuleOf

-- =================================================================== scans

namespace Handler

variable {description : String} {plan plan' : ScanPlan} {body loopModule : Module}
  {shapes : List (Option KnownShape)} {inputs : List Input} {inAxes outAxes : List Int}
  {states scans outer : List Tensor} {function : ScanPlan.Body}

/-- An axis that is known to be one of a tensor is its number. -/
theorem eq_toNat_of_sliceAxis {dims : KnownShape} {axis axis' : Int} {known : Option KnownShape}
    {rank k : Nat} (h : sliceAxis description (some dims) axis = .ok (axis', known))
    (hk : Tensor.resolveAxis rank axis' = .ok k) : k = axis'.toNat := by
  obtain ⟨normal, hnormal, h⟩ := Except.bind_eq_ok.1 h
  cases h
  have hpositive : 0 ≤ axis' := by
    unfold normalizeAxis at hnormal
    split at hnormal
    · next hrange =>
        simp only [Bool.and_eq_true, decide_eq_true_eq] at hrange
        cases hnormal
        split <;> omega
    · cases hnormal
  unfold Tensor.resolveAxis at hk
  split at hk
  · cases hk
    rw [if_neg (by omega)]
  · cases hk

theorem exists_of_mem_getD {known : KnownShape} {shapes : List (Option KnownShape)} {i : Nat}
    (h : known ∈ shapes.getD i none) : shapes[i]? = some (some known) := by
  rw [List.getD_eq_getElem?_getD] at h
  cases hshape : shapes[i]? with
  | none =>
      rw [hshape] at h
      cases h
  | some shape =>
      rw [hshape] at h
      exact congrArg some h

/-- What is known of a scan input is known of a slice of it, but for the
axis. -/
theorem matches_part {ks : List Nat} {size step j : Nat} {parts : List Tensor} {part : Tensor}
    {dims : KnownShape} (hslices : List.Forall₂ (fun entry axis => ∃ known,
        sliceAxis description entry.1 entry.2 = .ok (axis, known))
      ((shapes.drop plan.states).zip plan.inputAxes) inAxes)
    (hreads : plan.Reads inAxes scans ks size) (hparts : plan.Parts inAxes scans ks size step parts)
    (hpart : parts[j]? = some part) (hdims : shapes[plan.states + j]? = some (some dims))
    (hscan : ∀ scan, scans[j]? = some scan → dims.Matches scan) :
    KnownShape.Matches (dims.set (inAxes.getD j 0).toNat (some 1)) part := by
  have hj : j < scans.length := hparts.length ▸ (List.getElem?_eq_some_iff.1 hpart).1
  obtain ⟨scan, hscan'⟩ : ∃ scan, scans[j]? = some scan := ⟨_, List.getElem?_eq_getElem hj⟩
  obtain ⟨axis, haxis⟩ : ∃ axis, inAxes[j]? = some axis :=
    ⟨_, List.getElem?_eq_getElem (hreads.axesLength.symm ▸ hj)⟩
  obtain ⟨direction, hdirection⟩ : ∃ direction, plan.inputDirections[j]? = some direction :=
    ⟨_, List.getElem?_eq_getElem (hreads.directionsLength.symm ▸ hj)⟩
  obtain ⟨k, hk⟩ : ∃ k, ks[j]? = some k := ⟨_, List.getElem?_eq_getElem (hreads.ksLength.symm ▸ hj)⟩
  obtain ⟨entry, hentry⟩ : ∃ entry, ((shapes.drop plan.states).zip plan.inputAxes)[j]? = some entry := by
    refine ⟨_, List.getElem?_eq_getElem ?_⟩
    rw [hslices.length_eq]
    exact (List.getElem?_eq_some_iff.1 haxis).1
  have hknown : entry.1 = some dims := by
    have hfirst := (List.getElem?_zip_eq_some.1 hentry).1
    rw [List.getElem?_drop, hdims] at hfirst
    exact (Option.some.inj hfirst).symm
  obtain ⟨known, hslice⟩ := getElem?_forall₂ hslices hentry haxis
  rw [hknown] at hslice
  have hresolve := (hreads.resolve hscan' haxis hk).1
  rw [List.getD_eq_getElem?_getD, haxis, Option.getD_some, ← eq_toNat_of_sliceAxis hslice hresolve]
  exact (hscan scan hscan').slice
    (ScanPlan.shape_part_walk hresolve (hparts.cut hscan' haxis hdirection hpart))

/-- What is known of the inputs of the loop's body is true of what the loop
hands to it: states, slices, and the values from outside, of which the
body knows what the module does. -/
theorem ScanPlan.matches_inputShape {held parts : List Tensor} {ks : List Nat} {size step i : Nat}
    {known : KnownShape} (hslices : List.Forall₂ (fun entry axis => ∃ known,
        sliceAxis description entry.1 entry.2 = .ok (axis, known))
      ((shapes.drop plan.states).zip plan.inputAxes) inAxes)
    (hreads : plan.Reads inAxes scans ks size) (hparts : plan.Parts inAxes scans ks size step parts)
    (hheld : held.length = plan.states) (hlegible : body.Legible)
    (hlength : (ScanPlan.operands held (plan.elements scans ks size step) outer).length
      = body.inputs.length)
    (hholds : body.LabelsHold (ScanPlan.operands held (plan.elements scans ks size step) outer))
    (hscans : ∀ (j : Nat) scan dims, scans[j]? = some scan →
      shapes[plan.states + j]? = some (some dims) → KnownShape.Matches dims scan)
    (hstates : ∀ (i : Nat) t dims, i < plan.states → held[i]? = some t →
      shapes[i]? = some (some dims) → KnownShape.Matches dims t)
    (hi : i < body.inputs.length) (hknown : known ∈ plan.inputShape inAxes shapes body i) :
    ∃ t, Value.one ((ScanPlan.operands held parts outer).getD i none) = .ofTensor t
      ∧ known.Matches t := by
  have hparts' : parts.length = inAxes.length := hparts.length.trans hreads.axesLength.symm
  have helements : (plan.elements scans ks size step).length = parts.length := by
    rw [← hparts.squeeze.length_eq, List.length_zip, hparts', Nat.min_self]
  have hat : (ScanPlan.operands held parts outer).getD i none
      = ((held ++ (parts ++ outer))[i]?.map some).getD none := by
    rw [List.getD_eq_getElem?_getD, ScanPlan.operands, List.getElem?_map, List.append_assoc]
  rw [ScanPlan.inputShape] at hknown
  rw [hat]
  split at hknown
  · next hstate =>
      have hi' : i < held.length := hheld.symm ▸ hstate
      have ht := List.getElem?_eq_getElem hi'
      refine ⟨held[i], ?_, hstates i _ known hstate ht (exists_of_mem_getD hknown)⟩
      rw [List.getElem?_append_left hi', ht]
      rfl
  · next hstate =>
    obtain ⟨j, rfl⟩ := Nat.exists_eq_add_of_le (Nat.le_of_not_lt hstate)
    rw [List.getElem?_append_right (by omega), hheld, Nat.add_sub_cancel_left]
    split at hknown
    · next hslice =>
        have hj : j < parts.length := by omega
        have hpart := List.getElem?_eq_getElem hj
        obtain ⟨dims, hdims, rfl⟩ := Option.map_eq_some_iff.1 hknown
        replace hdims := exists_of_mem_getD hdims
        refine ⟨parts[j], ?_, ?_⟩
        · rw [List.getElem?_append_left hj, hpart]
          rfl
        · rw [Nat.add_sub_cancel_left]
          exact matches_part hslices hreads hparts hpart hdims fun scan hscan =>
            hscans j scan dims hscan hdims
    · next hslice =>
        -- behind the slices the body has the same inputs as the module
        obtain ⟨done, hdone⟩ := (ModuleOf.labelsHold_iff hlegible hlength).1 hholds
        obtain ⟨t, ht, hmatches⟩ := hdone.labels (.input (plan.states + j)) hi known hknown
        have hread : (held ++ (plan.elements scans ks size step ++ outer))[plan.states + j]?
            = (parts ++ outer)[j]? := by
          rw [List.getElem?_append_right (by omega), hheld, Nat.add_sub_cancel_left,
            List.getElem?_append_right (by omega), List.getElem?_append_right (by omega), helements]
        refine ⟨t, ht ▸ ?_, hmatches⟩
        rw [← hread, Ref.value, List.getD_eq_getElem?_getD, ScanPlan.operands, List.getElem?_map,
          List.append_assoc]

/-- The labels in the body of a loop that carries out a scan hold at every
iteration, if those of the module hold on what the scan hands to it, and
if what is known of the scan inputs and, throughout, of the states is
true. -/
theorem labelsHold_scanBody (hshapes : shapes.length = plan.inputCount)
    (h : scanBody description plan body shapes
      = .ok (body.loopBody inputs plan.states inAxes outAxes, plan.withAxes inAxes outAxes))
    (hslices : List.Forall₂ (fun entry axis => ∃ known,
        sliceAxis description entry.1 entry.2 = .ok (axis, known))
      ((shapes.drop plan.states).zip plan.inputAxes) inAxes)
    (hnames : inputs.map Input.name = body.inputs.map Input.name)
    (carries : plan.CarriesOut inAxes outAxes states scans outer
      (body.loopBody inputs plan.states inAxes outAxes).body function)
    (hcount : body.inputs.length = plan.inputCount + outer.length)
    (hlegible : body.Legible) (hlibrary : Reserved.library ∉ body.parameters) (hsound : body.Sound)
    {ts : List Tensor} (hrun : plan.run function (states ++ scans) = .ok ts)
    (hscans : ∀ (j : Nat) scan dims, scans[j]? = some scan →
      shapes[plan.states + j]? = some (some dims) → KnownShape.Matches dims scan)
    (hstates : ∀ xs, plan.Hands function (states ++ scans) xs → ∀ (i : Nat) t dims, i < plan.states →
      xs[i]? = some t → shapes[i]? = some (some dims) → KnownShape.Matches dims t)
    (hinner : ∀ xs values, plan.Hands function (states ++ scans) xs → function xs = .ok values →
      body.LabelsHold ((xs ++ outer).map some))
    {arguments : List Operand}
    (hhands : ((plan.withAxes inAxes outAxes).wiring outer.length).Hands
      (plan.inputCount + outer.length) (body.loopBody inputs plan.states inAxes outAxes).body
      (ScanPlan.operands states scans outer) arguments) :
    (body.loopBody inputs plan.states inAxes outAxes).LabelsHold arguments := by
  obtain ⟨ks, size, step, held, parts, hreads, hheld, hparts, rfl, hgiven, ⟨values, hvalues⟩,
    outputs, houtputs⟩ := carries.exists_of_hands hrun hhands
  have hsame : inputs.length = body.inputs.length := by
    rw [← List.length_map (f := Input.name), hnames, List.length_map]
  have hlegible' : (body.loopBody inputs plan.states inAxes outAxes).Legible := by
    have hmapped := @ModuleOf.Legible.loopBody (body.map Loop.meaning) inputs plan.states inAxes outAxes
      hlegible.map_meaning hnames hlibrary
    exact ⟨hmapped.sources, hmapped.visible⟩
  have hparts' : parts.length = inAxes.length := hparts.length.trans hreads.axesLength.symm
  have helements : (plan.elements scans ks size step).length = parts.length := by
    rw [← hparts.squeeze.length_eq, List.length_zip, hparts', Nat.min_self]
  have hlength : (ScanPlan.operands held parts outer).length = body.inputs.length := by
    rw [ScanPlan.operands, List.length_map, List.length_append, List.length_append, hheld,
      hparts.length, carries.scanCount, hcount, ScanPlan.inputCount]
  have hlength' : (ScanPlan.operands held (plan.elements scans ks size step) outer).length
      = body.inputs.length := by
    rw [← hlength]
    simp only [ScanPlan.operands, List.length_map, List.length_append, helements]
  have hbound : plan.states + inAxes.length ≤ (ScanPlan.operands held parts outer).length := by
    rw [hlength, hcount, ScanPlan.inputCount, ← carries.scanCount, ← hparts.length, hparts']
    omega
  have hsqueezes := @ModuleOf.squeezes_operands _ held _ outer _ hparts' hparts.squeeze
  have hspliced := @ModuleOf.splice_operands held _ outer _ helements.symm
  rw [hheld] at hsqueezes hspliced
  have hholds : body.LabelsHold (ScanPlan.operands held (plan.elements scans ks size step) outer) :=
    hinner _ values hgiven hvalues
  obtain ⟨output, hreturns, -⟩ := Except.map_eq_ok.1 houtputs
  refine (hspliced ▸ hholds).loopBody hlegible hlegible' hsound hsame hlength hbound hsqueezes
    hreturns fun i hi known hknown => ?_
  have hlabel : _ = plan.inputShape inAxes shapes body i := shape_label_scanBody hshapes h hi
  rw [hlabel] at hknown
  refine ScanPlan.matches_inputShape hslices hreads hparts hheld hlegible hlength' hholds hscans
    (fun i t dims hstate ht hdims => hstates _ hgiven i t dims hstate ?_ hdims) hi hknown
  rw [List.getElem?_append_left (List.getElem?_eq_some_iff.1 ht).1, ht]

theorem known_of_shape {known : List (List KnownShape)} {i : Nat} {dims : KnownShape}
    (hknown : List.Forall₂ KnownAs shapes known) (hdims : shapes[i]? = some (some dims)) :
    ∃ possible, known[i]? = some possible ∧ dims ∈ possible := by
  have hi := (List.getElem?_eq_some_iff.1 hdims).1
  have hpossible := List.getElem?_eq_getElem (hknown.length_eq ▸ hi)
  exact ⟨_, hpossible, getElem?_forall₂ hknown hdims hpossible⟩

/-- What the loop that a scan has become hands to its body leaves the
labels in it true, if what may be known of the inputs of the scan is, and
of the states throughout. -/
theorem Scanned.labelsHold {spelling : ScanSyntax} {node : NodeOf Importer} {context : Context}
    {session session' : Session} {result : Result}
    (scanned : Scanned spelling node context session result session') {nested : Nested}
    {declarations : NameMap KnownType} {env : Env} {known : List (List KnownShape)}
    {es captured : List Entry} (means : scanned.subgraph.Means nested (env.within declarations))
    (htidy : scanned.subgraph.module.Tidy ∧ Reserved.library ∉ scanned.subgraph.module.parameters)
    (hsound : scanned.subgraph.module.Sound)
    (hknown : List.Forall₂ KnownAs (spelling.shapes node (session.scope :: context.outer)) known)
    (hes : es.length = (spelling.names node).length)
    (hcaptured : List.Forall₂ (fun name e => env name = some e) scanned.subgraph.outerInputs captured)
    (hranks : ∀ entry ∈ ((es.zip known).drop scanned.plan.states).zip scanned.plan.inputAxes,
      HasRank entry.2 entry.1.2 entry.1.1.tensor) {ts : List Tensor}
    (hrun : scanned.plan.run (OnnxLowering.scanned declarations env nested scanned.plan known)
      (es.map Entry.tensor) = .ok ts)
    (hinputs : ∀ (i : Nat) e possible, es[i]? = some e → known[i]? = some possible →
      ∀ shape ∈ possible, shape.Matches e.tensor)
    (hstates : ∀ xs, scanned.plan.Hands
        (OnnxLowering.scanned declarations env nested scanned.plan known) (es.map Entry.tensor) xs →
      ∀ (i : Nat) t possible, i < scanned.plan.states → xs[i]? = some t →
        known[i]? = some possible → ∀ shape ∈ possible, shape.Matches t)
    (hinner : ∀ xs values, scanned.plan.Hands
        (OnnxLowering.scanned declarations env nested scanned.plan known) (es.map Entry.tensor) xs →
      OnnxLowering.scanned declarations env nested scanned.plan known xs = .ok values →
      scanned.subgraph.module.LabelsHold ((xs ++ captured.map Entry.tensor).map some))
    {arguments : List Operand}
    (hhands : (scanned.loopPlan.wiring scanned.subgraph.outerInputs.length).Hands
      (scanned.loopPlan.inputCount + scanned.subgraph.outerInputs.length) scanned.loopModule.body
      (((es ++ captured).map Entry.tensor).map some) arguments) :
    scanned.loopModule.LabelsHold arguments := by
  obtain ⟨inputs, inAxes, outAxes, hnames, hmodule, hplan, hslices, carries⟩ :=
    scanned.carriesOut means htidy hknown hes hcaptured hranks
  have hbody := scanned.body
  have hcount : scanned.subgraph.module.inputs.length
      = scanned.plan.inputCount + (captured.map Entry.tensor).length := by
    have hgiven := scanned.inputCount
    have hshapes := scanned.length_shapes
    rw [ScanSyntax.shapes, List.length_map] at hshapes
    rw [means.arity, List.length_map, ← hcaptured.length_eq]
    omega
  have hinputCount : (scanned.plan.withAxes inAxes outAxes).inputCount = scanned.plan.inputCount := by
    have hlength := carries.cuts.length_eq
    rw [List.length_zip, carries.scanCount, Nat.min_self] at hlength
    exact congrArg (scanned.plan.states + ·) hlength.symm
  rw [hmodule] at hbody carries hhands ⊢
  rw [hplan] at hbody hhands
  rw [hinputCount, hcaptured.length_eq, ← List.length_map (f := Entry.tensor), List.map_append,
    ← List.take_append_drop scanned.plan.states (es.map Entry.tensor)] at hhands
  rw [← List.take_append_drop scanned.plan.states (es.map Entry.tensor)] at hrun hstates hinner
  refine labelsHold_scanBody scanned.length_shapes hbody hslices hnames carries hcount htidy.1.legible
    htidy.2 hsound hrun (fun j scan dims hscan hdims => ?_) (fun xs hxs i t dims hi ht hdims => ?_)
    hinner hhands
  · rw [List.getElem?_drop, List.getElem?_map, Option.map_eq_some_iff] at hscan
    obtain ⟨e, he, rfl⟩ := hscan
    obtain ⟨possible, hpossible, hmem⟩ := known_of_shape hknown hdims
    exact hinputs _ e possible he hpossible dims hmem
  · obtain ⟨possible, hpossible, hmem⟩ := known_of_shape hknown hdims
    exact hstates xs hxs i t possible hi ht hpossible dims hmem

end Handler

end OnnxLowering
