/-
The loop that a scan becomes does what the scan means
(`CarriesOut.realises_run`). The body of the loop is any function that does
on slices what the scan's body does on elements; the axes of the loop may
be spelled differently from those of the node, as long as they mean the
same dimensions of the tensors at hand.

`Tracks` relates the loop to the scan between two steps. The loop holds
all arguments of its body in one list: the states in front, then
whatever the last slices were, then the values from outside. Its rows
hold the values with their new dimension, and nothing for the states.
-/
import OnnxLowering.Module.Iterate
import OnnxLowering.Proofs.Lists
import OnnxLowering.Proofs.Scan.Reference

namespace OnnxLowering

-- ============================================================= positions

section

variable {α : Type} {xs : List α} {i : Nat} {x : α}

theorem elementAt_natCast (h : xs[i]? = some x) : elementAt xs (i : Int) = .ok x := by
  have hresolve : Slicing.resolve (i : Int) xs.length = i := if_neg (by omega)
  unfold elementAt
  simp only [hresolve, show ¬ (i : Int) < 0 by omega, if_false, Int.toNat_natCast, h]

theorem replaceAt_natCast (h : i < xs.length) :
    replaceAt xs (i : Int) x = .ok (xs.set i x) := by
  have hresolve : Slicing.resolve (i : Int) xs.length = i := if_neg (by omega)
  unfold replaceAt
  simp only [hresolve, Int.toNat_natCast]
  rw [if_pos]
  simp only [Bool.and_eq_true, decide_eq_true_eq]
  omega

/-- Replacing elements one after the other. -/
theorem foldlM_replaceAt {W : Type} {f : List α → W → Except RunError (List α)}
    {wires : List W} {new : List α} {first : Nat} (hlength : wires.length = new.length)
    (h : ∀ i wire x, wires[i]? = some wire → new[i]? = some x →
      ∀ xs, f xs wire = replaceAt xs ((first + i : Nat) : Int) x)
    (hbound : first + new.length ≤ xs.length) :
    wires.foldlM f xs = .ok (splice first new xs) := by
  induction wires generalizing new first xs with
  | nil =>
      rw [List.eq_nil_of_length_eq_zero hlength.symm, splice_nil]
      rfl
  | cons wire wires ih =>
      cases new with
      | nil => cases hlength
      | cons x new =>
          rw [List.length_cons] at hbound
          have hfirst := h 0 wire x rfl rfl xs
          rw [Nat.add_zero, replaceAt_natCast (by omega)] at hfirst
          rw [List.foldlM_cons, hfirst, ← splice_set (by omega)]
          refine ih (Nat.succ.inj hlength) (fun i wire x hwire hx xs => ?_)
            (by rw [List.length_set]; omega)
          rw [h (i + 1) wire x hwire hx xs]
          congr 2
          omega

end

-- ================================================================= walks

namespace Handler.ScanPlan

theorem axis_walk (axis direction : Int) : (walk axis direction).axis = axis := by
  unfold walk
  split <;> rfl

theorem partSize_walk (axis direction : Int) : (walk axis direction).partSize = 1 := by
  unfold walk
  split <;> rfl

/-- There are as many steps of one position as positions. -/
theorem count_walk (axis direction : Int) (size : Nat) :
    (walk axis direction).count size = .ok size := by
  by_cases hzero : size = 0
  · rw [hzero]
    rfl
  · have hsize : ¬ (size : Int) = 0 := by omega
    have hspan : (walk axis direction).span size = size := by
      unfold walk Slicing.span Slicing.resolve
      split
      · simp only [Slicing.forward]
        omega
      · simp only [Slicing.backward]
        omega
    have hstride : (walk axis direction).stride.natAbs = 1 := by
      unfold walk
      split <;> rfl
    have hne : ¬ (walk axis direction).stride = 0 := by omega
    unfold Slicing.count
    simp only [hsize, hspan, partSize_walk, hstride, hne, if_false]
    rw [if_neg (by omega)]
    congr 1
    omega

theorem position_walk (axis direction : Int) {size step : Nat} (h : step < size) :
    (walk axis direction).position size step = place direction size step := by
  unfold walk place
  split
  · show 0 + (step : Int) * 1 = step
    omega
  · show -1 + (size : Int) + 1 + step * -1 - 1 = (size - 1 - step : Nat)
    omega

theorem place_lt (direction : Int) {size step : Nat} (h : step < size) :
    place direction size step < size := by
  unfold place
  split <;> omega

/-- What a step of the loop cuts out is what the step of the scan reads,
with its dimension. -/
theorem part_walk {t : Tensor} {axis : Int} {k : Nat} (direction : Int) {step : Nat}
    (ht : t.Addressable) (hk : Tensor.resolveAxis t.rank axis = .ok k)
    (hstep : step < t.shape.getD k 0) :
    ∃ part, (walk axis direction).part t step = .ok part
      ∧ part.squeeze axis = .ok (t.select k (place direction (t.shape.getD k 0) step)) := by
  have hplace := place_lt direction hstep
  have hsize : t.shape.getD k 0 ≤ 2 ^ 63 := by
    have hlt : k < t.shape.length := Tensor.resolveAxis_lt hk
    rw [List.getD_eq_getElem?_getD, List.getElem?_eq_getElem hlt]
    exact ht.2 _ (List.getElem_mem hlt)
  have hword : Shape.isWord axis = true :=
    Tensor.isWord_of_resolveAxis (by have := ht.1; omega) hk
  have hplaceWord : Shape.isWord (place direction (t.shape.getD k 0) step) = true := by
    simp only [Shape.isWord, Bool.and_eq_true, decide_eq_true_eq]
    omega
  have hsqueeze := Tensor.squeeze_narrow hword hplaceWord hk hplace
  obtain ⟨part, hnarrow, hsqueeze⟩ := Except.bind_eq_ok.1 hsqueeze
  refine ⟨part, ?_, hsqueeze⟩
  unfold Slicing.part
  rw [axis_walk, partSize_walk, Tensor.sizeAlong, hk]
  show t.narrow axis ((walk axis direction).position (t.shape.getD k 0) step) 1 = _
  rw [position_walk axis direction hstep, hnarrow]

-- ================================================================ reading

/-- The plan with the axes that the loop has. -/
def withAxes (plan : ScanPlan) (inAxes outAxes : List Int) : ScanPlan :=
  { plan with inputAxes := inAxes, outputAxes := outAxes }

/-- The axes of a loop are those dimensions of the scan inputs, and the
scan inputs all have the same size there. -/
structure Reads (plan : ScanPlan) (inAxes : List Int) (scans : List Tensor) (ks : List Nat)
    (size : Nat) : Prop where
  axesLength : inAxes.length = scans.length
  directionsLength : plan.inputDirections.length = scans.length
  ksLength : ks.length = scans.length
  addressable : ∀ scan ∈ scans, scan.Addressable
  resolve : ∀ {j : Nat} {scan : Tensor} {axis : Int} {k : Nat}, scans[j]? = some scan →
    inAxes[j]? = some axis → ks[j]? = some k →
    Tensor.resolveAxis scan.rank axis = .ok k ∧ scan.shape.getD k 0 = size

section

variable {plan : ScanPlan} {inAxes outAxes : List Int} {states scans outer : List Tensor}
  {ks : List Nat} {size step : Nat}

/-- The inputs of the loop. -/
def operands (states scans outer : List Tensor) : List Operand :=
  (states ++ scans ++ outer).map some

theorem getElem?_operands_scan {j : Nat} {scan : Tensor} (h : scans[j]? = some scan) :
    (operands states scans outer)[states.length + j]? = some (some scan) := by
  obtain ⟨hj, -⟩ := List.getElem?_eq_some_iff.1 h
  rw [operands, List.getElem?_map, List.append_assoc,
    List.getElem?_append_right (Nat.le_add_right _ _), Nat.add_sub_cancel_left,
    List.getElem?_append_left hj, h]
  rfl

/-- What the loop cuts out at a step, which is what the scan reads there,
with its dimension. -/
structure Parts (plan : ScanPlan) (inAxes : List Int) (scans : List Tensor) (ks : List Nat)
    (size step : Nat) (parts : List Tensor) : Prop where
  length : parts.length = scans.length
  cut : ∀ {j : Nat} {scan : Tensor} {axis direction : Int} {part : Tensor},
    scans[j]? = some scan → inAxes[j]? = some axis → plan.inputDirections[j]? = some direction →
    parts[j]? = some part → (walk axis direction).part scan step = .ok part
  squeeze : List.Forall₂ (fun entry element => Tensor.squeeze entry.1 entry.2 = .ok element)
    (parts.zip inAxes) (plan.elements scans ks size step)

theorem exists_parts (h : Reads plan inAxes scans ks size) (hstep : step < size) :
    ∃ parts, Parts plan inAxes scans ks size step parts := by
  have hat : ∀ j ∈ List.range scans.length, ∃ part : Tensor, ∀ scan axis direction k,
      scans[j]? = some scan → inAxes[j]? = some axis → plan.inputDirections[j]? = some direction →
      ks[j]? = some k → (walk axis direction).part scan step = .ok part
        ∧ part.squeeze axis = .ok (scan.select k (place direction size step)) := by
    intro j hj
    rw [List.mem_range] at hj
    have hscan := List.getElem?_eq_getElem hj
    have haxis := List.getElem?_eq_getElem (h.axesLength.symm ▸ hj : j < inAxes.length)
    obtain ⟨direction, hdirection⟩ : ∃ direction, plan.inputDirections[j]? = some direction :=
      ⟨_, List.getElem?_eq_getElem (h.directionsLength.symm ▸ hj)⟩
    have hk := List.getElem?_eq_getElem (h.ksLength.symm ▸ hj : j < ks.length)
    obtain ⟨hresolve, hsize⟩ := h.resolve hscan haxis hk
    obtain ⟨part, hpart, hsqueeze⟩ := part_walk direction
      (h.addressable _ (List.getElem_mem hj)) hresolve (hsize ▸ hstep)
    rw [hsize] at hsqueeze
    refine ⟨part, ?_⟩
    rw [hscan, haxis, hdirection, hk]
    rintro _ _ _ _ ⟨⟩ ⟨⟩ ⟨⟩ ⟨⟩
    exact ⟨hpart, hsqueeze⟩
  obtain ⟨parts, hparts⟩ := exists_forall₂ hat
  have hlength : parts.length = scans.length := by
    rw [← hparts.length_eq, List.length_range]
  have hk {j : Nat} {scan : Tensor} (hscan : scans[j]? = some scan) :
      ∃ k, ks[j]? = some k ∧ (List.range scans.length)[j]? = some j := by
    obtain ⟨hj, -⟩ := List.getElem?_eq_some_iff.1 hscan
    exact ⟨_, List.getElem?_eq_getElem (h.ksLength.symm ▸ hj), List.getElem?_range hj⟩
  refine ⟨parts, hlength, ?_, forall₂_of_getElem? ?_ ?_⟩
  · intro j scan axis direction part hscan haxis hdirection hpart
    obtain ⟨k, hk, hj⟩ := hk hscan
    exact (getElem?_forall₂ hparts hj hpart _ _ _ _ hscan haxis hdirection hk).1
  · simp only [elements, List.length_zip, List.length_map, h.axesLength, h.directionsLength,
      h.ksLength, hlength, Nat.min_self]
  · intro j entry element hentry helement
    obtain ⟨hpart, haxis⟩ := List.getElem?_zip_eq_some.1 hentry
    rw [elements, List.getElem?_map, Option.map_eq_some_iff] at helement
    obtain ⟨read, hread, rfl⟩ := helement
    obtain ⟨hfront, hdirection⟩ := List.getElem?_zip_eq_some.1 hread
    obtain ⟨hscan, hk'⟩ := List.getElem?_zip_eq_some.1 hfront
    obtain ⟨-, -, hj⟩ := hk hscan
    exact (getElem?_forall₂ hparts hj hpart _ _ _ _ hscan haxis hdirection hk').2

/-- The slices of a step go between the states and the values from
outside. -/
theorem feed_eq_ok (hstates : states.length = plan.states) (h : Reads plan inAxes scans ks size)
    (hstep : step < size) (outAxes : List Int) (outer : List Tensor) (captured : Nat)
    {arguments : List Operand} (hbound : plan.states + scans.length ≤ arguments.length) :
    ∃ parts, Parts plan inAxes scans ks size step parts
      ∧ ((plan.withAxes inAxes outAxes).wiring captured).feed (operands states scans outer)
          arguments step = .ok (splice plan.states (parts.map some) arguments) := by
  obtain ⟨parts, hparts⟩ := exists_parts h hstep
  have hlength := hparts.length
  refine ⟨parts, hparts, foldlM_replaceAt ?_ ?_ ?_⟩
  · simp only [wiring, withAxes, List.length_map, List.length_zipIdx, List.length_zip,
      h.axesLength, h.directionsLength, hlength, Nat.min_self]
  · intro j wire part hwire hpart arguments
    simp only [wiring, withAxes, List.getElem?_map, List.getElem?_zipIdx, Option.map_map,
      Option.map_eq_some_iff, Nat.zero_add] at hwire
    obtain ⟨⟨axis, direction⟩, hentry, rfl⟩ := hwire
    obtain ⟨haxis, hdirection⟩ := List.getElem?_zip_eq_some.1 hentry
    rw [List.getElem?_map, Option.map_eq_some_iff] at hpart
    obtain ⟨part, hpart, rfl⟩ := hpart
    obtain ⟨scan, hscan⟩ : ∃ scan, scans[j]? = some scan :=
      ⟨_, List.getElem?_eq_getElem
        (hlength ▸ (List.getElem?_eq_some_iff.1 hpart).1 : j < scans.length)⟩
    have hoperand : elementAt (operands states scans outer) ((plan.states + j : Nat) : Int)
        = .ok (some scan) := elementAt_natCast (hstates ▸ getElem?_operands_scan hscan)
    show (do
      let operand ← elementAt (operands states scans outer) (plan.states + j)
      let t ← operand.tensor
      let part ← (walk axis direction).part t step
      replaceAt arguments (plan.states + j) (some part)) = _
    rw [← Int.natCast_add, hoperand]
    show (do
      let part ← (walk axis direction).part scan step
      replaceAt arguments ((plan.states + j : Nat) : Int) (some part)) = _
    rw [hparts.cut hscan haxis hdirection hpart]
    rfl
  · rw [List.length_map, hlength]
    exact hbound

-- ================================================================ wiring

/-- The inputs of a loop whose states and values from outside need not be
tensors. -/
def feeds (states : List Operand) (scans : List Tensor) (outer : List Operand) : List Operand :=
  states ++ scans.map some ++ outer

theorem operands_eq_feeds :
    operands states scans outer = feeds (states.map some) scans (outer.map some) := by
  rw [operands, feeds, List.map_append, List.map_append]

/-- Before the first step the states and the values from outside are in
place. -/
theorem start_feeds_eq_ok {states outer : List Operand} (hstates : states.length = plan.states)
    (hscans : scans.length = plan.inputAxes.length) :
    (plan.wiring outer.length).start (plan.inputCount + outer.length) (feeds states scans outer)
      = .ok (states ++ List.replicate scans.length none ++ outer) := by
  have hcount : plan.inputCount = states.length + scans.length := by
    rw [inputCount, hstates, hscans]
  have hempty : List.replicate (plan.inputCount + outer.length) (none : Operand)
      = List.replicate states.length none ++ List.replicate scans.length none
        ++ List.replicate outer.length none ++ [] := by
    rw [List.append_nil, List.replicate_append_replicate, List.replicate_append_replicate, hcount]
  have hshared := splice_middle
    (List.replicate states.length none ++ List.replicate scans.length none)
    (List.replicate outer.length none) [] outer (by simp)
  have hcarried := splice_middle [] (List.replicate states.length none)
    (List.replicate scans.length none ++ outer) states (by simp)
  have houter : (plan.wiring outer.length).shared.foldlM (fun arguments wire => do
      replaceAt arguments wire.bodyIndex
        (← elementAt (feeds states scans outer) wire.inputIndex))
      (List.replicate (plan.inputCount + outer.length) none)
      = .ok (List.replicate states.length none ++ List.replicate scans.length none ++ outer) := by
    rw [← List.append_nil (_ ++ outer), ← hshared, ← hempty, List.length_append,
      List.length_replicate, List.length_replicate, ← hcount]
    refine foldlM_replaceAt ?_ ?_ ?_
    · simp only [wiring, List.length_map, List.length_range]
    · intro i wire x hwire hx arguments
      obtain rfl := getElem?_map_range hwire
      have hread : (feeds states scans outer)[plan.inputCount + i]? = some x := by
        rw [feeds, List.getElem?_append_right
          (by rw [List.length_append, List.length_map]; omega), List.length_append,
          List.length_map, hcount, Nat.add_sub_cancel_left, hx]
      show (do
        replaceAt arguments (plan.inputCount + i)
          (← elementAt (feeds states scans outer) (plan.inputCount + i))) = _
      rw [← Int.natCast_add, elementAt_natCast hread]
      rfl
    · exact Nat.le_of_eq List.length_replicate.symm
  unfold Wiring.start
  rw [houter]
  show (plan.wiring outer.length).carried.foldlM _ _ = _
  rw [List.append_assoc, List.append_assoc, ← List.nil_append (states ++ _),
    ← List.append_assoc [], ← hcarried]
  refine foldlM_replaceAt ?_ ?_ ?_
  · simp only [wiring, List.length_map, List.length_range, hstates]
  · intro i wire x hwire hx arguments
    obtain rfl := getElem?_map_range hwire
    have hread : (feeds states scans outer)[i]? = some x := by
      obtain ⟨hi, -⟩ := List.getElem?_eq_some_iff.1 hx
      rw [feeds, List.append_assoc, List.getElem?_append_left hi, hx]
    show (do replaceAt arguments i (← elementAt (feeds states scans outer) i)) = _
    rw [elementAt_natCast hread, List.length_nil, Nat.zero_add]
    rfl
  · simp

theorem start_eq_ok (hstates : states.length = plan.states)
    (hscans : scans.length = plan.inputAxes.length) :
    (plan.wiring outer.length).start (plan.inputCount + outer.length)
        (operands states scans outer)
      = .ok (states.map some ++ List.replicate scans.length none ++ outer.map some) := by
  have hstart := @start_feeds_eq_ok plan scans (states.map some) (outer.map some)
    (by rwa [List.length_map]) hscans
  rwa [← operands_eq_feeds, List.length_map] at hstart

/-- After a step the states are those that the body has returned. -/
theorem carry_eq_ok {captured : Nat} {new back old rest : List Operand}
    (hnew : new.length = plan.states) (hold : old.length = plan.states) :
    (plan.wiring captured).carry (old ++ rest) (new ++ back) = .ok (new ++ rest) := by
  have hsplice := splice_middle [] old rest new (hold.trans hnew.symm)
  rw [List.nil_append, List.nil_append, List.length_nil] at hsplice
  rw [← hsplice]
  refine foldlM_replaceAt ?_ ?_ ?_
  · rw [wiring, List.length_map, List.length_range, hnew]
  · intro i wire x hwire hx arguments
    obtain rfl := getElem?_map_range hwire
    have hread : (new ++ back)[i]? = some x := by
      rw [List.getElem?_append_left (List.getElem?_eq_some_iff.1 hx).1, hx]
    show (do replaceAt arguments i (← elementAt (new ++ back) i)) = _
    rw [elementAt_natCast hread, Nat.zero_add]
    rfl
  · rw [List.length_append, hold, hnew]
    omega

/-- The values to be joined are those behind the states. -/
theorem collect_eq_ok {captured : Nat} {new back : List Operand}
    (hnew : new.length = plan.states) (hback : back.length = plan.outputAxes.length)
    (hdirections : plan.outputDirections.length = plan.outputAxes.length) :
    (plan.wiring captured).collect (new ++ back)
      = .ok (List.replicate plan.states none ++ back) := by
  refine Except.mapM_eq_ok.2 (List.rel_append ?_ ?_)
  · refine forall₂_of_getElem? (by simp) fun i output x houtput hx => ?_
    obtain rfl := getElem?_map_range houtput
    rw [List.eq_of_mem_replicate (List.mem_of_getElem? hx)]
  · refine forall₂_of_getElem? ?_ fun j output x houtput hx => ?_
    · simp only [List.length_map, List.length_zipIdx, List.length_zip, hback, hdirections,
        Nat.min_self]
    · simp only [List.getElem?_map, List.getElem?_zipIdx, Option.map_map,
        Option.map_eq_some_iff, Nat.zero_add] at houtput
      obtain ⟨⟨axis, direction⟩, -, rfl⟩ := houtput
      have hread : (new ++ back)[plan.states + j]? = some x := by
        rw [List.getElem?_append_right (by omega), hnew, Nat.add_sub_cancel_left, hx]
      show elementAt (new ++ back) (plan.states + j) = _
      rw [← Int.natCast_add, elementAt_natCast hread]

-- ================================================================ counting

/-- The axes of a loop are those that the node reads the scan inputs
along. -/
def Cuts (plan : ScanPlan) (inAxes : List Int) (scans : List Tensor) : Prop :=
  List.Forall₂ (fun entry axis => Tensor.resolveAxis entry.1.rank entry.2
      = Tensor.resolveAxis entry.1.rank axis)
    (scans.zip plan.inputAxes) inAxes

theorem distinctSorted_eq_singleton {counts : List Nat} {count : Nat} :
    Wiring.distinctSorted counts = [count] ↔ counts ≠ [] ∧ ∀ other ∈ counts, other = count := by
  unfold Wiring.distinctSorted
  constructor
  · intro h
    have hmem : ∀ other, other ∈ counts ↔ other = count := fun other => by
      rw [← List.mem_eraseDups, ← (List.mergeSort_perm counts.eraseDups _).mem_iff, h,
        List.mem_singleton]
    exact ⟨List.ne_nil_of_mem ((hmem count).2 rfl), fun other => (hmem other).1⟩
  · rintro ⟨hne, hall⟩
    cases counts with
    | nil => exact absurd rfl hne
    | cons first rest =>
        rw [List.forall_mem_cons] at hall
        obtain ⟨rfl, hrest⟩ := hall
        have hfilter : rest.filter (fun other => !other == first) = [] := by
          rw [List.filter_eq_nil_iff]
          intro other hother
          simp only [hrest other hother, BEq.rfl, Bool.not_true, Bool.false_eq_true, not_false_iff]
        rw [List.eraseDups_cons, hfilter, List.eraseDups_nil, List.mergeSort_singleton]

/-- How often a loop slices one of its inputs. -/
theorem partCount_eq_ok (hstates : states.length = plan.states) {j n : Nat} {scan : Tensor}
    {axis direction : Int} (hscan : scans[j]? = some scan) :
    Wiring.partCount (operands states scans outer)
        { bodyIndex := plan.states + j, inputIndex := plan.states + j,
          slicing := walk axis direction } = .ok n
      ↔ ∃ k, Tensor.resolveAxis scan.rank axis = .ok k ∧ scan.shape.getD k 0 = n := by
  have hoperand : elementAt (operands states scans outer) ((plan.states + j : Nat) : Int)
      = .ok (some scan) := elementAt_natCast (hstates ▸ getElem?_operands_scan hscan)
  unfold Wiring.partCount
  show (do
    let t ← (← elementAt (operands states scans outer) (plan.states + j)).tensor
    (walk axis direction).count (← t.sizeAlong (walk axis direction).axis)) = _ ↔ _
  rw [← Int.natCast_add, hoperand, axis_walk]
  show (do (walk axis direction).count (← scan.sizeAlong axis)) = _ ↔ _
  unfold Tensor.sizeAlong
  cases hk : Tensor.resolveAxis scan.rank axis with
  | error e => exact ⟨fun h => (nomatch h), fun ⟨_, h, _⟩ => (nomatch h)⟩
  | ok k =>
      show (walk axis direction).count (scan.shape.getD k 0) = _ ↔ _
      rw [count_walk]
      constructor
      · intro h
        exact ⟨k, rfl, Except.ok.inj h⟩
      · rintro ⟨k', hk', h⟩
        cases hk'
        rw [h]

/-- How often a loop slices the input at one place of its plan. -/
theorem partCount_sliced_eq_ok (hstates : states.length = plan.states)
    (hcuts : Cuts plan inAxes scans) {j n : Nat} {wire : SlicedInput} {scan : Tensor} {axis : Int}
    (hwire : ((plan.withAxes inAxes outAxes).wiring outer.length).sliced[j]? = some wire)
    (hscan : scans[j]? = some scan) (haxis : plan.inputAxes[j]? = some axis) :
    Wiring.partCount (operands states scans outer) wire = .ok n
      ↔ ∃ k, Tensor.resolveAxis scan.rank axis = .ok k ∧ scan.shape.getD k 0 = n := by
  simp only [wiring, withAxes, List.getElem?_map, List.getElem?_zipIdx, Option.map_map,
    Option.map_eq_some_iff, Nat.zero_add] at hwire
  obtain ⟨⟨axis', direction⟩, hentry, rfl⟩ := hwire
  obtain ⟨haxis', -⟩ := List.getElem?_zip_eq_some.1 hentry
  have hnode : (scans.zip plan.inputAxes)[j]? = some (scan, axis) :=
    List.getElem?_zip_eq_some.2 ⟨hscan, haxis⟩
  rw [getElem?_forall₂ hcuts hnode haxis']
  exact partCount_eq_ok hstates hscan

theorem mapM_partCount_eq_ok (hstates : states.length = plan.states)
    (hscans : scans.length = plan.inputAxes.length)
    (hdirections : plan.inputDirections.length = plan.inputAxes.length)
    (hcuts : Cuts plan inAxes scans) (counts : List Nat) :
    ((plan.withAxes inAxes outAxes).wiring outer.length).sliced.mapM
        (Wiring.partCount (operands states scans outer)) = .ok counts
      ↔ ∃ ks, plan.dimensions scans = .ok ks
          ∧ (scans.zip ks).map (fun entry => entry.1.shape.getD entry.2 0) = counts := by
  have hinAxes : inAxes.length = scans.length := by
    rw [← hcuts.length_eq, List.length_zip, ← hscans, Nat.min_self]
  have hlength : ((plan.withAxes inAxes outAxes).wiring outer.length).sliced.length
      = scans.length := by
    simp only [wiring, withAxes, List.length_map, List.length_zipIdx, List.length_zip, hinAxes,
      hdirections, hscans, Nat.min_self]
  have hread {j : Nat} (hj : j < scans.length) : ∃ wire scan axis,
      ((plan.withAxes inAxes outAxes).wiring outer.length).sliced[j]? = some wire
        ∧ scans[j]? = some scan ∧ plan.inputAxes[j]? = some axis :=
    ⟨_, _, _, List.getElem?_eq_getElem (hlength ▸ hj), List.getElem?_eq_getElem hj,
      List.getElem?_eq_getElem (hscans ▸ hj)⟩
  rw [Except.mapM_eq_ok]
  constructor
  · intro h
    have hall : ∀ entry ∈ scans.zip plan.inputAxes,
        ∃ k, Outcome.ofExcept (Tensor.resolveAxis entry.1.rank entry.2) = .ok k := by
      intro entry hentry
      obtain ⟨j, hentry⟩ := List.mem_iff_getElem?.1 hentry
      obtain ⟨hscan, haxis⟩ := List.getElem?_zip_eq_some.1 hentry
      obtain ⟨wire, _, _, hwire, -, -⟩ := hread (List.getElem?_eq_some_iff.1 hscan).1
      obtain ⟨n, hn⟩ : ∃ n, counts[j]? = some n := by
        refine ⟨_, List.getElem?_eq_getElem ?_⟩
        rw [← h.length_eq]
        exact (List.getElem?_eq_some_iff.1 hwire).1
      obtain ⟨k, hk, -⟩ :=
        (partCount_sliced_eq_ok hstates hcuts hwire hscan haxis).1 (getElem?_forall₂ h hwire hn)
      exact ⟨k, Outcome.ofExcept_eq_ok.2 hk⟩
    obtain ⟨ks, hks⟩ := exists_forall₂ hall
    refine ⟨ks, Outcome.mapM_eq_ok.2 hks, ?_⟩
    refine List.forall₂_eq_eq_eq ▸ forall₂_of_getElem? ?_ fun j size n hsize hn => ?_
    · rw [List.length_map, List.length_zip, ← hks.length_eq, List.length_zip, ← h.length_eq,
        hlength, hscans, Nat.min_self, Nat.min_self]
    · rw [List.getElem?_map, Option.map_eq_some_iff] at hsize
      obtain ⟨⟨scan, k⟩, hentry, rfl⟩ := hsize
      obtain ⟨hscan, hk⟩ := List.getElem?_zip_eq_some.1 hentry
      obtain ⟨wire, _, axis, hwire, -, haxis⟩ := hread (List.getElem?_eq_some_iff.1 hscan).1
      obtain ⟨k', hk', hn⟩ :=
        (partCount_sliced_eq_ok hstates hcuts hwire hscan haxis).1 (getElem?_forall₂ h hwire hn)
      have hnode : (scans.zip plan.inputAxes)[j]? = some (scan, axis) :=
        List.getElem?_zip_eq_some.2 ⟨hscan, haxis⟩
      have hsame := Outcome.ofExcept_eq_ok.1 (getElem?_forall₂ hks hnode hk)
      rw [hk'] at hsame
      cases hsame
      exact hn
  · rintro ⟨ks, hks, rfl⟩
    replace hks := Outcome.mapM_eq_ok.1 hks
    refine forall₂_of_getElem? ?_ fun j wire n hwire hn => ?_
    · rw [List.length_map, List.length_zip, ← hks.length_eq, List.length_zip, hlength, hscans,
        Nat.min_self, Nat.min_self]
    · rw [List.getElem?_map, Option.map_eq_some_iff] at hn
      obtain ⟨⟨scan, k⟩, hentry, rfl⟩ := hn
      obtain ⟨hscan, hk⟩ := List.getElem?_zip_eq_some.1 hentry
      obtain ⟨_, _, axis, -, -, haxis⟩ := hread (List.getElem?_eq_some_iff.1 hscan).1
      have hnode : (scans.zip plan.inputAxes)[j]? = some (scan, axis) :=
        List.getElem?_zip_eq_some.2 ⟨hscan, haxis⟩
      exact (partCount_sliced_eq_ok hstates hcuts hwire hscan haxis).2
        ⟨k, Outcome.ofExcept_eq_ok.1 (getElem?_forall₂ hks hnode hk), rfl⟩

theorem steps_eq_ok {sizes : List Nat} {size : Nat} :
    steps sizes = .ok size ↔ sizes ≠ [] ∧ ∀ other ∈ sizes, other = size := by
  cases sizes with
  | nil => exact ⟨fun h => (nomatch h), fun ⟨h, _⟩ => absurd rfl h⟩
  | cons first rest =>
      rw [List.forall_mem_cons]
      show (Outcome.demand (∀ other ∈ rest, other = first) >>= fun _ => .ok first) = _ ↔ _
      rw [Outcome.demand_bind_eq_ok]
      constructor
      · rintro ⟨hrest, hfirst⟩
        cases hfirst
        exact ⟨List.cons_ne_nil _ _, rfl, hrest⟩
      · rintro ⟨-, rfl, hrest⟩
        exact ⟨hrest, rfl⟩

/-- The loop counts the steps of the scan. -/
theorem iterations_eq_ok (hstates : states.length = plan.states)
    (hscans : scans.length = plan.inputAxes.length)
    (hdirections : plan.inputDirections.length = plan.inputAxes.length)
    (hcuts : Cuts plan inAxes scans) {count : Nat} :
    ((plan.withAxes inAxes outAxes).wiring outer.length).iterations (operands states scans outer)
        = .ok count
      ↔ ∃ ks, plan.dimensions scans = .ok ks
          ∧ steps ((scans.zip ks).map fun entry => entry.1.shape.getD entry.2 0)
            = .ok count := by
  unfold Wiring.iterations
  cases hsliced : ((plan.withAxes inAxes outAxes).wiring outer.length).sliced with
  | nil =>
      have hnone := (mapM_partCount_eq_ok hstates hscans hdirections hcuts []).1
        (by rw [hsliced]; rfl)
      obtain ⟨ks, hks, hsizes⟩ := hnone
      constructor
      · intro h
        cases h
      · rintro ⟨ks', hks', hcount⟩
        rw [hks] at hks'
        cases hks'
        rw [hsizes] at hcount
        cases hcount
  | cons wire wires =>
      show ((wire :: wires).mapM (Wiring.partCount (operands states scans outer)) >>= _
        : Except RunError Nat) = _ ↔ _
      rw [← hsliced, Except.bind_eq_ok]
      constructor
      · rintro ⟨counts, h, hcount⟩
        obtain ⟨ks, hks, rfl⟩ :=
          (mapM_partCount_eq_ok hstates hscans hdirections hcuts counts).1 h
        refine ⟨ks, hks, steps_eq_ok.2 (distinctSorted_eq_singleton.1 ?_)⟩
        split at hcount
        · next heq => rw [heq, Except.ok.inj hcount]
        · cases hcount
      · rintro ⟨ks, hks, hcount⟩
        refine ⟨_, (mapM_partCount_eq_ok hstates hscans hdirections hcuts _).2 ⟨ks, hks, rfl⟩, ?_⟩
        rw [distinctSorted_eq_singleton.2 (steps_eq_ok.1 hcount)]
        rfl

-- ============================================================== iteration

/-- The axes of a loop are those that the node gives a row of values. -/
def Joins (plan : ScanPlan) (outAxes : List Int) (row : List Tensor) : Prop :=
  List.Forall₂ (fun entry axis => Tensor.resolveAxis (entry.1.rank + 1) entry.2
      = Tensor.resolveAxis (entry.1.rank + 1) axis)
    (row.zip plan.outputAxes) outAxes

/-- The loop's body does on slices what the scan's body does on elements,
and gives the values behind the states one dimension more. -/
def Lifts (plan : ScanPlan) (inAxes outAxes : List Int) (outer : List Tensor)
    (loopBody : Wiring.Body) (body : Body) : Prop :=
  ∀ states parts elements : List Tensor, states.length = plan.states →
    parts.length = inAxes.length →
    List.Forall₂ (fun entry element => Tensor.squeeze entry.1 entry.2 = .ok element)
      (parts.zip inAxes) elements →
    Realises (fun outputs values => outputs = values.map some)
      (loopBody (operands states parts outer)) (do
        let values ← body (states ++ elements)
        let us ← ((values.drop plan.states).zip outAxes).mapM fun entry =>
          .ofExcept (entry.1.unsqueeze entry.2)
        return values.take plan.states ++ us)

/-- A row of the loop: nothing for the states, and the values with their
new dimension. -/
def IsRow (plan : ScanPlan) (outAxes : List Int) (row : List Operand)
    (values : List Tensor) : Prop :=
  Joins plan outAxes values ∧ ∃ us, row = List.replicate plan.states none ++ us.map some
    ∧ List.Forall₂ (fun entry u => Tensor.unsqueeze entry.1 entry.2 = .ok u)
        (values.zip outAxes) us

/-- The loop between two steps is where the scan is. -/
structure Tracks (plan : ScanPlan) (outAxes : List Int) (inputs : List Operand)
    (outer : List Tensor) (state : Wiring.State) (progress : Progress) : Prop where
  length : progress.states.length = plan.states
  arguments : ∃ held : List Operand, held.length = plan.inputAxes.length
    ∧ state.arguments = progress.states.map some ++ held ++ outer.map some
  rows : List.Forall₂ (IsRow plan outAxes) state.rows progress.rows
  last : ∀ (i : Nat) (t : Tensor), progress.states[i]? = some t →
    (plan.wiring outer.length).lastValue inputs state.last i = .ok (some t)

/-- Axes for the same dimension add the same dimension. -/
theorem ofExcept_unsqueeze {t : Tensor} {axis : Int} (ht : t.Addressable) :
    Outcome.ofExcept (t.unsqueeze axis) = (do
      let k ← Outcome.ofExcept (Tensor.resolveAxis (t.rank + 1) axis)
      return t.expand k) := by
  cases hk : Tensor.resolveAxis (t.rank + 1) axis with
  | ok k =>
      rw [Tensor.unsqueeze_eq_ok.2 ⟨Tensor.isWord_of_resolveAxis ht.1 hk, k, hk, rfl⟩]
      rfl
  | error e =>
      cases hu : t.unsqueeze axis with
      | ok u =>
          obtain ⟨-, k, hk', -⟩ := Tensor.unsqueeze_eq_ok.1 hu
          rw [hk] at hk'
          cases hk'
      | error e => rfl

theorem mapM_unsqueeze_congr {row : List Tensor} (hrow : ∀ value ∈ row, value.Addressable)
    (h : Joins plan outAxes row) (hlength : row.length = plan.outputAxes.length) :
    (row.zip plan.outputAxes).mapM (fun entry => Outcome.ofExcept (entry.1.unsqueeze entry.2))
      = (row.zip outAxes).mapM fun entry => Outcome.ofExcept (entry.1.unsqueeze entry.2) := by
  unfold Joins at h
  generalize plan.outputAxes = axes at h hlength
  induction row generalizing axes outAxes with
  | nil => rw [List.zip_nil_left, List.zip_nil_left]
  | cons value row ih =>
      cases axes with
      | nil => cases hlength
      | cons axis axes =>
          rw [List.forall_mem_cons] at hrow
          cases h with
          | @cons _ axis' _ outAxes haxis hrest =>
              rw [List.zip_cons_cons, List.zip_cons_cons, List.mapM_cons, List.mapM_cons,
                ofExcept_unsqueeze hrow.1, ofExcept_unsqueeze hrow.1, haxis,
                ih hrow.2 _ hrest (Nat.succ.inj hlength)]

variable {loopBody : Wiring.Body} {body : Body}

/-- At a step the loop hands its body the states, what it cuts out and the
values from outside. -/
theorem Tracks.feed_eq_ok (hstates : states.length = plan.states)
    (hscans : scans.length = plan.inputAxes.length) (hreads : Reads plan inAxes scans ks size)
    (hstep : step < size) {state : Wiring.State} {progress : Progress}
    (h : Tracks plan outAxes (operands states scans outer) outer state progress) :
    ∃ parts, Parts plan inAxes scans ks size step parts
      ∧ ((plan.withAxes inAxes outAxes).wiring outer.length).feed (operands states scans outer)
          state.arguments step = .ok (operands progress.states parts outer) := by
  obtain ⟨held, hheld, harguments⟩ := h.arguments
  have hbound : plan.states + scans.length ≤ state.arguments.length := by
    rw [harguments, List.length_append, List.length_append, List.length_map, h.length, hheld,
      hscans]
    omega
  obtain ⟨parts, hparts, hfeed⟩ :=
    ScanPlan.feed_eq_ok hstates hreads hstep outAxes outer outer.length hbound
  refine ⟨parts, hparts, hfeed.trans (congrArg Except.ok ?_)⟩
  have hmiddle := splice_middle (progress.states.map some) held (outer.map some)
    (parts.map some) (by rw [hheld, List.length_map, hparts.length, hscans])
  rw [List.length_map, h.length] at hmiddle
  rw [harguments, hmiddle, operands, List.map_append, List.map_append]

/-- Of what its body returns the loop hands on the states and keeps the
other values as a row. -/
theorem Tracks.next (houtAxes : outAxes.length = plan.outputAxes.length)
    (hdirections : plan.outputDirections.length = plan.outputAxes.length)
    {inputs : List Operand} {state : Wiring.State} {progress : Progress}
    (h : Tracks plan outAxes inputs outer state progress) {parts values us : List Tensor}
    (hparts : parts.length = plan.inputAxes.length)
    (hlength : values.length = plan.states + plan.outputAxes.length)
    (hjoins : Joins plan outAxes (values.drop plan.states))
    (hunsqueezed : List.Forall₂ (fun entry u => entry.1.unsqueeze entry.2 = .ok u)
      ((values.drop plan.states).zip outAxes) us) {outputs : List Operand}
    (houtputs : outputs = (values.take plan.states ++ us).map some) :
    ∃ arguments row,
      ((plan.withAxes inAxes outAxes).wiring outer.length).carry
          (operands progress.states parts outer) outputs = .ok arguments
        ∧ ((plan.withAxes inAxes outAxes).wiring outer.length).collect outputs = .ok row
        ∧ Tracks plan outAxes inputs outer ⟨arguments, state.rows ++ [row], some outputs⟩
          ⟨values.take plan.states, progress.rows ++ [values.drop plan.states]⟩ := by
  rw [List.map_append] at houtputs
  have hnew : ((values.take plan.states).map some).length = plan.states := by
    rw [List.length_map, List.length_take, hlength]
    omega
  have hback : (us.map some).length = plan.outputAxes.length := by
    rw [List.length_map, ← hunsqueezed.length_eq, List.length_zip, List.length_drop, hlength,
      houtAxes]
    omega
  refine ⟨(values.take plan.states).map some ++ (parts.map some ++ outer.map some),
    List.replicate plan.states none ++ us.map some, ?_, ?_, ?_, ?_, ?_, ?_⟩
  · rw [houtputs, operands, List.map_append, List.map_append, List.append_assoc]
    exact carry_eq_ok hnew (by rw [List.length_map, h.length]; rfl)
  · rw [houtputs]
    exact collect_eq_ok hnew (hback.trans houtAxes.symm) (hdirections.trans houtAxes.symm)
  · rwa [List.length_map] at hnew
  · exact ⟨parts.map some, by rw [List.length_map, hparts], (List.append_assoc ..).symm⟩
  · exact List.rel_append h.rows (.cons ⟨hjoins, us, rfl, hunsqueezed⟩ .nil)
  · intro i t ht
    show elementAt outputs i = _
    refine elementAt_natCast ?_
    rw [houtputs, List.getElem?_append_left, List.getElem?_map, ht]
    · rfl
    · rw [List.length_map]
      exact (List.getElem?_eq_some_iff.1 ht).1

/-- A step of the loop is a step of the scan. -/
theorem realises_step (hstates : states.length = plan.states)
    (hscans : scans.length = plan.inputAxes.length)
    (houtAxes : outAxes.length = plan.outputAxes.length)
    (hdirections : plan.outputDirections.length = plan.outputAxes.length)
    (hreads : Reads plan inAxes scans ks size)
    (hlifts : Lifts plan inAxes outAxes outer loopBody body)
    (hbody : ∀ xs values, body xs = .ok values →
      values.length = plan.states + plan.outputAxes.length
        ∧ Joins plan outAxes (values.drop plan.states))
    (hstep : step < size) {state : Wiring.State} {progress : Progress}
    (h : Tracks plan outAxes (operands states scans outer) outer state progress) :
    Realises (Tracks plan outAxes (operands states scans outer) outer)
      (((plan.withAxes inAxes outAxes).wiring outer.length).step loopBody
        (operands states scans outer) state step)
      (plan.advance body scans ks size progress step) := by
  obtain ⟨parts, hparts, hfeed⟩ := h.feed_eq_ok hstates hscans hreads hstep
  have hrun := hlifts progress.states parts _ h.length (hparts.length.trans hreads.axesLength.symm)
    hparts.squeeze
  unfold Wiring.step advance
  refine Realises.bind_left hfeed ?_
  cases hcase : body (progress.states ++ plan.elements scans ks size step) with
  | unspecified => trivial
  | failed =>
      rw [hcase] at hrun
      obtain ⟨e, he⟩ := hrun
      rw [he]
      exact ⟨e, rfl⟩
  | ok values =>
      obtain ⟨hlength, hjoins⟩ := hbody _ _ hcase
      rw [hcase] at hrun
      refine Realises.require_bind fun haddressable => ?_
      rw [mapM_unsqueeze_congr haddressable hjoins (by rw [List.length_drop, hlength]; omega)]
      cases hus : ((values.drop plan.states).zip outAxes).mapM fun entry =>
          Outcome.ofExcept (entry.1.unsqueeze entry.2) with
      | unspecified => trivial
      | failed =>
          rw [Outcome.ok_bind, hus] at hrun
          obtain ⟨e, he⟩ := hrun
          rw [he]
          exact ⟨e, rfl⟩
      | ok us =>
          rw [Outcome.ok_bind, hus] at hrun
          obtain ⟨outputs, hrun, houtputs⟩ := hrun
          obtain ⟨arguments, row, hcarry, hcollect, htracks⟩ := h.next houtAxes hdirections
            (hparts.length.trans hscans) hlength hjoins
            ((Outcome.mapM_eq_ok.1 hus).imp fun _ _ => Outcome.ofExcept_eq_ok.1) houtputs
          rw [hrun, Except.ok_bind, hcarry, Except.ok_bind, hcollect, Except.ok_bind]
          exact .ok htracks

-- ================================================================ results

theorem exists_column {rows : List (List Operand)} {valueRows : List (List Tensor)}
    (h : List.Forall₂ (IsRow plan outAxes) rows valueRows) {j : Nat} {axis axis' : Int}
    (haxis : plan.outputAxes[j]? = some axis) (haxis' : outAxes[j]? = some axis') :
    ∃ us : List Tensor, rows.map (·.getD (plan.states + j) none) = us.map some
      ∧ List.Forall₂ (fun value u => value.unsqueeze axis' = .ok u) (column valueRows j) us
      ∧ ∀ value ∈ column valueRows j, Tensor.resolveAxis (value.rank + 1) axis
          = Tensor.resolveAxis (value.rank + 1) axis' := by
  induction h with
  | nil => exact ⟨[], rfl, .nil, fun _ h => nomatch h⟩
  | @cons row values rows valueRows hrow hrest ih =>
      obtain ⟨us, hus, hunsqueezed, hsame⟩ := ih
      obtain ⟨hjoins, rowUs, rfl, hrow⟩ := hrow
      have hj : j < (values.zip plan.outputAxes).length := by
        rw [hjoins.length_eq]
        exact (List.getElem?_eq_some_iff.1 haxis').1
      rw [List.length_zip] at hj
      obtain ⟨value, hvalue⟩ : ∃ value, values[j]? = some value :=
        ⟨_, List.getElem?_eq_getElem (by omega)⟩
      have hentry : (values.zip outAxes)[j]? = some (value, axis') :=
        List.getElem?_zip_eq_some.2 ⟨hvalue, haxis'⟩
      have hnode : (values.zip plan.outputAxes)[j]? = some (value, axis) :=
        List.getElem?_zip_eq_some.2 ⟨hvalue, haxis⟩
      obtain ⟨u, hu⟩ : ∃ u, rowUs[j]? = some u := by
        refine ⟨_, List.getElem?_eq_getElem ?_⟩
        rw [← hrow.length_eq]
        exact (List.getElem?_eq_some_iff.1 hentry).1
      refine ⟨u :: us, ?_, ?_, ?_⟩
      · rw [List.map_cons, List.map_cons, hus, List.getD_eq_getElem?_getD,
          List.getElem?_append_right (by rw [List.length_replicate]; omega), List.length_replicate,
          Nat.add_sub_cancel_left, List.getElem?_map, hu]
        rfl
      · rw [column, List.filterMap_cons, hvalue]
        exact .cons (getElem?_forall₂ hrow hentry hu) hunsqueezed
      · rw [column, List.filterMap_cons, hvalue]
        exact List.forall_mem_cons.2 ⟨getElem?_forall₂ hjoins hnode haxis', hsame⟩

theorem stack_congr {parts : List Tensor} {axis axis' : Int}
    (h : ∀ part ∈ parts, Tensor.resolveAxis (part.rank + 1) axis
      = Tensor.resolveAxis (part.rank + 1) axis') :
    Tensor.stack axis parts = Tensor.stack axis' parts := by
  cases parts with
  | nil => rfl
  | cons first rest => simp only [Tensor.stack, h first List.mem_cons_self]

/-- The joined slices of an output are the stacked values. -/
theorem realises_joinParts {axis axis' direction : Int} {us values : List Tensor}
    (h : List.Forall₂ (fun value u => value.unsqueeze axis' = .ok u) values us)
    (hsame : ∀ value ∈ values, Tensor.resolveAxis (value.rank + 1) axis
      = Tensor.resolveAxis (value.rank + 1) axis') :
    Realises (fun a b => a = b) ((walk axis' direction).joinParts (us.map some))
      (Tensor.stack axis (arrange direction values)) := by
  have harranged : List.Forall₂ (fun value u => value.unsqueeze axis' = .ok u)
      (arrange direction values) (arrange direction us) := by
    unfold arrange
    split
    · exact h
    · exact List.forall₂_reverse_iff.2 h
  have hmem : ∀ value ∈ arrange direction values, value ∈ values := by
    unfold arrange
    split
    · exact fun _ h => h
    · exact fun _ h => List.mem_reverse.1 h
  have hparts : (if (walk axis' direction).stride < 0 then (us.map some).reverse
      else us.map some) = (arrange direction us).map some := by
    unfold walk arrange
    split
    · rfl
    · exact List.map_reverse.symm
  have hvalues : ((arrange direction us).map some).mapM Operand.value
      = .ok (arrange direction us) := by
    rw [Except.mapM_eq_ok, List.forall₂_map_left_iff]
    exact List.forall₂_same.2 fun _ _ => rfl
  rw [stack_congr fun value hvalue => hsame value (hmem value hvalue)]
  unfold Slicing.joinParts
  rw [hparts]
  refine Realises.bind_left hvalues ?_
  rw [axis_walk]
  exact Tensor.join_unsqueeze harranged

/-- The outputs of the loop are the last states and then what is joined. -/
theorem zipIdx_outputs (captured : Nat) : (plan.wiring captured).outputs.zipIdx
    = ((List.range plan.states).map fun i => (LoopOutput.last (i : Nat), i))
      ++ ((plan.outputAxes.zip plan.outputDirections).zipIdx plan.states).map fun entry =>
        (LoopOutput.joined (entry.2 : Nat) (walk entry.1.1 entry.1.2), entry.2) := by
  unfold wiring
  rw [List.zipIdx_append, List.length_map, List.length_range, Nat.zero_add]
  congr 1
  · exact List.ext_getElem (by simp) (by simp)
  · refine List.ext_getElem (by simp) fun j hj hj' => ?_
    simp

/-- Every output that is joined is at its place in the plan. -/
theorem forall₂_joined (houtAxes : outAxes.length = plan.outputAxes.length) :
    List.Forall₂ (fun (entry : (Int × Int) × Nat) (output : (Int × Int) × Nat) =>
        ∃ axis', plan.outputAxes[output.2]? = some output.1.1 ∧ outAxes[output.2]? = some axis'
          ∧ entry = ((axis', output.1.2), plan.states + output.2))
      ((outAxes.zip plan.outputDirections).zipIdx plan.states)
      (plan.outputAxes.zip plan.outputDirections).zipIdx := by
  refine forall₂_of_getElem? ?_ fun j entry output hentry houtput => ?_
  · simp only [List.length_zipIdx, List.length_zip, houtAxes]
  · simp only [List.getElem?_zipIdx, Option.map_eq_some_iff, Nat.zero_add] at hentry houtput
    obtain ⟨⟨axis, direction⟩, hnode, rfl⟩ := houtput
    obtain ⟨⟨axis', direction'⟩, hloop, rfl⟩ := hentry
    obtain ⟨haxis, hdirection⟩ := List.getElem?_zip_eq_some.1 hnode
    obtain ⟨haxis', hdirection'⟩ := List.getElem?_zip_eq_some.1 hloop
    obtain rfl := Option.some.inj (hdirection.symm.trans hdirection')
    exact ⟨axis', haxis, haxis', rfl⟩

section

variable {inputs : List Operand} {state : Wiring.State} {progress : Progress}

/-- The first results are the states as the last step left them. -/
theorem mapM_result_last (h : Tracks plan outAxes inputs outer state progress) :
    ((List.range plan.states).map fun i => (LoopOutput.last (i : Nat), i)).mapM (fun entry =>
        ((plan.withAxes inAxes outAxes).wiring outer.length).result inputs state entry.1 entry.2)
      = .ok (progress.states.map some) := by
  refine Except.mapM_eq_ok.2 (forall₂_of_getElem? ?_ fun i entry t hentry ht => ?_)
  · rw [List.length_map, List.length_range, List.length_map, h.length]
  · obtain rfl := getElem?_map_range hentry
    rw [List.getElem?_map, Option.map_eq_some_iff] at ht
    obtain ⟨t, ht, rfl⟩ := ht
    exact h.last i t ht

/-- The other results are what the steps returned, stacked. -/
theorem realises_result_joined (houtAxes : outAxes.length = plan.outputAxes.length)
    (h : Tracks plan outAxes inputs outer state progress) :
    Realises (List.Forall₂ fun output t => output = some t)
      ((((outAxes.zip plan.outputDirections).zipIdx plan.states).map fun entry =>
          (LoopOutput.joined (entry.2 : Nat) (walk entry.1.1 entry.1.2), entry.2)).mapM fun entry =>
        ((plan.withAxes inAxes outAxes).wiring outer.length).result inputs state entry.1 entry.2)
      (plan.stacked progress.rows) := by
  rw [List.mapM_map]
  refine Realises.mapM (forall₂_joined houtAxes) fun entry output hentry => ?_
  obtain ⟨⟨axis, direction⟩, j⟩ := output
  obtain ⟨axis', haxis, haxis', rfl⟩ := hentry
  obtain ⟨us, hus, hunsqueezed, hsame⟩ := exists_column h.rows haxis haxis'
  show Realises _ (if state.rows.isEmpty then _ else _) _
  by_cases hempty : state.rows.isEmpty = true
  · rw [if_pos hempty]
    have hrows : progress.rows = [] := by
      rw [List.isEmpty_iff] at hempty
      exact List.forall₂_nil_left_iff.1 (hempty ▸ h.rows)
    have hnone : arrange direction (column progress.rows j) = [] := by
      rw [hrows, arrange, column, List.filterMap_nil, List.reverse_nil, ite_self]
    show Realises _ _ (Tensor.stack axis (arrange direction (column progress.rows j)))
    rw [hnone]
    exact Realises.error
  · rw [if_neg hempty, hus]
    exact (realises_joinParts hunsqueezed hsame).map_left fun _ _ h => congrArg some h

/-- After the last step the loop returns what the scan returns. -/
theorem realises_results (houtAxes : outAxes.length = plan.outputAxes.length)
    (h : Tracks plan outAxes inputs outer state progress) :
    Realises (fun outputs ts => outputs = ts.map some)
      (((plan.withAxes inAxes outAxes).wiring outer.length).outputs.zipIdx.mapM
        fun entry =>
          ((plan.withAxes inAxes outAxes).wiring outer.length).result inputs state entry.1 entry.2)
      (do return progress.states ++ (← plan.stacked progress.rows)) := by
  rw [zipIdx_outputs, List.mapM_append]
  refine Realises.bind_left (mapM_result_last h)
    ((realises_result_joined houtAxes h).bind fun outputs ts _ houtputs => ?_)
  refine Realises.ok ?_
  rw [List.map_append, eq_map_iff_forall₂.2 houtputs]

end

-- =================================================================== run

/-- What the loop slices when it counts the steps of the scan. -/
theorem Reads.of_cuts (hscans : scans.length = plan.inputAxes.length)
    (hdirections : plan.inputDirections.length = plan.inputAxes.length)
    (hcuts : Cuts plan inAxes scans) (haddressable : ∀ scan ∈ scans, scan.Addressable)
    (hks : plan.dimensions scans = .ok ks)
    (hsize : steps ((scans.zip ks).map fun entry => entry.1.shape.getD entry.2 0) = .ok size) :
    Reads plan inAxes scans ks size := by
  replace hks := Outcome.mapM_eq_ok.1 hks
  have hlength : ks.length = scans.length := by
    rw [← hks.length_eq, List.length_zip, ← hscans, Nat.min_self]
  refine ⟨?_, hdirections.trans hscans.symm, hlength, haddressable, ?_⟩
  · rw [← hcuts.length_eq, List.length_zip, ← hscans, Nat.min_self]
  · intro j scan axis k hscan haxis hk
    obtain ⟨axis', haxis'⟩ : ∃ axis', plan.inputAxes[j]? = some axis' :=
      ⟨_, List.getElem?_eq_getElem (hscans ▸ (List.getElem?_eq_some_iff.1 hscan).1)⟩
    have hnode : (scans.zip plan.inputAxes)[j]? = some (scan, axis') :=
      List.getElem?_zip_eq_some.2 ⟨hscan, haxis'⟩
    refine ⟨?_, (steps_eq_ok.1 hsize).2 _ ?_⟩
    · rw [← getElem?_forall₂ hcuts hnode haxis]
      exact Outcome.ofExcept_eq_ok.1 (getElem?_forall₂ hks hnode hk)
    · exact List.mem_map.2
        ⟨(scan, k), List.mem_of_getElem? (List.getElem?_zip_eq_some.2 ⟨hscan, hk⟩), rfl⟩

/-- Before the first step the last states are the first ones. -/
theorem lastValue_none (hstates : states.length = plan.states) {i : Nat} {t : Tensor}
    (ht : states[i]? = some t) :
    (plan.wiring outer.length).lastValue (operands states scans outer) none i
      = .ok (some t) := by
  obtain ⟨hi, -⟩ := List.getElem?_eq_some_iff.1 ht
  have hfind : (plan.wiring outer.length).carried.find? (·.outputIndex = (i : Int))
      = some { bodyIndex := i, inputIndex := i, outputIndex := i } := by
    unfold wiring
    rw [List.find?_map, Option.map_eq_some_iff]
    refine ⟨i, ?_, rfl⟩
    rw [List.find?_range_eq_some]
    refine ⟨decide_eq_true rfl, List.mem_range.2 (hstates ▸ hi), fun j hj => ?_⟩
    simp only [Function.comp_apply, Int.natCast_inj, Bool.not_eq_eq_eq_not, Bool.not_true,
      decide_eq_false_iff_not]
    omega
  unfold Wiring.lastValue
  simp only [hfind]
  refine elementAt_natCast ?_
  rw [operands, List.map_append, List.map_append, List.append_assoc, List.getElem?_append_left
    (by rwa [List.length_map]), List.getElem?_map, ht]
  rfl

/-- Before the first step the loop is where the scan is. -/
theorem tracks_start (hstates : states.length = plan.states)
    (hscans : scans.length = plan.inputAxes.length) :
    Tracks plan outAxes (operands states scans outer) outer
      { arguments := states.map some ++ List.replicate scans.length none ++ outer.map some }
      ⟨states, []⟩ := by
  refine ⟨hstates, ⟨List.replicate scans.length none, ?_, rfl⟩, .nil, ?_⟩
  · rw [List.length_replicate, hscans]
  · exact fun i t ht => lastValue_none hstates ht

/-- A loop that carries out a scan: there are as many inputs as the plan
says, its axes mean those of the node for the tensors at hand, and its body
does what the scan iterates. -/
structure CarriesOut (plan : ScanPlan) (inAxes outAxes : List Int)
    (states scans outer : List Tensor) (loopBody : Wiring.Body) (body : Body) : Prop where
  stateCount : states.length = plan.states
  scanCount : scans.length = plan.inputAxes.length
  inputDirections : plan.inputDirections.length = plan.inputAxes.length
  axisCount : outAxes.length = plan.outputAxes.length
  outputDirections : plan.outputDirections.length = plan.outputAxes.length
  cuts : Cuts plan inAxes scans
  lifts : Lifts plan inAxes outAxes outer loopBody body
  joins : ∀ xs values, body xs = .ok values →
    values.length = plan.states + plan.outputAxes.length
      ∧ Joins plan outAxes (values.drop plan.states)

theorem CarriesOut.start_eq_ok
    (h : CarriesOut plan inAxes outAxes states scans outer loopBody body) :
    ((plan.withAxes inAxes outAxes).wiring outer.length).start
        (plan.inputCount + outer.length) (operands states scans outer)
      = .ok (states.map some ++ List.replicate scans.length none ++ outer.map some) := by
  have hinAxes : inAxes.length = plan.inputAxes.length := by
    rw [← h.cuts.length_eq, List.length_zip, h.scanCount, Nat.min_self]
  have hcount : (plan.withAxes inAxes outAxes).inputCount = plan.inputCount :=
    congrArg (plan.states + ·) hinAxes
  rw [← hcount]
  exact @ScanPlan.start_eq_ok (plan.withAxes inAxes outAxes) states scans outer h.stateCount
    (h.scanCount.trans hinAxes.symm)

/-- After any number of steps the loop is where the scan is. -/
theorem CarriesOut.realises_iterate
    (h : CarriesOut plan inAxes outAxes states scans outer loopBody body)
    (hreads : Reads plan inAxes scans ks size) {count : Nat} (hcount : count ≤ size) :
    Realises (Tracks plan outAxes (operands states scans outer) outer)
      (((plan.withAxes inAxes outAxes).wiring outer.length).iterate loopBody
        (operands states scans outer)
        { arguments := states.map some ++ List.replicate scans.length none ++ outer.map some } 0 count)
      ((List.range count).foldlM (plan.advance body scans ks size) ⟨states, []⟩) := by
  rw [Wiring.iterate_eq_foldlM, ← List.range_eq_range']
  have hrange : List.Forall₂ (fun i j => i = j ∧ j < size) (List.range count) (List.range count) :=
    List.forall₂_same.2 fun i hi => ⟨rfl, Nat.lt_of_lt_of_le (List.mem_range.1 hi) hcount⟩
  refine Realises.foldlM hrange ?_ (tracks_start h.stateCount h.scanCount)
  rintro state progress _ step htracks ⟨rfl, hstep⟩
  exact realises_step h.stateCount h.scanCount h.axisCount h.outputDirections hreads h.lifts h.joins hstep
    htracks

/-- The loop of a scan does what the scan means. -/
theorem CarriesOut.realises_run
    (h : CarriesOut plan inAxes outAxes states scans outer loopBody body) :
    Realises (fun outputs ts => outputs = ts.map some)
      (((plan.withAxes inAxes outAxes).wiring outer.length).run (plan.inputCount + outer.length)
        loopBody (operands states scans outer))
      (plan.run body (states ++ scans)) := by
  have hcount (count : Nat) := @iterations_eq_ok plan inAxes outAxes states scans outer h.stateCount
    h.scanCount h.inputDirections h.cuts count
  unfold Wiring.run run
  rw [List.drop_left' h.stateCount, List.take_left' h.stateCount]
  refine Realises.require_bind fun haddressable => ?_
  refine Realises.bind_left h.start_eq_ok ?_
  cases hks : plan.dimensions scans with
  | unspecified => trivial
  | failed =>
      cases hiterations : ((plan.withAxes inAxes outAxes).wiring outer.length).iterations
          (operands states scans outer) with
      | error e => exact Realises.error
      | ok count =>
          obtain ⟨ks, hks', -⟩ := (hcount count).1 hiterations
          rw [hks] at hks'
          cases hks'
  | ok ks =>
      rw [Outcome.ok_bind]
      refine (Realises.of_iff fun count => (hcount count).trans ?_).bind ?_
      · rw [hks]
        constructor
        · rintro ⟨_, h, hsize⟩
          cases h
          exact hsize
        · exact fun hsize => ⟨ks, rfl, hsize⟩
      rintro size _ hsize rfl
      have hreads := Reads.of_cuts h.scanCount h.inputDirections h.cuts haddressable hks hsize
      refine (h.realises_iterate hreads (Nat.le_refl size)).bind ?_
      intro state progress _ htracks
      exact realises_results h.axisCount htracks

end

end Handler.ScanPlan

end OnnxLowering
