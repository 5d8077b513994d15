/-
Running a loop in two goes. The loop of a scan may be given its scan
inputs in two parts: it runs on the part that is walked first, and then
on the other one, from the states that the first run has left. That is
what the run on the whole inputs does, step for step, because a step
reads its slices of the scan inputs and nothing else of them
(`run_eq_split`).

`Passes` is what a run does between its start and its end, one row of
outputs per step. It mentions the scan inputs only through the slices,
so it can be cut in two (`Passes.append`), and moved to other inputs with
the same slices (`Passes.transfer`).

What the two runs join has to be joined once more. That gives the same
as joining everything at once if the values to be joined have one type
at all steps. If they do not, the first run casts its values to what
these have in common, and that may lose what the type of all of them
would have kept (`run_ne_split_wideInteger`).
-/
import OnnxLowering.Proofs.Module.Walk
import OnnxLowering.Proofs.Scan.Loop
import OnnxLowering.Proofs.Tensor.Joins

namespace OnnxLowering

-- ============================================================= positions

section

variable {α : Type} {xs ys : List α}

theorem elementAt_natCast_eq_ok {i : Nat} {x : α} :
    elementAt xs (i : Int) = .ok x ↔ xs[i]? = some x := by
  refine ⟨fun h => ?_, elementAt_natCast⟩
  cases hx : xs[i]? with
  | some y => rw [← Except.ok.inj ((elementAt_natCast hx).symm.trans h)]
  | none =>
      have hresolve : Slicing.resolve (i : Int) xs.length = i := if_neg (by omega)
      unfold elementAt at h
      simp only [hresolve, show ¬ (i : Int) < 0 by omega, if_false, Int.toNat_natCast, hx] at h
      cases h

/-- Elements at the first positions. -/
theorem forall₂_range_getElem? {n : Nat} :
    List.Forall₂ (fun i x => xs[i]? = some x) (List.range n) ys ↔ n ≤ xs.length ∧ ys = xs.take n := by
  constructor
  · intro h
    have hlength : ys.length = n := by rw [← h.length_eq, List.length_range]
    have hat {i : Nat} {y : α} (hy : ys[i]? = some y) : xs[i]? = some y := by
      have hi : i < n := hlength ▸ (List.getElem?_eq_some_iff.1 hy).1
      exact getElem?_forall₂ h (List.getElem?_range hi) hy
    have hbound : n ≤ xs.length := by
      by_contra hlt
      have hlast : n - 1 < ys.length := by omega
      have := (List.getElem?_eq_some_iff.1 (hat (List.getElem?_eq_getElem hlast))).1
      omega
    refine ⟨hbound, List.ext_getElem? fun i => ?_⟩
    by_cases hi : i < n
    · have hy := List.getElem?_eq_getElem (hlength.symm ▸ hi : i < ys.length)
      rw [List.getElem?_take_of_lt hi, hy, hat hy]
    · rw [List.getElem?_eq_none (by omega), List.getElem?_eq_none (by rw [List.length_take]; omega)]
  · rintro ⟨hbound, rfl⟩
    refine forall₂_of_getElem? (by simp [hbound]) fun i j x hj hx => ?_
    obtain ⟨hi, rfl⟩ := List.getElem?_eq_some_iff.1 hj
    rw [List.length_range] at hi
    rw [List.getElem?_take_of_lt hi] at hx
    rw [List.getElem_range, hx]

/-- Elements are replaced one after the other if and only if all the new
ones can be had. -/
theorem foldlM_replaceAt_eq_ok {β W : Type} {f : List α → W → Except RunError (List α)}
    {value : W → Except RunError β} {g : β → α} {wires : List W} {first : Nat}
    (h : ∀ i wire, wires[i]? = some wire → ∀ xs,
      f xs wire = value wire >>= fun b => replaceAt xs ((first + i : Nat) : Int) (g b))
    (hbound : first + wires.length ≤ xs.length) :
    wires.foldlM f xs = .ok ys
      ↔ ∃ new, List.Forall₂ (fun wire b => value wire = .ok b) wires new
          ∧ ys = splice first (new.map g) xs := by
  have hall {new : List β} (hnew : List.Forall₂ (fun wire b => value wire = .ok b) wires new) :
      wires.foldlM f xs = .ok (splice first (new.map g) xs) := by
    have hlength : wires.length = (new.map g).length := by rw [List.length_map, hnew.length_eq]
    refine foldlM_replaceAt hlength (fun i wire x hwire hx xs => ?_) (hlength ▸ hbound)
    rw [List.getElem?_map, Option.map_eq_some_iff] at hx
    obtain ⟨b, hb, rfl⟩ := hx
    rw [h i wire hwire, getElem?_forall₂ hnew hwire hb]
    rfl
  constructor
  · intro hfold
    have hvalues : ∀ wire ∈ wires, ∃ b, value wire = .ok b := by
      clear hall
      induction wires generalizing first xs with
      | nil => exact fun _ hwire => (nomatch hwire)
      | cons wire wires ih =>
          rw [List.foldlM_cons] at hfold
          obtain ⟨xs', hxs', hfold⟩ := Except.bind_eq_ok.1 hfold
          rw [h 0 wire rfl, Nat.add_zero] at hxs'
          obtain ⟨b, hb, hreplace⟩ := Except.bind_eq_ok.1 hxs'
          rw [List.length_cons] at hbound
          rw [replaceAt_natCast (by omega)] at hreplace
          cases hreplace
          refine List.forall_mem_cons.2 ⟨⟨b, hb⟩, @ih _ (first + 1) (fun i wire' hwire xs => ?_)
            (by rw [List.length_set]; omega) hfold⟩
          rw [h (i + 1) wire' hwire, Nat.add_assoc, Nat.add_comm 1]
    obtain ⟨new, hnew⟩ := exists_forall₂ hvalues
    exact ⟨new, hnew, Except.ok.inj (hfold.symm.trans (hall hnew))⟩
  · rintro ⟨new, hnew, rfl⟩
    exact hall hnew

end

/-- Values that come from other ones, which correspond to a list. -/
theorem forall₂_exists_map {α β γ : Type} {R : α → β → Prop} {g : β → γ} {xs : List α} {cs : List γ} :
    List.Forall₂ (fun x c => ∃ b, R x b ∧ g b = c) xs cs
      ↔ ∃ bs, List.Forall₂ R xs bs ∧ cs = bs.map g := by
  constructor
  · intro h
    induction h with
    | nil => exact ⟨[], .nil, rfl⟩
    | cons hx _ ih =>
        obtain ⟨b, hb, rfl⟩ := hx
        obtain ⟨bs, hbs, rfl⟩ := ih
        exact ⟨b :: bs, .cons hb hbs, rfl⟩
  · rintro ⟨bs, hbs, rfl⟩
    rw [List.forall₂_map_right_iff]
    exact hbs.imp fun _ b hb => ⟨b, hb, rfl⟩

namespace Handler.ScanPlan

-- ================================================================ slices

/-- A tensor consists of a part of size `m` that a walk comes to first and
of one of size `n` that it comes to then. A part has the type of the
whole. -/
structure Consists (axis direction : Int) (m n : Nat) (whole first second : Tensor) : Prop where
  dtype : second.dtype = first.dtype
  sizeFirst : first.sizeAlong axis = .ok m
  sizeSecond : second.sizeAlong axis = .ok n
  join : Tensor.join (arrange direction [first, second]) axis = .ok whole

section

variable {axis direction : Int} {m n k size step : Nat} {t part whole first second : Tensor}

/-- The slice of a step is the one of size one at its place. -/
theorem part_walk_eq_ok (hword : Shape.isWord axis = true)
    (hk : Tensor.resolveAxis t.rank axis = .ok k) (hsize : t.shape.getD k 0 = size)
    (hstep : step < size) :
    (walk axis direction).part t step = .ok part
      ↔ Shape.isWord (place direction size step : Nat) = true
        ∧ part = t.cut k (place direction size step) 1 := by
  have hplace := place_lt direction hstep
  unfold Slicing.part
  rw [axis_walk, partSize_walk, Tensor.sizeAlong_eq_ok.2 ⟨k, hk, hsize⟩]
  show t.narrow axis ((walk axis direction).position size step) 1 = _ ↔ _
  rw [position_walk axis direction hstep]
  cases hplaceWord : Shape.isWord (place direction size step : Nat) with
  | false =>
      refine ⟨fun h => ?_, fun h => absurd h.1 Bool.false_ne_true⟩
      simp only [Tensor.narrow, hword, hplaceWord] at h
      cases h
  | true =>
      rw [Tensor.narrow_eq_cut hword hplaceWord (show Shape.isWord (1 : Nat) = true from rfl) hk
        (by omega)]
      exact ⟨fun h => ⟨rfl, (Except.ok.inj h).symm⟩, fun h => h.2 ▸ rfl⟩

/-- A whole tensor and its parts along a walk: the slice of a step on the
whole is the slice of a step on one of the parts, and stands no nearer to
the front there. -/
theorem Consists.exists_cuts (h : Consists axis direction m n whole first second)
    (hpos : 0 < m ∧ 0 < n) :
    ∃ k, Shape.isWord axis = true
      ∧ (Tensor.resolveAxis whole.rank axis = .ok k ∧ whole.shape.getD k 0 = m + n)
      ∧ (Tensor.resolveAxis first.rank axis = .ok k ∧ first.shape.getD k 0 = m)
      ∧ (Tensor.resolveAxis second.rank axis = .ok k ∧ second.shape.getD k 0 = n)
      ∧ (∀ step < m, place direction m step ≤ place direction (m + n) step
        ∧ whole.cut k (place direction (m + n) step) 1 = first.cut k (place direction m step) 1)
      ∧ (∀ step < n, place direction n step ≤ place direction (m + n) (m + step)
        ∧ whole.cut k (place direction (m + n) (m + step)) 1
          = second.cut k (place direction n step) 1) := by
  obtain ⟨hdtype, hfirst, hsecond, hjoin⟩ := h
  unfold arrange at hjoin
  unfold place
  by_cases hdirection : direction = 0
  · simp only [hdirection, if_true] at hjoin ⊢
    obtain ⟨k, habuts⟩ := Tensor.abuts_of_join hjoin hdtype hfirst hsecond hpos
    exact ⟨k, habuts.isWord, ⟨habuts.resolve, habuts.size⟩,
      ⟨habuts.resolveFront, habuts.sizeFront⟩, ⟨habuts.resolveBack, habuts.sizeBack⟩,
      fun step hstep => ⟨Nat.le_refl _, habuts.cutFront step hstep⟩,
      fun step hstep => ⟨Nat.le_add_left _ _, habuts.cutBack step hstep⟩⟩
  · simp only [hdirection, if_false] at hjoin ⊢
    obtain ⟨k, habuts⟩ := Tensor.abuts_of_join hjoin hdtype.symm hsecond hfirst hpos.symm
    refine ⟨k, habuts.isWord, ⟨habuts.resolve, by rw [habuts.size, Nat.add_comm]⟩,
      ⟨habuts.resolveBack, habuts.sizeBack⟩, ⟨habuts.resolveFront, habuts.sizeFront⟩,
      fun step hstep => ⟨by omega, ?_⟩, fun step hstep => ⟨by omega, ?_⟩⟩
    · rw [← habuts.cutBack (m - 1 - step) (by omega)]
      congr 1
      omega
    · rw [← habuts.cutFront (n - 1 - step) (by omega)]
      congr 1
      omega

theorem isWord_natCast_of_le {a b : Nat} (h : a ≤ b) (hb : Shape.isWord (b : Nat) = true) :
    Shape.isWord (a : Nat) = true := by
  simp only [Shape.isWord, Bool.and_eq_true, decide_eq_true_eq] at hb ⊢
  omega

/-- The first steps on the whole read what the steps on its first part
read. -/
theorem Consists.part_first (h : Consists axis direction m n whole first second)
    (hpos : 0 < m ∧ 0 < n) (hstep : step < m)
    (hpart : (walk axis direction).part whole step = .ok part) :
    (walk axis direction).part first step = .ok part := by
  obtain ⟨k, hword, ⟨hwhole, hsize⟩, ⟨hfirst, hsizeFirst⟩, -, hcuts, -⟩ := h.exists_cuts hpos
  obtain ⟨hle, hcut⟩ := hcuts step hstep
  obtain ⟨hplace, rfl⟩ := (part_walk_eq_ok hword hwhole hsize (by omega)).1 hpart
  exact (part_walk_eq_ok hword hfirst hsizeFirst hstep).2 ⟨isWord_natCast_of_le hle hplace, hcut⟩

/-- The last steps on the whole read what the steps on its second part
read. -/
theorem Consists.part_second (h : Consists axis direction m n whole first second)
    (hpos : 0 < m ∧ 0 < n) (hstep : step < n)
    (hpart : (walk axis direction).part whole (m + step) = .ok part) :
    (walk axis direction).part second step = .ok part := by
  obtain ⟨k, hword, ⟨hwhole, hsize⟩, -, ⟨hsecond, hsizeSecond⟩, -, hcuts⟩ := h.exists_cuts hpos
  obtain ⟨hle, hcut⟩ := hcuts step hstep
  obtain ⟨hplace, rfl⟩ := (part_walk_eq_ok hword hwhole hsize (by omega)).1 hpart
  exact (part_walk_eq_ok hword hsecond hsizeSecond hstep).2 ⟨isWord_natCast_of_le hle hplace, hcut⟩

theorem Consists.sizeWhole (h : Consists axis direction m n whole first second)
    (hpos : 0 < m ∧ 0 < n) : whole.sizeAlong axis = .ok (m + n) := by
  obtain ⟨k, -, hwhole, -⟩ := h.exists_cuts hpos
  exact Tensor.sizeAlong_eq_ok.2 ⟨k, hwhole⟩

end

-- ================================================================= steps

section

variable {plan : ScanPlan} {body : Wiring.Body}
  {first states middle outer arguments outputs : List Operand}
  {scans others wholes firsts seconds : List Tensor} {step m n : Nat}

/-- The slices of the scan inputs that a step reads. -/
def Slices (plan : ScanPlan) (scans : List Tensor) (step : Nat) (parts : List Tensor) : Prop :=
  List.Forall₂ (fun entry part => (walk entry.2.1 entry.2.2).part entry.1 step = .ok part)
    (scans.zip (plan.inputAxes.zip plan.inputDirections)) parts

/-- Scan inputs that consist of two parts each. -/
structure Halves (plan : ScanPlan) (m n : Nat) (wholes firsts seconds : List Tensor) : Prop where
  lengthWholes : wholes.length = plan.inputAxes.length
  lengthFirsts : firsts.length = plan.inputAxes.length
  lengthSeconds : seconds.length = plan.inputAxes.length
  consists : ∀ {j : Nat} {whole first second : Tensor} {axis direction : Int},
    wholes[j]? = some whole → firsts[j]? = some first → seconds[j]? = some second →
    plan.inputAxes[j]? = some axis → plan.inputDirections[j]? = some direction →
    Consists axis direction m n whole first second

/-- Slices of some inputs are slices of other ones if that is so for each
of them. -/
theorem Slices.transfer {parts : List Tensor} {step step' : Nat}
    (h : plan.Slices scans step parts) (hlength : others.length = scans.length)
    (hpart : ∀ {j : Nat} {scan other part : Tensor} {axis direction : Int},
      scans[j]? = some scan → others[j]? = some other → plan.inputAxes[j]? = some axis →
      plan.inputDirections[j]? = some direction →
      (walk axis direction).part scan step = .ok part →
      (walk axis direction).part other step' = .ok part) : plan.Slices others step' parts := by
  refine forall₂_of_getElem? ?_ fun j entry part hentry hj => ?_
  · rw [List.length_zip, hlength, ← List.length_zip, h.length_eq]
  · obtain ⟨other, axis, direction⟩ := entry
    obtain ⟨hother, hwalk⟩ := List.getElem?_zip_eq_some.1 hentry
    obtain ⟨haxis, hdirection⟩ := List.getElem?_zip_eq_some.1 hwalk
    obtain ⟨scan, hscan⟩ : ∃ scan, scans[j]? = some scan :=
      ⟨_, List.getElem?_eq_getElem (hlength ▸ (List.getElem?_eq_some_iff.1 hother).1)⟩
    have hread : (scans.zip (plan.inputAxes.zip plan.inputDirections))[j]?
        = some (scan, axis, direction) := List.getElem?_zip_eq_some.2 ⟨hscan, hwalk⟩
    exact hpart hscan hother haxis hdirection (getElem?_forall₂ h hread hj)

theorem Slices.length {parts : List Tensor} (hscans : scans.length = plan.inputAxes.length)
    (hdirections : plan.inputDirections.length = plan.inputAxes.length)
    (h : plan.Slices scans step parts) : parts.length = plan.inputAxes.length := by
  rw [← h.length_eq, List.length_zip, List.length_zip, hdirections, hscans, Nat.min_self,
    Nat.min_self]

theorem Halves.slices_first {parts : List Tensor} (h : plan.Halves m n wholes firsts seconds)
    (hpos : 0 < m ∧ 0 < n) (hstep : step < m) (hslices : plan.Slices wholes step parts) :
    plan.Slices firsts step parts := by
  refine hslices.transfer (h.lengthFirsts.trans h.lengthWholes.symm)
    fun {j} _ _ _ _ _ hwhole hfirst haxis hdirection hpart => ?_
  have hsecond := List.getElem?_eq_getElem (show j < seconds.length by
    rw [h.lengthSeconds]
    exact (List.getElem?_eq_some_iff.1 haxis).1)
  exact (h.consists hwhole hfirst hsecond haxis hdirection).part_first hpos hstep hpart

theorem Halves.slices_second {parts : List Tensor} (h : plan.Halves m n wholes firsts seconds)
    (hpos : 0 < m ∧ 0 < n) (hstep : step < n) (hslices : plan.Slices wholes (m + step) parts) :
    plan.Slices seconds step parts := by
  refine hslices.transfer (h.lengthSeconds.trans h.lengthWholes.symm)
    fun {j} _ _ _ _ _ hwhole hsecond haxis hdirection hpart => ?_
  have hfirst := List.getElem?_eq_getElem (show j < firsts.length by
    rw [h.lengthFirsts]
    exact (List.getElem?_eq_some_iff.1 haxis).1)
  exact (h.consists hwhole hfirst hsecond haxis hdirection).part_second hpos hstep hpart

theorem getElem?_feeds_scan {j : Nat} {scan : Tensor} (h : scans[j]? = some scan) :
    (feeds first scans outer)[first.length + j]? = some (some scan) := by
  obtain ⟨hj, -⟩ := List.getElem?_eq_some_iff.1 h
  rw [feeds, List.append_assoc, List.getElem?_append_right (Nat.le_add_right _ _),
    Nat.add_sub_cancel_left, List.getElem?_append_left (by rwa [List.length_map]),
    List.getElem?_map, h]
  rfl

theorem length_sliced (captured : Nat)
    (hdirections : plan.inputDirections.length = plan.inputAxes.length) :
    (plan.wiring captured).sliced.length = plan.inputAxes.length := by
  simp only [wiring, List.length_map, List.length_zipIdx, List.length_zip, hdirections,
    Nat.min_self]

/-- What a loop slices its input number `j` by. -/
theorem getElem?_sliced {captured j : Nat} {wire : SlicedInput} :
    (plan.wiring captured).sliced[j]? = some wire
      ↔ ∃ axis direction, plan.inputAxes[j]? = some axis ∧ plan.inputDirections[j]? = some direction
        ∧ wire = ⟨((plan.states + j : Nat) : Int), ((plan.states + j : Nat) : Int),
          walk axis direction⟩ := by
  simp only [wiring, List.getElem?_map, List.getElem?_zipIdx, Option.map_map,
    Option.map_eq_some_iff, Nat.zero_add]
  constructor
  · rintro ⟨⟨axis, direction⟩, hentry, rfl⟩
    obtain ⟨haxis, hdirection⟩ := List.getElem?_zip_eq_some.1 hentry
    exact ⟨axis, direction, haxis, hdirection, rfl⟩
  · rintro ⟨axis, direction, haxis, hdirection, rfl⟩
    exact ⟨(axis, direction), List.getElem?_zip_eq_some.2 ⟨haxis, hdirection⟩, rfl⟩

/-- What a wire of the loop carries from one scan input to the body. -/
theorem forall₂_sliced {α : Type} {f : Tensor → Slicing → Except RunError α} {captured : Nat}
    {values : List α}
    (hfirst : first.length = plan.states) (hscans : scans.length = plan.inputAxes.length)
    (hdirections : plan.inputDirections.length = plan.inputAxes.length) :
    List.Forall₂ (fun (wire : SlicedInput) value => (do
        let t ← (← elementAt (feeds first scans outer) wire.inputIndex).tensor
        f t wire.slicing) = .ok value)
      (plan.wiring captured).sliced values
      ↔ List.Forall₂ (fun entry value => f entry.1 (walk entry.2.1 entry.2.2) = .ok value)
        (scans.zip (plan.inputAxes.zip plan.inputDirections)) values := by
  have hlength : (plan.wiring captured).sliced.length
      = (scans.zip (plan.inputAxes.zip plan.inputDirections)).length := by
    rw [length_sliced captured hdirections, List.length_zip, List.length_zip, hdirections, hscans,
      Nat.min_self, Nat.min_self]
  have hwire {j : Nat} {scan : Tensor} {axis direction : Int} (hscan : scans[j]? = some scan) :
      (do
        let t ← (← elementAt (feeds first scans outer) ((plan.states + j : Nat) : Int)).tensor
        f t (walk axis direction)) = f scan (walk axis direction) := by
    rw [elementAt_natCast (hfirst ▸ getElem?_feeds_scan hscan)]
    rfl
  constructor
  · refine fun h => forall₂_of_getElem? (hlength.symm.trans h.length_eq)
      fun j entry value hentry hvalue => ?_
    obtain ⟨hscan, hwalk⟩ := List.getElem?_zip_eq_some.1 hentry
    obtain ⟨haxis, hdirection⟩ := List.getElem?_zip_eq_some.1 hwalk
    rw [← getElem?_forall₂ h (getElem?_sliced.2 ⟨_, _, haxis, hdirection, rfl⟩) hvalue]
    exact (hwire hscan).symm
  · refine fun h => forall₂_of_getElem? (hlength.trans h.length_eq)
      fun j wire value hj hvalue => ?_
    obtain ⟨axis, direction, haxis, hdirection, rfl⟩ := getElem?_sliced.1 hj
    have hlt : j < scans.length := hscans ▸ (List.getElem?_eq_some_iff.1 haxis).1
    have hscan := List.getElem?_eq_getElem hlt
    have hentry : (scans.zip (plan.inputAxes.zip plan.inputDirections))[j]?
        = some (scans[j], (axis, direction)) :=
      List.getElem?_zip_eq_some.2 ⟨hscan, List.getElem?_zip_eq_some.2 ⟨haxis, hdirection⟩⟩
    exact (hwire hscan).trans (getElem?_forall₂ h hentry hvalue)

/-- The slices of a step go between the states and the values from
outside. -/
theorem feed_feeds_eq_ok {captured : Nat} (hfirst : first.length = plan.states)
    (hscans : scans.length = plan.inputAxes.length)
    (hdirections : plan.inputDirections.length = plan.inputAxes.length)
    (hstates : states.length = plan.states) (hmiddle : middle.length = plan.inputAxes.length) :
    (plan.wiring captured).feed (feeds first scans outer) (states ++ middle ++ outer) step
        = .ok arguments
      ↔ ∃ parts, plan.Slices scans step parts ∧ arguments = feeds states parts outer := by
  have hfold := @foldlM_replaceAt_eq_ok _ (states ++ middle ++ outer) arguments _ _
    (fun arguments (wire : SlicedInput) => do
      let t ← (← elementAt (feeds first scans outer) wire.inputIndex).tensor
      let part ← wire.slicing.part t step
      replaceAt arguments wire.bodyIndex (some part))
    (fun wire => do
      let t ← (← elementAt (feeds first scans outer) wire.inputIndex).tensor
      wire.slicing.part t step) some
    (plan.wiring captured).sliced plan.states
    (fun j wire hwire arguments => by
      obtain ⟨_, _, -, -, rfl⟩ := getElem?_sliced.1 hwire
      simp only [bind_assoc])
    (by rw [length_sliced captured hdirections, List.length_append, List.length_append]; omega)
  unfold Wiring.feed
  rw [hfold]
  refine exists_congr fun parts => ?_
  rw [forall₂_sliced (f := fun t slicing => slicing.part t step) hfirst hscans hdirections]
  refine and_congr_right fun hslices => ?_
  have hlength : middle.length = (parts.map some).length := by
    rw [List.length_map, hmiddle, Slices.length hscans hdirections hslices]
  rw [← hstates, splice_middle _ _ _ _ hlength, feeds]

/-- After a step the states are the first outputs of the body. -/
theorem carry_iff {captured : Nat} (hstates : states.length = plan.states) :
    (plan.wiring captured).carry (states ++ middle) outputs = .ok arguments
      ↔ plan.states ≤ outputs.length ∧ arguments = outputs.take plan.states ++ middle := by
  have hfold := @foldlM_replaceAt_eq_ok _ (states ++ middle) arguments _ _
    (fun arguments (wire : CarriedInput) => do
      replaceAt arguments wire.bodyIndex (← elementAt outputs wire.outputIndex))
    (fun wire => elementAt outputs wire.outputIndex) id (plan.wiring captured).carried 0
    (fun i wire hwire arguments => by
      obtain rfl := getElem?_map_range hwire
      rw [Nat.zero_add]
      rfl)
    (by simp [wiring, hstates])
  have hread (new : List Operand) :
      List.Forall₂ (fun (wire : CarriedInput) x => elementAt outputs wire.outputIndex = .ok x)
        (plan.wiring captured).carried new
      ↔ plan.states ≤ outputs.length ∧ new = outputs.take plan.states := by
    rw [← forall₂_range_getElem?, wiring, List.forall₂_map_left_iff]
    simp only [elementAt_natCast_eq_ok]
  unfold Wiring.carry
  rw [hfold]
  simp only [hread, and_assoc, exists_and_left, exists_eq_left, List.map_id]
  refine and_congr_right fun hlength => ?_
  have hsplice := splice_middle [] states middle (outputs.take plan.states)
    (by rw [hstates, List.length_take, Nat.min_eq_left hlength])
  rw [List.nil_append, List.nil_append, List.length_nil] at hsplice
  rw [hsplice]

/-- A step hands the states and its slices to the body, keeps what is to
be joined, and goes on with the first outputs as states. -/
theorem step_eq_ok {rows : List (List Operand)} {last : Option (List Operand)} {captured : Nat}
    {next : Wiring.State} (hfirst : first.length = plan.states)
    (hscans : scans.length = plan.inputAxes.length)
    (hdirections : plan.inputDirections.length = plan.inputAxes.length)
    (hstates : states.length = plan.states) (hmiddle : middle.length = plan.inputAxes.length) :
    (plan.wiring captured).step body (feeds first scans outer)
        ⟨states ++ middle ++ outer, rows, last⟩ step = .ok next
      ↔ ∃ parts outputs row, plan.Slices scans step parts
        ∧ body (feeds states parts outer) = .ok outputs ∧ plan.states ≤ outputs.length
        ∧ (plan.wiring captured).collect outputs = .ok row
        ∧ next = ⟨feeds (outputs.take plan.states) parts outer, rows ++ [row], some outputs⟩ := by
  unfold Wiring.step
  simp only [Except.bind_eq_ok, feed_feeds_eq_ok hfirst hscans hdirections hstates hmiddle]
  constructor
  · rintro ⟨_, ⟨parts, hslices, rfl⟩, outputs, hbody, arguments, hcarry, row, hcollect, hnext⟩
    rw [feeds, List.append_assoc] at hcarry
    obtain ⟨hlength, rfl⟩ := (carry_iff hstates).1 hcarry
    refine ⟨parts, outputs, row, hslices, hbody, hlength, hcollect, ?_⟩
    rw [feeds, List.append_assoc]
    exact (Except.ok.inj hnext).symm
  · rintro ⟨parts, outputs, row, hslices, hbody, hlength, hcollect, rfl⟩
    refine ⟨_, ⟨parts, hslices, rfl⟩, outputs, hbody, feeds (outputs.take plan.states) parts outer, ?_,
      row, hcollect, rfl⟩
    rw [feeds, feeds, List.append_assoc, List.append_assoc]
    exact (carry_iff hstates).2 ⟨hlength, rfl⟩

-- ================================================================ passes

/-- Steps one after the other, from step number `step` on: the states
before them, a row of what is to be joined for each of them, and the
states after them. -/
inductive Passes (plan : ScanPlan) (body : Wiring.Body) (outer : List Operand) (scans : List Tensor) :
    Nat → List Operand → List (List Operand) → List Operand → Prop
  | nil {step : Nat} {states : List Operand} : Passes plan body outer scans step states [] states
  | cons {step : Nat} {states outputs row final : List Operand} {parts : List Tensor}
      {rows : List (List Operand)} (hslices : plan.Slices scans step parts)
      (hbody : body (feeds states parts outer) = .ok outputs)
      (hlength : plan.states ≤ outputs.length)
      (hcollect : (plan.wiring outer.length).collect outputs = .ok row)
      (hrest : Passes plan body outer scans (step + 1) (outputs.take plan.states) rows final) :
      Passes plan body outer scans step states (row :: rows) final

namespace Passes

variable {rows front back : List (List Operand)} {final : List Operand}

theorem length_final (h : plan.Passes body outer scans step states rows final)
    (hstates : states.length = plan.states) : final.length = plan.states := by
  induction h with
  | nil => exact hstates
  | cons _ _ hlength _ _ ih => exact ih (by rw [List.length_take, Nat.min_eq_left hlength])

/-- Steps can be taken in two goes. -/
theorem append (h : plan.Passes body outer scans step states (front ++ back) final) :
    ∃ between, plan.Passes body outer scans step states front between
      ∧ plan.Passes body outer scans (step + front.length) between back final := by
  induction front generalizing step states with
  | nil => exact ⟨states, .nil, h⟩
  | cons row front ih =>
      cases h with
      | cons hslices hbody hlength hcollect hrest =>
          obtain ⟨between, hfront, hback⟩ := ih hrest
          refine ⟨between, .cons hslices hbody hlength hcollect hfront, ?_⟩
          rwa [List.length_cons, Nat.add_comm front.length, ← Nat.add_assoc]

/-- Steps on other scan inputs that have the same slices. -/
theorem transfer {step' : Nat} (h : plan.Passes body outer scans step states rows final)
    (hslices : ∀ i < rows.length, ∀ parts,
      plan.Slices scans (step + i) parts → plan.Slices others (step' + i) parts) :
    plan.Passes body outer others step' states rows final := by
  induction h generalizing step' with
  | nil => exact .nil
  | cons hfirst hbody hlength hcollect _ ih =>
      refine .cons (hslices 0 (Nat.succ_pos _) _ hfirst) hbody hlength hcollect
        (ih fun i hi parts h => ?_)
      rw [Nat.add_assoc, Nat.add_comm 1] at h ⊢
      exact hslices (i + 1) (Nat.succ_lt_succ hi) parts h

end Passes

section

variable {init rows : List (List Operand)} {last : Option (List Operand)} {count : Nat}
  {final : List Operand}

/-- A number of iterations that succeed are so many steps. -/
theorem exists_passes (hfirst : first.length = plan.states)
    (hscans : scans.length = plan.inputAxes.length)
    (hdirections : plan.inputDirections.length = plan.inputAxes.length)
    (hstates : states.length = plan.states) (hmiddle : middle.length = plan.inputAxes.length)
    {state : Wiring.State}
    (h : (plan.wiring outer.length).iterate body (feeds first scans outer)
      ⟨states ++ middle ++ outer, init, last⟩ step count = .ok state) :
    ∃ rows final, plan.Passes body outer scans step states rows final ∧ rows.length = count
      ∧ state.rows = init ++ rows := by
  induction count generalizing step states middle init last with
  | zero =>
      cases h
      exact ⟨[], states, .nil, rfl, (List.append_nil _).symm⟩
  | succ count ih =>
      obtain ⟨next, hstep, hrest⟩ := Except.bind_eq_ok.1 h
      obtain ⟨parts, outputs, row, hslices, hbody, hlength, hcollect, rfl⟩ :=
        (step_eq_ok hfirst hscans hdirections hstates hmiddle).1 hstep
      obtain ⟨rows, final, hpasses, hcount, hrows⟩ := ih
        (by rw [List.length_take, Nat.min_eq_left hlength])
        (by rw [List.length_map, hslices.length hscans hdirections]) hrest
      refine ⟨row :: rows, final, .cons hslices hbody hlength hcollect hpasses,
        congrArg Nat.succ hcount, ?_⟩
      rw [hrows, List.append_assoc, List.singleton_append]

/-- Steps are as many iterations, and the last of them has left the
states. -/
theorem Passes.iterate_eq_ok (h : plan.Passes body outer scans step states rows final)
    (hfirst : first.length = plan.states) (hscans : scans.length = plan.inputAxes.length)
    (hdirections : plan.inputDirections.length = plan.inputAxes.length)
    (hstates : states.length = plan.states) (hmiddle : middle.length = plan.inputAxes.length) :
    ∃ state, (plan.wiring outer.length).iterate body (feeds first scans outer)
        ⟨states ++ middle ++ outer, init, last⟩ step rows.length = .ok state
      ∧ state.rows = init ++ rows
      ∧ (rows = [] ∧ state.last = last ∨ ∃ outputs, state.last = some outputs
        ∧ plan.states ≤ outputs.length ∧ final = outputs.take plan.states) := by
  induction h generalizing middle init last with
  | nil => exact ⟨_, rfl, (List.append_nil _).symm, Or.inl ⟨rfl, rfl⟩⟩
  | @cons step states outputs row final parts rows hslices hbody hlength hcollect hrest ih =>
      have hstep := (@step_eq_ok plan body first states middle outer scans step init last
        outer.length _ hfirst hscans hdirections hstates hmiddle).2
          ⟨parts, outputs, row, hslices, hbody, hlength, hcollect, rfl⟩
      obtain ⟨state, hiterate, hrows, hlast⟩ := @ih (parts.map some)
        (init ++ [row]) (some outputs) (by rw [List.length_take, Nat.min_eq_left hlength])
        (by rw [List.length_map, hslices.length hscans hdirections])
      refine ⟨state, Except.bind_eq_ok.2 ⟨_, hstep, hiterate⟩, ?_, Or.inr ?_⟩
      · rw [hrows, List.append_assoc, List.singleton_append]
      · rcases hlast with ⟨rfl, hlast⟩ | hlast
        · cases hrest
          exact ⟨outputs, hlast, hlength, rfl⟩
        · exact hlast

-- ================================================================ counting

/-- A loop over inputs that all have one size takes as many steps, unless
there is none of them. -/
theorem iterations_feeds_eq_ok {captured size count : Nat} (hfirst : first.length = plan.states)
    (hscans : scans.length = plan.inputAxes.length)
    (hdirections : plan.inputDirections.length = plan.inputAxes.length)
    (hsizes : ∀ entry ∈ scans.zip plan.inputAxes, entry.1.sizeAlong entry.2 = .ok size) :
    (plan.wiring captured).iterations (feeds first scans outer) = .ok count
      ↔ plan.inputAxes ≠ [] ∧ count = size := by
  have hcounts : (plan.wiring captured).sliced.mapM (Wiring.partCount (feeds first scans outer))
      = .ok (List.replicate plan.inputAxes.length size) := by
    refine Except.mapM_eq_ok.2 ((forall₂_sliced (f := fun t slicing => do
      slicing.count (← t.sizeAlong slicing.axis)) hfirst hscans hdirections).2
        (forall₂_of_getElem? ?_ fun j entry n hentry hn => ?_))
    · simp only [List.length_zip, hscans, hdirections, Nat.min_self, List.length_replicate]
    · obtain ⟨hscan, hwalk⟩ := List.getElem?_zip_eq_some.1 hentry
      obtain ⟨haxis, -⟩ := List.getElem?_zip_eq_some.1 hwalk
      have hsize := hsizes (entry.1, entry.2.1)
        (List.mem_of_getElem? (List.getElem?_zip_eq_some.2 ⟨hscan, haxis⟩))
      rw [axis_walk, hsize, Except.ok_bind, count_walk,
        List.eq_of_mem_replicate (List.mem_of_getElem? hn)]
  have hempty : (plan.wiring captured).sliced.isEmpty = true ↔ plan.inputAxes = [] := by
    rw [List.isEmpty_iff_length_eq_zero, length_sliced captured hdirections, List.length_eq_zero_iff]
  unfold Wiring.iterations
  rw [Except.guard_eq_ok, hempty, hcounts]
  refine and_congr_right fun hne => ?_
  have hdistinct : Wiring.distinctSorted (List.replicate plan.inputAxes.length size) = [size] := by
    refine distinctSorted_eq_singleton.2 ⟨fun hnil => hne ?_, fun _ => List.eq_of_mem_replicate⟩
    rw [← List.length_eq_zero_iff, ← @List.length_replicate _ plan.inputAxes.length size, hnil,
      List.length_nil]
  rw [Except.ok_bind, hdistinct]
  exact ⟨fun h => (Except.ok.inj h).symm, fun h => h ▸ rfl⟩

-- ================================================================= results

/-- The tensors that the values of each step are joined to. -/
def Joined (plan : ScanPlan) (rows : List (List Operand)) (zs : List Tensor) : Prop :=
  List.Forall₂ (fun entry z =>
      (walk entry.1.1 entry.1.2).joinParts (rows.map (·.getD entry.2 none)) = .ok z)
    ((plan.outputAxes.zip plan.outputDirections).zipIdx plan.states) zs

/-- After steps that succeed a loop returns the last states, and what the
values of the steps are joined to. -/
theorem Passes.run_eq_ok {results : List Operand}
    (h : plan.Passes body outer scans 0 states rows final) (hrows : rows ≠ [])
    (hstates : states.length = plan.states) (hscans : scans.length = plan.inputAxes.length)
    (hdirections : plan.inputDirections.length = plan.inputAxes.length)
    (hsizes : ∀ entry ∈ scans.zip plan.inputAxes, entry.1.sizeAlong entry.2 = .ok rows.length) :
    (plan.wiring outer.length).run (plan.inputCount + outer.length) body
        (feeds states scans outer) = .ok results
      ↔ plan.inputAxes ≠ [] ∧ ∃ zs, plan.Joined rows zs ∧ results = final ++ zs.map some := by
  obtain ⟨state, hiterate, hstateRows, hlast⟩ := @Passes.iterate_eq_ok plan body states states
    (List.replicate scans.length none) outer scans 0 [] rows none final h hstates hscans
    hdirections hstates (by rw [List.length_replicate, hscans])
  rw [List.nil_append] at hstateRows
  rcases hlast with ⟨hnil, -⟩ | ⟨outputs, hlast, hlength, rfl⟩
  · exact absurd hnil hrows
  have hresults : (plan.wiring outer.length).outputs.zipIdx.mapM (fun entry =>
      (plan.wiring outer.length).result (feeds states scans outer) state entry.1 entry.2)
        = .ok results
      ↔ ∃ zs, plan.Joined rows zs ∧ results = outputs.take plan.states ++ zs.map some := by
    have hstate (finals : List Operand) : List.Forall₂ (fun (i : Nat) final =>
        (plan.wiring outer.length).result (feeds states scans outer) state (.last i) i = .ok final)
          (List.range plan.states) finals ↔ finals = outputs.take plan.states := by
      have hread (i : Nat) : (plan.wiring outer.length).result (feeds states scans outer) state
          (.last i) i = elementAt outputs i := by
        simp only [Wiring.result, Wiring.lastValue, hlast]
      simp only [hread, elementAt_natCast_eq_ok, forall₂_range_getElem?, hlength, true_and]
    have hjoined (values : List Operand) : List.Forall₂ (fun (entry : (Int × Int) × Nat) value =>
        (plan.wiring outer.length).result (feeds states scans outer) state
          (.joined (entry.2 : Nat) (walk entry.1.1 entry.1.2)) entry.2 = .ok value)
        ((plan.outputAxes.zip plan.outputDirections).zipIdx plan.states) values
        ↔ ∃ zs, plan.Joined rows zs ∧ values = zs.map some := by
      have hread (entry : (Int × Int) × Nat) (value : Operand) :
          (plan.wiring outer.length).result (feeds states scans outer) state
            (.joined (entry.2 : Nat) (walk entry.1.1 entry.1.2)) entry.2 = .ok value
          ↔ ∃ z, (walk entry.1.1 entry.1.2).joinParts (rows.map (·.getD entry.2 none)) = .ok z
            ∧ some z = value := by
        have hnonempty : ¬ state.rows.isEmpty = true := by rwa [List.isEmpty_iff, hstateRows]
        rw [Wiring.result, if_neg hnonempty, hstateRows]
        exact Except.map_eq_ok
      simp only [hread]
      exact forall₂_exists_map
    rw [zipIdx_outputs, Except.mapM_eq_ok]
    constructor
    · intro hall
      obtain ⟨finals, values, hfinals, hvalues, rfl⟩ := forall₂_append_left hall
      rw [List.forall₂_map_left_iff] at hfinals hvalues
      obtain rfl := (hstate finals).1 hfinals
      obtain ⟨zs, hzs, rfl⟩ := (hjoined values).1 hvalues
      exact ⟨zs, hzs, rfl⟩
    · rintro ⟨zs, hzs, rfl⟩
      refine List.rel_append ?_ ?_
      · exact List.forall₂_map_left_iff.2 ((hstate _).2 rfl)
      · exact List.forall₂_map_left_iff.2 ((hjoined _).2 ⟨zs, hzs, rfl⟩)
  unfold Wiring.run
  rw [start_feeds_eq_ok hstates hscans, Except.ok_bind]
  simp only [Except.bind_eq_ok, iterations_feeds_eq_ok hstates hscans hdirections hsizes]
  constructor
  · rintro ⟨_, ⟨hne, rfl⟩, _, hstate, hmap⟩
    obtain rfl := Except.ok.inj (hiterate.symm.trans hstate)
    exact ⟨hne, hresults.1 hmap⟩
  · rintro ⟨hne, hzs⟩
    exact ⟨rows.length, ⟨hne, rfl⟩, state, hiterate, hresults.2 hzs⟩

-- =================================================================== joins

/-- What is joined at an output has one shape and one type at all steps. -/
def Uniform (plan : ScanPlan) (rows : List (List Operand)) : Prop :=
  ∀ j < plan.outputAxes.length, ∃ shape dtype, ∀ row ∈ rows, ∀ t,
    row.getD (plan.states + j) none = some t → t.shape = shape ∧ t.dtype = dtype

/-- Each tensor is what two of them are joined to, in the order in which a
walk comes to them. -/
def JoinedPairs (plan : ScanPlan) (us vs zs : List Tensor) : Prop :=
  List.Forall₂ (fun entry z =>
      Tensor.join (arrange entry.1.2 [entry.2.1, entry.2.2]) entry.1.1 = .ok z)
    ((plan.outputAxes.zip plan.outputDirections).zip (us.zip vs)) zs

variable {axis direction : Int} {z : Tensor}

theorem joinParts_walk_eq_ok {values : List Operand} :
    (walk axis direction).joinParts values = .ok z
      ↔ ∃ parts, values = parts.map some ∧ Tensor.join (arrange direction parts) axis = .ok z := by
  have hvalues {values : List Operand} {parts : List Tensor} :
      values.mapM Operand.value = .ok parts ↔ values = parts.map some := by
    rw [Except.mapM_eq_ok, eq_map_iff_forall₂]
    refine ⟨fun h => h.imp fun value part hpart => ?_, fun h => h.imp fun value part hpart => ?_⟩
    · cases value with
      | none => cases hpart
      | some t => exact congrArg some (Except.ok.inj hpart)
    · rw [hpart]
      rfl
  unfold Slicing.joinParts
  rw [Except.bind_eq_ok, axis_walk]
  simp only [hvalues]
  unfold walk arrange
  by_cases hdirection : direction = 0
  · simp only [hdirection, if_true]
    exact Iff.rfl
  · simp only [hdirection, if_false]
    show (∃ parts, values.reverse = _ ∧ _) ↔ _
    constructor
    · rintro ⟨parts, hparts, hjoin⟩
      refine ⟨parts.reverse, ?_, by rwa [List.reverse_reverse]⟩
      rw [List.map_reverse, ← hparts, List.reverse_reverse]
    · rintro ⟨parts, rfl, hjoin⟩
      exact ⟨parts.reverse, by rw [List.map_reverse], hjoin⟩

/-- Values of one shape and type are joined as they are if what some of
them are joined to is joined with what the other ones are. -/
theorem joinParts_append_eq_ok {front back : List Operand} {shape : Shape} {dtype : DType}
    (hfront : front ≠ []) (hback : back ≠ [])
    (h : ∀ t, some t ∈ front ++ back → t.shape = shape ∧ t.dtype = dtype) :
    (walk axis direction).joinParts (front ++ back) = .ok z
      ↔ ∃ u v, (walk axis direction).joinParts front = .ok u
        ∧ (walk axis direction).joinParts back = .ok v
        ∧ Tensor.join (arrange direction [u, v]) axis = .ok z := by
  have hsplit {as bs : List Tensor} (has : front = as.map some) (hbs : back = bs.map some) :
      Tensor.join (arrange direction (as ++ bs)) axis = .ok z
        ↔ ∃ u v, Tensor.join (arrange direction as) axis = .ok u
          ∧ Tensor.join (arrange direction bs) axis = .ok v
          ∧ Tensor.join (arrange direction [u, v]) axis = .ok z := by
    subst has hbs
    rw [Ne, List.map_eq_nil_iff] at hfront hback
    have halike : Tensor.Alike shape dtype (as ++ bs) := fun part hpart =>
      h part (by rw [← List.map_append]; exact List.mem_map_of_mem hpart)
    unfold arrange
    by_cases hdirection : direction = 0
    · simp only [hdirection, if_true]
      exact Tensor.join_append_eq_ok hfront hback halike
    · simp only [hdirection, if_false]
      rw [List.reverse_append, Tensor.join_append_eq_ok (mt List.reverse_eq_nil_iff.1 hback)
        (mt List.reverse_eq_nil_iff.1 hfront) fun part hpart => halike part ?_, exists_comm]
      · exact exists_congr fun u => exists_congr fun v => and_left_comm
      · rw [← List.reverse_append, List.mem_reverse] at hpart
        exact hpart
  simp only [joinParts_walk_eq_ok]
  constructor
  · rintro ⟨parts, hparts, hjoin⟩
    obtain ⟨as, bs, rfl, has, hbs⟩ := List.map_eq_append_iff.1 hparts.symm
    obtain ⟨u, v, hu, hv, hz⟩ := (hsplit has.symm hbs.symm).1 hjoin
    exact ⟨u, v, ⟨as, has.symm, hu⟩, ⟨bs, hbs.symm, hv⟩, hz⟩
  · rintro ⟨u, v, ⟨as, has, hu⟩, ⟨bs, hbs, hv⟩, hz⟩
    exact ⟨as ++ bs, by rw [has, hbs, List.map_append], (hsplit has hbs).2 ⟨u, v, hu, hv, hz⟩⟩

/-- What the values of all steps are joined to is what those of the first
steps and those of the last steps are joined to, joined. -/
theorem joined_append (hfront : front ≠ []) (hback : back ≠ [])
    (huniform : plan.Uniform (front ++ back))
    (houtputs : plan.outputDirections.length = plan.outputAxes.length) {zs : List Tensor} :
    plan.Joined (front ++ back) zs
      ↔ ∃ us vs, plan.Joined front us ∧ plan.Joined back vs ∧ plan.JoinedPairs us vs zs := by
  have hentry (entry : (Int × Int) × Nat)
      (hmem : entry ∈ (plan.outputAxes.zip plan.outputDirections).zipIdx plan.states) (z : Tensor) :
      (walk entry.1.1 entry.1.2).joinParts ((front ++ back).map (·.getD entry.2 none)) = .ok z
        ↔ ∃ u v, (walk entry.1.1 entry.1.2).joinParts (front.map (·.getD entry.2 none)) = .ok u
          ∧ (walk entry.1.1 entry.1.2).joinParts (back.map (·.getD entry.2 none)) = .ok v
          ∧ Tensor.join (arrange entry.1.2 [u, v]) entry.1.1 = .ok z := by
    obtain ⟨hle, hlt, -⟩ := List.mem_zipIdx hmem
    rw [List.length_zip, houtputs, Nat.min_self] at hlt
    obtain ⟨shape, dtype, halike⟩ := huniform (entry.2 - plan.states) (by omega)
    rw [Nat.add_sub_cancel' hle] at halike
    rw [List.map_append]
    refine @joinParts_append_eq_ok _ _ _ _ _ shape dtype (mt List.map_eq_nil_iff.1 hfront)
      (mt List.map_eq_nil_iff.1 hback) fun t ht => ?_
    rw [← List.map_append] at ht
    obtain ⟨row, hrow, ht⟩ := List.mem_map.1 ht
    exact halike row hrow t ht
  unfold Joined JoinedPairs
  generalize plan.outputAxes.zip plan.outputDirections = pairs at hentry ⊢
  generalize plan.states = first at hentry ⊢
  clear huniform
  induction pairs generalizing first zs with
  | nil =>
      simp only [List.zipIdx_nil, List.zip_nil_left, List.forall₂_nil_left_iff]
      exact ⟨fun h => ⟨[], [], rfl, rfl, h⟩, fun ⟨_, _, _, _, h⟩ => h⟩
  | cons pair pairs ih =>
      rw [List.zipIdx_cons, List.forall_mem_cons] at hentry
      rw [List.zipIdx_cons]
      simp only [List.forall₂_cons_left_iff, hentry.1, ih (first + 1) hentry.2]
      constructor
      · rintro ⟨z, zs, ⟨u, v, hu, hv, hz⟩, ⟨us, vs, hus, hvs, hzs⟩, rfl⟩
        exact ⟨u :: us, v :: vs, ⟨u, us, hu, hus, rfl⟩, ⟨v, vs, hv, hvs, rfl⟩, .cons hz hzs⟩
      · rintro ⟨_, _, ⟨u, us, hu, hus, rfl⟩, ⟨v, vs, hv, hvs, rfl⟩, hpairs⟩
        rw [List.zip_cons_cons, List.zip_cons_cons, List.forall₂_cons_left_iff] at hpairs
        obtain ⟨z, zs, hz, hzs, rfl⟩ := hpairs
        exact ⟨z, zs, ⟨u, v, hu, hv, hz⟩, ⟨us, vs, hus, hvs, hzs⟩, rfl⟩

-- ==================================================================== run

theorem Halves.sizes (h : plan.Halves m n wholes firsts seconds) (hpos : 0 < m ∧ 0 < n)
    (hdirections : plan.inputDirections.length = plan.inputAxes.length) :
    (∀ entry ∈ wholes.zip plan.inputAxes, entry.1.sizeAlong entry.2 = .ok (m + n))
      ∧ (∀ entry ∈ firsts.zip plan.inputAxes, entry.1.sizeAlong entry.2 = .ok m)
      ∧ ∀ entry ∈ seconds.zip plan.inputAxes, entry.1.sizeAlong entry.2 = .ok n := by
  have hat {j : Nat} (hj : j < plan.inputAxes.length) : ∃ whole first second direction,
      wholes[j]? = some whole ∧ firsts[j]? = some first ∧ seconds[j]? = some second
        ∧ Consists (plan.inputAxes[j]) direction m n whole first second :=
    ⟨_, _, _, _, List.getElem?_eq_getElem (h.lengthWholes.symm ▸ hj),
      List.getElem?_eq_getElem (h.lengthFirsts.symm ▸ hj),
      List.getElem?_eq_getElem (h.lengthSeconds.symm ▸ hj),
      h.consists (List.getElem?_eq_getElem _) (List.getElem?_eq_getElem _)
        (List.getElem?_eq_getElem _) (List.getElem?_eq_getElem hj)
        (List.getElem?_eq_getElem (hdirections.symm ▸ hj))⟩
  have hzip {tensors : List Tensor} {entry : Tensor × Int}
      (hentry : entry ∈ tensors.zip plan.inputAxes) :
      ∃ (j : Nat) (hj : j < plan.inputAxes.length), tensors[j]? = some entry.1
        ∧ plan.inputAxes[j] = entry.2 := by
    obtain ⟨j, hentry⟩ := List.mem_iff_getElem?.1 hentry
    obtain ⟨htensor, haxis⟩ := List.getElem?_zip_eq_some.1 hentry
    obtain ⟨hj, haxis⟩ := List.getElem?_eq_some_iff.1 haxis
    exact ⟨j, hj, htensor, haxis⟩
  refine ⟨fun entry hentry => ?_, fun entry hentry => ?_, fun entry hentry => ?_⟩
  all_goals
    obtain ⟨j, hj, htensor, haxis⟩ := hzip hentry
    obtain ⟨whole, first, second, direction, hwhole, hfirst, hsecond, hconsists⟩ := hat hj
    rw [haxis] at hconsists
  · rw [Option.some.inj (htensor.symm.trans hwhole)]
    exact hconsists.sizeWhole hpos
  · rw [Option.some.inj (htensor.symm.trans hfirst)]
    exact hconsists.sizeFirst
  · rw [Option.some.inj (htensor.symm.trans hsecond)]
    exact hconsists.sizeSecond

/-- **Splitting.** The loop of a scan, with any function for its body, gets
scan inputs that consist of a part of `m` slices and one of `n`, the
first of them being the one that the walk comes to first: for a forward
walk the front of the input, for a backward walk its back. All `m + n`
steps succeed, and what is to be joined has one shape and one type at
all of them.

The loop then returns some results if and only if the loop over the first
parts returns states and joined values, the loop over the second parts
returns states and joined values too when it starts from these states,
and the results are the last states together with what the joined values
of both loops are joined to, in the order of the steps for a forward
output and in the opposite order for a backward one. -/
theorem run_eq_split {results arguments : List Operand} {last : Wiring.State}
    (hstates : states.length = plan.states)
    (hdirections : plan.inputDirections.length = plan.inputAxes.length)
    (houtputs : plan.outputDirections.length = plan.outputAxes.length)
    (hpos : 0 < m ∧ 0 < n) (hhalves : plan.Halves m n wholes firsts seconds)
    (hstart : (plan.wiring outer.length).start (plan.inputCount + outer.length)
      (feeds states wholes outer) = .ok arguments)
    (hsteps : (plan.wiring outer.length).iterate body (feeds states wholes outer) { arguments } 0
      (m + n) = .ok last)
    (huniform : plan.Uniform last.rows) :
    (plan.wiring outer.length).run (plan.inputCount + outer.length) body (feeds states wholes outer)
        = .ok results
      ↔ ∃ between final us vs zs,
        between.length = plan.states ∧ us.length = plan.outputAxes.length
        ∧ (plan.wiring outer.length).run (plan.inputCount + outer.length) body
            (feeds states firsts outer) = .ok (between ++ us.map some)
        ∧ final.length = plan.states ∧ vs.length = plan.outputAxes.length
        ∧ (plan.wiring outer.length).run (plan.inputCount + outer.length) body
            (feeds between seconds outer) = .ok (final ++ vs.map some)
        ∧ plan.JoinedPairs us vs zs ∧ results = final ++ zs.map some := by
  have hwholes := hhalves.lengthWholes
  rw [start_feeds_eq_ok hstates hwholes] at hstart
  obtain rfl := Except.ok.inj hstart
  obtain ⟨rows, final, hpasses, hcount, hrows⟩ := exists_passes hstates hwholes hdirections hstates
    (by rw [List.length_replicate, hwholes]) hsteps
  rw [List.nil_append] at hrows
  rw [hrows] at huniform
  -- The rows of the first steps and those of the last ones.
  obtain ⟨front, back, rfl, rfl, rfl⟩ : ∃ front back, front ++ back = rows ∧ front.length = m
      ∧ back.length = n :=
    ⟨rows.take m, rows.drop m, List.take_append_drop m rows,
      by rw [List.length_take]; omega, by rw [List.length_drop]; omega⟩
  have hfront : front ≠ [] := List.length_pos_iff.1 hpos.1
  have hback : back ≠ [] := List.length_pos_iff.1 hpos.2
  obtain ⟨between, hbefore, hafter⟩ := hpasses.append
  rw [Nat.zero_add] at hafter
  have hfirsts : plan.Passes body outer firsts 0 states front between :=
    hbefore.transfer fun i hi parts h => by
      rw [Nat.zero_add] at h ⊢
      exact hhalves.slices_first hpos hi h
  have hseconds : plan.Passes body outer seconds 0 between back final :=
    hafter.transfer fun i hi parts h => by
      rw [Nat.zero_add]
      exact hhalves.slices_second hpos hi h
  have hbetween := hfirsts.length_final hstates
  have hfinal := hseconds.length_final hbetween
  obtain ⟨hsizes, hsizesFirst, hsizesSecond⟩ := hhalves.sizes hpos hdirections
  rw [← List.length_append] at hsizes
  rw [hpasses.run_eq_ok (List.append_ne_nil_of_left_ne_nil hfront back) hstates hwholes hdirections
    hsizes]
  simp only [joined_append hfront hback huniform houtputs]
  have hlength {rows : List (List Operand)} {zs : List Tensor} (h : plan.Joined rows zs) :
      zs.length = plan.outputAxes.length := by
    rw [← h.length_eq, List.length_zipIdx, List.length_zip, houtputs, Nat.min_self]
  have hrunFirst (results : List Operand) := @Passes.run_eq_ok plan body states outer firsts front
    between results hfirsts hfront hstates hhalves.lengthFirsts hdirections hsizesFirst
  have hrunSecond (results : List Operand) := @Passes.run_eq_ok plan body between outer seconds back
    final results hseconds hback hbetween hhalves.lengthSeconds hdirections hsizesSecond
  constructor
  · rintro ⟨hne, zs, ⟨us, vs, hus, hvs, hzs⟩, rfl⟩
    exact ⟨between, final, us, vs, zs, hbetween, hlength hus,
      (hrunFirst _).2 ⟨hne, us, hus, rfl⟩, hfinal, hlength hvs,
      (hrunSecond _).2 ⟨hne, vs, hvs, rfl⟩, hzs, rfl⟩
  · rintro ⟨between', final', us, vs, zs, hbetween', -, hfirst, hfinal', -, hsecond, hzs, rfl⟩
    have hsome := List.map_injective_iff.2 fun (s t : Tensor) (h : some s = some t) => Option.some.inj h
    obtain ⟨hne, us', hus, hresults⟩ := (hrunFirst _).1 hfirst
    obtain ⟨rfl, hsame⟩ := List.append_inj hresults (hbetween'.trans hbetween.symm)
    obtain rfl := hsome hsame
    obtain ⟨-, vs', hvs, hresults⟩ := (hrunSecond _).1 hsecond
    obtain ⟨rfl, hsame⟩ := List.append_inj hresults (hfinal'.trans hfinal.symm)
    obtain rfl := hsome hsame
    exact ⟨hne, zs, ⟨us, vs, hus, hvs, hzs⟩, rfl⟩

/-- A body that returns its state, and its slice as the next state. -/
def delaying : Wiring.Body
  | [state, part] => .ok [part, state]
  | _ => .error .argumentCount

/-- Three slices are walked backwards, the last two of them first, and
what they push out is joined backwards, too. -/
theorem run_eq_split_delaying :
    ((⟨1, [0], [1], [0], [1]⟩ : ScanPlan).wiring 0).run 2 delaying
        (feeds [some (.vector .int64 [7])] [.vector .int64 [1, 2, 3]] [])
      = .ok [some (.vector .int64 [1]), some (.vector .int64 [2, 3, 7])] := by
  have hhalves : (⟨1, [0], [1], [0], [1]⟩ : ScanPlan).Halves 2 1 [.vector .int64 [1, 2, 3]]
      [.vector .int64 [2, 3]] [.vector .int64 [1]] := by
    refine ⟨rfl, rfl, rfl, fun {j} _ _ _ _ _ hwhole hfirst hsecond haxis hdirection => ?_⟩
    obtain rfl : j = 0 := Nat.lt_one_iff.1 (List.getElem?_eq_some_iff.1 hwhole).1
    cases hwhole
    cases hfirst
    cases hsecond
    cases haxis
    cases hdirection
    exact ⟨rfl, rfl, rfl, by decide +kernel⟩
  refine (@run_eq_split ⟨1, [0], [1], [0], [1]⟩ delaying [some (.vector .int64 [7])] []
    [.vector .int64 [1, 2, 3]] [.vector .int64 [2, 3]] [.vector .int64 [1]] 2 1 _
    [some (.vector .int64 [7]), none]
    ⟨[some (.vector .int64 [1]), some (.vector .int64 [1])],
      [[none, some (.vector .int64 [7])], [none, some (.vector .int64 [3])],
        [none, some (.vector .int64 [2])]],
      some [some (.vector .int64 [1]), some (.vector .int64 [2])]⟩
    rfl rfl rfl (by decide) hhalves rfl rfl ?_).2
    ⟨[some (.vector .int64 [2])], [some (.vector .int64 [1])], [.vector .int64 [3, 7]],
      [.vector .int64 [2]], [.vector .int64 [2, 3, 7]], rfl, rfl, by decide +kernel, rfl, rfl,
      by decide +kernel, .cons (by decide +kernel) .nil, rfl⟩
  intro j hj
  obtain rfl : j = 0 := Nat.lt_one_iff.1 hj
  refine ⟨[1], .int64, fun row hrow t ht => ?_⟩
  simp only [List.mem_cons, List.not_mem_nil, or_false] at hrow
  rcases hrow with rfl | rfl | rfl <;> cases ht <;> exact ⟨rfl, rfl⟩

/-- A body that returns the first of its states, and drops it. -/
def draining : Wiring.Body
  | [first, second, third, _] => .ok [second, third, third, first]
  | _ => .error .argumentCount

/-- A body that keeps its last two slices. -/
def trailing : Wiring.Body
  | [_, second, part] => .ok [second, part]
  | _ => .error .argumentCount

/-- Types that change from step to step, or from one part of a scan input
to the other, make a difference. If an integer is joined with a number of
two bytes first, and with one of four bytes then, it is rounded to two
bytes. And an integer in front of a number is an integer only to a loop
that has not got the number, too. -/
theorem run_ne_split_wideInteger :
    (let plan : ScanPlan := ⟨3, [0], [0], [0], [0]⟩
      let run (states : List Operand) (scan : Tensor) :=
        (plan.wiring 0).run 4 draining (feeds states [scan] [])
      let wide : Operand := some (.vector .int64 [2049])
      let half : Operand := some (.vector .float16 [0x3C00])
      let single : Operand := some (.vector .float32 [0x3F800000])
      let joined : Tensor := .vector .float32 [0x45001000, 0x3F800000, 0x3F800000]
      ∃ u v z,
        Tensor.join [.vector .int64 [0, 0], .vector .int64 [0]] 0 = .ok (.vector .int64 [0, 0, 0])
          ∧ run [wide, half, single] (.vector .int64 [0, 0, 0])
            = .ok [single, single, single, some joined]
          ∧ run [wide, half, single] (.vector .int64 [0, 0]) = .ok [single, single, single, some u]
          ∧ run [single, single, single] (.vector .int64 [0]) = .ok [single, single, single, some v]
          ∧ Tensor.join [u, v] 0 = .ok z ∧ z ≠ joined)
      ∧ (let plan : ScanPlan := ⟨2, [0], [0], [], []⟩
        let run (states : List Operand) (scan : Tensor) :=
          (plan.wiring 0).run 3 trailing (feeds states [scan] [])
        let wide : Tensor := .vector .int64 [2049]
        let single : Tensor := .vector .float32 [0x3F800000]
        ∃ whole final,
          Tensor.join [wide, single] 0 = .ok whole
            ∧ run [some wide, some wide] whole = .ok [some final, some single]
            ∧ run [some wide, some wide] wide = .ok [some wide, some wide]
            ∧ run [some wide, some wide] single = .ok [some wide, some single] ∧ wide ≠ final) :=
  ⟨⟨.vector .float16 [0x6800, 0x3C00], .vector .float32 [0x3F800000],
      .vector .float32 [0x45000000, 0x3F800000, 0x3F800000], by decide +kernel, by decide +kernel,
      by decide +kernel, by decide +kernel, by decide +kernel, by decide +kernel⟩,
    ⟨.vector .float32 [0x45001000, 0x3F800000], .vector .float32 [0x45001000], by decide +kernel,
      by decide +kernel, by decide +kernel, by decide +kernel, by decide +kernel⟩⟩

end

end

end Handler.ScanPlan

end OnnxLowering
