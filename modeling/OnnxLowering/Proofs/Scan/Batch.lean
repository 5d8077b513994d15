/-
Scans of batches. Up to version 8 of the operator set the first dimension
of all tensors of a scan counts samples, and the second one is scanned.
The body is not told: it is applied to whole batches. So two functions
are at work, that of the samples (`single`), which the body is written
for, and that of the batches (`body`), which it is used for. A scan with
the second one treats samples independently of each other, as scans with
the first one would, exactly if the second one does with each sample of a
batch what the first one does (`independent_iff_sampleWise`). One direction
is an induction over the steps, for the other one it is enough to scan
sequences of length one.
-/
import OnnxLowering.Proofs.Scan.Meaning
import OnnxLowering.Proofs.Tensor.Samples

namespace OnnxLowering

open Tensor (atSample)

namespace Handler.ScanPlan

-- ============================================================ definitions

/-- The plan without the first dimension of all tensors: what had the
second one has the first. -/
def alone (plan : ScanPlan) : ScanPlan :=
  plan.withAxes (plan.inputAxes.map fun _ => 0) (plan.outputAxes.map fun _ => 0)

/-- A function of states and elements has as many results as the plan
says. -/
def Counts (plan : ScanPlan) (body : Body) : Prop :=
  ∀ xs values, body xs = .ok values → values.length = plan.states + plan.outputAxes.length

/-- A function of states and elements does with a batch what another one
does with each sample, wherever that does something with each sample. -/
def SampleWise (plan : ScanPlan) (single body : Body) (b : Nat) : Prop :=
  ∀ xs : List Tensor, xs.length = plan.inputCount → (∀ x ∈ xs, x.Batch b) →
    (∀ x ∈ xs.drop plan.states, (x.expand 1).Addressable) →
    ∀ values : Nat → List Tensor,
      (∀ k < b, single (atSample k xs) = .ok (values k)
        ∧ ∀ value ∈ (values k).drop plan.states, (value.expand 0).Addressable) →
      ∃ results, body xs = .ok results ∧ (∀ t ∈ results, t.Batch b)
        ∧ ∀ k < b, atSample k results = values k

/-- A scan, of which it is known what it returns, does with a batch what
the scan of each sample alone does, wherever each of these returns. -/
def Independent (plan : ScanPlan) (single : Body) (b : Nat)
    (returns : List Tensor → List Tensor → Prop) : Prop :=
  ∀ inputs : List Tensor, inputs.length = plan.inputCount → (∀ t ∈ inputs, t.Batch b) →
    (∀ scan ∈ inputs.drop plan.states, scan.Addressable) →
    ∀ values : Nat → List Tensor,
      (∀ k < b, plan.alone.run single (atSample k inputs) = .ok (values k)
        ∧ ∀ z ∈ (values k).drop plan.states, z.Addressable) →
      ∃ outputs, returns inputs outputs ∧ (∀ t ∈ outputs, t.Batch b)
        ∧ ∀ k < b, atSample k outputs = values k

/-- All axes of a plan are one dimension. -/
structure Along (plan : ScanPlan) (c : Nat) : Prop where
  inputAxes : ∀ axis ∈ plan.inputAxes, axis = c
  outputAxes : ∀ axis ∈ plan.outputAxes, axis = c
  inputDirections : plan.inputDirections.length = plan.inputAxes.length
  outputDirections : plan.outputDirections.length = plan.outputAxes.length
  nonempty : plan.inputAxes ≠ []

variable {plan : ScanPlan} {single body : Body} {c : Nat} {scans inputs outputs states : List Tensor}
  {ks : List Nat} {size step : Nat} {progress progress' : Progress}

theorem Counts.alone (h : plan.Counts body) : plan.alone.Counts body := by
  intro xs values hvalues
  rw [h xs values hvalues, ScanPlan.alone, withAxes, List.length_map]

theorem Along.alone (h : plan.Along c) : plan.alone.Along 0 where
  inputAxes := List.forall_mem_map.2 fun _ _ => rfl
  outputAxes := List.forall_mem_map.2 fun _ _ => rfl
  inputDirections := h.inputDirections.trans (List.length_map _).symm
  outputDirections := h.outputDirections.trans (List.length_map _).symm
  nonempty := fun hnil => h.nonempty (List.map_eq_nil_iff.1 hnil)

-- ================================================================== steps

theorem run_eq_ok : plan.run body inputs = .ok outputs ↔
    (∀ scan ∈ inputs.drop plan.states, scan.Addressable) ∧ ∃ ks size last zs,
      plan.dimensions (inputs.drop plan.states) = .ok ks
      ∧ steps (((inputs.drop plan.states).zip ks).map fun entry => entry.1.shape.getD entry.2 0)
        = .ok size
      ∧ (List.range size).foldlM (plan.advance body (inputs.drop plan.states) ks size)
        ⟨inputs.take plan.states, []⟩ = .ok last
      ∧ plan.stacked last.rows = .ok zs ∧ outputs = last.states ++ zs := by
  constructor
  · intro h
    obtain ⟨haddressable, h⟩ := Outcome.require_bind_eq_ok.1 h
    obtain ⟨ks, hks, h⟩ := Outcome.bind_eq_ok.1 h
    obtain ⟨size, hsize, h⟩ := Outcome.bind_eq_ok.1 h
    obtain ⟨last, hlast, h⟩ := Outcome.bind_eq_ok.1 h
    obtain ⟨zs, hzs, h⟩ := Outcome.bind_eq_ok.1 h
    exact ⟨haddressable, ks, size, last, zs, hks, hsize, hlast, hzs, (Outcome.ok.inj h).symm⟩
  · rintro ⟨haddressable, ks, size, last, zs, hks, hsize, hlast, hzs, rfl⟩
    refine Outcome.require_bind_eq_ok.2 ⟨haddressable, ?_⟩
    refine Outcome.bind_eq_ok.2 ⟨ks, hks, Outcome.bind_eq_ok.2 ⟨size, hsize, ?_⟩⟩
    exact Outcome.bind_eq_ok.2 ⟨last, hlast, Outcome.bind_eq_ok.2 ⟨zs, hzs, rfl⟩⟩

theorem advance_eq_ok : plan.advance body scans ks size progress step = .ok progress' ↔
    ∃ values us, body (progress.states ++ plan.elements scans ks size step) = .ok values
      ∧ (∀ value ∈ values.drop plan.states, value.Addressable)
      ∧ ((values.drop plan.states).zip plan.outputAxes).mapM
        (fun entry => Outcome.ofExcept (entry.1.unsqueeze entry.2)) = .ok us
      ∧ progress' = ⟨values.take plan.states, progress.rows ++ [values.drop plan.states]⟩ := by
  constructor
  · intro h
    obtain ⟨values, hvalues, h⟩ := Outcome.bind_eq_ok.1 h
    obtain ⟨haddressable, h⟩ := Outcome.require_bind_eq_ok.1 h
    obtain ⟨us, hus, h⟩ := Outcome.bind_eq_ok.1 h
    exact ⟨values, us, hvalues, haddressable, hus, (Outcome.ok.inj h).symm⟩
  · rintro ⟨values, us, hvalues, haddressable, hus, rfl⟩
    refine Outcome.bind_eq_ok.2 ⟨values, hvalues, Outcome.require_bind_eq_ok.2 ⟨haddressable, ?_⟩⟩
    exact Outcome.bind_eq_ok.2 ⟨us, hus, rfl⟩

/-- All scan inputs are read along the one dimension, and need to have
it. -/
theorem Along.dimensions (h : plan.Along c) (hscans : scans.length = plan.inputAxes.length) :
    plan.dimensions scans = .ok ks ↔
      (∀ scan ∈ scans, c < scan.rank) ∧ ks = List.replicate scans.length c := by
  unfold ScanPlan.dimensions
  rw [List.eq_replicate_iff.2 ⟨hscans.symm, h.inputAxes⟩, Outcome.mapM_eq_ok]
  clear hscans
  induction scans generalizing ks with
  | nil => simp
  | cons scan scans ih =>
      rw [List.length_cons, List.replicate_succ, List.zip_cons_cons, List.forall₂_cons_left_iff,
        List.forall_mem_cons, List.replicate_succ]
      constructor
      · rintro ⟨k, rest, hk, hrest, rfl⟩
        obtain ⟨hrank, rfl⟩ := (Tensor.resolveAxis_natCast _ c _).1 (Outcome.ofExcept_eq_ok.1 hk)
        obtain ⟨hranks, rfl⟩ := ih.1 hrest
        exact ⟨⟨hrank, hranks⟩, rfl⟩
      · rintro ⟨⟨hrank, hranks⟩, rfl⟩
        exact ⟨c, _, Outcome.ofExcept_eq_ok.2 ((Tensor.resolveAxis_natCast _ c _).2 ⟨hrank, rfl⟩),
          ih.2 ⟨hranks, rfl⟩, rfl⟩

/-- The sizes of the scan inputs along the one dimension. -/
theorem sizes_replicate (scans : List Tensor) (c : Nat) :
    ((scans.zip (List.replicate scans.length c)).map fun entry => entry.1.shape.getD entry.2 0)
      = scans.map fun scan => scan.shape.getD c 0 := by
  induction scans with
  | nil => rfl
  | cons scan scans ih =>
      rw [List.length_cons, List.replicate_succ, List.zip_cons_cons, List.map_cons, ih, List.map_cons]

/-- The elements that a step reads along the one dimension. -/
theorem elements_replicate (plan : ScanPlan) (scans : List Tensor) (c size step : Nat) :
    plan.elements scans (List.replicate scans.length c) size step
      = (scans.zip plan.inputDirections).map fun entry =>
        entry.1.select c (place entry.2 size step) := by
  unfold ScanPlan.elements
  generalize plan.inputDirections = directions
  induction scans generalizing directions with
  | nil => rfl
  | cons scan scans ih =>
      rw [List.length_cons, List.replicate_succ, List.zip_cons_cons]
      cases directions with
      | nil => rfl
      | cons direction directions =>
          rw [List.zip_cons_cons, List.zip_cons_cons, List.map_cons, List.map_cons, ih]

/-- Values that have the dimensions before it can be given the one
dimension. -/
theorem Along.unsqueeze (h : plan.Along c) (hword : Shape.isWord c = true) {row : List Tensor}
    (hrow : ∀ value ∈ row, c ≤ value.rank) :
    ∃ us, (row.zip plan.outputAxes).mapM
      (fun entry => Outcome.ofExcept (entry.1.unsqueeze entry.2)) = .ok us := by
  have hall : ∀ entry ∈ row.zip plan.outputAxes,
      ∃ u, Outcome.ofExcept (entry.1.unsqueeze entry.2) = .ok u := by
    intro entry hentry
    obtain ⟨hvalue, haxis⟩ := List.of_mem_zip hentry
    rw [h.outputAxes _ haxis]
    exact ⟨_, Outcome.ofExcept_eq_ok.2 (Tensor.unsqueeze_eq_ok.2 ⟨hword, c,
      (Tensor.resolveAxis_natCast _ c _).2 ⟨Nat.lt_succ_of_le (hrow _ hvalue), rfl⟩, rfl⟩)⟩
  obtain ⟨us, hus⟩ := exists_forall₂ hall
  exact ⟨us, Outcome.mapM_eq_ok.2 hus⟩

/-- The stacks of all outputs along the one dimension. -/
theorem Along.stacked (h : plan.Along c) {rows : List (List Tensor)} {zs : List Tensor} :
    plan.stacked rows = .ok zs ↔ zs.length = plan.outputDirections.length
      ∧ ∀ (j : Nat) (direction : Int) (z : Tensor), plan.outputDirections[j]? = some direction →
        zs[j]? = some z → Tensor.stack c (arrange direction (column rows j)) = .ok z := by
  have hlength : ((plan.outputAxes.zip plan.outputDirections).zipIdx).length
      = plan.outputDirections.length := by
    rw [List.length_zipIdx, List.length_zip, h.outputDirections, Nat.min_self]
  have hentry {j : Nat} {direction : Int} (hdirection : plan.outputDirections[j]? = some direction) :
      ((plan.outputAxes.zip plan.outputDirections).zipIdx)[j]? = some (((c : Int), direction), j) := by
    obtain ⟨axis, haxis⟩ : ∃ axis, plan.outputAxes[j]? = some axis :=
      ⟨_, List.getElem?_eq_getElem (h.outputDirections ▸ (List.getElem?_eq_some_iff.1 hdirection).1)⟩
    have hzip : (plan.outputAxes.zip plan.outputDirections)[j]? = some ((c : Int), direction) :=
      List.getElem?_zip_eq_some.2 ⟨h.outputAxes _ (List.mem_of_getElem? haxis) ▸ haxis, hdirection⟩
    rw [List.getElem?_zipIdx, hzip, Nat.zero_add]
    rfl
  unfold ScanPlan.stacked
  rw [Outcome.mapM_eq_ok]
  constructor
  · intro hstacks
    exact ⟨hstacks.length_eq.symm.trans hlength, fun j direction z hdirection hz =>
      getElem?_forall₂ hstacks (hentry hdirection) hz⟩
  · rintro ⟨hzs, hstacks⟩
    refine forall₂_of_getElem? (hlength.trans hzs.symm) fun j entry z hj hz => ?_
    obtain ⟨direction, hdirection⟩ : ∃ direction, plan.outputDirections[j]? = some direction :=
      ⟨_, List.getElem?_eq_getElem (hzs ▸ (List.getElem?_eq_some_iff.1 hz).1)⟩
    cases hj.symm.trans (hentry hdirection)
    exact hstacks j direction z hdirection hz

-- ================================================================ samples

section

variable {b k : Nat}

theorem atSample_append (k : Nat) (ts us : List Tensor) :
    atSample k (ts ++ us) = atSample k ts ++ atSample k us := List.map_append

theorem atSample_take (k n : Nat) (ts : List Tensor) :
    atSample k (ts.take n) = (atSample k ts).take n := List.map_take

theorem atSample_drop (k n : Nat) (ts : List Tensor) :
    atSample k (ts.drop n) = (atSample k ts).drop n := List.map_drop

/-- The values of one output at a sample. -/
theorem column_atSample (k : Nat) (rows : List (List Tensor)) (j : Nat) :
    column (rows.map (atSample k)) j = atSample k (column rows j) := by
  unfold column atSample
  rw [List.filterMap_map, List.map_filterMap]
  exact List.filterMap_congr fun row _ => List.getElem?_map

theorem arrange_atSample (direction : Int) (k : Nat) (values : List Tensor) :
    arrange direction (atSample k values) = atSample k (arrange direction values) := by
  unfold arrange atSample
  split
  · rfl
  · exact List.map_reverse.symm

/-- The elements that a step reads of a sample are the samples of those
that it reads of a batch. -/
theorem elements_atSample (hscans : ∀ scan ∈ scans, scan.Batch b ∧ scan.shape.getD 1 0 = size)
    (hk : k < b) (hstep : step < size) :
    plan.alone.elements (atSample k scans) (List.replicate (atSample k scans).length 0) size step
      = atSample k (plan.elements scans (List.replicate scans.length 1) size step) := by
  rw [elements_replicate, elements_replicate]
  unfold atSample
  rw [List.map_map, List.zip_map_left, List.map_map]
  refine List.map_congr_left fun entry hentry => ?_
  obtain ⟨hbatch, hsize⟩ := hscans _ (List.of_mem_zip hentry).1
  exact (Tensor.select_select hbatch hk (by rw [hsize]; exact place_lt entry.2 hstep)).symm

theorem sizes_atSample (k : Nat) (scans : List Tensor) :
    ((atSample k scans).map fun scan => scan.shape.getD 0 0)
      = scans.map fun scan => scan.shape.getD 1 0 := by
  unfold atSample
  rw [List.map_map]
  refine List.map_congr_left fun scan _ => ?_
  show (scan.select 0 k).shape.getD 0 0 = _
  rw [Tensor.shape_select_zero]
  cases scan.shape <;> rfl

/-- Values are addressable in a batch if they have room for one more
dimension in each sample. -/
theorem addressable_of_select {t : Tensor} (ht : t.Batch b) (hb : b ≤ 2 ^ 63)
    (h : ((t.select 0 k).expand 0).Addressable) : t.Addressable := by
  have hshape := ht.shape_cons k
  have hexpand : ((t.select 0 k).expand 0).shape = 1 :: (t.select 0 k).shape := rfl
  obtain ⟨hrank, hsizes⟩ := h
  rw [Tensor.rank, hexpand] at hrank
  rw [hexpand, List.forall_mem_cons] at hsizes
  refine ⟨?_, ?_⟩
  · rw [Tensor.rank, hshape]
    exact hrank
  · rw [hshape, List.forall_mem_cons]
    exact ⟨hb, hsizes.2⟩

/-- What a step reads of a batch is a batch. -/
theorem elements_batch (hscans : ∀ scan ∈ scans, scan.Batch b ∧ scan.shape.getD 1 0 = size)
    (haddressable : ∀ scan ∈ scans, scan.Addressable) (hstep : step < size) :
    ∀ x ∈ plan.elements scans (List.replicate scans.length 1) size step,
      x.Batch b ∧ (x.expand 1).Addressable := by
  intro x hx
  rw [elements_replicate] at hx
  obtain ⟨entry, hentry, rfl⟩ := List.mem_map.1 hx
  have hscan := (List.of_mem_zip hentry).1
  obtain ⟨hbatch, hsize⟩ := hscans _ hscan
  obtain ⟨hrank, hsizes⟩ := haddressable _ hscan
  obtain ⟨d, rest, hshape⟩ : ∃ d rest, entry.1.shape = b :: d :: rest := by
    have hcons := hbatch.shape_eq
    cases htail : entry.1.shape.tail with
    | nil =>
        rw [hcons, htail] at hsize
        exact absurd hstep (hsize ▸ Nat.not_lt_zero step)
    | cons d rest => exact ⟨d, rest, htail ▸ hcons⟩
  have hselect (i : Nat) : (entry.1.select 1 i).shape = b :: rest := by
    show entry.1.shape.eraseIdx 1 = _
    rw [hshape]
    rfl
  refine ⟨congrArg List.head? (hselect _), ?_⟩
  have hexpand (i : Nat) : ((entry.1.select 1 i).expand 1).shape = b :: 1 :: rest := by
    show (entry.1.select 1 i).shape.insertIdx 1 1 = _
    rw [hselect]
    rfl
  rw [Tensor.rank, hshape] at hrank
  rw [hshape, List.forall_mem_cons, List.forall_mem_cons] at hsizes
  refine ⟨?_, ?_⟩
  · rw [Tensor.rank, hexpand]
    exact hrank
  · rw [hexpand, List.forall_mem_cons, List.forall_mem_cons]
    exact ⟨hsizes.1, by decide, hsizes.2.2⟩

/-- The part of a scan between two steps that belongs to a sample. -/
def Progress.sample (k : Nat) (progress : Progress) : Progress :=
  ⟨atSample k progress.states, progress.rows.map (atSample k)⟩

/-- The states and the values so far are batches. -/
structure Progress.Batched (plan : ScanPlan) (b : Nat) (progress : Progress) : Prop where
  length : progress.states.length = plan.states
  states : ∀ t ∈ progress.states, t.Batch b
  rows : ∀ row ∈ progress.rows, row.length = plan.outputAxes.length ∧ ∀ t ∈ row, t.Batch b

/-- What is scanned are batches with one number of elements in each
sample. -/
structure Scans (plan : ScanPlan) (b size : Nat) (scans : List Tensor) : Prop where
  length : scans.length = plan.inputAxes.length
  batch : ∀ scan ∈ scans, scan.Batch b ∧ scan.shape.getD 1 0 = size
  addressable : ∀ scan ∈ scans, scan.Addressable

/-- The values have room for one more dimension. -/
def Roomy (rows : List (List Tensor)) : Prop :=
  ∀ row ∈ rows, ∀ value ∈ row, (value.expand 0).Addressable

theorem Scans.bound (h : plan.Along 1) (hscans : plan.Scans b size scans) : b ≤ 2 ^ 63 := by
  obtain ⟨scan, hscan⟩ := List.exists_mem_of_length_pos (l := scans)
    (hscans.length ▸ List.length_pos_iff.2 h.nonempty)
  have hsizes := (hscans.addressable scan hscan).2
  rw [(hscans.batch scan hscan).1.shape_eq, List.forall_mem_cons] at hsizes
  exact hsizes.1

/-- Later steps leave the values as they are. -/
theorem Roomy.of_foldlM {todo : List Nat} {last : Progress} (h : Roomy last.rows)
    (hlast : todo.foldlM (plan.advance body scans ks size) progress = .ok last) :
    Roomy progress.rows := by
  induction todo generalizing progress with
  | nil =>
      cases hlast
      exact h
  | cons step todo ih =>
      rw [List.foldlM_cons] at hlast
      obtain ⟨middle, hmiddle, hlast⟩ := Outcome.bind_eq_ok.1 hlast
      obtain ⟨_, _, -, -, -, rfl⟩ := advance_eq_ok.1 hmiddle
      exact fun row hrow => ih hlast row (List.mem_append_left _ hrow)

variable (hplan : plan.Along 1) (hwise : plan.SampleWise single body b) (hcount : plan.Counts body)
  (hscans : plan.Scans b size scans)

include hplan hwise hcount hscans

/-- A step does with a batch what it does with each sample. -/
theorem advance_samples (hb : 1 ≤ b) (hprogress : progress.Batched plan b) (hstep : step < size)
    {next : Nat → Progress}
    (hnext : ∀ k < b, plan.alone.advance single (atSample k scans)
      (List.replicate (atSample k scans).length 0) size (progress.sample k) step = .ok (next k))
    (hroom : ∀ k < b, Roomy (next k).rows) :
    ∃ progress', plan.advance body scans (List.replicate scans.length 1) size progress step
        = .ok progress' ∧ progress'.Batched plan b ∧ ∀ k < b, progress'.sample k = next k := by
  have helements := @elements_batch plan _ _ _ _ hscans.batch hscans.addressable hstep
  have hsingle : ∀ k < b, ∃ values us,
      single (atSample k (progress.states
        ++ plan.elements scans (List.replicate scans.length 1) size step)) = .ok values
      ∧ (∀ value ∈ values.drop plan.states, value.Addressable)
      ∧ ((values.drop plan.states).zip plan.alone.outputAxes).mapM
        (fun entry => Outcome.ofExcept (entry.1.unsqueeze entry.2)) = .ok us
      ∧ next k = ⟨values.take plan.states,
        (progress.sample k).rows ++ [values.drop plan.states]⟩ := by
    intro k hk
    have hadvance := advance_eq_ok.1 (hnext k hk)
    rw [elements_atSample hscans.batch hk hstep] at hadvance
    rw [atSample_append]
    exact hadvance
  choose! values us hvalues hsmall hus hlast using hsingle
  have hroomy : ∀ k < b, ∀ value ∈ (values k).drop plan.states, (value.expand 0).Addressable := by
    intro k hk
    have hrows := hroom k hk
    rw [hlast k hk] at hrows
    exact hrows _ (List.mem_append_right _ (List.mem_singleton_self _))
  have hxs : ∀ x ∈ progress.states
      ++ plan.elements scans (List.replicate scans.length 1) size step, x.Batch b :=
    List.forall_mem_append.2 ⟨hprogress.states, fun x hx => (helements x hx).1⟩
  obtain ⟨results, hresults, hbatch, hsamples⟩ := hwise _ (by
      rw [List.length_append, hprogress.length, elements_replicate, List.length_map, List.length_zip,
        hplan.inputDirections, hscans.length, Nat.min_self, inputCount])
    hxs (by
      rw [List.drop_left' hprogress.length]
      exact fun x hx => (helements x hx).2) values fun k hk => ⟨hvalues k hk, hroomy k hk⟩
  have hlength := hcount _ _ hresults
  have hsample (k : Nat) (hk : k < b) : ∀ value ∈ results.drop plan.states,
      ((value.select 0 k).expand 0).Addressable := by
    intro value hvalue
    refine hroomy k hk _ ?_
    rw [← hsamples k hk, ← atSample_drop]
    exact List.mem_map_of_mem hvalue
  have hrow : ∀ value ∈ results.drop plan.states, value.Batch b :=
    fun value hvalue => hbatch value (List.mem_of_mem_drop hvalue)
  obtain ⟨newUs, hnewUs⟩ := hplan.unsqueeze rfl fun value hvalue => by
    rw [(hrow value hvalue).rank_eq 0]
    exact Nat.le_add_left 1 _
  refine ⟨⟨results.take plan.states, progress.rows ++ [results.drop plan.states]⟩,
    advance_eq_ok.2 ⟨results, newUs, hresults, fun value hvalue =>
      addressable_of_select (hrow value hvalue) (hscans.bound hplan) (hsample 0 hb value hvalue),
      hnewUs, rfl⟩, ⟨?_, ?_, ?_⟩, fun k hk => ?_⟩
  · rw [List.length_take, hlength]
    exact Nat.min_eq_left (Nat.le_add_right _ _)
  · exact fun t ht => hbatch t (List.mem_of_mem_take ht)
  · rw [List.forall_mem_append, List.forall_mem_singleton]
    refine ⟨hprogress.rows, ?_, hrow⟩
    rw [List.length_drop, hlength, Nat.add_sub_cancel_left]
  · rw [hlast k hk, ← hsamples k hk]
    unfold Progress.sample
    rw [atSample_take, List.map_append, List.map_singleton, atSample_drop]

/-- Any number of steps do with a batch what they do with each sample. -/
theorem foldlM_advance_samples (hb : 1 ≤ b) {todo : List Nat} (htodo : ∀ step ∈ todo, step < size)
    (hprogress : progress.Batched plan b) {last : Nat → Progress}
    (hlast : ∀ k < b, todo.foldlM (plan.alone.advance single (atSample k scans)
      (List.replicate (atSample k scans).length 0) size) (progress.sample k) = .ok (last k))
    (hroom : ∀ k < b, Roomy (last k).rows) :
    ∃ progress', todo.foldlM (plan.advance body scans (List.replicate scans.length 1) size) progress
        = .ok progress' ∧ progress'.Batched plan b ∧ ∀ k < b, progress'.sample k = last k := by
  induction todo generalizing progress with
  | nil => exact ⟨progress, rfl, hprogress, fun k hk => Outcome.ok.inj (hlast k hk)⟩
  | cons step todo ih =>
      rw [List.forall_mem_cons] at htodo
      have hsteps : ∀ k < b, ∃ middle, plan.alone.advance single (atSample k scans)
          (List.replicate (atSample k scans).length 0) size (progress.sample k) step = .ok middle
          ∧ todo.foldlM (plan.alone.advance single (atSample k scans)
            (List.replicate (atSample k scans).length 0) size) middle = .ok (last k) := by
        intro k hk
        have h := hlast k hk
        rw [List.foldlM_cons] at h
        exact Outcome.bind_eq_ok.1 h
      have : Nonempty Progress := ⟨progress⟩
      choose! middle hmiddle hrest using hsteps
      obtain ⟨progress', hadvance, hbatched, hsample⟩ := advance_samples hplan hwise hcount hscans hb
        hprogress htodo.1 hmiddle fun k hk => Roomy.of_foldlM (hroom k hk) (hrest k hk)
      obtain ⟨final, hfinal, hfinalBatched, hfinalSample⟩ := ih htodo.2 hbatched
        fun k hk => by rw [hsample k hk]; exact hrest k hk
      refine ⟨final, ?_, hfinalBatched, hfinalSample⟩
      rw [List.foldlM_cons, hadvance]
      exact hfinal

omit hplan hwise hcount hscans

-- ============================================================== stacking

/-- The shape of a stack is that of its parts, with one dimension more. -/
theorem shape_of_stack {parts : List Tensor} {value z : Tensor}
    (h : Tensor.stack (0 : Nat) parts = .ok z)
    (hvalue : value ∈ parts) : z.shape = parts.length :: value.shape := by
  obtain ⟨first, rest, rfl⟩ := List.exists_cons_of_ne_nil (List.ne_nil_of_mem hvalue)
  obtain ⟨axis, dtype, haxis, -, hshapes, rfl⟩ := Tensor.stack_cons_eq_ok.1 h
  obtain ⟨-, rfl⟩ := (Tensor.resolveAxis_natCast _ 0 _).1 haxis
  have hvalue : value.shape = first.shape := by
    rcases List.mem_cons.1 hvalue with rfl | hrest
    · rfl
    · exact hshapes value hrest
  rw [Tensor.shape_ofFn, hvalue]
  rfl

/-- Values have room for one more dimension if their stack does not have
too many. -/
theorem roomy_of_stacked (h : plan.Along 0) {rows : List (List Tensor)} {zs : List Tensor}
    (hstacked : plan.stacked rows = .ok zs) (hrows : ∀ row ∈ rows, row.length = plan.outputAxes.length)
    (hzs : ∀ z ∈ zs, z.Addressable) : Roomy rows := by
  intro row hrow value hvalue
  obtain ⟨j, hj⟩ := List.mem_iff_getElem?.1 hvalue
  obtain ⟨hlength, hstacks⟩ := h.stacked.1 hstacked
  have hbound : j < plan.outputDirections.length := by
    rw [h.outputDirections, ← hrows row hrow]
    exact (List.getElem?_eq_some_iff.1 hj).1
  have hz := List.getElem?_eq_getElem (hlength ▸ hbound : j < zs.length)
  have hstack := hstacks j _ _ (List.getElem?_eq_getElem hbound) hz
  have hshape := shape_of_stack hstack (mem_arrange.2 (mem_column.2 ⟨row, hrow, hj⟩))
  obtain ⟨hrank, hsizes⟩ := hzs _ (List.mem_of_getElem? hz)
  rw [Tensor.rank, hshape] at hrank
  rw [hshape, List.forall_mem_cons] at hsizes
  refine ⟨hrank, ?_⟩
  show ∀ size ∈ 1 :: value.shape, size ≤ 2 ^ 63
  exact List.forall_mem_cons.2 ⟨by decide, hsizes.2⟩

/-- The values of all steps stacked in a batch are what they are stacked
in each sample. -/
theorem stacked_samples (hplan : plan.Along 1) (hb : 1 ≤ b) {rows : List (List Tensor)}
    (hrows : ∀ row ∈ rows, ∀ t ∈ row, t.Batch b) {zs : Nat → List Tensor}
    (hzs : ∀ k < b, plan.alone.stacked (rows.map (atSample k)) = .ok (zs k)) :
    ∃ ys, plan.stacked rows = .ok ys ∧ (∀ y ∈ ys, y.Batch b) ∧ ∀ k < b, atSample k ys = zs k := by
  have hall : ∀ j < plan.outputDirections.length, ∃ y, (∀ direction, plan.outputDirections[j]?
        = some direction → Tensor.stack (1 : Nat) (arrange direction (column rows j)) = .ok y)
      ∧ y.Batch b ∧ ∀ k < b, (zs k)[j]? = some (y.select 0 k) := by
    intro j hj
    have hdirection := List.getElem?_eq_getElem hj
    generalize plan.outputDirections[j] = direction at hdirection
    have hsingle : ∀ k < b, ∃ z, (zs k)[j]? = some z
        ∧ Tensor.stack (0 : Nat) (atSample k (arrange direction (column rows j))) = .ok z := by
      intro k hk
      obtain ⟨hlength, hstacks⟩ := hplan.alone.stacked.1 (hzs k hk)
      have hz := List.getElem?_eq_getElem (hlength ▸ hj : j < (zs k).length)
      refine ⟨_, hz, ?_⟩
      rw [← arrange_atSample, ← column_atSample]
      exact hstacks j direction _ hdirection hz
    choose! z hz hstack using hsingle
    obtain ⟨y, hy, hbatch, hsamples⟩ := Tensor.stack_select hb (fun part hpart => by
      obtain ⟨row, hrow, hj⟩ := mem_column.1 (mem_arrange.1 hpart)
      exact hrows row hrow part (List.mem_of_getElem? hj)) hstack
    refine ⟨y, fun direction' hdirection' => ?_, hbatch, fun k hk => ?_⟩
    · cases hdirection.symm.trans hdirection'
      exact hy
    · rw [hsamples k hk]
      exact hz k hk
  choose! y hy hbatch hsamples using hall
  refine ⟨(List.range plan.outputDirections.length).map y, hplan.stacked.2 ⟨?_, ?_⟩, ?_, ?_⟩
  · rw [List.length_map, List.length_range]
  · intro j direction z hdirection hz
    rw [getElem?_map_range hz]
    exact hy j (List.getElem?_eq_some_iff.1 hdirection).1 direction hdirection
  · exact List.forall_mem_map.2 fun j hj => hbatch j (List.mem_range.1 hj)
  · intro k hk
    obtain ⟨hlength, -⟩ := hplan.alone.stacked.1 (hzs k hk)
    refine List.ext_getElem? fun j => ?_
    rw [Tensor.getElem?_atSample, List.getElem?_map]
    by_cases hj : j < plan.outputDirections.length
    · rw [List.getElem?_range hj, hsamples j hj k hk]
      rfl
    · rw [List.getElem?_eq_none (by rw [List.length_range]; exact Nat.le_of_not_lt hj),
        List.getElem?_eq_none (by rw [hlength]; exact Nat.le_of_not_lt hj)]
      rfl

-- ================================================================= scans

/-- There are as many states, and as many values of each step, as the plan
says. -/
def Progress.Counted (plan : ScanPlan) (progress : Progress) : Prop :=
  progress.states.length = plan.states ∧ ∀ row ∈ progress.rows, row.length = plan.outputAxes.length

theorem counted_of_foldlM (hcount : plan.Counts body)
    {todo : List Nat} {last : Progress} (hprogress : progress.Counted plan)
    (h : todo.foldlM (plan.advance body scans ks size) progress = .ok last) : last.Counted plan := by
  induction todo generalizing progress with
  | nil =>
      cases h
      exact hprogress
  | cons step todo ih =>
      rw [List.foldlM_cons] at h
      obtain ⟨middle, hmiddle, h⟩ := Outcome.bind_eq_ok.1 h
      obtain ⟨values, _, hvalues, -, -, rfl⟩ := advance_eq_ok.1 hmiddle
      have hlength := hcount _ _ hvalues
      refine ih ⟨?_, List.forall_mem_append.2 ⟨hprogress.2, List.forall_mem_singleton.2 ?_⟩⟩ h
      · rw [List.length_take, hlength]
        exact Nat.min_eq_left (Nat.le_add_right _ _)
      · rw [List.length_drop, hlength, Nat.add_sub_cancel_left]

/-- What a scan along one dimension returns. -/
theorem Along.run_eq_ok (h : plan.Along c) (hlength : inputs.length = plan.inputCount) :
    plan.run body inputs = .ok outputs ↔
      (∀ scan ∈ inputs.drop plan.states, scan.Addressable ∧ c < scan.rank)
        ∧ ∃ size last zs,
          (∀ scan ∈ inputs.drop plan.states, scan.shape.getD c 0 = size)
          ∧ (List.range size).foldlM (plan.advance body (inputs.drop plan.states)
              (List.replicate (inputs.drop plan.states).length c) size) ⟨inputs.take plan.states, []⟩
            = .ok last
          ∧ plan.stacked last.rows = .ok zs ∧ outputs = last.states ++ zs := by
  have hscans : (inputs.drop plan.states).length = plan.inputAxes.length := by
    rw [List.length_drop, hlength, inputCount, Nat.add_sub_cancel_left]
  have hne : ∀ f : Tensor → Nat, (inputs.drop plan.states).map f ≠ [] := fun f hnil =>
    h.nonempty (List.length_eq_zero_iff.1 (hscans ▸ List.map_eq_nil_iff.1 hnil ▸ rfl))
  rw [ScanPlan.run_eq_ok]
  constructor
  · rintro ⟨haddressable, ks, size, last, zs, hks, hsize, hlast, hzs, houtputs⟩
    obtain ⟨hranks, rfl⟩ := (h.dimensions hscans).1 hks
    rw [sizes_replicate] at hsize
    exact ⟨fun scan hscan => ⟨haddressable scan hscan, hranks scan hscan⟩, size, last, zs,
      List.forall_mem_map.1 (steps_eq_ok.1 hsize).2, hlast, hzs, houtputs⟩
  · rintro ⟨hall, size, last, zs, hsize, hlast, hzs, houtputs⟩
    refine ⟨fun scan hscan => (hall scan hscan).1, _, size, last, zs,
      (h.dimensions hscans).2 ⟨fun scan hscan => (hall scan hscan).2, rfl⟩, ?_, hlast, hzs, houtputs⟩
    rw [sizes_replicate]
    exact steps_eq_ok.2 ⟨hne _, List.forall_mem_map.2 hsize⟩

theorem length_alone (plan : ScanPlan) : plan.alone.inputCount = plan.inputCount := by
  show plan.states + _ = plan.states + _
  rw [alone, withAxes, List.length_map]

/-- What the scan of a sample alone returns, by the batch that the sample
belongs to. -/
theorem Along.run_atSample (hplan : plan.Along 1) (hlength : inputs.length = plan.inputCount)
    {scan : Tensor} (hscan : scan ∈ inputs.drop plan.states)
    (h : plan.alone.run body (atSample k inputs) = .ok outputs) :
    ∃ last zs, (∀ other ∈ inputs.drop plan.states, 0 < (other.select 0 k).rank
        ∧ other.shape.getD 1 0 = scan.shape.getD 1 0)
      ∧ (List.range (scan.shape.getD 1 0)).foldlM (plan.alone.advance body
          (atSample k (inputs.drop plan.states))
          (List.replicate (atSample k (inputs.drop plan.states)).length 0) (scan.shape.getD 1 0))
        (Progress.sample k ⟨inputs.take plan.states, []⟩) = .ok last
      ∧ plan.alone.stacked last.rows = .ok zs ∧ outputs = last.states ++ zs := by
  have hinputs : (atSample k inputs).length = plan.alone.inputCount := by
    rw [length_alone, ← hlength]
    exact List.length_map _
  obtain ⟨hall, size, last, zs, hsizes, hlast, hzs, houtputs⟩ := (hplan.alone.run_eq_ok hinputs).1 h
  have hdrop : (atSample k inputs).drop plan.alone.states = atSample k (inputs.drop plan.states) :=
    (atSample_drop k plan.states inputs).symm
  have htake : (atSample k inputs).take plan.alone.states = atSample k (inputs.take plan.states) :=
    (atSample_take k plan.states inputs).symm
  rw [hdrop] at hall hsizes hlast
  rw [htake] at hlast
  have hsize : ∀ other ∈ inputs.drop plan.states, other.shape.getD 1 0 = size := by
    intro other hother
    have hmem := List.mem_map_of_mem (f := fun scan : Tensor => scan.shape.getD 1 0) hother
    rw [← sizes_atSample k] at hmem
    obtain ⟨sample, hsample, hgetD⟩ := List.mem_map.1 hmem
    exact hgetD.symm.trans (hsizes sample hsample)
  obtain rfl := hsize scan hscan
  exact ⟨last, zs, fun other hother => ⟨(hall _ (List.mem_map_of_mem hother)).2, hsize other hother⟩,
    hlast, hzs, houtputs⟩

/-- A scan treats the samples of a batch independently of each other if
its body does. No step mixes them, nor does the stacking behind the last
one. -/
theorem SampleWise.independent (hplan : plan.Along 1) (hb : 1 ≤ b)
    (hcounts : plan.Counts single) (hcount : plan.Counts body)
    (hwise : plan.SampleWise single body b) :
    plan.Independent single b fun inputs outputs => plan.run body inputs = .ok outputs := by
  intro inputs hlength hbatch haddressable values hvalues
  have hscansLength : (inputs.drop plan.states).length = plan.inputAxes.length := by
    rw [List.length_drop, hlength, inputCount, Nat.add_sub_cancel_left]
  have hstatesLength : (inputs.take plan.states).length = plan.states := by
    rw [List.length_take, hlength, inputCount]
    exact Nat.min_eq_left (Nat.le_add_right _ _)
  obtain ⟨scan, hscan⟩ := List.exists_mem_of_length_pos (l := inputs.drop plan.states)
    (hscansLength ▸ List.length_pos_iff.2 hplan.nonempty)
  have : Nonempty Progress := ⟨⟨[], []⟩⟩
  choose! last zs hscanned hlast hzs hsame using
    fun k (hk : k < b) => hplan.run_atSample hlength hscan (hvalues k hk).1
  have hscans : plan.Scans b (scan.shape.getD 1 0) (inputs.drop plan.states) :=
    ⟨hscansLength, fun other hother =>
      ⟨hbatch other (List.mem_of_mem_drop hother), (hscanned 0 hb other hother).2⟩, haddressable⟩
  have hroom : ∀ k < b, Roomy (last k).rows := by
    intro k hk
    have hcounted : (last k).Counted plan.alone := counted_of_foldlM hcounts.alone
      ⟨(List.length_map _).trans hstatesLength,
        fun _ hrow => absurd hrow List.not_mem_nil⟩ (hlast k hk)
    refine roomy_of_stacked hplan.alone (hzs k hk) hcounted.2 fun z hz => (hvalues k hk).2 z ?_
    rw [hsame k hk, List.drop_left' (show (last k).states.length = plan.states from hcounted.1)]
    exact hz
  have hstart : Progress.Batched plan b ⟨inputs.take plan.states, []⟩ :=
    ⟨hstatesLength, fun t ht => hbatch t (List.mem_of_mem_take ht),
      fun _ hrow => absurd hrow List.not_mem_nil⟩
  obtain ⟨progress, hprogress, hbatched, hsample⟩ := foldlM_advance_samples hplan hwise hcount hscans hb
    (fun step hstep => List.mem_range.1 hstep) hstart hlast hroom
  obtain ⟨ys, hys, hysBatch, hysSamples⟩ := stacked_samples hplan hb
    (fun row hrow => (hbatched.rows row hrow).2) fun k hk =>
      (congrArg (fun p : Progress => plan.alone.stacked p.rows) (hsample k hk)).trans (hzs k hk)
  refine ⟨progress.states ++ ys, (hplan.run_eq_ok hlength).2 ⟨fun other hother =>
    ⟨haddressable other hother, ?_⟩, _, progress, ys,
      fun other hother => (hscanned 0 hb other hother).2, hprogress, hys, rfl⟩,
    List.forall_mem_append.2 ⟨hbatched.states, hysBatch⟩, fun k hk => ?_⟩
  · rw [(hscans.batch other hother).1.rank_eq 0]
    exact Nat.succ_lt_succ (hscanned 0 hb other hother).1
  · rw [atSample_append, hysSamples k hk, hsame k hk, ← hsample k hk]
    rfl

-- ============================================================== one step

theorem place_one (direction : Int) : place direction 1 0 = 0 := by
  unfold place
  split <;> rfl

theorem arrange_singleton {α : Type} (direction : Int) (x : α) : arrange direction [x] = [x] := by
  unfold arrange
  split <;> rfl

/-- Of tensors with a new dimension the first and only step reads the
tensors. -/
theorem elements_expand {parts : List Tensor} (hlength : parts.length = plan.inputDirections.length)
    (hranks : ∀ part ∈ parts, c ≤ part.rank) :
    plan.elements (parts.map (·.expand c)) (List.replicate (parts.map (·.expand c)).length c) 1 0
      = parts := by
  rw [elements_replicate, List.zip_map_left, List.map_map]
  have hselect : ∀ entry ∈ parts.zip plan.inputDirections,
      (entry.1.expand c).select c (place entry.2 1 0) = entry.1 := by
    intro entry hentry
    rw [place_one]
    exact Tensor.select_expand _ (hranks _ (List.of_mem_zip hentry).1)
  exact (List.map_congr_left hselect).trans (List.map_fst_zip (Nat.le_of_eq hlength))

/-- The stacks of the values of one step are these with a new
dimension. -/
theorem Along.stacked_singleton (h : plan.Along c) {row zs : List Tensor}
    (hrow : row.length = plan.outputAxes.length) :
    plan.stacked [row] = .ok zs ↔ (∀ value ∈ row, c ≤ value.rank) ∧ zs = row.map (·.expand c) := by
  have hcolumn {j : Nat} {value : Tensor} (hvalue : row[j]? = some value) (direction : Int) :
      arrange direction (column [row] j) = [value] := by
    rw [column, List.filterMap_cons, hvalue]
    exact arrange_singleton direction value
  rw [h.stacked]
  constructor
  · rintro ⟨hlength, hstacks⟩
    have hall : ∀ (j : Nat) (value z : Tensor), row[j]? = some value → zs[j]? = some z →
        c ≤ value.rank ∧ z = value.expand c := by
      intro j value z hvalue hz
      have hdirection := List.getElem?_eq_getElem
        (hlength ▸ (List.getElem?_eq_some_iff.1 hz).1 : j < plan.outputDirections.length)
      have hstack := hstacks j _ z hdirection hz
      rw [hcolumn hvalue] at hstack
      obtain ⟨axis, haxis, rfl⟩ := Tensor.stack_singleton.1 hstack
      obtain ⟨hlt, rfl⟩ := (Tensor.resolveAxis_natCast _ c _).1 haxis
      exact ⟨Nat.le_of_lt_succ hlt, rfl⟩
    have hzs : row.length = zs.length := by
      rw [hlength, h.outputDirections, hrow]
    refine ⟨fun value hvalue => ?_, (eq_map_iff_forall₂.2 (List.Forall₂.flip
      (forall₂_of_getElem? hzs fun j value z hvalue hz => (hall j value z hvalue hz).2)))⟩
    obtain ⟨j, hj⟩ := List.mem_iff_getElem?.1 hvalue
    exact (hall j value _ hj (List.getElem?_eq_getElem
      (hzs ▸ (List.getElem?_eq_some_iff.1 hj).1))).1
  · rintro ⟨hranks, rfl⟩
    refine ⟨by rw [List.length_map, hrow, h.outputDirections], fun j direction z _ hz => ?_⟩
    rw [List.getElem?_map, Option.map_eq_some_iff] at hz
    obtain ⟨value, hvalue, rfl⟩ := hz
    rw [hcolumn hvalue]
    exact Tensor.stack_singleton.2 ⟨c, (Tensor.resolveAxis_natCast _ c _).2
      ⟨Nat.lt_succ_of_le (hranks value (List.mem_of_getElem? hvalue)), rfl⟩, rfl⟩

/-- A scan of sequences of length one applies the body once. -/
theorem Along.run_expand (h : plan.Along c) (hword : Shape.isWord c = true)
    (hcount : plan.Counts body) {parts : List Tensor} (hstates : states.length = plan.states)
    (hparts : parts.length = plan.inputAxes.length)
    (hroom : ∀ part ∈ parts, c ≤ part.rank ∧ (part.expand c).Addressable) :
    plan.run body (states ++ parts.map (·.expand c)) = .ok outputs ↔
      ∃ values, body (states ++ parts) = .ok values
        ∧ (∀ value ∈ values.drop plan.states, value.Addressable ∧ c ≤ value.rank)
        ∧ outputs = values.take plan.states ++ (values.drop plan.states).map (·.expand c) := by
  have hlength : (states ++ parts.map (·.expand c)).length = plan.inputCount := by
    rw [List.length_append, List.length_map, hstates, hparts, inputCount]
  have hrow : ∀ values, body (states ++ parts) = .ok values →
      (values.drop plan.states).length = plan.outputAxes.length := fun values hvalues => by
    rw [List.length_drop, hcount _ _ hvalues, Nat.add_sub_cancel_left]
  have hone : ∀ part ∈ parts, c < (part.expand c).rank ∧ (part.expand c).shape.getD c 0 = 1 := by
    intro part hpart
    have hle : c ≤ part.shape.length := (hroom part hpart).1
    refine ⟨?_, ?_⟩
    · show c < (part.shape.insertIdx c 1).length
      rw [List.length_insertIdx_of_le_length hle]
      exact Nat.lt_succ_of_le hle
    · show (part.shape.insertIdx c 1).getD c 0 = 1
      rw [List.getD_eq_getElem?_getD, List.getElem?_insertIdx_self, if_pos hle]
      rfl
  have hadvance {last : Progress} :
      (List.range 1).foldlM (plan.advance body (parts.map (·.expand c))
        (List.replicate (parts.map (·.expand c)).length c) 1) ⟨states, []⟩ = .ok last ↔
      plan.advance body (parts.map (·.expand c))
        (List.replicate (parts.map (·.expand c)).length c) 1 ⟨states, []⟩ 0 = .ok last := by
    show (plan.advance _ _ _ _ _ 0 >>= fun progress => .ok progress) = _ ↔ _
    rw [Outcome.bind_eq_ok]
    constructor
    · rintro ⟨_, hlast, hsame⟩
      exact Outcome.ok.inj hsame ▸ hlast
    · exact fun hlast => ⟨last, hlast, rfl⟩
  have helements := @elements_expand plan _ _ (hparts.trans h.inputDirections.symm)
    fun part hpart => (hroom part hpart).1
  rw [h.run_eq_ok hlength, List.drop_left' hstates, List.take_left' hstates]
  constructor
  · rintro ⟨-, size, last, zs, hsizes, hlast, hzs, rfl⟩
    obtain ⟨part, hpart⟩ := List.exists_mem_of_length_pos (l := parts)
      (hparts ▸ List.length_pos_iff.2 h.nonempty)
    obtain rfl := (hone part hpart).2.symm.trans (hsizes _ (List.mem_map_of_mem hpart))
    rw [hadvance, advance_eq_ok, helements] at hlast
    obtain ⟨values, us, hvalues, haddressable, -, rfl⟩ := hlast
    obtain ⟨hranks, rfl⟩ := (h.stacked_singleton (hrow values hvalues)).1 hzs
    exact ⟨values, hvalues, fun value hvalue => ⟨haddressable value hvalue, hranks value hvalue⟩, rfl⟩
  · rintro ⟨values, hvalues, hall, rfl⟩
    obtain ⟨us, hus⟩ := h.unsqueeze hword fun value hvalue => (hall value hvalue).2
    refine ⟨List.forall_mem_map.2 fun part hpart => ⟨(hroom part hpart).2, (hone part hpart).1⟩, 1,
      ⟨values.take plan.states, [values.drop plan.states]⟩, _,
      List.forall_mem_map.2 fun part hpart => (hone part hpart).2, ?_,
      (h.stacked_singleton (hrow values hvalues)).2
        ⟨fun value hvalue => (hall value hvalue).2, rfl⟩, rfl⟩
    rw [hadvance, advance_eq_ok, helements]
    exact ⟨values, us, hvalues, fun value hvalue => (hall value hvalue).1, hus, rfl⟩

theorem atSample_expand (k : Nat) {ts : List Tensor} (hts : ∀ t ∈ ts, t.Batch b) (hk : k < b) :
    atSample k (ts.map (·.expand 1)) = (atSample k ts).map (·.expand 0) := by
  unfold atSample
  rw [List.map_map, List.map_map]
  exact List.map_congr_left fun t ht => Tensor.select_expand_of_batch (hts t ht) hk

/-- A new dimension can be taken away again. -/
theorem map_expand_injective : Function.Injective (List.map fun t : Tensor => t.expand 0) :=
  List.map_injective_iff.2 fun t u htu => by
    have hselect := congrArg (fun z : Tensor => z.select 0 0) htu
    rwa [Tensor.select_expand t (Nat.zero_le _), Tensor.select_expand u (Nat.zero_le _)] at hselect

theorem addressable_of_expand {t : Tensor} (h : (t.expand 0).Addressable) : t.Addressable := by
  obtain ⟨hrank, hsizes⟩ := h
  replace hrank : (1 :: t.shape).length + 1 < 2 ^ 63 := hrank
  replace hsizes : ∀ size ∈ 1 :: t.shape, size ≤ 2 ^ 63 := hsizes
  rw [List.length_cons] at hrank
  exact ⟨Nat.lt_of_succ_lt hrank, (List.forall_mem_cons.1 hsizes).2⟩

theorem addressable_select_expand {t : Tensor} (ht : t.Batch b) (h : (t.expand 1).Addressable) :
    ((t.select 0 k).expand 0).Addressable := by
  have hshape : ((t.select 0 k).expand 0).shape = 1 :: (t.select 0 k).shape := rfl
  obtain ⟨hrank, hsizes⟩ := h
  rw [Tensor.rank, Tensor.shape_expand_one ht k] at hrank
  rw [Tensor.shape_expand_one ht k, List.forall_mem_cons] at hsizes
  refine ⟨?_, hshape ▸ hsizes.2⟩
  rw [Tensor.rank, hshape]
  exact Nat.lt_of_succ_lt hrank

/-- The body of a scan that treats the samples of a batch independently of
each other does so too: the scan of sequences of length one returns what
the body does, but for a dimension that can be taken away again. -/
theorem Independent.sampleWise (hplan : plan.Along 1)
    (hcounts : plan.Counts single) (hcount : plan.Counts body)
    (h : plan.Independent single b fun inputs outputs => plan.run body inputs = .ok outputs) :
    plan.SampleWise single body b := by
  intro xs hlength hbatch haddressable values hvalues
  have hstates : (xs.take plan.states).length = plan.states := by
    rw [List.length_take, hlength, inputCount]
    exact Nat.min_eq_left (Nat.le_add_right _ _)
  have hparts : (xs.drop plan.states).length = plan.inputAxes.length := by
    rw [List.length_drop, hlength, inputCount, Nat.add_sub_cancel_left]
  have hpartsBatch : ∀ t ∈ xs.drop plan.states, t.Batch b :=
    fun t ht => hbatch t (List.mem_of_mem_drop ht)
  have hlengths (k : Nat) (hk : k < b) : ((values k).take plan.states).length = plan.states := by
    rw [List.length_take, hcounts _ _ (hvalues k hk).1]
    exact Nat.min_eq_left (Nat.le_add_right _ _)
  have hsingle : ∀ k < b, plan.alone.run single
        (atSample k (xs.take plan.states ++ (xs.drop plan.states).map (·.expand 1)))
      = .ok ((values k).take plan.states ++ ((values k).drop plan.states).map (·.expand 0)) := by
    intro k hk
    rw [atSample_append, atSample_expand k hpartsBatch hk]
    refine (hplan.alone.run_expand rfl hcounts.alone ((List.length_map _).trans hstates)
      ?_ fun part hpart => ⟨Nat.zero_le _, ?_⟩).2 ⟨values k, ?_, fun value hvalue =>
        ⟨addressable_of_expand ((hvalues k hk).2 value hvalue), Nat.zero_le _⟩, rfl⟩
    · rw [alone, withAxes, List.length_map, ← hparts]
      exact List.length_map _
    · obtain ⟨t, ht, rfl⟩ := List.mem_map.1 hpart
      exact addressable_select_expand (hpartsBatch t ht) (haddressable t ht)
    · show single (atSample k (xs.take plan.states) ++ atSample k (xs.drop plan.states)) = _
      rw [← atSample_append, List.take_append_drop]
      exact (hvalues k hk).1
  obtain ⟨outputs, houtputs, houtputsBatch, hsamples⟩ := h _ (by
      rw [List.length_append, hstates, List.length_map, hparts, inputCount])
    (List.forall_mem_append.2 ⟨fun t ht => hbatch t (List.mem_of_mem_take ht),
      List.forall_mem_map.2 fun t ht => (hpartsBatch t ht).expand⟩)
    (by rw [List.drop_left' hstates]; exact List.forall_mem_map.2 haddressable) _ fun k hk =>
      ⟨hsingle k hk, by
        rw [List.drop_left' (hlengths k hk)]
        exact List.forall_mem_map.2 (hvalues k hk).2⟩
  have hroom : ∀ part ∈ xs.drop plan.states, 1 ≤ part.rank ∧ (part.expand 1).Addressable :=
    fun part hpart => ⟨by rw [(hpartsBatch part hpart).rank_eq 0]; exact Nat.le_add_left 1 _,
      haddressable part hpart⟩
  obtain ⟨results, hresults, hranks, rfl⟩ :=
    (hplan.run_expand rfl hcount hstates hparts hroom).1 houtputs
  rw [List.take_append_drop] at hresults
  rw [List.forall_mem_append, List.forall_mem_map] at houtputsBatch
  have hlater : ∀ t ∈ results.drop plan.states, t.Batch b := fun t ht =>
    Tensor.batch_of_expand (houtputsBatch.2 t ht) (hranks t ht).2
  refine ⟨results, hresults, ?_, fun k hk => ?_⟩
  · rw [← List.take_append_drop plan.states results]
    exact List.forall_mem_append.2 ⟨houtputsBatch.1, hlater⟩
  · have hsame := hsamples k hk
    rw [atSample_append, atSample_expand k hlater hk] at hsame
    obtain ⟨hfirst, hrest⟩ := List.append_inj hsame (by
      rw [hlengths k hk, atSample, List.length_map, List.length_take, hcount _ _ hresults]
      exact Nat.min_eq_left (Nat.le_add_right _ _))
    rw [← List.take_append_drop plan.states results, atSample_append, hfirst,
      map_expand_injective hrest, List.take_append_drop]

/-- A scan treats the samples of a batch independently of each other if
and only if its body does. -/
theorem independent_iff_sampleWise (hplan : plan.Along 1) (hb : 1 ≤ b)
    (hcounts : plan.Counts single) (hcount : plan.Counts body) :
    (plan.Independent single b fun inputs outputs => plan.run body inputs = .ok outputs)
      ↔ plan.SampleWise single body b :=
  ⟨fun h => h.sampleWise hplan hcounts hcount, fun h => h.independent hplan hb hcounts hcount⟩

end

end Handler.ScanPlan

end OnnxLowering
