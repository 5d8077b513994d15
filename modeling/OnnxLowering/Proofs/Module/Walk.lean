/-
How a rule walks an axis whose positions it keeps to. If both its ends
lie on the axis and its stride points from the one towards the other,
the parts it counts are those that fit between the ends (`covers_iff`,
`exists_count`), and each of them can be cut out. Parts as long as the
stride follow each other without gap or overlap, so a loop that joins
what it cut gives back the window that the parts cover, or its chunks
in the opposite order where the two rules walk in opposite directions
(`meaning_echo`).
-/
import OnnxLowering.Module.Run
import OnnxLowering.Proofs.Except
import OnnxLowering.Proofs.Tensor.Chunks

namespace OnnxLowering

namespace Slicing

-- =============================================================== windows

/-- The rule has a step and a size, both its ends lie on an axis of the
given length, and its stride points from the first of them towards the
second. -/
structure Within (slicing : Slicing) (length : Nat) : Prop where
  partSize : 1 ≤ slicing.partSize
  stride : slicing.stride ≠ 0
  start : 0 ≤ resolve slicing.start length ∧ resolve slicing.start length < length
  stop : 0 ≤ resolve slicing.stop length ∧ resolve slicing.stop length < length
  forwards : 0 < slicing.stride → resolve slicing.start length ≤ resolve slicing.stop length
  backwards : slicing.stride < 0 → resolve slicing.stop length ≤ resolve slicing.start length

/-- The stride points from the first end towards the second one, which may
be the same. -/
structure Towards (slicing : Slicing) (length : Nat) : Prop where
  forwards : 0 < slicing.stride → resolve slicing.start length ≤ resolve slicing.stop length
  backwards : slicing.stride < 0 → resolve slicing.stop length ≤ resolve slicing.start length

/-- Part number `iteration` lies between the two ends. -/
def Covers (slicing : Slicing) (length : Nat) (iteration : Nat) : Prop :=
  min (resolve slicing.start length) (resolve slicing.stop length)
      ≤ slicing.position length iteration
    ∧ slicing.position length iteration + slicing.partSize
      ≤ max (resolve slicing.start length) (resolve slicing.stop length) + 1

/-- Part number `iteration` lies on an axis of the given length. -/
def OnAxis (slicing : Slicing) (length iteration : Nat) : Prop :=
  0 ≤ slicing.position length iteration
    ∧ slicing.position length iteration + slicing.partSize ≤ length

/-- The first position of the window that a number of parts covers, if
they are as long as the stride. A forward rule covers what begins at its
start, and a backward one what ends there. -/
def lowest (slicing : Slicing) (length count : Nat) : Nat :=
  (if 0 < slicing.stride then resolve slicing.start length
    else resolve slicing.start length + 1 - count * slicing.partSize).toNat

section

variable {slicing : Slicing} {length count iteration : Nat}

theorem Within.towards (h : slicing.Within length) : slicing.Towards length :=
  ⟨h.forwards, h.backwards⟩

/-- A rule with a step counts the parts that its span has room for,
whichever way the step points. -/
theorem exists_count_iff (hstride : slicing.stride ≠ 0) (hlength : length ≠ 0) :
    ∃ count, slicing.count length = .ok count
      ∧ ∀ iteration : Nat, iteration < count
        ↔ iteration * (slicing.stride.natAbs : Int) + slicing.partSize ≤ slicing.span length := by
  have hstep : 0 < (slicing.stride.natAbs : Int) := by omega
  unfold Slicing.count
  rw [if_neg (by omega)]
  by_cases hfits : slicing.span length < slicing.partSize
  · refine ⟨0, if_pos hfits, fun iteration => ?_⟩
    have hnonneg : 0 ≤ (iteration : Int) * (slicing.stride.natAbs : Int) :=
      Int.mul_nonneg (Int.natCast_nonneg _) (Int.natCast_nonneg _)
    omega
  · refine ⟨_, (if_neg hfits).trans (if_neg hstride), fun iteration => ?_⟩
    have hquotient := Int.le_ediv_iff_mul_le (a := (iteration : Int))
      (b := slicing.span length - slicing.partSize) hstep
    have hpos : 0 ≤ (slicing.span length - slicing.partSize) / (slicing.stride.natAbs : Int) :=
      Int.ediv_nonneg (by omega) (Int.le_of_lt hstep)
    omega

/-- A part fits if the strides up to it leave enough of the span. -/
theorem covers_iff (hstride : slicing.stride ≠ 0) (h : slicing.Towards length) :
    slicing.Covers length iteration
      ↔ iteration * (slicing.stride.natAbs : Int) + slicing.partSize ≤ slicing.span length := by
  obtain ⟨hforwards, hbackwards⟩ := h
  have hnonneg : 0 ≤ (iteration : Int) * (slicing.stride.natAbs : Int) :=
    Int.mul_nonneg (Int.natCast_nonneg _) (Int.natCast_nonneg _)
  unfold Covers position span
  by_cases hsign : 0 < slicing.stride
  · have habs : (slicing.stride.natAbs : Int) = slicing.stride := by omega
    have hends := hforwards hsign
    simp only [hsign, if_true]
    rw [habs] at hnonneg ⊢
    omega
  · have habs : slicing.stride = -(slicing.stride.natAbs : Int) := by omega
    have hends := hbackwards (by omega)
    have hback : (iteration : Int) * slicing.stride
        = -(iteration * (slicing.stride.natAbs : Int)) := by
      rw [← Int.mul_neg, ← habs]
    simp only [hsign, if_false, hback]
    omega

/-- The parts that a rule counts are those that fit. -/
theorem exists_count (h : slicing.Within length) :
    ∃ count, slicing.count length = .ok count
      ∧ ∀ iteration, slicing.Covers length iteration ↔ iteration < count := by
  have hlength : length ≠ 0 := by
    have := h.start
    omega
  obtain ⟨count, hcount, hfits⟩ := exists_count_iff h.stride hlength
  exact ⟨count, hcount, fun iteration =>
    (covers_iff h.stride h.towards).trans (hfits iteration).symm⟩

/-- As many parts as long as the stride fit as the span holds. -/
theorem eq_span_ediv (h : slicing.Within length)
    (hcovers : ∀ iteration, slicing.Covers length iteration ↔ iteration < count)
    (hstride : (slicing.stride.natAbs : Int) = slicing.partSize) :
    (count : Int) = slicing.span length / slicing.partSize := by
  have hsize : 0 < slicing.partSize := h.partSize
  have hfits (iteration : Nat) :
      iteration < count ↔ (iteration : Int) + 1 ≤ slicing.span length / slicing.partSize := by
    rw [← hcovers, covers_iff h.stride h.towards, hstride, Int.le_ediv_iff_mul_le hsize,
      Int.add_mul, Int.one_mul]
  have hspan : 0 ≤ slicing.span length / slicing.partSize := by
    refine Int.ediv_nonneg ?_ (Int.le_of_lt hsize)
    unfold span
    omega
  have hlast := hfits count
  cases count with
  | zero => omega
  | succ count =>
      have hbefore := hfits count
      omega

-- =============================================================== chunks

/-- A part that fits lies on the axis. -/
theorem Within.position_le (h : slicing.Within length) (hcovers : slicing.Covers length iteration) :
    slicing.OnAxis length iteration := by
  obtain ⟨-, -, hstart, hstop, -, -⟩ := h
  obtain ⟨hlow, hhigh⟩ := hcovers
  unfold OnAxis
  omega

/-- The parts of a rule whose stride is as long as a part, counted from
the lowest position that they cover. -/
theorem position_eq (h : slicing.Within length)
    (hcovers : ∀ iteration, slicing.Covers length iteration ↔ iteration < count)
    (hstride : (slicing.stride.natAbs : Int) = slicing.partSize) (hiteration : iteration < count) :
    (slicing.position length iteration).toNat
      = slicing.lowest length count
        + (if 0 < slicing.stride then iteration else count - 1 - iteration)
          * slicing.partSize.toNat := by
  obtain ⟨p, hp⟩ : ∃ p : Nat, slicing.partSize = p :=
    ⟨_, (Int.toNat_of_nonneg (Int.le_of_lt h.partSize)).symm⟩
  have hlast := h.position_le ((hcovers (count - 1)).2 (by omega))
  have hposition := h.position_le ((hcovers iteration).2 hiteration)
  have hstart := h.start
  unfold lowest
  unfold OnAxis at hposition hlast
  unfold position at hposition hlast ⊢
  rw [hp] at hposition hlast hstride ⊢
  by_cases hsign : 0 < slicing.stride
  · have hforward : slicing.stride = p := by omega
    simp only [hsign, if_true, Int.toNat_natCast]
    rw [hforward, ← Int.natCast_mul]
    omega
  · have hback : slicing.stride = -(p : Int) := by omega
    obtain ⟨others, rfl⟩ : ∃ others, count = iteration + others + 1 :=
      ⟨count - 1 - iteration, by omega⟩
    have hothers : iteration + others + 1 - 1 - iteration = others := by omega
    simp only [if_neg hsign, Int.toNat_natCast, hothers] at hlast hposition ⊢
    simp only [hback, Int.mul_neg, ← Int.natCast_mul, Nat.add_sub_cancel, Nat.add_mul,
      Nat.one_mul] at hlast hposition ⊢
    omega

-- ================================================================= parts

/-- A part on the axis can be cut out. -/
theorem OnAxis.part_eq_cut {t : Tensor} {k : Nat} (ht : t.Countable)
    (hk : Tensor.resolveAxis t.rank slicing.axis = .ok k) (hsize : 1 ≤ slicing.partSize)
    (h : slicing.OnAxis (t.shape.getD k 0) iteration) :
    slicing.part t iteration
      = .ok (t.cut k (slicing.position (t.shape.getD k 0) iteration).toNat
          slicing.partSize.toNat) := by
  obtain ⟨hlow, hhigh⟩ := h
  have hnarrow := @Tensor.Countable.narrow_eq_cut _ _ slicing.partSize.toNat _ ht
    (slicing.position (t.shape.getD k 0) iteration).toNat hk (by omega)
  rw [Int.toNat_of_nonneg hlow] at hnarrow
  unfold Slicing.part
  rw [Tensor.sizeAlong, hk]
  exact hnarrow

/-- A part that fits can be cut out. -/
theorem part_eq_cut {t : Tensor} {k : Nat} (ht : t.Countable)
    (hk : Tensor.resolveAxis t.rank slicing.axis = .ok k)
    (h : slicing.Within (t.shape.getD k 0)) (hcovers : slicing.Covers (t.shape.getD k 0) iteration) :
    slicing.part t iteration
      = .ok (t.cut k (slicing.position (t.shape.getD k 0) iteration).toNat
          slicing.partSize.toNat) :=
  (h.position_le hcovers).part_eq_cut ht hk h.partSize

end

end Slicing

-- ================================================================= loops

namespace Wiring

/-- A loop over one input whose body gets a part of it at every
iteration, and whose output joins what the body returns. -/
def echo (slicing joined : Slicing) : Wiring :=
  { sliced := [⟨0, 0, slicing⟩], outputs := [.joined 0 joined] }

variable {slicing joined : Slicing} {t : Tensor} {body : Body} {first count : Nat}

theorem iterations_echo {k : Nat} (hk : Tensor.resolveAxis t.rank slicing.axis = .ok k)
    (hcount : slicing.count (t.shape.getD k 0) = .ok count) :
    (echo slicing joined).iterations [some t] = .ok count := by
  have hpart : partCount [some t] ⟨0, 0, slicing⟩ = .ok count := by
    show (t.sizeAlong slicing.axis >>= fun size => slicing.count size) = _
    rw [Tensor.sizeAlong, hk]
    exact hcount
  have hcounts : (echo slicing joined).sliced.mapM (partCount [some t]) = .ok [count] :=
    Except.mapM_eq_ok.2 (.cons hpart .nil)
  have hsorted : distinctSorted [count] = [count] := by
    rw [distinctSorted, List.eraseDups_cons, List.filter_nil, List.eraseDups_nil,
      List.mergeSort_singleton]
  unfold iterations
  rw [hcounts]
  show (Except.ok [count] >>= _) = _
  rw [Except.ok_bind, hsorted]
  rfl

/-- A body that returns what it gets collects the parts. -/
theorem iterate_echo (hbody : ∀ part, body [some part] = .ok [some part]) {part : Nat → Tensor}
    (hpart : ∀ i, first ≤ i → i < first + count → slicing.part t i = .ok (part i)) {state : State}
    (harguments : state.arguments.length = 1) :
    ∃ last, (echo slicing joined).iterate body [some t] state first count = .ok last
      ∧ last.rows = state.rows ++ (List.range' first count).map fun i => [some (part i)] := by
  induction count generalizing first state with
  | zero => exact ⟨state, rfl, (List.append_nil _).symm⟩
  | succ count ih =>
      obtain ⟨argument, harguments⟩ := List.length_eq_one_iff.1 harguments
      have hstep : (echo slicing joined).step body [some t] state first
          = .ok ⟨[some (part first)], state.rows ++ [[some (part first)]],
              some [some (part first)]⟩ := by
        have hfeed : (echo slicing joined).feed [some t] state.arguments first
            = .ok [some (part first)] := by
          show (slicing.part t first >>= fun part => replaceAt state.arguments 0 (some part))
            >>= pure = _
          rw [hpart first (Nat.le_refl _) (by omega), harguments]
          rfl
        unfold step
        rw [hfeed]
        show (body [some (part first)] >>= _) = _
        rw [hbody]
        rfl
      obtain ⟨last, hlast, hrows⟩ := @ih (first + 1) (fun i hi hi' => hpart i (by omega) (by omega))
        ⟨[some (part first)], state.rows ++ [[some (part first)]], some [some (part first)]⟩ rfl
      refine ⟨last, ?_, ?_⟩
      · unfold iterate
        rw [hstep]
        exact hlast
      · rw [hrows, List.append_assoc, List.range'_succ]
        rfl

theorem joinParts_some (parts : List Tensor) :
    joined.joinParts (parts.map some)
      = Tensor.join (if joined.stride < 0 then parts.reverse else parts) joined.axis := by
  have hvalues (parts : List Tensor) : (parts.map some).mapM Operand.value = .ok parts := by
    rw [Except.mapM_eq_ok, List.forall₂_map_left_iff]
    exact List.forall₂_same.2 fun _ _ => rfl
  unfold Slicing.joinParts
  by_cases hback : joined.stride < 0
  · rw [if_pos hback, if_pos hback, ← List.map_reverse, hvalues]
    rfl
  · rw [if_neg hback, if_neg hback, hvalues]
    rfl

/-- A loop whose body returns what it gets joins the parts. -/
theorem run_echo (hbody : ∀ part, body [some part] = .ok [some part]) {part : Nat → Tensor}
    (hcount : (echo slicing joined).iterations [some t] = .ok count)
    (hpart : ∀ i < count, slicing.part t i = .ok (part i)) :
    (echo slicing joined).run 1 body [some t]
      = if count = 0 then .error (.nothingToJoin 0)
        else (Tensor.join
          (if joined.stride < 0 then ((List.range count).map part).reverse
            else (List.range count).map part) joined.axis).map fun z => [some z] := by
  obtain ⟨last, hlast, hrows⟩ := @iterate_echo slicing joined t body 0 count hbody part
    (fun i _ hi => hpart i (by omega)) { arguments := [none] } rfl
  rw [← List.range_eq_range', List.nil_append] at hrows
  have hvalues : (last.rows.map (·.getD 0 none)) = ((List.range count).map part).map some := by
    rw [hrows, List.map_map, List.map_map]
    rfl
  unfold run
  show ((echo slicing joined).iterations [some t] >>= fun count =>
    (echo slicing joined).iterate body [some t] { arguments := [none] } 0 count >>= fun last =>
      [(LoopOutput.joined 0 joined, 0)].mapM fun entry =>
        (echo slicing joined).result [some t] last entry.1 entry.2) = _
  rw [hcount]
  show ((echo slicing joined).iterate body [some t] { arguments := [none] } 0 count >>= _) = _
  rw [hlast]
  show ((echo slicing joined).result [some t] last (.joined 0 joined) 0 >>= fun z => pure [z]) = _
  unfold result
  by_cases hzero : count = 0
  · have hempty : last.rows.isEmpty = true := by
      rw [hrows, hzero]
      rfl
    rw [if_pos hzero]
    simp only [hempty, if_true]
    rfl
  · have hempty : ¬ last.rows.isEmpty = true := by
      rw [hrows, List.isEmpty_iff, List.map_eq_nil_iff, List.range_eq_nil]
      exact hzero
    simp only [hempty, if_neg hzero]
    rw [hvalues, joinParts_some]
    cases Tensor.join _ joined.axis <;> rfl

end Wiring

section

open Wiring

variable {slicing joined : Slicing} {t : Tensor} {k count : Nat}

/-- The parts in the order in which they are joined. -/
theorem arranged_cuts {place : Nat → Nat} {size : Nat} :
    (if joined.stride < 0 then (t.cuts k count size place).reverse else t.cuts k count size place)
      = t.cuts k count size fun c => place (if joined.stride < 0 then count - 1 - c else c) := by
  by_cases hback : joined.stride < 0
  · simp only [if_pos hback]
    refine List.ext_getElem (by simp [Tensor.cuts]) fun c hc hc' => ?_
    simp [Tensor.cuts]
  · simp only [if_neg hback]

/-- **Cutting and joining.** A loop cuts its input up by a rule that keeps to the
axis, its body returns what it gets, and the loop joins that along the
same axis. The loop runs once for every part that fits between the ends
of the rule, and cuts that part out.

If parts are as long as the stride, there are as many as the span holds,
and unless there is none the loop returns the window that they cover:
from the start on, or up to the start if the rule walks backwards. If one
rule walks forwards and the other one backwards, the parts of that window
come in the opposite order. -/
theorem meaning_echo {body : Module} (ht : t.Countable)
    (hbody : ∀ part, body.eval [some part] = .ok (.tuple [some part]))
    (hk : Tensor.resolveAxis t.rank slicing.axis = .ok k)
    (hjoined : Tensor.resolveAxis t.rank joined.axis = .ok k)
    (h : slicing.Within (t.shape.getD k 0)) :
    ∃ count, (echo slicing joined).iterations [some t] = .ok count
      ∧ (∀ i, slicing.Covers (t.shape.getD k 0) i ↔ i < count)
      ∧ (∀ i < count, slicing.part t i
          = .ok (t.cut k (slicing.position (t.shape.getD k 0) i).toNat slicing.partSize.toNat))
      ∧ ((slicing.stride.natAbs : Int) = slicing.partSize →
          (count : Int) = slicing.span (t.shape.getD k 0) / slicing.partSize
          ∧ (Loop.mk (echo slicing joined) 1 body).meaning [some t]
            = if count = 0 then .error (.nothingToJoin 0)
              else .ok [some (
                let first := slicing.lowest (t.shape.getD k 0) count
                let size := slicing.partSize.toNat
                if joined.stride < 0 ↔ slicing.stride < 0 then t.cut k first (count * size)
                else t.chunks k count size fun c => first + (count - 1 - c) * size)]) := by
  obtain ⟨count, hcount, hcovers⟩ := Slicing.exists_count h
  have hiterations := @iterations_echo _ joined _ _ _ hk hcount
  have hpart : ∀ i < count, slicing.part t i = .ok (t.cut k
      (slicing.position (t.shape.getD k 0) i).toNat slicing.partSize.toNat) :=
    fun i hi => Slicing.part_eq_cut ht hk h ((hcovers i).2 hi)
  refine ⟨count, hiterations, hcovers, hpart, fun hstride =>
    ⟨Slicing.eq_span_ediv h hcovers hstride, ?_⟩⟩
  have hbody' : ∀ part, (((body.map Loop.meaning).run [some part]).map Output.operands)
      = .ok [some part] := by
    intro part
    rw [show (body.map Loop.meaning).run [some part] = .ok (.tuple [some part]) from hbody part]
    rfl
  have hsize := h.partSize
  have hlt : k < t.rank := Tensor.resolveAxis_lt hk
  rw [Loop.meaning, Loop.fold_mk]
  show (echo slicing joined).run 1 _ [some t] = _
  rw [run_echo hbody' hiterations hpart]
  by_cases hzero : count = 0
  · rw [if_pos hzero, if_pos hzero]
  rw [if_neg hzero, if_neg hzero]
  show (Tensor.join (if joined.stride < 0 then (t.cuts k count slicing.partSize.toNat _).reverse
    else t.cuts k count slicing.partSize.toNat _) joined.axis).map _ = _
  rw [arranged_cuts, Tensor.join_cuts ht hjoined (by omega) (Nat.pos_of_ne_zero hzero)]
  have hplace {c : Nat} (hc : c < count) := Slicing.position_eq h hcovers hstride hc
  have hsign := h.stride
  refine congrArg (fun z => Except.ok [some z]) ?_
  by_cases hsame : joined.stride < 0 ↔ slicing.stride < 0
  · rw [if_pos hsame, ← Tensor.chunks_consecutive hlt]
    refine Tensor.chunks_congr hlt fun c hc => ?_
    rw [hplace (by split <;> omega)]
    congr 2
    split <;> split <;> omega
  · rw [if_neg hsame]
    refine Tensor.chunks_congr hlt fun c hc => ?_
    rw [hplace (by split <;> omega)]
    congr 2
    split <;> split <;> omega

/-- A module that returns what it gets. -/
def returning : Module :=
  { inputs := [⟨"x", {}⟩], nodes := [], results := .tuple [.input 0] }

theorem eval_returning (part : Tensor) :
    returning.eval [some part] = .ok (.tuple [some part]) := by
  have hsources : Arguments.sources ["x"] = [0] := by decide +kernel
  have hbind : Arguments.bind ["x"] [some part] = [some part] := by
    rw [Arguments.bind, hsources]
    rfl
  show Except.ok (Output.tuple
    [((Ref.input 0).value (Arguments.bind ["x"] [some part]) []).operand]) = _
  rw [hbind]
  rfl

/-- Five elements, walked backwards in pairs: the last four come back in
their order. -/
theorem meaning_echo_pairs :
    (Loop.mk (echo ⟨-1, -2, 2, 0, 0⟩ ⟨-1, -1, 1, 0, -1⟩) 1 returning).meaning
        [some (.vector .int64 [10, 11, 12, 13, 14])]
      = .ok [some (.vector .int64 [11, 12, 13, 14])] := by
  obtain ⟨count, hcount, -, -, hjoin⟩ := @meaning_echo ⟨-1, -2, 2, 0, 0⟩
    ⟨-1, -1, 1, 0, -1⟩ (.vector .int64 [10, 11, 12, 13, 14]) 0 returning (by decide) eval_returning rfl rfl
    ⟨by decide, by decide, by decide, by decide, by decide, by decide⟩
  obtain ⟨hspan, hmeaning⟩ := hjoin (by decide)
  obtain rfl : count = 2 := Int.ofNat.inj hspan
  rw [hmeaning]
  decide

end

end OnnxLowering
