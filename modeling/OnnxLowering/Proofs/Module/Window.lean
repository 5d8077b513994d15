/-
Which of the parts that a rule counts lie between its ends. A loop takes
any rule with a step and a size for a sliced input, and counts its parts
by the distance between the two ends alone. So the parts may lead away
from the window, or over the end of the axis, where a negative position
is one that counts from the other end.

`parts_inside_iff` says when that does not happen: the stride points
from the start towards the stop, or there is a single part of a single
position, and the first and the last part lie on the axis.
`part_wraps` shows a rule that reads an axis from its other end.
-/
import OnnxLowering.Proofs.Module.Walk

namespace OnnxLowering

namespace Slicing

instance (slicing : Slicing) (length iteration : Nat) :
    Decidable (slicing.OnAxis length iteration) := inferInstanceAs (Decidable (_ ∧ _))

instance (slicing : Slicing) (length iteration : Nat) :
    Decidable (slicing.Covers length iteration) := inferInstanceAs (Decidable (_ ∧ _))

variable {slicing : Slicing} {length count iteration : Nat}

theorem position_eq_add (slicing : Slicing) (length iteration : Nat) :
    slicing.position length iteration
      = slicing.position length 0 + iteration * slicing.stride := by
  unfold position
  by_cases hsign : 0 < slicing.stride
  · simp [hsign]
  · simp only [hsign, if_false]
    omega

/-- What lies between two parts on the axis lies on it. -/
theorem OnAxis.between (hfirst : slicing.OnAxis length 0) (hlast : slicing.OnAxis length (count - 1))
    (hiteration : iteration < count) : slicing.OnAxis length iteration := by
  obtain ⟨hlow, hhigh⟩ := hfirst
  obtain ⟨hlow', hhigh'⟩ := hlast
  rw [position_eq_add] at hlow' hhigh'
  have hle : (iteration : Int) ≤ ((count - 1 : Nat) : Int) := by omega
  unfold OnAxis
  rw [position_eq_add]
  rcases Int.le_total 0 slicing.stride with hsign | hsign
  · have hpos : 0 ≤ (iteration : Int) * slicing.stride :=
      Int.mul_nonneg (Int.natCast_nonneg _) hsign
    have hmono := Int.mul_le_mul_of_nonneg_right hle hsign
    omega
  · have hneg : (iteration : Int) * slicing.stride ≤ 0 :=
      Int.mul_nonpos_of_nonneg_of_nonpos (Int.natCast_nonneg _) hsign
    have hmono := Int.mul_le_mul_of_nonpos_right hle hsign
    omega

/-- A rule that leads away from its stop has one part between the ends,
the start itself. -/
theorem covers_of_away (hsize : 1 ≤ slicing.partSize) (hstride : slicing.stride ≠ 0)
    (h : ¬ slicing.Towards length) :
    slicing.Covers length iteration ↔ iteration = 0 ∧ slicing.partSize = 1 := by
  have haway : (0 < slicing.stride → resolve slicing.stop length < resolve slicing.start length)
      ∧ (slicing.stride < 0 → resolve slicing.start length < resolve slicing.stop length) := by
    refine ⟨fun hsign => ?_, fun hsign => ?_⟩ <;>
    · by_contra hends
      exact h ⟨by omega, by omega⟩
  unfold Covers position
  by_cases hsign : 0 < slicing.stride
  · have hends := haway.1 hsign
    have hsteps : iteration ≠ 0 → 0 < (iteration : Int) * slicing.stride :=
      fun hne => Int.mul_pos (by omega) hsign
    simp only [hsign, if_true]
    constructor
    · intro hcovers
      by_cases hzero : iteration = 0
      · subst hzero
        omega
      · have := hsteps hzero
        omega
    · rintro ⟨rfl, hone⟩
      omega
  · have hends := haway.2 (by omega)
    have hsteps : iteration ≠ 0 → (iteration : Int) * slicing.stride < 0 :=
      fun hne => Int.mul_neg_of_pos_of_neg (by omega) (by omega)
    simp only [hsign, if_false]
    constructor
    · intro hcovers
      by_cases hzero : iteration = 0
      · subst hzero
        omega
      · have := hsteps hzero
        omega
    · rintro ⟨rfl, hone⟩
      omega

/-- The parts of a rule that it counts lie between its ends if its stride
points towards the stop, or if there is nothing to step to. -/
theorem covers_all_iff (hsize : 1 ≤ slicing.partSize) (hstride : slicing.stride ≠ 0)
    (hfits : ∀ i : Nat, i < count
      ↔ i * (slicing.stride.natAbs : Int) + slicing.partSize ≤ slicing.span length) :
    (∀ i < count, slicing.Covers length i)
      ↔ count = 0 ∨ slicing.Towards length ∨ count = 1 ∧ slicing.partSize = 1 := by
  by_cases htowards : slicing.Towards length
  · simp only [htowards, true_or, or_true, iff_true]
    exact fun i hi => (covers_iff hstride htowards).2 ((hfits i).1 hi)
  · simp only [htowards, false_or, covers_of_away hsize hstride htowards]
    constructor
    · intro hcovers
      by_cases hzero : count = 0
      · exact .inl hzero
      · have hlast := hcovers (count - 1) (by omega)
        exact .inr ⟨by omega, hlast.2⟩
    · rintro (rfl | ⟨rfl, hone⟩) i hi
      · omega
      · exact ⟨by omega, hone⟩

end Slicing

open Slicing

/-- **Keeping to the window.** A loop accepts a sliced input and counts its parts on an
axis of any length. All of them lie between the two ends and on the
axis, and so are cut out where they begin, if and only if there is none,
or else the first and the last one lie on the axis and either the stride
points from the start towards the stop or the one part is the position
at the start. -/
theorem parts_inside_iff {wiring wiring' : Wiring} {wire : SlicedInput}
    (haccepted : wiring.addSliced wire = .ok wiring') {t : Tensor} (ht : t.Countable) {k : Nat}
    (hk : Tensor.resolveAxis t.rank wire.slicing.axis = .ok k) :
    ∃ count, wire.slicing.count (t.shape.getD k 0) = .ok count
      ∧ ((∀ i < count, wire.slicing.Covers (t.shape.getD k 0) i
            ∧ wire.slicing.OnAxis (t.shape.getD k 0) i
            ∧ wire.slicing.part t i
              = .ok (t.cut k (wire.slicing.position (t.shape.getD k 0) i).toNat
                  wire.slicing.partSize.toNat))
          ↔ count = 0
            ∨ (wire.slicing.Towards (t.shape.getD k 0)
                ∨ count = 1 ∧ wire.slicing.partSize = 1)
              ∧ wire.slicing.OnAxis (t.shape.getD k 0) 0
              ∧ wire.slicing.OnAxis (t.shape.getD k 0) (count - 1)) := by
  obtain ⟨hstride, hsize⟩ : wire.slicing.stride ≠ 0 ∧ 1 ≤ wire.slicing.partSize := by
    unfold Wiring.addSliced at haccepted
    split at haccepted
    · cases haccepted
    · next hrule =>
      simp only [Bool.or_eq_true, decide_eq_true_eq, not_or] at hrule
      omega
  by_cases hlength : t.shape.getD k 0 = 0
  · refine ⟨0, ?_, by simp⟩
    rw [Slicing.count, hlength]
    rfl
  · obtain ⟨count, hcount, hfits⟩ := exists_count_iff hstride hlength
    refine ⟨count, hcount, ?_⟩
    have hcovers := covers_all_iff hsize hstride hfits
    constructor
    · intro hinside
      by_cases hzero : count = 0
      · exact .inl hzero
      · have htowards := (hcovers.1 fun i hi => (hinside i hi).1).resolve_left hzero
        exact .inr ⟨htowards, (hinside 0 (by omega)).2.1, (hinside (count - 1) (by omega)).2.1⟩
    · rintro (rfl | ⟨htowards, hfirst, hlast⟩) i hi
      · omega
      · have honAxis := hfirst.between hlast hi
        exact ⟨hcovers.2 (.inr htowards) i hi, honAxis, honAxis.part_eq_cut ht hk hsize⟩

/-- Five elements, walked backwards in pairs: both pairs lie between the
ends, and each is cut out where it begins. -/
theorem parts_inside_pairs :
    ∃ count, Slicing.count ⟨-1, -2, 2, 0, 0⟩ 5 = .ok count
      ∧ ∀ i < count, Slicing.Covers ⟨-1, -2, 2, 0, 0⟩ 5 i ∧ Slicing.OnAxis ⟨-1, -2, 2, 0, 0⟩ 5 i
        ∧ Slicing.part ⟨-1, -2, 2, 0, 0⟩ (.vector .int64 [10, 11, 12, 13, 14]) i
          = .ok (Tensor.cut (.vector .int64 [10, 11, 12, 13, 14]) 0
              (Slicing.position ⟨-1, -2, 2, 0, 0⟩ 5 i).toNat 2) := by
  obtain ⟨count, hcount, hinside⟩ := @parts_inside_iff {} _ ⟨0, 0, ⟨-1, -2, 2, 0, 0⟩⟩ rfl
    (.vector .int64 [10, 11, 12, 13, 14]) (by decide) 0 rfl
  obtain rfl : (2 : Nat) = count := Except.ok.inj hcount
  exact ⟨2, rfl, hinside.2 (.inr ⟨.inl ⟨by decide, by decide⟩, by decide, by decide⟩)⟩

/-- A rule that starts at the first of four elements, stops at the last
one and yet steps backwards is accepted. Its second part begins before
the axis and is read from its other end. -/
theorem part_wraps :
    (Wiring.addSliced {} ⟨0, 0, ⟨0, -1, 1, 3, 0⟩⟩).isOk = true
      ∧ Slicing.count ⟨0, -1, 1, 3, 0⟩ 4 = .ok 4
      ∧ ¬ Slicing.Covers ⟨0, -1, 1, 3, 0⟩ 4 1
      ∧ ¬ Slicing.OnAxis ⟨0, -1, 1, 3, 0⟩ 4 1
      ∧ Slicing.part ⟨0, -1, 1, 3, 0⟩ (.vector .int64 [10, 11, 12, 13]) 1
        = .ok (.vector .int64 [13]) := by
  refine ⟨rfl, rfl, by decide, by decide, by decide⟩

end OnnxLowering
