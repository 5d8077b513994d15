/-
A supply hands out no name twice. A wish that is taken is numbered with
the first number that is free, and there is one among the first few: the
numbered names of a base are all different, so they cannot all be in use.
-/
import Mathlib.Data.List.Nodup
import Mathlib.Data.List.Perm.Subperm
import OnnxLowering.Naming.Supply
import OnnxLowering.Proofs.Naming.Numbered

namespace OnnxLowering.NameSupply

variable {used : List String} {base : String}

/-- A name of a base with a number. -/
def suffixed (base : String) (n : Nat) : String := base ++ "_" ++ toString n

/-- If the search ends with a name in use, all names on the way are in
use. -/
theorem suffixed_mem_of_firstFree {fuel n : Nat}
    (h : suffixed base (firstFree used base fuel n) ∈ used) :
    ∀ i ≤ fuel, suffixed base (n + i) ∈ used := by
  induction fuel generalizing n with
  | zero =>
      intro i hi
      obtain rfl := Nat.le_zero.1 hi
      exact h
  | succ fuel ih =>
      rw [firstFree] at h
      by_cases hused : suffixed base n ∈ used
      · have hcontains : used.contains (base ++ "_" ++ toString n) = true :=
          List.contains_iff_mem.2 hused
        rw [if_pos hcontains] at h
        intro i hi
        cases i with
        | zero => exact hused
        | succ i =>
            have := ih h i (Nat.le_of_succ_le_succ hi)
            rwa [Nat.add_assoc, Nat.add_comm 1] at this
      · have hcontains : ¬ used.contains (base ++ "_" ++ toString n) = true :=
          fun hmem => hused (List.contains_iff_mem.1 hmem)
        rw [if_neg hcontains] at h
        exact absurd h hused

/-- The search ends with a name that is not in use. -/
theorem suffixed_firstFree_notMem (used : List String) (base : String) (n : Nat) :
    suffixed base (firstFree used base (used.length + 1) n) ∉ used := by
  intro h
  have hall := suffixed_mem_of_firstFree h
  have hnodup : ((List.range (used.length + 1)).map fun i => suffixed base (n + i)).Nodup := by
    refine List.nodup_range.map fun i j hij => ?_
    exact Nat.add_left_cancel (Counters.suffixed_inj hij).2
  have hsubset : ((List.range (used.length + 1)).map fun i => suffixed base (n + i)) ⊆ used := by
    intro name hname
    obtain ⟨i, hi, rfl⟩ := List.mem_map.1 hname
    exact hall i (Nat.le_of_lt (List.mem_range.1 hi))
  have hlength := (hnodup.subperm hsubset).length_le
  rw [List.length_map, List.length_range] at hlength
  exact Nat.not_succ_le_self _ hlength

/-- A name that is taken is replaced by one that is not. -/
theorem free_notMem (used : List String) (base start : String) (number : Nat) :
    (if used.contains start then
        let n := firstFree used base (used.length + 1) (number + 1)
        (base ++ "_" ++ toString n, n)
      else (start, number) : String × Nat).1 ∉ used := by
  split
  · exact suffixed_firstFree_notMem used base (number + 1)
  · next hused => exact fun hmem => hused (List.contains_iff_mem.2 hmem)

/-- A name that is handed out was not in use, and is from then on. -/
theorem create_spec (supply : NameSupply) (wish : String) :
    (supply.create wish).1 ∉ supply.used
      ∧ (supply.create wish).2.used = (supply.create wish).1 :: supply.used := by
  unfold create
  exact ⟨free_notMem _ _ _ _, rfl⟩

end OnnxLowering.NameSupply
