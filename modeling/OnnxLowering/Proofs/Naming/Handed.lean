/-
The names that a sequence of wishes is given. Each wish is a base name,
and its taker gets it with the number of earlier takers of the same base.
Takers differ, but two of them can get one name: the numbered name of one
base can be a base itself. `nodup_handed_iff` says that this is the only
way.

The induction is over the bases still to be served; what has been served
before counts only through how often each base occurs in it.
-/
import Mathlib.Data.List.Count
import Mathlib.Data.List.Nodup
import OnnxLowering.Proofs.Naming.Numbered

namespace OnnxLowering.Counters

/-- The takers of bases that come after some earlier ones: each base with
its number. -/
def takers (earlier : List String) : List String → List (String × Nat)
  | [] => []
  | base :: rest => (base, earlier.count base) :: takers (earlier ++ [base]) rest

/-- The names that bases are given, one after another. -/
def handed (bases : List String) : List String :=
  (takers [] bases).map fun taker => numbered taker.1 taker.2

variable {earlier bases : List String} {base name : String} {n : Nat}

theorem takers_append {others : List String} :
    takers earlier (bases ++ others) = takers earlier bases ++ takers (earlier ++ bases) others := by
  induction bases generalizing earlier with
  | nil => rw [List.append_nil]; rfl
  | cons base bases ih =>
      rw [List.cons_append, takers, takers, ih, List.cons_append, List.append_assoc,
        List.singleton_append]

/-- One more base is given the name with its number. -/
theorem handed_append_singleton :
    handed (bases ++ [base]) = handed bases ++ [numbered base (bases.count base)] := by
  rw [handed, takers_append, List.map_append, List.nil_append]
  rfl

/-- The numbers of the takers of a base go on from those that have been
given to it before. -/
theorem mem_takers : (base, n) ∈ takers earlier bases
    ↔ earlier.count base ≤ n ∧ n < earlier.count base + bases.count base := by
  induction bases generalizing earlier with
  | nil =>
      rw [takers, List.count_nil]
      exact ⟨fun h => (nomatch h), fun ⟨hle, hlt⟩ => by omega⟩
  | cons first bases ih =>
      rw [takers, List.mem_cons, ih, List.count_append, Prod.mk.injEq]
      by_cases hbase : base = first
      · subst hbase
        rw [List.count_singleton_self, List.count_cons_self]
        simp only [true_and]
        omega
      · rw [List.count_singleton, List.count_cons]
        simp only [beq_iff_eq, Ne.symm hbase, hbase, if_false, false_and, false_or]
        omega

theorem nodup_takers : (takers earlier bases).Nodup := by
  induction bases generalizing earlier with
  | nil => exact .nil
  | cons base bases ih =>
      refine List.nodup_cons.2 ⟨fun hmem => ?_, ih⟩
      rw [mem_takers, List.count_append, List.count_singleton_self] at hmem
      omega

/-- **Distinct names.** The names that bases are given are distinct if and
only if no base is a name that another one is given because it has been
taken before. -/
theorem nodup_handed_iff : (handed bases).Nodup
    ↔ ∀ base ∈ bases, ∀ n < bases.count base, n ≠ 0 → numbered base n ∉ bases := by
  have htaker {base : String} {n : Nat} : (base, n) ∈ takers [] bases ↔ n < bases.count base := by
    rw [mem_takers, List.count_nil]
    omega
  have hmem {base : String} {n : Nat} (htakes : (base, n) ∈ takers [] bases) : base ∈ bases :=
    List.count_pos_iff.1 (Nat.lt_of_le_of_lt (Nat.zero_le n) (htaker.1 htakes))
  rw [handed, List.nodup_map_iff_inj_on nodup_takers]
  constructor
  · intro h base _ n hlt hn hnumbered
    have hfirst : (numbered base n, 0) ∈ takers [] bases :=
      htaker.2 (List.count_pos_iff.2 hnumbered)
    have hsame := h (base, n) (htaker.2 hlt) (numbered base n, 0) hfirst (numbered_zero _).symm
    exact hn (Prod.mk.inj hsame).2
  · rintro h ⟨base, m⟩ hm ⟨base', n⟩ hn heq
    rcases numbered_eq_iff.1 heq with ⟨rfl, rfl⟩ | ⟨hpositive, -, hbase⟩ | ⟨-, hpositive, hbase⟩
    · rfl
    · exact absurd (hbase ▸ hmem hn) (h base (hmem hm) m (htaker.1 hm) hpositive)
    · exact absurd (hbase ▸ hmem hm) (h base' (hmem hn) n (htaker.1 hn) hpositive)

end OnnxLowering.Counters
