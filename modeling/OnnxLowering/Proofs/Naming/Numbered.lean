/-
When two numbered names are the same. The first taker of a base gets the
base, so a name says which base and number it was made from only as long
as no base looks like a numbered name itself: `a_1` is the second taker
of `a` and the first of `a_1`. `numbered_eq_iff` says that this is the
only way in which different takers get one name.
-/
import Mathlib.Data.List.Basic
import Mathlib.Tactic.Common
import OnnxLowering.Naming.Counter

namespace OnnxLowering.Counters

-- ============================================================== suffixes

/-- The digits of a number contain no underscore, so the last underscore
of a numbered name is the one before the number. -/
theorem underscore_notMem_digits (n : Nat) : '_' ∉ (toString n).toList := by
  rw [Nat.toString_eq_repr, Nat.toList_repr]
  exact Nat.underscore_not_in_toDigits

theorem toString_injective {m n : Nat} (h : toString m = toString n) : m = n := by
  have hdigits : Nat.toDigits 10 m = Nat.toDigits 10 n := by
    have hlist := congrArg String.toList h
    rwa [Nat.toString_eq_repr, Nat.toString_eq_repr, Nat.toList_repr, Nat.toList_repr] at hlist
  have hvalue := congrArg (fun digits => Nat.ofDigitChars 10 digits 0) hdigits
  simpa using hvalue

/-- Two lists that are each cut at their last occurrence of an element
agree on both sides of the cut. -/
private theorem append_cons_inj_of_notMem {α : Type} {c : α} :
    ∀ {as bs xs ys : List α}, c ∉ xs → c ∉ ys →
      as ++ c :: xs = bs ++ c :: ys → as = bs ∧ xs = ys := by
  intro as
  induction as with
  | nil =>
      intro bs xs ys hx hy h
      cases bs with
      | nil => exact ⟨rfl, (List.cons.inj h).2⟩
      | cons b bs =>
          have htail : xs = bs ++ c :: ys := (List.cons.inj h).2
          exact absurd (htail ▸ List.mem_append_right _ List.mem_cons_self) hx
  | cons a as ih =>
      intro bs xs ys hx hy h
      cases bs with
      | nil =>
          have htail : as ++ c :: xs = ys := (List.cons.inj h).2
          exact absurd (htail ▸ List.mem_append_right _ List.mem_cons_self) hy
      | cons b bs =>
          obtain ⟨hhead, htail⟩ := List.cons.inj h
          obtain ⟨hbase, hrest⟩ := ih hx hy htail
          exact ⟨by rw [hhead, hbase], hrest⟩

/-- A name with a number added determines both. -/
theorem suffixed_inj {base base' : String} {m n : Nat}
    (h : base ++ "_" ++ toString m = base' ++ "_" ++ toString n) :
    base = base' ∧ m = n := by
  have hlist := congrArg String.toList h
  simp only [String.toList_append, List.append_assoc] at hlist
  obtain ⟨hbase, hdigits⟩ := append_cons_inj_of_notMem
    (underscore_notMem_digits m) (underscore_notMem_digits n) hlist
  exact ⟨String.toList_inj.1 hbase, toString_injective (String.toList_inj.1 hdigits)⟩

-- ======================================================= numbered names

@[simp] theorem numbered_zero (base : String) : numbered base 0 = base := rfl

theorem numbered_of_ne_zero (base : String) {n : Nat} (h : n ≠ 0) :
    numbered base n = base ++ "_" ++ toString n := by
  rw [numbered, if_neg h]

/-- Takers with one name: they agree in base and number, or one of them
is the first taker of a base that is the other's numbered name. -/
theorem numbered_eq_iff {base base' : String} {m n : Nat} :
    numbered base m = numbered base' n ↔
      base = base' ∧ m = n
        ∨ m ≠ 0 ∧ n = 0 ∧ base' = numbered base m
        ∨ m = 0 ∧ n ≠ 0 ∧ base = numbered base' n := by
  constructor
  · intro h
    by_cases hm : m = 0 <;> by_cases hn : n = 0
    · rw [hm, hn, numbered_zero, numbered_zero] at h
      exact Or.inl ⟨h, hm.trans hn.symm⟩
    · rw [hm, numbered_zero] at h
      exact Or.inr (Or.inr ⟨hm, hn, h⟩)
    · rw [hn, numbered_zero] at h
      exact Or.inr (Or.inl ⟨hm, hn, h.symm⟩)
    · rw [numbered_of_ne_zero base hm, numbered_of_ne_zero base' hn] at h
      exact Or.inl (suffixed_inj h)
  · rintro (⟨rfl, rfl⟩ | ⟨-, rfl, h⟩ | ⟨rfl, -, h⟩)
    · rfl
    · rw [numbered_zero, h]
    · rw [numbered_zero, h]

-- ============================================================== counting

/-- Takers are counted and never forgotten. -/
theorem count_le_count_take (counters : Counters) (base other : String) :
    counters.count other ≤ (counters.take base).2.count other := by
  by_cases h : other = base
  · rw [h, count_take_self]
    exact Nat.le_succ _
  · exact Nat.le_of_eq (count_take_of_ne counters h).symm

end OnnxLowering.Counters
