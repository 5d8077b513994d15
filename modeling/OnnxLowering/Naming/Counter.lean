/-
Numbered names. The first taker of a base name gets the base itself, the
next ones get it with `_1`, `_2` and so on. Only the takers of the same
base are counted, so a numbered name can be the base of somebody else.
-/
import OnnxLowering.NameMap

namespace OnnxLowering

/-- How many times each base name has been taken. -/
abbrev Counters := NameMap Nat

namespace Counters

/-- The name of the taker with the given number. -/
def numbered (base : String) (count : Nat) : String :=
  if count = 0 then base else base ++ "_" ++ toString count

/-- How many takers a base name has had. -/
def count (counters : Counters) (base : String) : Nat := (counters.find? base).getD 0

/-- The name for the next taker of a base name, and the counters after
it. -/
def take (counters : Counters) (base : String) : String × Counters :=
  let taken := counters.count base
  (numbered base taken, counters.insert base (taken + 1))

-- ============================================================== the counts

theorem count_take_self (counters : Counters) (base : String) :
    (counters.take base).2.count base = counters.count base + 1 := by
  simp [take, count]

/-- Takers of one base do not affect the numbers of another. -/
theorem count_take_of_ne (counters : Counters) {base other : String} (h : other ≠ base) :
    (counters.take base).2.count other = counters.count other := by
  simp [take, count, NameMap.find?_insert_of_ne _ _ h]

end Counters

end OnnxLowering
