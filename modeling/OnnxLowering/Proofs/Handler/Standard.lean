/-
Which handler serves a node. The registry has at most two handlers for
an operation, and the version of the operator set decides between them.
-/
import OnnxLowering.Handler.Standard
import Mathlib.Data.List.TakeWhile
import Mathlib.Tactic.Common

namespace OnnxLowering

namespace Registry

variable {α : Type} {opset version first second : Int} {value a b : α}

theorem eq_of_serves_one
    (h : ([(first, a)].takeWhile (·.1 ≤ opset)).getLast? = some (version, value)) : value = a := by
  have hmem := (List.takeWhile_sublist _).subset (List.mem_of_getLast? h)
  exact (Prod.mk.inj (List.mem_singleton.1 hmem)).2

theorem serves_second_or_first (hle : first ≤ second)
    (h : ([(first, a), (second, b)].takeWhile (·.1 ≤ opset)).getLast? = some (version, value)) :
    second ≤ opset ∧ value = b ∨ ¬ second ≤ opset ∧ value = a := by
  by_cases hsecond : second ≤ opset
  · have hfirst : first ≤ opset := Int.le_trans hle hsecond
    simp only [List.takeWhile_cons, hfirst, hsecond, decide_true] at h
    cases h
    exact .inl ⟨hsecond, rfl⟩
  · simp only [List.takeWhile_cons, hsecond, decide_false] at h
    split at h
    · cases h
      exact .inr ⟨hsecond, rfl⟩
    · cases h

end Registry

/-- The handler that serves an operation in a version. -/
inductive Served (opset : Int) : String → Handler → Prop
  | constant : Served opset "Constant" Handler.constant
  | identity : Served opset "Identity" Handler.identity
  | add (h : 7 ≤ opset) : Served opset "Add" (Handler.binary .add)
  | addAligned (h : ¬ 7 ≤ opset) : Served opset "Add" (Handler.alignedBinary .add)
  | multiply (h : 7 ≤ opset) : Served opset "Mul" (Handler.binary .multiply)
  | multiplyAligned (h : ¬ 7 ≤ opset) : Served opset "Mul" (Handler.alignedBinary .multiply)
  | sqrt : Served opset "Sqrt" Handler.sqrt
  | random : Served opset "RandomNormal" Handler.random
  | randomLike : Served opset "RandomNormalLike" Handler.randomLike
  | scatter : Served opset "ScatterND" Handler.scatter
  | scanBatched (h : ¬ 9 ≤ opset) : Served opset "Scan" Handler.scanBatched
  | scan (h : 9 ≤ opset) : Served opset "Scan" Handler.scan
  | spectrum : Served opset "STFT" Handler.spectrum

/-- The handlers of scans. -/
theorem Served.of_scan {opset : Int} {op : String} {handler : Handler} (h : Served opset op handler)
    (hop : op = "Scan") : handler = Handler.scanBatched ∨ handler = Handler.scan := by
  cases h with
  | scanBatched _ => exact .inl rfl
  | scan _ => exact .inr rfl
  | _ => exact absurd hop (by decide)

theorem Served.of_constant {opset : Int} {op : String} {handler : Handler}
    (h : Served opset op handler) (hop : op = "Constant") : handler = Handler.constant := by
  cases h with
  | constant => rfl
  | _ => exact absurd hop (by decide)

namespace Handlers

/-- All insertions, the last one first. -/
theorem entries_standard : standard.entries.entries =
    [("STFT", [(17, Handler.spectrum)]),
     ("Scan", [(8, Handler.scanBatched), (9, Handler.scan)]),
     ("Scan", [(8, Handler.scanBatched)]),
     ("ScatterND", [(11, Handler.scatter)]),
     ("RandomNormalLike", [(1, Handler.randomLike)]),
     ("RandomNormal", [(1, Handler.random)]),
     ("Sqrt", [(1, Handler.sqrt)]),
     ("Mul", [(1, Handler.alignedBinary .multiply), (7, Handler.binary .multiply)]),
     ("Mul", [(1, Handler.alignedBinary .multiply)]),
     ("Add", [(1, Handler.alignedBinary .add), (7, Handler.binary .add)]),
     ("Add", [(1, Handler.alignedBinary .add)]),
     ("Identity", [(1, Handler.identity)]),
     ("Constant", [(1, Handler.constant)])] := rfl

theorem served_of_find? {op : String} {opset version : Int} {handler : Handler}
    (h : standard.find? op opset = some (version, handler)) : Served opset op handler := by
  unfold Registry.find? Registry.versions NameMap.find? at h
  rw [entries_standard] at h
  simp only [List.lookup_cons, List.lookup_nil] at h
  split at h
  · next hop =>
      rw [eq_of_beq hop, Registry.eq_of_serves_one h]
      exact .spectrum
  split at h
  · next hop =>
      rw [eq_of_beq hop]
      rcases Registry.serves_second_or_first (by decide) h with ⟨hle, rfl⟩ | ⟨hlt, rfl⟩
      · exact .scan hle
      · exact .scanBatched hlt
  split at h
  · next hop => cases hop
  split at h
  · next hop =>
      rw [eq_of_beq hop, Registry.eq_of_serves_one h]
      exact .scatter
  split at h
  · next hop =>
      rw [eq_of_beq hop, Registry.eq_of_serves_one h]
      exact .randomLike
  split at h
  · next hop =>
      rw [eq_of_beq hop, Registry.eq_of_serves_one h]
      exact .random
  split at h
  · next hop =>
      rw [eq_of_beq hop, Registry.eq_of_serves_one h]
      exact .sqrt
  split at h
  · next hop =>
      rw [eq_of_beq hop]
      rcases Registry.serves_second_or_first (by decide) h with ⟨hle, rfl⟩ | ⟨hlt, rfl⟩
      · exact .multiply hle
      · exact .multiplyAligned hlt
  split at h
  · next hop => cases hop
  split at h
  · next hop =>
      rw [eq_of_beq hop]
      rcases Registry.serves_second_or_first (by decide) h with ⟨hle, rfl⟩ | ⟨hlt, rfl⟩
      · exact .add hle
      · exact .addAligned hlt
  split at h
  · next hop => cases hop
  split at h
  · next hop =>
      rw [eq_of_beq hop, Registry.eq_of_serves_one h]
      exact .identity
  split at h
  · next hop =>
      rw [eq_of_beq hop, Registry.eq_of_serves_one h]
      exact .constant
  cases h

/-- Scans from version 9 on have no batch axis. -/
theorem find?_scan {opset : Int} (h : 9 ≤ opset) :
    standard.find? "Scan" opset = some (9, Handler.scan) := by
  have hbatched : (8 : Int) ≤ opset := by omega
  have hversions : standard.versions "Scan" = [(8, Handler.scanBatched), (9, Handler.scan)] := by
    unfold Registry.versions NameMap.find?
    rw [entries_standard]
    rfl
  unfold Registry.find?
  rw [hversions]
  simp [h, hbatched]

theorem find?_identity {opset : Int} (h : 1 ≤ opset) :
    standard.find? "Identity" opset = some (1, Handler.identity) := by
  have hversions : standard.versions "Identity" = [(1, Handler.identity)] := by
    unfold Registry.versions NameMap.find?
    rw [entries_standard]
    rfl
  unfold Registry.find?
  rw [hversions]
  simp [h]

/-- There are no handlers for earlier versions than the first one. -/
theorem one_le_of_find? {op : String} {opset version : Int} {handler : Handler}
    (h : standard.find? op opset = some (version, handler)) : 1 ≤ opset := by
  have hversions : ∀ entry ∈ standard.versions op, (1 : Int) ≤ entry.1 := by
    unfold Registry.versions NameMap.find?
    rw [entries_standard]
    simp only [List.lookup_cons, List.lookup_nil]
    repeat' split
    all_goals simp
  have hmem := List.mem_of_getLast? h
  have hreached := List.mem_takeWhile_imp hmem
  have hversion : version ≤ opset := of_decide_eq_true hreached
  exact Int.le_trans (hversions _ ((List.takeWhile_sublist _).subset hmem)) hversion

end Handlers

end OnnxLowering
