/-
The ports of a scan. An axis that is accepted lies in the range of the
rank that is known, and one that is refused does not. The loop of a scan
has each argument of its body wired once and returns each of its results
once, in order.
-/
import OnnxLowering.Proofs.Module.Listing
import OnnxLowering.Proofs.Scan.Node

namespace OnnxLowering

-- ================================================================== outputs

namespace LoopOutput

/-- The output of the body that an output of a loop is made of. -/
def port : LoopOutput → Int
  | last i => i
  | joined i _ => i

/-- An output is what the last run of the body has returned. -/
def IsLast : LoopOutput → Prop
  | last _ => True
  | joined .. => False

end LoopOutput

/-- The body of a loop has as many results as the module that it is made
of. -/
theorem ModuleOf.length_results_loopBody {L : Type} {m : ModuleOf L} {inputs : List Input}
    {first : Nat} {inAxes outAxes : List Int}
    (h : m.results.refs.length = first + outAxes.length) :
    (m.loopBody inputs first inAxes outAxes).results.refs.length = m.results.refs.length := by
  have hrefs : (({ m with inputs } : ModuleOf L).squeezeInputs first inAxes).results.refs.length
      = m.results.refs.length := by
    show (m.results.map _).refs.length = _
    rw [Results.refs_map, List.length_map]
  show (List.take first _ ++ List.map _ (List.range (List.map _ _).length)).length = _
  simp only [List.length_append, List.length_take, List.length_map, List.length_range,
    List.length_zip, List.length_drop, hrefs]
  omega

namespace Handler

open Lower

-- ==================================================================== axes

/-- An axis is one of the dimensions, counted from either end, if their
number is known. -/
def InRange (rank : Option Nat) (axis : Int) : Prop :=
  ∀ r : Nat, rank = some r → -(r : Int) ≤ axis ∧ axis < r

section

variable {description : String} {known : Option KnownShape} {axis : Int} {error : LowerError}

theorem inRange_of_normalizeAxis {rank normal : Int}
    (h : normalizeAxis description axis rank = .ok normal) : -rank ≤ axis ∧ axis < rank := by
  unfold normalizeAxis at h
  split at h
  · next hrange => simpa using hrange
  · cases h

theorem not_inRange_of_normalizeAxis {rank : Int}
    (h : normalizeAxis description axis rank = .error error) :
    ¬ (-rank ≤ axis ∧ axis < rank) ∧ ∃ fault, error = .invalidNode description fault := by
  unfold normalizeAxis at h
  split at h
  · cases h
  · next hrange =>
      cases h
      exact ⟨by simpa using hrange, _, rfl⟩

theorem inRange_of_sliceAxis {slice : Int × Option KnownShape}
    (h : sliceAxis description known axis = .ok slice) : InRange (known.map List.length) axis := by
  rintro r hr
  obtain ⟨dims, rfl, rfl⟩ := Option.map_eq_some_iff.1 hr
  obtain ⟨normal, hnormal, -⟩ := Except.bind_eq_ok.1 h
  exact inRange_of_normalizeAxis hnormal

theorem not_inRange_of_sliceAxis (h : sliceAxis description known axis = .error error) :
    ¬ InRange (known.map List.length) axis ∧ ∃ fault, error = .invalidNode description fault := by
  cases known with
  | none => cases h
  | some dims =>
      rcases Except.bind_eq_error.1 h with hnormal | ⟨_, -, hdone⟩
      · obtain ⟨hrange, herror⟩ := not_inRange_of_normalizeAxis hnormal
        exact ⟨fun hin => hrange (hin dims.length rfl), herror⟩
      · cases hdone

theorem inRange_of_joinAxis {joined : Int} (h : joinAxis description known axis = .ok joined) :
    InRange (known.map fun dims => dims.length + 1) axis := by
  rintro r hr
  obtain ⟨dims, rfl, rfl⟩ := Option.map_eq_some_iff.1 hr
  exact inRange_of_normalizeAxis h

theorem not_inRange_of_joinAxis (h : joinAxis description known axis = .error error) :
    ¬ InRange (known.map fun dims => dims.length + 1) axis
      ∧ ∃ fault, error = .invalidNode description fault := by
  cases known with
  | none => cases h
  | some dims =>
      obtain ⟨hrange, herror⟩ := not_inRange_of_normalizeAxis h
      exact ⟨fun hin => hrange (hin (dims.length + 1) rfl), herror⟩

variable {plan : ScanPlan} {body : Module} {shapes : List (Option KnownShape)}

/-- A body is refused over an axis of a scan input or of a scan output. -/
theorem scanBody_eq_error (hshapes : shapes.length = plan.inputCount)
    (h : scanBody description plan body shapes = .error error) :
    (∃ entry ∈ (shapes.drop plan.states).zip plan.inputAxes,
        sliceAxis description entry.1 entry.2 = .error error)
      ∨ ∃ entry ∈ (body.results.refs.drop plan.states).zip plan.outputAxes,
        joinAxis description (plan.resultShape shapes body entry.1) entry.2 = .error error := by
  rcases Except.bind_eq_error.1 h with hslices | ⟨slices, hslices, h⟩
  · exact .inl (Except.exists_of_mapM_eq_error hslices)
  · refine .inr ?_
    rcases Except.bind_eq_error.1 h with houtAxes | ⟨_, -, hdone⟩
    · obtain ⟨inputs, hinputs, -⟩ := body.exists_setInputShapes
        (shapes.take plan.states ++ slices.map Prod.snd).zipIdx
      have hlength : slices.length = plan.inputAxes.length := by
        rw [← (Except.mapM_eq_ok.1 hslices).length_eq, List.length_zip, List.length_drop, hshapes,
          ScanPlan.inputCount]
        omega
      have hrefs : (({ body with inputs } : Module).squeezeInputs plan.states
            (slices.map Prod.fst)).results.refs
          = body.results.refs.map
            (ModuleOf.squeezed plan.states (slices.map Prod.fst).length) := Results.refs_map _ _
      rw [hinputs, hrefs, ← List.map_drop, List.zip_map_left] at houtAxes
      obtain ⟨_, hmem, haxis⟩ := Except.exists_of_mapM_eq_error houtAxes
      obtain ⟨entry, hentry, rfl⟩ := List.mem_map.1 hmem
      refine ⟨entry, hentry, ?_⟩
      rw [← shape_label_squeezed hshapes hlength hinputs]
      exact haxis
    · cases hdone

end

-- =================================================================== ports

theorem map_zipIdx_eq {α β : Type} (f : Nat → β) (xs : List α) :
    xs.zipIdx.map (fun x => f x.2) = (List.range xs.length).map f := by
  rw [List.range_eq_range', ← List.zipIdx_map_snd, List.map_map]
  rfl

namespace ScanPlan

variable {plan : ScanPlan} {captured : Nat}

/-- Every argument of the body is wired once: first the states, then the
elements, and then what is shared. -/
theorem arguments_wiring (h : plan.inputDirections.length = plan.inputAxes.length) :
    (plan.wiring captured).carried.map CarriedInput.bodyIndex
        ++ (plan.wiring captured).sliced.map SlicedInput.bodyIndex
        ++ (plan.wiring captured).shared.map SharedInput.bodyIndex
      = (List.range (plan.inputCount + captured)).map Int.ofNat := by
  have hlength : (plan.inputAxes.zip plan.inputDirections).length = plan.inputAxes.length := by
    rw [List.length_zip, h, Nat.min_self]
  have hsliced : (plan.wiring captured).sliced.map SlicedInput.bodyIndex
      = (List.range plan.inputAxes.length).map fun i => Int.ofNat (plan.states + i) := by
    rw [← hlength, ← map_zipIdx_eq, wiring, List.map_map]
    exact List.map_congr_left fun _ _ => Int.natCast_add _ _
  have hshared : (plan.wiring captured).shared.map SharedInput.bodyIndex
      = (List.range captured).map fun i => Int.ofNat (plan.inputCount + i) := by
    rw [wiring, List.map_map]
    exact List.map_congr_left fun _ _ => Int.natCast_add _ _
  have hcarried : (plan.wiring captured).carried.map CarriedInput.bodyIndex
      = (List.range plan.states).map Int.ofNat := by
    rw [wiring, List.map_map]
    rfl
  rw [hsliced, hshared, hcarried, inputCount, List.range_add, List.range_add, List.map_append,
    List.map_append, List.map_map, List.map_map]
  rfl

/-- An argument of the body comes from the input of the loop at its own
place, and a state is the output of the body there. -/
theorem sources_wiring :
    (∀ wire ∈ (plan.wiring captured).carried, wire.inputIndex = wire.bodyIndex
        ∧ wire.outputIndex = wire.bodyIndex)
      ∧ (∀ wire ∈ (plan.wiring captured).sliced, wire.inputIndex = wire.bodyIndex)
      ∧ ∀ wire ∈ (plan.wiring captured).shared, wire.inputIndex = wire.bodyIndex := by
  refine ⟨fun wire hwire => ?_, fun wire hwire => ?_, fun wire hwire => ?_⟩
  · obtain ⟨i, -, rfl⟩ := List.mem_map.1 hwire
    exact ⟨rfl, rfl⟩
  · obtain ⟨entry, -, rfl⟩ := List.mem_map.1 hwire
    rfl
  · obtain ⟨i, -, rfl⟩ := List.mem_map.1 hwire
    rfl

/-- Every output of the body is returned once, in order: the last value of
a state, and the joined values of any other. -/
theorem outputs_wiring (h : plan.outputDirections.length = plan.outputAxes.length) :
    (plan.wiring captured).outputs.map LoopOutput.port
        = (List.range (plan.states + plan.outputAxes.length)).map Int.ofNat
      ∧ ∀ (i : Nat) output, (plan.wiring captured).outputs[i]? = some output →
        (output.IsLast ↔ i < plan.states) := by
  have hlength : (plan.outputAxes.zip plan.outputDirections).length = plan.outputAxes.length := by
    rw [List.length_zip, h, Nat.min_self]
  constructor
  · have hjoined : ((plan.outputAxes.zip plan.outputDirections).zipIdx.map
          fun entry => LoopOutput.joined (plan.states + entry.2) (walk entry.1.1 entry.1.2)).map
            LoopOutput.port
        = (List.range plan.outputAxes.length).map fun i => Int.ofNat (plan.states + i) := by
      rw [← hlength, ← map_zipIdx_eq, List.map_map]
      exact List.map_congr_left fun _ _ => Int.natCast_add _ _
    have hlast : ((List.range plan.states).map fun i : Nat => LoopOutput.last i).map LoopOutput.port
        = (List.range plan.states).map Int.ofNat := List.map_map
    rw [wiring, List.map_append, hjoined, hlast, List.range_add, List.map_append, List.map_map]
    rfl
  · intro i output houtput
    simp only [wiring] at houtput
    by_cases hi : i < plan.states
    · rw [List.getElem?_append_left (by simpa using hi)] at houtput
      rw [getElem?_map_range houtput]
      exact ⟨fun _ => hi, fun _ => trivial⟩
    · rw [List.getElem?_append_right (by simpa using hi)] at houtput
      obtain ⟨entry, -, rfl⟩ := List.mem_map.1 (List.mem_of_getElem? houtput)
      exact ⟨fun hlast => hlast.elim, fun hlt => absurd hlt hi⟩

end ScanPlan

end Handler

end OnnxLowering
