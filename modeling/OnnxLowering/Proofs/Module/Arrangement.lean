/-
The order in which the ports of a loop are set does not matter, as long as
the outputs keep theirs and no two ports are in each other's way
(`configure_run_agrees`). Ports are in each other's way if they are of one
kind and mean the same argument of the body, or if they are carried from
the same output.

Ports of one kind are written into the arguments one after the other, at
the start of the loop, before every run of the body or after it. The
lemma about all three is `foldlM_agrees_of_perm`: elements that are
replaced at different places may be replaced in any order. What is left of
the order is the search for a carried output in a loop of no iterations,
which finds the same port in any order because there is at most one
(`find?_eq_some`).

An index that counts from the end can mean the same argument as one that
counts from the front, so that distinct indices are not enough
(`configure_run_negative`).
-/
import Mathlib.Data.List.Induction
import Mathlib.Data.List.Nodup
import OnnxLowering.Proofs.Scan.Loop

namespace Except

variable {ε α β : Type}

/-- Two computations that return the same value, or both fail. -/
def Agrees (x y : Except ε α) : Prop := ∀ a, x = .ok a ↔ y = .ok a

namespace Agrees

variable {x y z : Except ε α}

@[refl] theorem refl (x : Except ε α) : x.Agrees x := fun _ => Iff.rfl

theorem of_eq (h : x = y) : x.Agrees y := fun _ => h ▸ Iff.rfl

theorem trans (hxy : x.Agrees y) (hyz : y.Agrees z) : x.Agrees z := fun a => (hxy a).trans (hyz a)

/-- Computations that agree, continued so that they agree on what the first
one returns. -/
theorem bind {f g : α → Except ε β} (h : x.Agrees y) (hfg : ∀ a, x = .ok a → (f a).Agrees (g a)) :
    (x >>= f).Agrees (y >>= g) := by
  intro b
  rw [bind_eq_ok, bind_eq_ok]
  refine exists_congr fun a => ?_
  rw [← h a]
  exact and_congr_right fun ha => hfg a ha b

end Agrees

end Except

namespace OnnxLowering

-- ============================================================ replacements

section

variable {α W : Type} {xs ys : List α} {place : W → Int} {value : W → Except RunError α}
  {f : List α → W → Except RunError (List α)} {wires wires' : List W}

theorem replaceAt_eq_ok {position : Int} {x : α} :
    replaceAt xs position x = .ok ys
      ↔ (0 ≤ Slicing.resolve position xs.length ∧ Slicing.resolve position xs.length < xs.length)
        ∧ xs.set (Slicing.resolve position xs.length).toNat x = ys := by
  unfold replaceAt
  simp only [Bool.and_eq_true, decide_eq_true_eq]
  by_cases h : 0 ≤ Slicing.resolve position xs.length ∧ Slicing.resolve position xs.length < xs.length
  · rw [if_pos h]
    exact ⟨fun heq => ⟨h, Except.ok.inj heq⟩, fun heq => congrArg Except.ok heq.2⟩
  · rw [if_neg h]
    exact ⟨fun heq => (nomatch heq), fun heq => absurd heq.1 h⟩

theorem length_replaceAt {position : Int} {x : α} (h : replaceAt xs position x = .ok ys) :
    ys.length = xs.length := by
  rw [← (replaceAt_eq_ok.1 h).2, List.length_set]

/-- Elements at different places may be replaced in either order. -/
theorem replaceAt_comm {i j : Int} {x y : α} {zs : List α}
    (hij : Slicing.resolve i xs.length ≠ Slicing.resolve j xs.length)
    (hx : replaceAt xs i x = .ok ys) (hy : replaceAt ys j y = .ok zs) :
    ∃ ys', replaceAt xs j y = .ok ys' ∧ replaceAt ys' i x = .ok zs := by
  obtain ⟨hi, rfl⟩ := replaceAt_eq_ok.1 hx
  obtain ⟨hj, rfl⟩ := replaceAt_eq_ok.1 hy
  rw [List.length_set] at hj
  refine ⟨_, replaceAt_eq_ok.2 ⟨hj, rfl⟩, replaceAt_eq_ok.2 ?_⟩
  simp only [List.length_set]
  exact ⟨hi, List.set_comm _ _ (by omega)⟩

theorem length_foldlM (hf : ∀ xs wire, f xs wire = value wire >>= replaceAt xs (place wire))
    (h : wires.foldlM f xs = .ok ys) : ys.length = xs.length := by
  induction wires generalizing xs with
  | nil =>
      cases h
      rfl
  | cons wire wires ih =>
      rw [List.foldlM_cons] at h
      obtain ⟨next, hnext, h⟩ := Except.bind_eq_ok.1 h
      rw [hf] at hnext
      obtain ⟨x, -, hnext⟩ := Except.bind_eq_ok.1 hnext
      rw [ih h, length_replaceAt hnext]

theorem foldlM_swap (hf : ∀ xs wire, f xs wire = value wire >>= replaceAt xs (place wire))
    {first second : W} (h : (first :: second :: wires).foldlM f xs = .ok ys)
    (hplaces : Slicing.resolve (place first) xs.length ≠ Slicing.resolve (place second) xs.length) :
    (second :: first :: wires).foldlM f xs = .ok ys := by
  simp only [List.foldlM_cons, hf, bind_assoc, Except.bind_eq_ok] at h ⊢
  obtain ⟨x, hx, front, hfront, y, hy, back, hback, hrest⟩ := h
  obtain ⟨front', hfront', hback'⟩ := replaceAt_comm hplaces hfront hback
  exact ⟨y, hy, front', hfront', x, hx, back, hback', hrest⟩

/-- Elements at places of which no two are the same may be replaced in any
order. -/
theorem foldlM_agrees_of_perm (hf : ∀ xs wire, f xs wire = value wire >>= replaceAt xs (place wire))
    {size : Nat} (hperm : wires.Perm wires')
    (distinct : (wires.map fun wire => Slicing.resolve (place wire) size).Nodup)
    (hxs : xs.length = size) : (wires.foldlM f xs).Agrees (wires'.foldlM f xs) := by
  induction hperm generalizing xs with
  | nil => exact .refl _
  | cons wire hperm ih =>
      rw [List.map_cons, List.nodup_cons] at distinct
      rw [List.foldlM_cons, List.foldlM_cons]
      refine (Except.Agrees.refl _).bind fun next hnext => ih distinct.2 ?_
      rw [hf] at hnext
      obtain ⟨x, -, hnext⟩ := Except.bind_eq_ok.1 hnext
      rw [length_replaceAt hnext, hxs]
  | swap first second rest =>
      rw [List.map_cons, List.map_cons, List.nodup_cons, List.mem_cons, not_or] at distinct
      have hplaces : Slicing.resolve (place second) xs.length ≠ Slicing.resolve (place first) xs.length :=
        hxs ▸ distinct.1.1
      exact fun ys => ⟨fun h => foldlM_swap hf h hplaces, fun h => foldlM_swap hf h hplaces.symm⟩
  | trans hleft _ ihleft ihright =>
      exact (ihleft distinct hxs).trans (ihright ((hleft.map _).nodup_iff.1 distinct) hxs)

end

namespace Wiring

-- =================================================================== ports

/-- No two ports of one kind mean the same argument of a body with `arity`
arguments, and no two carried ports mean the same output. -/
structure Separate (wiring : Wiring) (arity : Nat) : Prop where
  sliced : (wiring.sliced.map fun wire => Slicing.resolve wire.bodyIndex arity).Nodup
  carried : (wiring.carried.map fun wire => Slicing.resolve wire.bodyIndex arity).Nodup
  shared : (wiring.shared.map fun wire => Slicing.resolve wire.bodyIndex arity).Nodup
  carriedOutputs : (wiring.carried.map (·.outputIndex)).Nodup

/-- A wiring has the ports of another one, in some order, and its outputs
in the same order. -/
structure Rearranges (wiring wiring' : Wiring) : Prop where
  sliced : wiring.sliced.Perm wiring'.sliced
  carried : wiring.carried.Perm wiring'.carried
  shared : wiring.shared.Perm wiring'.shared
  outputs : wiring.outputs = wiring'.outputs

section

variable {wiring wiring' : Wiring} {inputs arguments arguments' : List Operand} {arity : Nat}

theorem feed_step (inputs : List Operand) (iteration : Nat) (arguments : List Operand)
    (wire : SlicedInput) :
    (do
      let t ← (← elementAt inputs wire.inputIndex).tensor
      let part ← wire.slicing.part t iteration
      replaceAt arguments wire.bodyIndex (some part))
    = (do
        let t ← (← elementAt inputs wire.inputIndex).tensor
        some <$> wire.slicing.part t iteration) >>= replaceAt arguments wire.bodyIndex := by
  simp only [bind_assoc, bind_map_left]

theorem length_start (h : wiring.start arity inputs = .ok arguments) : arguments.length = arity := by
  obtain ⟨first, hshared, hcarried⟩ := Except.bind_eq_ok.1 h
  rw [length_foldlM (fun _ _ => rfl) hcarried, length_foldlM (fun _ _ => rfl) hshared,
    List.length_replicate]

theorem length_feed {iteration : Nat} (h : wiring.feed inputs arguments iteration = .ok arguments') :
    arguments'.length = arguments.length :=
  length_foldlM (feed_step inputs iteration) h

theorem length_carry {outputs : List Operand} (h : wiring.carry arguments outputs = .ok arguments') :
    arguments'.length = arguments.length :=
  length_foldlM (fun _ _ => rfl) h

theorem length_step {body : Body} {state state' : State} {iteration : Nat}
    (hstep : wiring.step body inputs state iteration = .ok state') :
    state'.arguments.length = state.arguments.length := by
  obtain ⟨arguments, hfeed, hstep⟩ := Except.bind_eq_ok.1 hstep
  obtain ⟨outputs, -, hstep⟩ := Except.bind_eq_ok.1 hstep
  obtain ⟨arguments', hcarry, hstep⟩ := Except.bind_eq_ok.1 hstep
  obtain ⟨row, -, hstep⟩ := Except.bind_eq_ok.1 hstep
  cases hstep
  exact (length_carry hcarry).trans (length_feed hfeed)

/-- A loop is carried out as often as all its sliced inputs say. -/
theorem iterations_eq_ok {count : Nat} :
    wiring.iterations inputs = .ok count
      ↔ wiring.sliced ≠ [] ∧ ∀ wire ∈ wiring.sliced, partCount inputs wire = .ok count := by
  unfold iterations
  rw [Except.guard_eq_ok, List.isEmpty_iff]
  refine and_congr_right fun hne => ?_
  rw [Except.bind_eq_ok]
  constructor
  · rintro ⟨counts, hcounts, hcount⟩
    split at hcount
    · next count' hsorted =>
      cases hcount
      obtain ⟨-, hall⟩ := Handler.ScanPlan.distinctSorted_eq_singleton.1 hsorted
      intro wire hwire
      obtain ⟨i, hi⟩ := List.mem_iff_getElem?.1 hwire
      have hforall := Except.mapM_eq_ok.1 hcounts
      have hlt := (List.getElem?_eq_some_iff.1 hi).1
      have hat := List.getElem?_eq_getElem (hforall.length_eq ▸ hlt)
      rw [getElem?_forall₂ hforall hi hat, hall _ (List.mem_of_getElem? hat)]
    · cases hcount
  · intro hall
    have hsorted : distinctSorted (wiring.sliced.map fun _ => count) = [count] := by
      refine Handler.ScanPlan.distinctSorted_eq_singleton.2 ⟨mt List.map_eq_nil_iff.1 hne, ?_⟩
      intro other hother
      obtain ⟨_, -, rfl⟩ := List.mem_map.1 hother
      rfl
    refine ⟨wiring.sliced.map fun _ => count, Except.mapM_eq_ok.2 ?_, by rw [hsorted]; rfl⟩
    rw [List.forall₂_map_right_iff]
    exact List.forall₂_same.2 hall

/-- There is at most one carried port for an output, so that the first one
is the only one. -/
theorem find?_eq_some {carried : List CarriedInput} (distinct : (carried.map (·.outputIndex)).Nodup)
    {outputIndex : Int} {wire : CarriedInput} :
    carried.find? (·.outputIndex = outputIndex) = some wire
      ↔ wire ∈ carried ∧ wire.outputIndex = outputIndex := by
  have hfound {wire : CarriedInput} {outputIndex : Int}
      (h : carried.find? (·.outputIndex = outputIndex) = some wire) :
      wire ∈ carried ∧ wire.outputIndex = outputIndex := by
    have hsome := List.find?_some h
    exact ⟨List.mem_of_find?_eq_some h, of_decide_eq_true hsome⟩
  refine ⟨hfound, ?_⟩
  rintro ⟨hmem, rfl⟩
  have hsome : (carried.find? (·.outputIndex = wire.outputIndex)).isSome := by
    rw [List.find?_isSome]
    exact ⟨wire, hmem, decide_eq_true rfl⟩
  obtain ⟨found, hfind⟩ := Option.isSome_iff_exists.1 hsome
  obtain ⟨hmem', hindex⟩ := hfound hfind
  rw [hfind, List.inj_on_of_nodup_map distinct hmem' hmem hindex]

-- ===================================================================== runs

namespace Rearranges

theorem start (h : wiring.Rearranges wiring') (separate : wiring.Separate arity) :
    (wiring.start arity inputs).Agrees (wiring'.start arity inputs) := by
  refine (foldlM_agrees_of_perm (fun _ _ => rfl) h.shared separate.shared
    List.length_replicate).bind fun arguments harguments => ?_
  refine foldlM_agrees_of_perm (fun _ _ => rfl) h.carried separate.carried ?_
  rw [length_foldlM (fun _ _ => rfl) harguments, List.length_replicate]

theorem iterations (h : wiring.Rearranges wiring') :
    (wiring.iterations inputs).Agrees (wiring'.iterations inputs) := by
  intro count
  rw [iterations_eq_ok, iterations_eq_ok]
  refine and_congr (not_congr ?_) (forall_congr' fun wire => by rw [h.sliced.mem_iff])
  rw [← List.length_eq_zero_iff, ← List.length_eq_zero_iff, h.sliced.length_eq]

/-- One iteration, with arguments of the right number before and after
it. -/
theorem step (h : wiring.Rearranges wiring') (separate : wiring.Separate arity) {body : Body}
    {state : State} {iteration : Nat} (hstate : state.arguments.length = arity) :
    (wiring.step body inputs state iteration).Agrees (wiring'.step body inputs state iteration) := by
  refine (foldlM_agrees_of_perm (feed_step inputs iteration) h.sliced separate.sliced hstate).bind
    fun arguments hfeed => ?_
  refine (Except.Agrees.refl _).bind fun outputs _ => ?_
  refine (foldlM_agrees_of_perm (fun _ _ => rfl) h.carried separate.carried
    ((length_feed hfeed).trans hstate)).bind fun arguments _ => .of_eq ?_
  unfold collect
  rw [h.outputs]

theorem iterate (h : wiring.Rearranges wiring') (separate : wiring.Separate arity) {body : Body}
    {state : State} {first count : Nat} (hstate : state.arguments.length = arity) :
    (wiring.iterate body inputs state first count).Agrees
      (wiring'.iterate body inputs state first count) := by
  induction count generalizing state first with
  | zero => exact .refl _
  | succ count ih =>
      exact (h.step separate hstate).bind fun next hnext => ih ((length_step hnext).trans hstate)

theorem lastValue (h : wiring.Rearranges wiring') (separate : wiring.Separate arity)
    (last : Option (List Operand)) (outputIndex : Int) :
    wiring.lastValue inputs last outputIndex = wiring'.lastValue inputs last outputIndex := by
  have hfind : wiring.carried.find? (·.outputIndex = outputIndex)
      = wiring'.carried.find? (·.outputIndex = outputIndex) := by
    refine Option.ext fun wire => ?_
    rw [find?_eq_some separate.carriedOutputs,
      find?_eq_some ((h.carried.map _).nodup_iff.1 separate.carriedOutputs), h.carried.mem_iff]
  unfold Wiring.lastValue
  rw [hfind]

theorem run (h : wiring.Rearranges wiring') (separate : wiring.Separate arity) (body : Body)
    (inputs : List Operand) :
    (wiring.run arity body inputs).Agrees (wiring'.run arity body inputs) := by
  refine (h.start separate).bind fun arguments harguments => ?_
  refine h.iterations.bind fun count _ => ?_
  refine (h.iterate separate (length_start harguments)).bind fun state _ => .of_eq ?_
  rw [h.outputs]
  congr 1
  funext ⟨output, position⟩
  cases output with
  | last outputIndex => exact h.lastValue separate state.last outputIndex
  | joined outputIndex slicing => rfl

end Rearranges

end

-- ==================================================================== calls

/-- A call that sets a port of a loop. -/
inductive Call where
  | sliced (wire : SlicedInput)
  | carried (wire : CarriedInput)
  | shared (wire : SharedInput)
  | value (outputIndex iteration : Int)
  | joined (outputIndex : Int) (slicing : Slicing)
deriving DecidableEq, Repr

/-- The call is for an output. -/
def Call.isOutput : Call → Bool
  | .value _ _ | .joined _ _ => true
  | _ => false

/-- The wiring after a call. A call that is refused leaves it as it was. -/
def perform (wiring : Wiring) : Call → Wiring
  | .sliced wire => (wiring.addSliced wire).toOption.getD wiring
  | .carried wire => wiring.addCarried wire
  | .shared wire => wiring.addShared wire
  | .value outputIndex iteration =>
      ((wiring.addValue outputIndex iteration).toOption.map Prod.snd).getD wiring
  | .joined outputIndex slicing => (wiring.addOutput (.joined outputIndex slicing)).2

/-- The wiring after calls on a loop without ports. -/
def configure (calls : List Call) : Wiring := calls.foldl perform {}

namespace Call

/-- The port of a kind that a call adds. -/
@[simp] def slicedInput? : Call → Option SlicedInput
  | .sliced wire => if wire.slicing.stride = 0 ∨ wire.slicing.partSize ≤ 0 then none else some wire
  | _ => none

@[simp] def carriedInput? : Call → Option CarriedInput
  | .carried wire => some wire
  | _ => none

@[simp] def sharedInput? : Call → Option SharedInput
  | .shared wire => some wire
  | _ => none

@[simp] def output? : Call → Option LoopOutput
  | .value outputIndex iteration => if iteration = -1 then some (.last outputIndex) else none
  | .joined outputIndex slicing => some (.joined outputIndex slicing)
  | _ => none

end Call

theorem perform_eq (wiring : Wiring) (call : Call) :
    wiring.perform call =
      ⟨wiring.sliced ++ call.slicedInput?.toList, wiring.carried ++ call.carriedInput?.toList,
        wiring.shared ++ call.sharedInput?.toList, wiring.outputs ++ call.output?.toList⟩ := by
  cases call with
  | sliced wire =>
      by_cases h : wire.slicing.stride = 0 ∨ wire.slicing.partSize ≤ 0 <;>
        simp [perform, addSliced, h, Except.toOption]
  | carried wire => simp [perform, addCarried]
  | shared wire => simp [perform, addShared]
  | value outputIndex iteration =>
      by_cases h : iteration = -1 <;> simp [perform, addValue, addOutput, h, Except.toOption]
  | joined outputIndex slicing => simp [perform, addOutput]

theorem filterMap_concat {α β : Type} (f : α → Option β) (xs : List α) (x : α) :
    (xs ++ [x]).filterMap f = xs.filterMap f ++ (f x).toList := by
  rw [List.filterMap_append]
  cases h : f x with
  | none => rw [List.filterMap_cons_none h]; rfl
  | some y => rw [List.filterMap_cons_some h]; rfl

/-- The ports of a loop are those that the calls add, kind by kind. -/
theorem configure_eq (calls : List Call) :
    configure calls =
      ⟨calls.filterMap Call.slicedInput?, calls.filterMap Call.carriedInput?,
        calls.filterMap Call.sharedInput?, calls.filterMap Call.output?⟩ := by
  induction calls using List.reverseRecOn with
  | nil => rfl
  | append_singleton calls call ih =>
      unfold configure at ih ⊢
      rw [List.foldl_append, List.foldl_cons, List.foldl_nil, ih, perform_eq]
      simp only [filterMap_concat]

/-- Only calls for outputs add outputs. -/
theorem filterMap_output? (calls : List Call) :
    calls.filterMap Call.output? = (calls.filter Call.isOutput).filterMap Call.output? := by
  rw [List.filterMap_filter]
  refine List.filterMap_congr fun call _ => ?_
  cases call <;> rfl

theorem rearranges_configure {calls calls' : List Call} (hperm : calls.Perm calls')
    (houtputs : calls.filter Call.isOutput = calls'.filter Call.isOutput) :
    (configure calls).Rearranges (configure calls') := by
  rw [configure_eq, configure_eq]
  refine ⟨hperm.filterMap _, hperm.filterMap _, hperm.filterMap _, ?_⟩
  rw [filterMap_output?, houtputs, ← filterMap_output?]

-- =========================================================== arrangements

/-- **The order of the ports does not matter.** Calls that set the ports of
a loop are made in two orders, with those for outputs in the same one. If
no two of the ports are in each other's way, the two loops have the same
results for every body and all inputs, or none. -/
theorem configure_run_agrees {calls calls' : List Call} {arity : Nat} (hperm : calls.Perm calls')
    (houtputs : calls.filter Call.isOutput = calls'.filter Call.isOutput)
    (separate : (configure calls).Separate arity) (body : Body) (inputs results : List Operand) :
    (configure calls).run arity body inputs = .ok results
      ↔ (configure calls').run arity body inputs = .ok results :=
  (rearranges_configure hperm houtputs).run separate body inputs results

/-- A body that exchanges what it carries, and takes its other arguments as
they are. -/
def exchanging : Body
  | [first, part, second, other] => .ok [second, first, part, other]
  | _ => .error .argumentCount

/-- Two carried ports, a shared one and a sliced one, with a call among them
that is refused. In another order they make a loop with the same results,
after three iterations and after none. -/
theorem configure_run_exchanging :
    let calls : List Call :=
      [.shared ⟨-1, 3⟩, .sliced ⟨1, 0, .forward 0⟩, .carried ⟨0, 1, 0⟩, .value 0 (-1),
        .sliced ⟨1, 0, ⟨0, 0, 1, -1, 0⟩⟩, .carried ⟨2, 2, 1⟩, .value 1 (-1)]
    let calls' : List Call :=
      [.carried ⟨2, 2, 1⟩, .value 0 (-1), .sliced ⟨1, 0, ⟨0, 0, 1, -1, 0⟩⟩, .carried ⟨0, 1, 0⟩,
        .value 1 (-1), .sliced ⟨1, 0, .forward 0⟩, .shared ⟨-1, 3⟩]
    let inputs (parts : List Nat) : List Operand :=
      [some (.vector .int64 parts), some (.vector .int64 [6]), some (.vector .int64 [7]), none]
    (configure calls).run 4 exchanging (inputs [1, 2, 3])
        = .ok [some (.vector .int64 [7]), some (.vector .int64 [6])]
      ∧ (configure calls').run 4 exchanging (inputs [1, 2, 3])
        = .ok [some (.vector .int64 [7]), some (.vector .int64 [6])]
      ∧ (configure calls').run 4 exchanging (inputs [])
        = .ok [some (.vector .int64 [6]), some (.vector .int64 [7])] := by
  intro calls calls' inputs
  have hperm : calls.Perm calls' := by decide +kernel
  have houtputs : calls.filter Call.isOutput = calls'.filter Call.isOutput := by decide +kernel
  have separate : (configure calls).Separate 4 :=
    ⟨by decide +kernel, by decide +kernel, by decide +kernel, by decide +kernel⟩
  have hthree : (configure calls).run 4 exchanging (inputs [1, 2, 3])
      = .ok [some (.vector .int64 [7]), some (.vector .int64 [6])] := by decide +kernel
  exact ⟨hthree, (configure_run_agrees hperm houtputs separate _ _ _).1 hthree,
    (configure_run_agrees hperm houtputs separate _ _ _).1 (by decide +kernel)⟩

/-- Distinct indices are not enough. If one of them counts from the end, two
shared ports can mean the same argument, and then the later one counts. -/
theorem configure_run_negative :
    ¬ ∀ (calls calls' : List Call) (arity : Nat), calls.Perm calls' →
      calls.filter Call.isOutput = calls'.filter Call.isOutput →
      ((configure calls).sliced.map (·.bodyIndex) ++ (configure calls).carried.map (·.bodyIndex)
        ++ (configure calls).shared.map (·.bodyIndex)).Nodup →
      ((configure calls).carried.map (·.outputIndex)).Nodup →
      ∀ (body : Body) (inputs results : List Operand),
        (configure calls).run arity body inputs = .ok results
          ↔ (configure calls').run arity body inputs = .ok results := by
  intro h
  have hrun := (h [.sliced ⟨0, 0, .forward 0⟩, .shared ⟨1, 1⟩, .shared ⟨-1, 2⟩, .value 1 (-1)]
    [.sliced ⟨0, 0, .forward 0⟩, .shared ⟨-1, 2⟩, .shared ⟨1, 1⟩, .value 1 (-1)] 2
    (by decide +kernel) (by decide +kernel) (by decide +kernel) (by decide +kernel) .ok
    [some (.vector .int64 [5]), some (.vector .int64 [6]), some (.vector .int64 [7])]
    [some (.vector .int64 [7])]).1 (by decide +kernel)
  revert hrun
  decide +kernel

end Wiring

end OnnxLowering
