/-
Spectra over time. What a spectrum is lowered to cuts the signal into
all frames that there is room for, multiplies each by the window if there
is one, and returns the spectrum of each (`spectrum_frames`). It does so
for every signal of the declared shape, as long as the step is an integer
of 64 bits and there is memory for the frames.
-/
import OnnxLowering.Proofs.Handler.Steps
import OnnxLowering.Proofs.Module.Evaluation
import OnnxLowering.Proofs.Signal.Frames

namespace OnnxLowering

-- ============================================================= evaluation

namespace ModuleOf

variable {m : ModuleOf Meaning} {hidden : String → Option Operand} {inputs : List Operand}
  {done : List Value}

/-- The values of nodes that come after others as a run of the module finds
them, together with the values of these. -/
def evalFrom (m : ModuleOf Meaning) (hidden : String → Option Operand) (inputs : List Operand)
    (done : List Value) (nodes : List Node) : Except RunError (List Value) :=
  nodes.foldlM (fun done node => do return done ++ [← m.evalNode hidden inputs done node]) done

theorem evalNodes_eq_evalFrom : m.evalNodes hidden inputs = m.evalFrom hidden inputs [] m.nodes := rfl

theorem evalNode_apply {op : Op} {operands : List Ref} {label : Label} (h : op.words = []) :
    m.evalNode hidden inputs done ⟨.apply op operands, label⟩
      = op.eval (operands.map (Ref.value inputs done)) := by
  have hvisible : ∀ word ∈ op.words, hidden word = none := by simp [h]
  unfold evalNode
  simp only [Op.hiddenFault?_of_visible hvisible]
  exact Op.apply_of_visible hvisible

end ModuleOf

/-- A tensor as the value of a node. -/
def Tensor.asValue (t : Tensor) : Value := .one (some t)

/-- An operation that refers to nothing by name, and the nodes behind it. -/
theorem ModuleOf.evalFrom_apply_eq_ok {m : ModuleOf Meaning} {hidden : String → Option Operand}
    {inputs : List Operand} {done after : List Value} {op : Op} {operands : List Ref}
    {label : Label} {rest : List Node} {x : Except RunError Tensor} (hwords : op.words = [])
    (heval : op.eval (operands.map (Ref.value inputs done)) = x.map Tensor.asValue) :
    m.evalFrom hidden inputs done (⟨.apply op operands, label⟩ :: rest) = .ok after ↔
      ∃ t, x = .ok t ∧ m.evalFrom hidden inputs (done ++ [t.asValue]) rest = .ok after := by
  unfold evalFrom
  rw [List.foldlM_cons, bind_assoc, evalNode_apply hwords, heval]
  cases x with
  | error e => exact ⟨fun h => (nomatch h), fun ⟨_, h, _⟩ => (nomatch h)⟩
  | ok t => exact ⟨fun h => ⟨t, rfl, h⟩, fun ⟨_, ht, h⟩ => Except.ok.inj ht ▸ h⟩

namespace Ref

variable {inputs : List Operand} {done new : List Value} {ref : Ref} {t : Tensor}

/-- What is a tensor once some nodes have values stays that tensor. -/
theorem value_append (h : ref.value inputs done = t.asValue) :
    ref.value inputs (done ++ new) = t.asValue := by
  cases ref with
  | input i => exact h
  | node i =>
      have hlt : i < done.length := by
        by_contra hle
        rw [value, List.getD_eq_getElem?_getD, List.getElem?_eq_none (Nat.not_lt.1 hle)] at h
        cases h
      rw [value, List.getD_eq_getElem?_getD, List.getElem?_append_left hlt,
        ← List.getD_eq_getElem?_getD]
      exact h

/-- The node after some others is the next value. -/
theorem value_node_length : (Ref.node done.length).value inputs (done ++ [t.asValue]) = t.asValue := by
  rw [value, List.getD_eq_getElem?_getD, List.getElem?_concat_length]
  rfl

theorem value_node {i : Nat} (h : new[i]? = some t.asValue) :
    (Ref.node (done.length + i)).value inputs (done ++ new) = t.asValue := by
  rw [value, List.getD_eq_getElem?_getD, List.getElem?_append_right (Nat.le_add_right _ _),
    Nat.add_sub_cancel_left, h]
  rfl

end Ref

namespace Op

variable {t u : Tensor}

theorem eval_frames (length step : Int) :
    (frames length step).eval [t.asValue] = (t.frames length step).map Tensor.asValue := by
  show (t.frames length step >>= fun u => .ok u.asValue) = _
  cases t.frames length step <;> rfl

theorem eval_window : window.eval [t.asValue, u.asValue] = (t.applyWindow u).map Tensor.asValue := by
  show (t.applyWindow u >>= fun u => .ok u.asValue) = _
  cases t.applyWindow u <;> rfl

theorem eval_transform (length : Int) (oneSided : Bool) :
    (transform length oneSided).eval [t.asValue]
      = (t.transform length oneSided).map Tensor.asValue := by
  show (t.transform length oneSided >>= fun u => .ok u.asValue) = _
  cases t.transform length oneSided <;> rfl

end Op

theorem Scope.Applies.nodes_eq {G : Type} {node : NodeOf G} {scope scope' : Scope} {op : Op}
    {operands : List Ref} (h : scope.Applies node op operands scope') :
    scope'.nodes = scope.nodes ++ [⟨.apply op operands, Lower.labelOf scope node 0 true⟩] := by
  obtain ⟨_, _⟩ := h
  rfl

namespace Handler

variable {node : NodeOf Importer} {values : Attributes} {outer : Scopes} {scope scope' : Scope}
  {result : Result}

/-- What a spectrum is computed from: a signal of the declared shape, and if
there is a window one of the same type and the declared length. -/
structure AppliedSpectrum.Fed (applied : AppliedSpectrum node values outer scope scope' result)
    (inputs : List Operand) (done : List Value) (signal : Tensor) (window : Option Tensor)
    (batch size channels : Nat) : Prop where
  nodes : done.length = applied.middle.nodes.length
  signalValue : applied.signal.value inputs done = signal.asValue
  dtype : signal.dtype.IsSignal
  shape : signal.shape = [batch, size, channels]
  declared : applied.dims = ((batch : Int), (size : Int), (channels : Int))
  batch_pos : 0 < batch
  windowValue : applied.window.map (fun entry => entry.2.value inputs done)
    = window.map Tensor.asValue
  windowShape : ∀ w ∈ window, w.dtype = signal.dtype
    ∧ ∃ count : Nat, w.shape = [count] ∧ applied.windowSize = some (count : Int)

namespace AppliedSpectrum

variable {applied : AppliedSpectrum node values outer scope scope' result}
  {m : ModuleOf Meaning} {hidden : String → Option Operand} {inputs : List Operand}
  {done after : List Value} {signal : Tensor} {window : Option Tensor}
  {batch size channels length step : Nat}

/-- The numbers of a spectrum that is lowered: frames of that length and
step can be cut out of a signal of the declared shape. -/
theorem numbers (applied : AppliedSpectrum node values outer scope scope' result)
    (hdims : applied.dims = ((batch : Int), (size : Int), (channels : Int))) :
    ∃ length step : Nat, applied.length = length ∧ applied.step = step ∧ 0 < length ∧ 0 < step
      ∧ length ≤ size ∧ (channels = 1 ∨ channels = 2) ∧ (applied.oneSided = 1 → channels = 1) := by
  have hfits := applied.fits
  rw [hdims] at hfits
  obtain ⟨length, hlength⟩ := Int.eq_ofNat_of_zero_le (Int.le_of_lt hfits.length_pos)
  obtain ⟨step, hstep⟩ := Int.eq_ofNat_of_zero_le (Int.le_of_lt hfits.step_pos)
  rw [hlength, hstep] at hfits
  have hpositive := hfits.step_pos
  have hcount := hfits.count_pos
  have hchannels := hfits.channels
  have hreal := hfits.real
  have hlengthPos := hfits.length_pos
  simp only at hcount hchannels hreal
  have hle : length ≤ size := by
    by_contra hlt
    have hneg : ((size : Int) - length).fdiv step < 0 := Int.fdiv_neg_of_neg_of_pos (by omega) hpositive
    omega
  exact ⟨length, step, hlength, hstep, by omega, by omega, hle, by omega, by omega⟩

/-- A window of the declared length has the length of the frames. -/
theorem Fed.numbers (fed : applied.Fed inputs done signal window batch size channels) :
    ∃ length step : Nat, applied.length = length ∧ applied.step = step ∧ 0 < length ∧ 0 < step
      ∧ length ≤ size ∧ (channels = 1 ∨ channels = 2) ∧ (applied.oneSided = 1 → channels = 1)
      ∧ ∀ w ∈ window, w.dtype = signal.dtype ∧ w.shape = [length] := by
  obtain ⟨length, step, hlength, hstep, hlengthPos, hstepPos, hle, hchannels, hreal⟩ :=
    applied.numbers fed.declared
  refine ⟨length, step, hlength, hstep, hlengthPos, hstepPos, hle, hchannels, hreal, fun w hw => ?_⟩
  obtain ⟨hdtype, count, hshape, hknown⟩ := fed.windowShape w hw
  have hsame := applied.fits.window _ hknown
  exact ⟨hdtype, by rw [hshape]; congr; omega⟩

/-- The nodes of a spectrum: the frames, the window if there is one, and the
transform. -/
theorem nodes_eq (applied : AppliedSpectrum node values outer scope scope' result) :
    scope'.nodes = applied.middle.nodes
        ++ ⟨.apply (.frames applied.length applied.step) [applied.signal],
            Lower.labelOf applied.middle node 0 true⟩
        :: (applied.window.toList.map fun entry =>
            ⟨.apply .window [.node applied.middle.nodes.length, entry.2],
              Lower.labelOf applied.framed node 0 true⟩)
        ++ [⟨.apply (.transform applied.length (applied.oneSided = 1)) [applied.frames],
            Lower.labelOf applied.multiplied node 0 true⟩]
      ∧ applied.frames = .node (applied.middle.nodes.length + applied.window.toList.length)
      ∧ result = .one (.node (applied.middle.nodes.length + (applied.window.toList.length + 1))) := by
  have hframed := applied.cuts.nodes_eq
  have hresult := applied.returned
  have htransforms := applied.transforms.nodes_eq
  have hmultiplies := applied.multiplies
  generalize applied.window = window, applied.frames = frames,
    applied.multiplied = multiplied at hresult htransforms hmultiplies ⊢
  cases hmultiplies with
  | none => exact ⟨by simp [htransforms, hframed], rfl, hresult.trans (by simp [hframed])⟩
  | some applies =>
      have happlied := applies.nodes_eq
      exact ⟨by simp [htransforms, happlied, hframed], by simp [hframed],
        hresult.trans (by simp [happlied, hframed])⟩

/-- The last node of a spectrum returns the spectra of the frames. -/
theorem Fed.transform_eq_ok (fed : applied.Fed inputs done signal window batch size channels)
    {window' : Option Tensor} {done' : List Value} {frames : Ref} {label : Label}
    (hlength : applied.length = length) (hvalue : frames.value inputs done'
      = (signal.cutFrames window' batch size channels length step).asValue) :
    m.evalFrom hidden inputs done'
        [⟨.apply (.transform length (applied.oneSided = 1)) [frames], label⟩] = .ok after
      ↔ Shape.isWord length = true
        ∧ Shape.isStorable [batch, Tensor.frameCount size length step, length]
          (2 * signal.dtype.byteWidth) = true
        ∧ after = done' ++ [((signal.cutFrames window' batch size channels length step).spectra batch
          (Tensor.frameCount size length step) length channels
          (if applied.oneSided = 1 then Fourier.halfCount length else length)).asValue] := by
  obtain ⟨_, _, hl, -, hpos, -, -, hchannels, hreal, -⟩ := fed.numbers
  obtain rfl : length = _ := Int.ofNat.inj (hlength.symm.trans hl)
  have htransform {u : Tensor} :=
    @Tensor.transform_eq_ok (signal.cutFrames window' batch size channels length step) u _ _ _ _
      (decide (applied.oneSided = 1)) rfl fed.dtype hchannels
      (fun hone => hreal (of_decide_eq_true hone)) hpos
  rw [ModuleOf.evalFrom_apply_eq_ok rfl
    ((congrArg _ (by rw [List.map_singleton, hvalue])).trans (Op.eval_transform _ _))]
  simp only [htransform, decide_eq_true_eq]
  constructor
  · rintro ⟨_, ⟨hword, hstorable, rfl⟩, h⟩
    exact ⟨hword, hstorable, (Except.ok.inj h).symm⟩
  · rintro ⟨hword, hstorable, rfl⟩
    exact ⟨_, ⟨hword, hstorable, rfl⟩, rfl⟩

/-- A spectrum has its values if and only if the numbers have 64 bits and
there is memory for the frames. -/
theorem Fed.evalFrom_eq_ok (fed : applied.Fed inputs done signal window batch size channels)
    (hlength : applied.length = length) (hstep : applied.step = step) :
    m.evalFrom hidden inputs done (scope'.nodes.drop done.length) = .ok after ↔
      (Shape.isWord length = true ∧ Shape.isWord step = true
        ∧ Shape.isStorable [batch, Tensor.frameCount size length step, length]
          (2 * signal.dtype.byteWidth) = true)
        ∧ after = done ++ (signal.cutFrames none batch size channels length step).asValue
          :: (window.toList.map fun w =>
            (signal.cutFrames (some w) batch size channels length step).asValue)
          ++ [((signal.cutFrames window batch size channels length step).spectra batch
            (Tensor.frameCount size length step) length channels
            (if applied.oneSided = 1 then Fourier.halfCount length else length)).asValue] := by
  obtain ⟨_, _, hl, hs, -, hstepPos, hle, -, -, hwindow⟩ := fed.numbers
  obtain rfl : length = _ := Int.ofNat.inj (hlength.symm.trans hl)
  obtain rfl : step = _ := Int.ofNat.inj (hstep.symm.trans hs)
  obtain ⟨hnodes, hframes, -⟩ := applied.nodes_eq
  rw [fed.nodes, hnodes, hframes, hlength, hstep, List.append_assoc, List.drop_left, ← fed.nodes]
  have hcut {u : Tensor} := @Tensor.frames_eq_ok signal u _ _ _ _ _ fed.shape hle hstepPos
  have hframed : (Op.frames length step).eval ([applied.signal].map (Ref.value inputs done))
      = (signal.frames length step).map Tensor.asValue := by
    rw [List.map_singleton, fed.signalValue, Op.eval_frames]
  have hvalue := fed.windowValue
  rw [List.cons_append, ModuleOf.evalFrom_apply_eq_ok rfl hframed]
  simp only [hcut]
  cases window with
  | none =>
      have hnone : applied.window = none := by simpa using hvalue
      simp only [hnone, Option.toList_none, List.map_nil, List.nil_append, List.length_nil]
      constructor
      · rintro ⟨_, ⟨hword, hstepWord, rfl⟩, h⟩
        obtain ⟨-, hstorable, hafter⟩ :=
          (fed.transform_eq_ok hlength Ref.value_node_length).1 h
        exact ⟨⟨hword, hstepWord, hstorable⟩, by simpa using hafter⟩
      · rintro ⟨⟨hword, hstepWord, hstorable⟩, hafter⟩
        exact ⟨_, ⟨hword, hstepWord, rfl⟩,
          (fed.transform_eq_ok hlength Ref.value_node_length).2
            ⟨hword, hstorable, by simpa using hafter⟩⟩
  | some w =>
      obtain ⟨⟨name, ref⟩, hsome, hw⟩ := Option.map_eq_some_iff.1 hvalue
      obtain ⟨hdtype, hshape⟩ := hwindow w rfl
      have hweigh : Op.window.eval ([.node done.length, ref].map (Ref.value inputs (done
          ++ [(signal.cutFrames none batch size channels length step).asValue])))
          = (Except.ok (signal.cutFrames (some w) batch size channels length step)).map
            Tensor.asValue := by
        rw [List.map_cons, List.map_singleton, Ref.value_append hw, Ref.value_node_length,
          Op.eval_window, Tensor.applyWindow_eq fed.dtype hshape hdtype]
      have hweighed {t u : Tensor} : (Ref.node (done.length + 1)).value inputs
          (done ++ [t.asValue] ++ [u.asValue]) = u.asValue := by
        have hnext := @Ref.value_node_length inputs (done ++ [t.asValue]) u
        rwa [List.length_append] at hnext
      simp only [hsome, Option.toList_some, List.map_cons, List.map_nil, List.cons_append,
        List.nil_append, List.length_cons, List.length_nil]
      constructor
      · rintro ⟨_, ⟨hword, hstepWord, rfl⟩, h⟩
        obtain ⟨_, ⟨⟩, h⟩ := (ModuleOf.evalFrom_apply_eq_ok rfl hweigh).1 h
        obtain ⟨-, hstorable, hafter⟩ := (fed.transform_eq_ok hlength hweighed).1 h
        exact ⟨⟨hword, hstepWord, hstorable⟩, by simpa using hafter⟩
      · rintro ⟨⟨hword, hstepWord, hstorable⟩, hafter⟩
        exact ⟨_, ⟨hword, hstepWord, rfl⟩, (ModuleOf.evalFrom_apply_eq_ok rfl hweigh).2
          ⟨_, rfl, (fed.transform_eq_ok hlength hweighed).2
            ⟨hword, hstorable, by simpa using hafter⟩⟩⟩

/-- What the values of a spectrum are. -/
theorem Fed.values_eq (fed : applied.Fed inputs done signal window batch size channels)
    {spectrum : Tensor} (hafter : after = done
      ++ (signal.cutFrames none batch size channels length step).asValue
        :: (window.toList.map fun w =>
          (signal.cutFrames (some w) batch size channels length step).asValue)
      ++ [spectrum.asValue]) :
    applied.frames.value inputs after
        = (signal.cutFrames window batch size channels length step).asValue
      ∧ ∃ out, result = .one out ∧ out.value inputs after = spectrum.asValue := by
  obtain ⟨-, hframes, hresult⟩ := applied.nodes_eq
  have hcount : applied.window.toList.length = window.toList.length := by
    have hvalue := congrArg Option.isSome fed.windowValue
    cases hentry : applied.window <;> cases window <;> simp [hentry] at hvalue ⊢
  rw [hframes, hcount, ← fed.nodes]
  refine ⟨?_, _, hresult, ?_⟩
  · rw [hafter, List.append_assoc]
    cases window <;> exact Ref.value_node rfl
  · rw [hcount, ← fed.nodes, hafter, List.append_assoc]
    cases window <;> exact Ref.value_node rfl

end AppliedSpectrum

/-- Frames of a signal, one every `step` samples, each multiplied by the
window if there is one. The channels of a sample are multiplied alike. -/
structure FramesOf (signal : Tensor) (window : Option Tensor)
    (batch size channels length step : Nat) (framed : Tensor) : Prop where
  dtype : framed.dtype = signal.dtype
  shape : framed.shape = [batch, (size - length) / step + 1, length, channels]
  entries : ∀ b < batch, ∀ k < (size - length) / step + 1, ∀ i < length, ∀ c < channels,
    framed.get [b, k, i, c]
      = Tensor.weigh signal.dtype window i (signal.get [b, k * step + i, c])

/-- Spectra of frames: real and imaginary part of so many components of
each, and each depends on the vector of this frame only. -/
structure SpectraOf (framed : Tensor) (batch count length channels components : Nat)
    (spectrum : Tensor) : Prop where
  dtype : spectrum.dtype = framed.dtype
  shape : spectrum.shape = [batch, count, components, 2]
  rows : ∀ b < batch, ∀ k < count, ∀ j < components,
    let z := Fourier.ofVector framed.dtype.signalFormat (framed.frameVector length channels b k) j
    spectrum.get [b, k, j, 0] = z.1 ∧ spectrum.get [b, k, j, 1] = z.2

/-- A two-sided spectrum of a complex signal, with a window. -/
def complexNode : NodeOf Importer where
  op := "STFT"
  inputs := ["x", "s", "w"]
  outputs := ["y"]
  attributes := [("onesided", .int 0)]

/-- Sessions like this one, with the step and the shape of the window left
open. -/
def windowedSession (step : Nat) (window : Option KnownShape) : Session where
  scope := {
    bindings := .ofList [("x", .input 0), ("w", .input 1)]
    tensors := .ofList [("s", .scalar .int64 step)]
    declarations := .ofList [("x", ⟨some [some 1, some 8, some 2], some .float32⟩),
      ("w", ⟨window, some .float32⟩)] }

theorem gets_windowedSession {step : Nat} {known : Option KnownShape} {name : String} {i : Nat}
    {ref : Ref} {scope' : Scope} (hname : (name, i) ∈ [("x", 0), ("w", 1)])
    (h : (windowedSession step known).scope.Gets [] name ref scope') :
    ref = .input i ∧ scope' = (windowedSession step known).scope := by
  simp only [List.mem_cons, List.not_mem_nil, or_false, Prod.mk.injEq] at hname
  rcases hname with ⟨rfl, rfl⟩ | ⟨rfl, rfl⟩ <;> cases h with
  | bound hbound => exact ⟨(Option.some.inj hbound).symm, rfl⟩
  | constant hconstant => cases hconstant
  | initial unbound _ _ => cases unbound
  | known htensor _ => cases htensor
  | copied new _ _ _ => cases new
  | captured new _ _ _ => cases new

/-- What is known where the spectrum is applied. -/
theorem applied_windowedSession {values : Attributes} {step : Nat} {known : Option KnownShape}
    {scope' : Scope} {result : Result} (hvalues : complexNode.values = .ok values)
    (applied : AppliedSpectrum complexNode values [] (windowedSession step known).scope scope' result) :
    applied.signal = .input 0 ∧ applied.window = some ("w", .input 1)
      ∧ applied.middle = (windowedSession step known).scope ∧ applied.dims = (1, 8, 2)
      ∧ IsLength applied.windowSize known ∧ integerElement .int64 step = .ok applied.step
      ∧ applied.oneSided = 0
      ∧ applied.length = applied.windowSize.getD (applied.dims.2.1.fdiv applied.step) := by
  have hsignalName : "x" = applied.signalName := Option.some.inj applied.signalInput
  obtain ⟨href, hstarted⟩ := gets_windowedSession (i := 0) (by simp) (hsignalName ▸ applied.getsSignal)
  obtain ⟨hwindow, hmiddle⟩ : applied.window = some ("w", .input 1)
      ∧ applied.middle = (windowedSession step known).scope := by
    have hgets := applied.getsWindow
    rw [hstarted] at hgets
    generalize applied.window = window, applied.middle = middle at hgets ⊢
    cases hgets with
    | none h => exact absurd h (by decide)
    | some hname given gets =>
        obtain rfl := Option.some.inj hname
        obtain ⟨rfl, rfl⟩ := gets_windowedSession (i := 1) (by simp) gets
        exact ⟨rfl, rfl⟩
  have hshape := applied.isShape
  rw [hstarted, ← hsignalName, show Scopes.shape? [(windowedSession step known).scope] "x"
    = some [some 1, some 8, some 2] from rfl] at hshape
  have hdims : applied.dims = (1, 8, 2) := by
    simp only [Option.some.injEq, List.cons.injEq, and_true] at hshape
    obtain ⟨h₁, h₂, h₃⟩ := hshape
    exact Prod.ext h₁.symm (Prod.ext h₂.symm h₃.symm)
  have hsize : IsLength applied.windowSize known := by
    have hlength := applied.isWindowSize
    have hshape : Scopes.shape? [(windowedSession step known).scope] "w" = known := by
      cases known <;> rfl
    rw [hwindow, hmiddle] at hlength
    change IsLength applied.windowSize (Scopes.shape? [(windowedSession step known).scope] "w") at hlength
    rwa [hshape] at hlength
  have hstepName : "s" = applied.stepName := Option.some.inj applied.stepInput
  have hstep : integerElement .int64 step = .ok applied.step := by
    obtain ⟨t, ht, -, hi⟩ := applied.isStep
    rw [hstarted, ← hstepName] at ht
    obtain rfl := Option.some.inj ht
    exact hi
  have hone : applied.oneSided = 0 := by
    obtain rfl := Except.ok.inj hvalues
    exact (Outcome.ok.inj applied.isOneSided).symm
  exact ⟨href, hwindow, hmiddle, hdims, hsize, hstep, hone, applied.isLength⟩

end Handler

-- ============================================================== long steps

end OnnxLowering
