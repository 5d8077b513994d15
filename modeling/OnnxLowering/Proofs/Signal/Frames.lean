/-
Frames and their spectra, for signals of `float32` or `float64` and of
shape `[batch, size, channels]`. The frames are those for which there is
room (`lt_frameCount_iff`), a window multiplies all of them alike
(`applyWindow_eq`), and the spectrum of a frame is a function of the
vector of its own samples (`transform_eq_ok`).
-/
import OnnxLowering.Proofs.Tensor.Samples
import OnnxLowering.Signal.Fourier
import OnnxLowering.Signal.Frame

namespace OnnxLowering

/-- The two types in which signals are computed with as they are. -/
def DType.IsSignal (dtype : DType) : Prop := dtype = .float32 ∨ dtype = .float64

/-- The format of such a type. -/
def DType.signalFormat (dtype : DType) : BinaryFormat :=
  if dtype = .float64 then .double else .single

theorem Shape.exists_of_inBounds_four {a b c d : Nat} {is : List Nat}
    (h : Shape.InBounds [a, b, c, d] is) :
    ∃ i j k l, is = [i, j, k, l] ∧ i < a ∧ j < b ∧ k < c ∧ l < d := by
  rcases is with _ | ⟨i, _ | ⟨j, _ | ⟨k, _ | ⟨l, _ | ⟨m, is⟩⟩⟩⟩⟩ <;>
    simp only [Shape.InBounds, and_false, and_true] at h
  exact ⟨i, j, k, l, rfl, h⟩

/-- Indices in bounds are read where they are. -/
theorem Shape.project_self {shape : Shape} {is : List Nat} (h : shape.InBounds is) :
    project shape is = is := by
  induction shape generalizing is with
  | nil =>
      cases is with
      | nil => rfl
      | cons i is => exact h.elim
  | cons d shape ih =>
      cases is with
      | nil => exact h.elim
      | cons i is =>
          have hi : i < d := h.1
          have hposition : (if d = 1 then 0 else i) = i := by
            split <;> omega
          rw [project_cons (Shape.InBounds.length_eq h.2), ih h.2, hposition]

namespace Fourier

/-- The complex number that is made of the channels of a sample: real and
imaginary part of two channels, and a real number of one. -/
def number (dtype : DType) (channels : List Nat) : Float × Float :=
  let read (x : Nat) : Float := toFloat (dtype.signalFormat.convert .double x)
  match channels with
  | [re, im] => (read re, read im)
  | _ => (read (dtype.signalFormat.settle (Element.datum dtype (channels.headD 0))), toFloat 0)

/-- A component of the spectrum of a vector. -/
def ofVector (format : BinaryFormat) (vector : List (Float × Float)) (k : Nat) : Nat × Nat :=
  component format vector.length vector.length (fun i => vector.getD i (0.0, 0.0)) k

/-- The spectrum of samples is that of the vector of those that count. -/
theorem component_eq_ofVector (format : BinaryFormat) (n : Nat) (samples : Nat → Float × Float)
    (k : Nat) : component format n n samples k = ofVector format ((List.range n).map samples) k := by
  unfold ofVector component
  simp only [List.length_map, List.length_range, Nat.min_self]
  rw [List.foldl_ext]
  intro sum i hi
  have hi : i < n := List.mem_range.1 hi
  simp [hi]

end Fourier

namespace Tensor

variable {signal framed w u : Tensor} {batch size channels length step count : Nat}

-- ================================================================= frames

/-- A sample as the window leaves it, if there is one. -/
def weigh (dtype : DType) (window : Option Tensor) (i x : Nat) : Nat :=
  match window with
  | none => x
  | some w => Element.multiply dtype x (w.get [i])

/-- The frames of a signal, multiplied by the window if there is one. -/
def cutFrames (signal : Tensor) (window : Option Tensor) (batch size channels length step : Nat) :
    Tensor :=
  ofFn signal.dtype [batch, frameCount size length step, length, channels] fun is =>
    weigh signal.dtype window (is.getD 2 0)
      (signal.get [is.getD 0 0, is.getD 1 0 * step + is.getD 2 0, is.getD 3 0])

theorem get_cutFrames {window : Option Tensor} {b k i c : Nat} (hb : b < batch)
    (hk : k < frameCount size length step) (hi : i < length) (hc : c < channels) :
    (signal.cutFrames window batch size channels length step).get [b, k, i, c]
      = weigh signal.dtype window i (signal.get [b, k * step + i, c]) :=
  get_ofFn ⟨hb, hk, hi, hc, trivial⟩

theorem frames_eq_ok (hshape : signal.shape = [batch, size, channels]) (hlength : length ≤ size)
    (hstep : 0 < step) :
    signal.frames length step = .ok u ↔ Shape.isWord length = true ∧ Shape.isWord step = true
      ∧ u = signal.cutFrames none batch size channels length step := by
  unfold frames
  cases hword : Shape.isWord length && Shape.isWord step with
  | false =>
      rw [Bool.and_eq_false_iff] at hword
      refine ⟨fun h => (nomatch h), fun h => ?_⟩
      rcases hword with hword | hword
      · exact absurd h.1 (by simp [hword])
      · exact absurd h.2.1 (by simp [hword])
  | true =>
      rw [Bool.and_eq_true] at hword
      have hrank : ¬ signal.rank ≤ signalAxis := by simp [rank, hshape, signalAxis]
      have hguard : (0 ≤ (length : Int) && (length : Int) ≤ (size : Nat) && 0 < (step : Int)) = true := by
        simp
        omega
      simp only [if_true, if_neg hrank, hshape]
      rw [show [batch, size, channels].getD signalAxis 0 = size from rfl, if_pos hguard]
      simp only [Int.toNat_natCast]
      exact ⟨fun h => ⟨hword.1, hword.2, (Except.ok.inj h).symm⟩, fun h => congrArg _ h.2.2.symm⟩

-- ================================================================= window

/-- A window of the length of the frames fits to them. -/
theorem broadcast?_window : Shape.broadcast? [batch, count, length, channels] [length, 1]
    = some [batch, count, length, channels] := by
  have hchannels : Shape.stretch? channels 1 = some channels := by
    by_cases h : channels = 1 <;> simp [Shape.stretch?, h]
  have hlength : Shape.stretch? length length = some length := if_pos rfl
  simp [Shape.broadcast?, Shape.stretchAll?, hchannels, hlength]

theorem commonType_self {a b : Tensor} (hdtype : b.dtype = a.dtype)
    (ha : a.shape ≠ []) (hb : b.shape ≠ []) : commonType a b = .ok a.dtype := by
  obtain ⟨_, _, ha⟩ := List.exists_cons_of_ne_nil ha
  obtain ⟨_, _, hb⟩ := List.exists_cons_of_ne_nil hb
  simp [commonType, ha, hb, hdtype, DType.promote]

theorem multiply_eq {a b : Tensor} {dtype : DType} (h : commonType a b = .ok dtype) :
    a.multiply b = zipWith dtype (fun x y =>
      multiplyElement dtype (factorType dtype b) (Element.cast a.dtype dtype x)
        (Element.cast b.dtype (factorType dtype b) y)) a b := by
  unfold multiply
  rw [h]
  rfl

/-- Neither of the types is one of half precision. -/
theorem factorType_signal {dtype : DType} (h : dtype.IsSignal) (b : Tensor) :
    factorType dtype b = dtype := by
  have hworking : BinaryFormat.single.working = .single ∧ BinaryFormat.double.working = .double := by
    decide
  rcases h with rfl | rfl <;> simp [factorType, DType.layout, hworking]

theorem applyWindow_eq (hsignal : signal.dtype.IsSignal) (hw : w.shape = [length])
    (hdtype : w.dtype = signal.dtype) :
    (signal.cutFrames none batch size channels length step).applyWindow w
      = .ok (signal.cutFrames (some w) batch size channels length step) := by
  have hunsqueeze : (w.cast signal.dtype).unsqueeze (-1) = .ok ((w.cast signal.dtype).expand 1) :=
    unsqueeze_eq_ok.2 ⟨rfl, 1, by simp [rank, cast, hw, resolveAxis], rfl⟩
  have hshape : ((w.cast signal.dtype).expand 1).shape = [length, 1] := by
    show w.shape.insertIdx 1 1 = _
    rw [hw]
    rfl
  have htype : commonType (signal.cutFrames none batch size channels length step)
      ((w.cast signal.dtype).expand 1) = .ok signal.dtype :=
    commonType_self rfl (by simp [cutFrames]) (by simp [hshape])
  unfold applyWindow
  rw [show (signal.cutFrames none batch size channels length step).dtype = signal.dtype from rfl,
    hunsqueeze, Except.ok_bind, multiply_eq htype, zipWith, hshape, cutFrames, shape_ofFn,
    broadcast?_window]
  refine congrArg Except.ok (ofFn_congr rfl fun is his => ?_)
  rw [Shape.project_self his]
  obtain ⟨b, k, i, c, rfl, hb, hk, hi, hc⟩ := Shape.exists_of_inBounds_four his
  have hproject : Shape.project [length, 1] [b, k, i, c] = [i, 0] := by
    by_cases h : length = 1
    · obtain rfl : i = 0 := by omega
      simp [Shape.project]
    · simp [Shape.project, h]
  have hin : Shape.InBounds w.shape [i] := by
    rw [hw]
    exact ⟨hi, trivial⟩
  have hentry : ((w.cast signal.dtype).expand 1).get [i, 0] = w.get [i] := by
    refine (get_ofFn (show Shape.InBounds (w.shape.insertIdx 1 1) [i, 0] from ?_)).trans ?_
    · rw [hw]
      exact ⟨hi, Nat.one_pos, trivial⟩
    · show (w.cast signal.dtype).get [i] = _
      rw [← hdtype]
      exact get_cast_self w hin
  rw [hproject, hentry, get_ofFn his]
  show multiplyElement signal.dtype _ (Element.cast signal.dtype signal.dtype _)
    (Element.cast signal.dtype _ _) = _
  simp [factorType_signal hsignal, multiplyElement, Element.cast, weigh]

-- =============================================================== spectrum

/-- The complex numbers that a frame is made of. -/
def frameVector (framed : Tensor) (length channels b k : Nat) : List (Float × Float) :=
  (List.range length).map fun i =>
    Fourier.number framed.dtype ((List.range channels).map fun c => framed.get [b, k, i, c])

/-- The samples of a frame are those of its vector. -/
theorem complexAt_samples (hshape : framed.shape = [batch, count, length, channels])
    (hsignal : framed.dtype.IsSignal) (hchannels : channels = 1 ∨ channels = 2) {b k i : Nat}
    (hb : b < batch) (hk : k < count) (hi : i < length) :
    (framed.samples framed.dtype.signalFormat channels).complexAt [b, k, i]
      = Fourier.number framed.dtype ((List.range channels).map fun c => framed.get [b, k, i, c]) := by
  have hget {part : Nat} (hpart : part < 2) :
      (framed.samples framed.dtype.signalFormat channels).get ([b, k, i] ++ [part])
        = framed.dtype.signalFormat.convert .double (if channels = 2 then framed.get [b, k, i, part]
          else framed.dtype.signalFormat.settle (if part = 0
            then Element.datum framed.dtype (framed.get [b, k, i, 0])
            else Element.imaginary framed.dtype (framed.get [b, k, i, 0]))) := by
    refine get_ofFn ?_
    rw [hshape]
    exact ⟨hb, hk, hi, hpart, trivial⟩
  unfold complexAt
  rw [hget Nat.two_pos, hget Nat.one_lt_two]
  have himaginary : Element.imaginary framed.dtype (framed.get [b, k, i, 0]) = .ofInt 0 := by
    rcases hsignal with h | h <;> rw [h] <;> rfl
  have hzero : framed.dtype.signalFormat.convert .double
      (framed.dtype.signalFormat.settle (.ofInt 0)) = 0 := by
    rcases hsignal with h | h <;> rw [h] <;> decide
  rcases hchannels with rfl | rfl
  · simp [himaginary, hzero, Fourier.number]
  · rfl

/-- The spectra of the frames: components as pairs of real and imaginary
part, of each frame by itself. -/
def spectra (framed : Tensor) (batch count length channels components : Nat) : Tensor :=
  ofFn framed.dtype [batch, count, components, 2] fun is =>
    let z := Fourier.ofVector framed.dtype.signalFormat
      (framed.frameVector length channels (is.getD 0 0) (is.getD 1 0)) (is.getD 2 0)
    if is.getD 3 0 = 0 then z.1 else z.2

theorem get_spectra {components b k j : Nat} (hb : b < batch) (hk : k < count)
    (hj : j < components) :
    let z := Fourier.ofVector framed.dtype.signalFormat (framed.frameVector length channels b k) j
    (framed.spectra batch count length channels components).get [b, k, j, 0] = z.1
      ∧ (framed.spectra batch count length channels components).get [b, k, j, 1] = z.2 :=
  ⟨get_ofFn ⟨hb, hk, hj, Nat.two_pos, trivial⟩, get_ofFn ⟨hb, hk, hj, Nat.one_lt_two, trivial⟩⟩

/-- The places of a spectrum are computed along the third dimension. -/
theorem ofFn_component (hshape : framed.shape = [batch, count, length, channels])
    (hsignal : framed.dtype.IsSignal) (hchannels : channels = 1 ∨ channels = 2) (components : Nat) :
    ofFn framed.dtype (framed.shape.dropLast.set spectrumAxis components ++ [2]) (fun is =>
        let component := Fourier.component framed.dtype.signalFormat length
          (framed.shape.dropLast.getD spectrumAxis 0)
          (fun i => (framed.samples framed.dtype.signalFormat channels).complexAt
            (is.dropLast.set spectrumAxis i)) (is.dropLast.getD spectrumAxis 0)
        if is.getLastD 0 = 0 then component.1 else component.2)
      = framed.spectra batch count length channels components := by
  rw [show framed.shape.dropLast = [batch, count, length] by rw [hshape]; rfl]
  refine ofFn_congr rfl fun is his => ?_
  obtain ⟨b, k, j, part, rfl, hb, hk, -, -⟩ := Shape.exists_of_inBounds_four
    (show Shape.InBounds [batch, count, components, 2] is from his)
  have hvector : (List.range length).map (fun i =>
      (framed.samples framed.dtype.signalFormat channels).complexAt [b, k, i])
      = framed.frameVector length channels b k :=
    List.map_congr_left fun i hi => complexAt_samples hshape hsignal hchannels hb hk
      (List.mem_range.1 hi)
  show (if part = 0 then (Fourier.component _ length length _ j).1
    else (Fourier.component _ length length _ j).2) = _
  rw [Fourier.component_eq_ofVector]
  exact hvector ▸ rfl

/-- The element type of the signal that frames of a real type hold. -/
theorem signalType_eq (hsignal : framed.dtype.IsSignal) (hchannels : channels = 1 ∨ channels = 2) :
    ∃ dtype, framed.signalType channels = .ok dtype
      ∧ spectrumFormat dtype = .ok framed.dtype.signalFormat
      ∧ (channels = 1 → dtype.isComplex = false) := by
  rcases hchannels with rfl | rfl <;> rcases hsignal with h | h <;>
    exact ⟨_, by rw [signalType, h]; rfl, by rw [h]; decide, by decide⟩

theorem checkTransform_eq_ok {dtype : DType} {format format' : BinaryFormat} {places : Shape}
    {oneSided : Bool} (hformat : spectrumFormat dtype = .ok format)
    (hreal : oneSided = true → dtype.isComplex = false) (hplaces : spectrumAxis < places.length)
    (hlength : 0 < length) :
    checkTransform dtype places length oneSided = .ok format' ↔ Shape.isWord length = true
      ∧ Shape.isStorable (places.set spectrumAxis length) (format.width / 4) = true
      ∧ format' = format := by
  have hsided : (oneSided && dtype.isComplex) = false := by
    cases hone : oneSided
    · rfl
    · exact hreal hone
  have haxis : ¬ places.length ≤ spectrumAxis := Nat.not_le.2 hplaces
  have hpositive : ¬ (length : Int) < 1 := by omega
  by_cases hword : Shape.isWord length = true
  · by_cases hstorable : Shape.isStorable (places.set spectrumAxis length) (format.width / 4) = true
    · have hdone : checkTransform dtype places length oneSided = .ok format := by
        unfold checkTransform
        simp only [hsided]
        cases dtype.isComplex <;>
          simp [hword, hformat, haxis, hpositive, hstorable, pure, Except.pure]
      rw [hdone]
      exact ⟨fun h => ⟨hword, hstorable, (Except.ok.inj h).symm⟩, fun h => congrArg _ h.2.2.symm⟩
    · have hfails : checkTransform dtype places length oneSided = .error .sizeMismatch := by
        unfold checkTransform
        simp only [hsided]
        cases dtype.isComplex <;> simp [hword, hformat, haxis, hpositive, hstorable] <;> rfl
      rw [hfails]
      exact ⟨fun h => (nomatch h), fun h => absurd h.2.1 hstorable⟩
  · have hfails : checkTransform dtype places length oneSided = .error .hugeInteger := by
      unfold checkTransform
      rw [if_neg hword]
      rfl
    rw [hfails]
    exact ⟨fun h => (nomatch h), fun h => absurd h.1 hword⟩

/-- Transforms of the length of the frames give their spectra. -/
theorem transform_eq_ok {oneSided : Bool} (hshape : framed.shape = [batch, count, length, channels])
    (hsignal : framed.dtype.IsSignal) (hchannels : channels = 1 ∨ channels = 2)
    (hreal : oneSided = true → channels = 1) (hlength : 0 < length) :
    framed.transform length oneSided = .ok u ↔ Shape.isWord length = true
      ∧ Shape.isStorable [batch, count, length] (2 * framed.dtype.byteWidth) = true
      ∧ u = framed.spectra batch count length channels
        (if oneSided then Fourier.halfCount length else length) := by
  obtain ⟨dtype, htype, hformat, hcomplex⟩ := signalType_eq hsignal hchannels
  have hplaces : framed.shape.dropLast = [batch, count, length] := by rw [hshape]; rfl
  have hsize : framed.sizeAlong (-1) = .ok channels := by
    simp [sizeAlong, rank, hshape, resolveAxis, Except.map]
  have hwidth : framed.dtype.signalFormat.width / 4 = 2 * framed.dtype.byteWidth := by
    rcases hsignal with h | h <;> rw [h] <;> rfl
  have hsame : (if framed.dtype.signalFormat = .double then DType.float64 else .float32)
      = framed.dtype := by
    rcases hsignal with h | h <;> rw [h] <;> decide
  have hcheck {format : BinaryFormat} : checkTransform dtype framed.shape.dropLast length oneSided
      = .ok format ↔ _ := checkTransform_eq_ok hformat (fun hone => hcomplex (hreal hone))
        (hplaces ▸ Nat.lt_succ_self 2) hlength
  have hspectra := ofFn_component hshape hsignal hchannels
    (if oneSided then Fourier.halfCount length else length)
  unfold transform
  constructor
  · intro h
    obtain ⟨_, hc, h⟩ := Except.bind_eq_ok.1 h
    obtain rfl := Except.ok.inj (hsize.symm.trans hc)
    obtain ⟨_, ht, h⟩ := Except.bind_eq_ok.1 h
    obtain rfl := Except.ok.inj (htype.symm.trans ht)
    obtain ⟨_, hformat, h⟩ := Except.bind_eq_ok.1 h
    obtain ⟨hword, hstorable, rfl⟩ := hcheck.1 hformat
    rw [hplaces, hwidth] at hstorable
    rw [hsame] at h
    exact ⟨hword, hstorable, (Except.ok.inj h).symm.trans hspectra⟩
  · rintro ⟨hword, hstorable, rfl⟩
    refine Except.bind_eq_ok.2 ⟨_, hsize, Except.bind_eq_ok.2 ⟨_, htype, Except.bind_eq_ok.2
      ⟨_, hcheck.2 ⟨hword, by rw [hplaces, hwidth]; exact hstorable, rfl⟩, ?_⟩⟩⟩
    rw [hsame]
    exact congrArg Except.ok hspectra

end Tensor

end OnnxLowering
