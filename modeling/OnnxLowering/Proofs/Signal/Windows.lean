/-
Windows of any length. A window is stretched to the frames, or the frames
to the window, when one of the two has a single entry; otherwise their
lengths agree, or there is no product (`applyWindow_shape`). The spectra
have as many components as the length of the transform says, whatever the
length of the window is (`transform_shape`). So frames of another length
than that of the window never have the spectra that frames of its own
length have (`eq_of_shortTime`).
-/
import OnnxLowering.Proofs.Signal.Frames

namespace OnnxLowering.Tensor

variable {signal framed w t u : Tensor} {batch size channels length count step : Nat}

/-- The spectra of the frames of a signal, cut to a length and multiplied
by a window. -/
def shortTime (signal window : Tensor) (length step : Int) (oneSided : Bool) :
    Except RunError Tensor := do
  let frames ← signal.frames length step
  let framed ← frames.applyWindow window
  framed.transform length oneSided

/-- The number of components of a spectrum. -/
def components (length : Nat) (oneSided : Bool) : Nat :=
  if oneSided then Fourier.halfCount length else length

-- ================================================================= shapes

theorem unsqueeze_window (hw : w.shape = [count]) (dtype : DType) :
    (w.cast dtype).unsqueeze (-1) = .ok ((w.cast dtype).expand 1)
      ∧ ((w.cast dtype).expand 1).shape = [count, 1] := by
  refine ⟨unsqueeze_eq_ok.2 ⟨rfl, 1, by simp [rank, cast, hw, resolveAxis], rfl⟩, ?_⟩
  show w.shape.insertIdx 1 1 = _
  rw [hw]
  rfl

/-- The frames and the window have one length, or one of them has a single
entry and is stretched. -/
theorem applyWindow_shape (hshape : framed.shape = [batch, size, length, channels])
    (hw : w.shape = [count]) (h : framed.applyWindow w = .ok u) :
    (count = length ∨ count = 1 ∨ length = 1)
      ∧ ∃ stretched, u.shape = [batch, size, stretched, channels] := by
  obtain ⟨hunsqueeze, hexpanded⟩ := unsqueeze_window hw framed.dtype
  unfold applyWindow at h
  rw [hunsqueeze, Except.ok_bind] at h
  obtain ⟨dtype, hdtype, -⟩ := Except.bind_eq_ok.1 h
  rw [multiply_eq hdtype, zipWith, hexpanded, hshape] at h
  have hchannels : Shape.stretch? channels 1 = some channels := by
    by_cases hone : channels = 1 <;> simp [Shape.stretch?, hone]
  have hbroadcast : Shape.broadcast? [batch, size, length, channels] [count, 1]
      = (Shape.stretch? length count).map fun stretched => [batch, size, stretched, channels] := by
    cases hlength : Shape.stretch? length count <;>
      simp [Shape.broadcast?, Shape.stretchAll?, hchannels, hlength]
  rw [hbroadcast] at h
  cases hlength : Shape.stretch? length count with
  | none =>
      rw [hlength] at h
      cases h
  | some stretched =>
      rw [hlength] at h
      cases h
      refine ⟨?_, stretched, rfl⟩
      unfold Shape.stretch? at hlength
      split at hlength
      · next heq => exact .inl heq.symm
      · split at hlength
        · next hone => exact .inr (.inr hone)
        · split at hlength
          · next hone => exact .inr (.inl hone)
          · cases hlength

/-- There are no transforms of no length. -/
theorem pos_of_checkTransform {dtype : DType} {places : Shape} {length : Int} {oneSided : Bool}
    {format : BinaryFormat} (h : checkTransform dtype places length oneSided = .ok format) :
    0 < length := by
  unfold checkTransform at h
  obtain ⟨-, h⟩ := Except.guard_eq_ok'.1 h
  obtain ⟨-, h⟩ := Except.guard_eq_ok.1 h
  have hlow : ¬ length < 1 := by
    cases hcomplex : dtype.isComplex with
    | true =>
        simp only [hcomplex, if_true] at h
        exact (Except.guard_eq_ok.1 (Except.guard_eq_ok.1 h).2).1
    | false =>
        simp only [hcomplex, Bool.false_eq_true, if_false] at h
        obtain ⟨_, -, h⟩ := Except.bind_eq_ok.1 h
        exact (Except.guard_eq_ok.1 (Except.guard_eq_ok.1 h).2).1
  omega

/-- A transform has the components of its length, and this is positive. -/
theorem transform_shape {oneSided : Bool} (hshape : framed.shape = [batch, size, length, channels])
    (h : framed.transform count oneSided = .ok t) :
    0 < count ∧ t.shape = [batch, size, components count oneSided, 2] := by
  unfold transform at h
  obtain ⟨_, -, h⟩ := Except.bind_eq_ok.1 h
  obtain ⟨dtype, -, h⟩ := Except.bind_eq_ok.1 h
  obtain ⟨format, hcheck, h⟩ := Except.bind_eq_ok.1 h
  have hpositive : 0 < (count : Int) := pos_of_checkTransform hcheck
  refine ⟨by omega, ?_⟩
  cases h
  simp [hshape, spectrumAxis, components]

/-- Frames that are cut have the length and fit into the signal. -/
theorem frames_shape (hshape : signal.shape = [batch, size, channels])
    (h : signal.frames length step = .ok framed) :
    framed.shape = [batch, frameCount size length step, length, channels]
      ∧ length ≤ size ∧ 0 < step := by
  unfold frames at h
  obtain ⟨-, h⟩ := Except.guard_eq_ok'.1 h
  obtain ⟨-, h⟩ := Except.guard_eq_ok.1 h
  obtain ⟨hfits, h⟩ := Except.guard_eq_ok'.1 h
  simp only [hshape, signalAxis, List.getD_cons_succ, List.getD_cons_zero, Bool.and_eq_true,
    decide_eq_true_eq] at hfits h
  cases h
  exact ⟨rfl, by omega, by omega⟩

-- ================================================================ spectra

/-- What the three steps of short-time spectra leave of the lengths: those
of the frames and of the window agree or one of them is stretched, and
there are as many components as the length of the frames says. -/
theorem shortTime_shape {oneSided : Bool} (hshape : signal.shape = [batch, size, channels])
    (hw : w.shape = [count]) (h : signal.shortTime w length step oneSided = .ok t) :
    (count = length ∨ count = 1 ∨ length = 1) ∧ 0 < length
      ∧ t.shape = [batch, frameCount size length step, components length oneSided, 2] := by
  obtain ⟨cut, hcut, h⟩ := Except.bind_eq_ok.1 h
  obtain ⟨framed, hframed, h⟩ := Except.bind_eq_ok.1 h
  obtain ⟨hcutShape, -, -⟩ := frames_shape hshape hcut
  obtain ⟨hlengths, stretched, hstretched⟩ := applyWindow_shape hcutShape hw hframed
  obtain ⟨hpositive, htransformed⟩ := transform_shape hstretched h
  exact ⟨hlengths, hpositive, htransformed⟩

/-- One component is the spectrum of one number only. -/
theorem components_eq_one {oneSided : Bool} (hlength : 0 < length) :
    components length oneSided = 1 ↔ length = 1 := by
  cases oneSided
  · exact Iff.rfl
  · show length / 2 + 1 = 1 ↔ _
    omega

/-- Frames of the length of the window and of another length have no
spectra in common. -/
theorem eq_of_shortTime {oneSided : Bool} (hshape : signal.shape = [batch, size, channels])
    (hw : w.shape = [count]) (h : signal.shortTime w length step oneSided = .ok t)
    (hwindow : signal.shortTime w count step oneSided = .ok t) : count = length := by
  obtain ⟨hlengths, hlength, ht⟩ := shortTime_shape hshape hw h
  obtain ⟨-, hcount, ht'⟩ := shortTime_shape hshape hw hwindow
  have hsame : components length oneSided = components count oneSided := by
    have hall := ht.symm.trans ht'
    simp only [List.cons.injEq, and_true, true_and] at hall
    exact hall.2
  rcases hlengths with heq | hone | hone
  · exact heq
  · rw [(components_eq_one hcount).2 hone] at hsame
    rw [hone, (components_eq_one hlength).1 hsame]
  · rw [(components_eq_one hlength).2 hone] at hsame
    rw [hone, (components_eq_one hcount).1 hsame.symm]

theorem cast_cast_self (t : Tensor) (dtype : DType) : (t.cast dtype).cast dtype = t.cast dtype :=
  ofFn_congr rfl fun _ his => (if_pos rfl).trans (get_cast his)

/-- A window is taken in the type of the frames. -/
theorem applyWindow_cast : framed.applyWindow (w.cast framed.dtype) = framed.applyWindow w := by
  unfold applyWindow
  rw [cast_cast_self]

end OnnxLowering.Tensor
