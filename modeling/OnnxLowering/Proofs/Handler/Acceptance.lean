/-
Which spectra are accepted. A spectrum is lowered if and only if it is
valid: the step is known and positive, the shape of the signal is known,
frames of the length that the node, the window or the step determines fit
into the signal, the window has that length as far as its own is known,
and a one-sided spectrum is one of a real signal. Otherwise the node is
refused (`spectrum_accepts_iff`).

The checks are made one after the other, and each one reads what the ones
before it have let pass. `Settles` is what a check and everything after it
come to: success only where the spectrum is valid, and a refusal only
where it is not. So a check is settled alone, by the part of `Frames` that
it is about.

The attributes are read before anything is checked. An attribute that is
no text, or a side that is no number, is found there and is no fault of
the node (`spectrum_leaks_side`).
-/
import OnnxLowering.Proofs.Handler.Steps

namespace OnnxLowering

/-- The element of the tensor that a name is known to be, if it has just
one. -/
def Scopes.element? (scopes : Scopes) (name : String) : Option Int :=
  (scopes.tensor? name).bind fun t =>
    if t.data.size = 1 then some (Element.toInt t.dtype (t.data.getD 0 0)) else none

namespace Handler

open Lower

-- ================================================================ validity

/-- Which side of the spectra a node asks for: all of them, or without the
negative frequencies if this is one. -/
def side (node : NodeOf Importer) : Except AttributeError Int := do
  match (← node.values).find? "onesided" with
  | some value => value.toInt
  | none => return 1

/-- A spectrum whose signal and window, if there is one, have values. What is
known of the step and of the length of the frames are integers. -/
structure PosedSpectrum (node : NodeOf Importer) (context : Context) (session : Session) where
  signal : Ref
  heard : Session
  window : Option Ref
  windowed : Session
  arity : 2 ≤ node.inputs.length
  hears : value (node.inputs.getD 0 "") context session = .ok signal heard
  windows : optionalInput node 2 context heard = .ok window windowed
  step : ∀ t, Scopes.tensor? (heard.scope :: context.outer) (node.inputs.getD 1 "") = some t →
    t.dtype.isInteger = true
  length : (node.inputs.getD 3 "").isEmpty = false →
    ∀ t, Scopes.tensor? (windowed.scope :: context.outer) (node.inputs.getD 3 "") = some t →
      t.dtype.isInteger = true

namespace PosedSpectrum

variable {node : NodeOf Importer} {context : Context} {session : Session}
  (posed : PosedSpectrum node context session)

/-- The length of the window, as far as it is known. -/
def IsWindow (known : Option Int) : Prop :=
  if (node.inputs.getD 2 "").isEmpty then known = none
  else IsLength known
    (Scopes.shape? (posed.windowed.scope :: context.outer) (node.inputs.getD 2 ""))

/-- The length of the frames: the one that is given, or that of the window, or
as many samples as there would be whole steps. -/
def IsFrameLength (size step : Int) (known : Option Int) (length : Int) : Prop :=
  if (node.inputs.getD 3 "").isEmpty then length = known.getD (size.fdiv step)
  else Scopes.element? (posed.windowed.scope :: context.outer) (node.inputs.getD 3 "") = some length

/-- Frames of a length and with a step can be cut out of a signal, and
multiplied by the window. -/
structure Frames (oneSided step batch size channels : Int) (known : Option Int) (length : Int) :
    Prop where
  isStep : Scopes.element? (posed.heard.scope :: context.outer) (node.inputs.getD 1 "") = some step
  step_pos : 0 < step
  isShape : Scopes.shape? (posed.heard.scope :: context.outer) (node.inputs.getD 0 "")
    = some [some batch, some size, some channels]
  hasChannels : channels = 1 ∨ channels = 2
  isWindow : posed.IsWindow known
  isLength : posed.IsFrameLength size step known length
  length_pos : 1 ≤ length
  length_le : length ≤ size
  fits : ∀ window, known = some window → length = window
  real : oneSided = 1 → channels ≠ 2

/-- There are frames that the spectra can be computed of. -/
def Valid (oneSided : Int) : Prop :=
  ∃ step batch size channels known length, posed.Frames oneSided step batch size channels known length

end PosedSpectrum

-- ================================================================== checks

section

variable {α β : Type} {node : NodeOf Importer} {context : Context} {session session' : Session}
  {p : Prop}

/-- A step succeeds only where `p` holds, and refuses its node only where it
does not. There is no other error. -/
def Settles (node : NodeOf Importer) (p : Prop) (x : Lower α) (context : Context)
    (session : Session) : Prop :=
  match x context session with
  | .ok _ _ => p
  | .error error _ => ¬ p ∧ ∃ fault, error = .invalidNode node.describe fault

namespace Settles

variable {x : Lower α} {f : α → Lower β} {a : α} {fault : NodeFault}

theorem bind (h : x context session = .ok a session') (hf : Settles node p (f a) context session') :
    Settles node p (x >>= f) context session := by
  unfold Settles
  rw [bind_apply, h]
  exact hf

theorem refuse (h : x context session = .error (.invalidNode node.describe fault) session')
    (hp : ¬ p) : Settles node p (x >>= f) context session := by
  unfold Settles
  rw [bind_apply, h]
  exact ⟨hp, fault, rfl⟩

/-- A check that is made only of what has to hold anyway. -/
theorem guard {c : Prop} [Decidable c] (hc : c → ¬ p)
    (hx : ¬ c → Settles node p x context session) :
    Settles node p (if c then (invalid node fault : Lower PUnit) >>= fun _ => x else x) context
      session := by
  by_cases h : c
  · rw [if_pos h]
    exact ⟨hc h, fault, rfl⟩
  · rw [if_neg h]
    exact hx h

theorem returns_iff (h : Settles node p x context session) :
    ((∃ a session', x context session = .ok a session') ↔ p)
      ∧ (¬ p → ∃ fault session',
        x context session = .error (.invalidNode node.describe fault) session') := by
  unfold Settles at h
  cases hx : x context session with
  | ok a session' =>
      rw [hx] at h
      exact ⟨⟨fun _ => h, fun _ => ⟨a, session', rfl⟩⟩, fun hp => absurd h hp⟩
  | error error session' =>
      rw [hx] at h
      obtain ⟨hp, fault, rfl⟩ := h
      exact ⟨⟨fun ⟨_, _, hok⟩ => (nomatch hok), fun h => absurd h hp⟩, fun _ => ⟨fault, session', rfl⟩⟩

end Settles

/-- The attributes are read first, and whether there is something wrong with
them is found before anything else. -/
theorem side_apply (f : Int → Lower α) :
    (do
      let values ← attributes node
      let oneSided ← match values.find? "onesided" with
        | some value => ofExcept .argument value.toInt
        | none => pure 1
      f oneSided) context session
      = match side node with
        | .ok oneSided => f oneSided context session
        | .error error => .error (.argument error) session := by
  unfold attributes side
  cases node.values with
  | error error => rfl
  | ok values =>
      simp only [Except.ok_bind]
      rw [bind_apply]
      show (match values.find? "onesided" with
        | some value => ofExcept .argument value.toInt >>= f
        | none => pure 1 >>= f) context session = _
      cases values.find? "onesided" with
      | none => rfl
      | some value =>
          simp only
          rw [bind_apply]
          cases value.toInt <;> rfl

theorem Settles.of_side {f : Int → Lower α} {oneSided : Int} (h : side node = .ok oneSided)
    (hf : Settles node p (f oneSided) context session) :
    Settles node p (do
      let values ← attributes node
      let oneSided ← match values.find? "onesided" with
        | some value => ofExcept .argument value.toInt
        | none => pure 1
      f oneSided) context session := by
  unfold Settles
  rw [side_apply, h]
  exact hf

theorem inputName_apply {index : Nat} (h : index < node.inputs.length) :
    inputName node index context session = .ok (node.inputs.getD index "") session := by
  unfold inputName
  rw [List.getD_eq_getElem?_getD, List.getElem?_eq_getElem h]
  rfl

theorem integerElement_of_isInteger {dtype : DType} (h : dtype.isInteger = true) (x : Nat) :
    integerElement dtype x = .ok (Element.toInt dtype x) := by
  unfold integerElement
  unfold DType.isInteger at h
  cases hlayout : dtype.layout with
  | boolean => rfl
  | integer signed bits => rfl
  | real format =>
      rw [hlayout] at h
      cases h
  | complex format =>
      rw [hlayout] at h
      cases h

theorem exists_apply (context : Context) (session : Session) (op : Op) (operands : List Ref)
    (output : Nat) :
    ∃ ref session', apply node op operands output context session = .ok ref session' := by
  unfold apply
  rw [bind_apply, scope_apply]
  exact ⟨_, _, addNode_apply _ _⟩

/-- An integer is known, or the node is refused. -/
theorem knownInteger_cases {index : Nat} (what : String) (hindex : index < node.inputs.length)
    (hinteger : ∀ t, Scopes.tensor? (session.scope :: context.outer) (node.inputs.getD index "")
      = some t → t.dtype.isInteger = true) :
    (∃ i, Scopes.element? (session.scope :: context.outer) (node.inputs.getD index "") = some i
        ∧ knownInteger node index what context session = .ok i session)
      ∨ Scopes.element? (session.scope :: context.outer) (node.inputs.getD index "") = none
        ∧ ∃ fault, knownInteger node index what context session
          = .error (.invalidNode node.describe fault) session := by
  unfold knownInteger Scopes.element?
  rw [bind_apply, scopes_apply]
  simp only
  rw [bind_apply, inputName_apply hindex]
  simp only
  cases htensor : Scopes.tensor? (session.scope :: context.outer) (node.inputs.getD index "") with
  | none => exact .inr ⟨rfl, _, rfl⟩
  | some t =>
      simp only [Option.bind_some]
      by_cases hsize : t.data.size = 1
      · rw [if_pos hsize, if_pos hsize, integerElement_of_isInteger (hinteger t htensor)]
        exact .inl ⟨_, rfl, rfl⟩
      · rw [if_neg hsize, if_neg hsize]
        exact .inr ⟨rfl, _, rfl⟩

/-- The shape of a signal is known, or the node is refused. -/
theorem signalDims_cases (node : NodeOf Importer) (context : Context) (session : Session)
    (known : Option KnownShape) :
    (∃ batch size channels, known = some [some batch, some size, some channels]
        ∧ (channels = 1 ∨ channels = 2)
        ∧ signalDims node known context session = .ok (batch, size, channels) session)
      ∨ (¬ ∃ batch size channels, known = some [some batch, some size, some channels]
          ∧ (channels = 1 ∨ channels = 2))
        ∧ ∃ fault, signalDims node known context session
          = .error (.invalidNode node.describe fault) session := by
  unfold signalDims
  split
  · next batch size channels =>
      by_cases hchannels : channels = 1 ∨ channels = 2
      · refine .inl ⟨batch, size, channels, rfl, hchannels, ?_⟩
        rw [if_pos (by simpa using hchannels)]
        rfl
      · refine .inr ⟨?_, .signalChannels channels, ?_⟩
        · rintro ⟨_, _, _, ⟨⟩, h⟩
          exact hchannels h
        · rw [if_neg (by simpa using hchannels)]
          rfl
  · next hother =>
      refine .inr ⟨?_, .signalShape, rfl⟩
      rintro ⟨batch, size, channels, rfl, -⟩
      exact hother batch size channels rfl

/-- A window has one dimension, or the node is refused. -/
theorem windowLength_cases (node : NodeOf Importer) (context : Context) (session : Session)
    (known : Option KnownShape) :
    (∃ length, IsLength length known ∧ windowLength node known context session = .ok length session)
      ∨ (¬ ∃ length, IsLength length known)
        ∧ ∃ fault, windowLength node known context session
          = .error (.invalidNode node.describe fault) session := by
  unfold windowLength
  split
  · exact .inl ⟨none, rfl, rfl⟩
  · next length => exact .inl ⟨length, rfl, rfl⟩
  · next dims hother =>
      refine .inr ⟨?_, .windowRank, rfl⟩
      rintro ⟨length, hlength⟩
      exact hother length hlength

end

-- ================================================================ accepted

namespace PosedSpectrum

variable {node : NodeOf Importer} {context : Context} {session : Session}
  (posed : PosedSpectrum node context session)

/-- The length of the frames is determined, or the node is refused. -/
theorem frameLength_cases (size step : Int) (known : Option Int) :
    (∃ length, posed.IsFrameLength size step known length
        ∧ frameLength node size step known context posed.windowed = .ok length posed.windowed)
      ∨ (¬ ∃ length, posed.IsFrameLength size step known length)
        ∧ ∃ fault, frameLength node size step known context posed.windowed
          = .error (.invalidNode node.describe fault) posed.windowed := by
  unfold frameLength IsFrameLength
  cases hempty : (node.inputs.getD 3 "").isEmpty with
  | true => exact .inl ⟨_, rfl, rfl⟩
  | false =>
      have hindex : 3 < node.inputs.length := by
        by_contra hle
        rw [List.getD_eq_getElem?_getD, List.getElem?_eq_none (Nat.not_lt.1 hle)] at hempty
        cases hempty
      simp only [Bool.false_eq_true, if_false]
      obtain ⟨i, hi, hrun⟩ | ⟨hnone, fault, hrun⟩ :=
        knownInteger_cases "frame_length" hindex (posed.length hempty)
      · exact .inl ⟨i, hi, hrun⟩
      · refine .inr ⟨?_, fault, hrun⟩
        rintro ⟨length, hlength⟩
        cases hnone.symm.trans hlength

/-- Frames are numbered by how far they fit in. -/
theorem count_pos_iff {size length step : Int} (hstep : 0 < step) :
    0 < (size - length).fdiv step + 1 ↔ length ≤ size := by
  rw [Int.fdiv_eq_ediv_of_nonneg _ (Int.le_of_lt hstep), Int.lt_add_one_iff,
    Int.ediv_nonneg_iff_of_pos hstep, Int.sub_nonneg]

theorem IsWindow.unique {posed : PosedSpectrum node context session} {known known' : Option Int}
    (h : posed.IsWindow known) (h' : posed.IsWindow known') : known = known' := by
  unfold IsWindow at h h'
  split at h
  · next hempty =>
      rw [if_pos hempty] at h'
      rw [h, h']
  · next hgiven =>
      rw [if_neg hgiven] at h'
      cases hshape : Scopes.shape? (posed.windowed.scope :: context.outer) (node.inputs.getD 2 "") with
      | none =>
          rw [hshape] at h h'
          exact h.trans h'.symm
      | some dims =>
          rw [hshape] at h h'
          exact (List.cons.inj (h.symm.trans h')).1

theorem IsFrameLength.unique {posed : PosedSpectrum node context session} {size step : Int}
    {known : Option Int} {length length' : Int} (h : posed.IsFrameLength size step known length)
    (h' : posed.IsFrameLength size step known length') : length = length' := by
  unfold IsFrameLength at h h'
  split at h
  · next hempty =>
      rw [if_pos hempty] at h'
      rw [h, h']
  · next hgiven =>
      rw [if_neg hgiven] at h'
      exact Option.some.inj (h.symm.trans h')

section

variable {posed} {oneSided step batch size channels length : Int} {known : Option Int}

/-- Once the numbers are determined, so is whether the spectrum is valid. -/
theorem valid_iff
    (hstep : Scopes.element? (posed.heard.scope :: context.outer) (node.inputs.getD 1 "") = some step)
    (hshape : Scopes.shape? (posed.heard.scope :: context.outer) (node.inputs.getD 0 "")
      = some [some batch, some size, some channels])
    (hwindow : posed.IsWindow known) (hlength : posed.IsFrameLength size step known length) :
    posed.Valid oneSided ↔ 0 < step ∧ (channels = 1 ∨ channels = 2) ∧ (1 ≤ length ∧ length ≤ size)
      ∧ (∀ window, known = some window → length = window) ∧ (oneSided = 1 → channels ≠ 2) := by
  constructor
  · rintro ⟨step', batch', size', channels', known', length', frames⟩
    obtain rfl := Option.some.inj (hstep.symm.trans frames.isStep)
    obtain ⟨-, rfl, rfl⟩ : batch = batch' ∧ size = size' ∧ channels = channels' := by
      simpa using hshape.symm.trans frames.isShape
    obtain rfl := hwindow.unique frames.isWindow
    obtain rfl := hlength.unique frames.isLength
    exact ⟨frames.step_pos, frames.hasChannels, ⟨frames.length_pos, frames.length_le⟩, frames.fits,
      frames.real⟩
  · rintro ⟨hpositive, hchannels, ⟨hpos, hle⟩, hfits, hreal⟩
    exact ⟨step, batch, size, channels, known, length, hstep, hpositive, hshape, hchannels, hwindow,
      hlength, hpos, hle, hfits, hreal⟩

/-- The checks that are left once the window has a value, and the steps after
them, which do not fail. -/
theorem framing_settles
    (hstep : Scopes.element? (posed.heard.scope :: context.outer) (node.inputs.getD 1 "") = some step)
    (hpositive : 0 < step)
    (hshape : Scopes.shape? (posed.heard.scope :: context.outer) (node.inputs.getD 0 "")
      = some [some batch, some size, some channels])
    (hchannels : channels = 1 ∨ channels = 2) (hwindow : posed.IsWindow known) :
    Settles node (posed.Valid oneSided) (do
      let length ← frameLength node size step known
      if known.any (· ≠ length) then invalid node .windowLength
      if oneSided = 1 && isComplexShape (some [some batch, some size, some channels]) then
        invalid node .complexOneSided
      let count := (size - length).fdiv step + 1
      if length ≤ 0 || count ≤ 0 then invalid node (.noFrames size length)
      report (.framing node.describe count length step oneSided)
      let frames ← apply node (.frames length step) [posed.signal] 0
      let frames ← match posed.window with
        | some window => apply node .window [frames, window] 0
        | none => pure frames
      return .one (← apply node (.transform length (oneSided = 1)) [frames] 0) : Lower Result)
      context posed.windowed := by
  obtain ⟨length, hlength, hrun⟩ | ⟨hnone, fault, hrun⟩ := posed.frameLength_cases size step known
  · have hvalid : posed.Valid oneSided ↔ _ := valid_iff hstep hshape hwindow hlength
    refine .bind hrun (.guard (fun hne valid => ?_) fun hfits => .guard (fun hone valid => ?_)
      fun hreal => .guard (fun hnone valid => ?_) fun hframes => ?_)
    · obtain ⟨-, -, -, hsame, -⟩ := hvalid.1 valid
      cases known with
      | none => cases hne
      | some window => exact (of_decide_eq_true hne) (hsame window rfl).symm
    · obtain ⟨-, -, -, -, hreal⟩ := hvalid.1 valid
      obtain ⟨hone, htwo⟩ : oneSided = 1 ∧ channels = 2 := by simpa [isComplexShape] using hone
      exact hreal hone htwo
    · obtain ⟨-, -, ⟨hpos, hle⟩, -, -⟩ := hvalid.1 valid
      have hcount := (count_pos_iff hpositive).2 hle
      simp only [Bool.or_eq_true, decide_eq_true_eq] at hnone
      omega
    · have hp : posed.Valid oneSided := by
        refine hvalid.2 ⟨hpositive, hchannels, ?_, fun window hknown => ?_, fun hone htwo => ?_⟩
        · simp only [Bool.or_eq_true, decide_eq_true_eq, not_or, Int.not_le] at hframes
          exact ⟨hframes.1, (count_pos_iff hpositive).1 hframes.2⟩
        · rw [hknown, Option.any_some, decide_eq_true_eq, not_not] at hfits
          exact hfits.symm
        · exact hreal (by simp [hone, htwo, isComplexShape])
      have hlast (frames : Ref) (session : Session) : Settles node (posed.Valid oneSided) (do
          return .one (← apply node (.transform length (oneSided = 1)) [frames] 0) : Lower Result)
          context session := by
        obtain ⟨_, _, happly⟩ := @exists_apply node context session
          (.transform length (oneSided = 1)) [frames] 0
        exact .bind happly hp
      obtain ⟨frames, framed, hcut⟩ := @exists_apply node context
        { posed.windowed with log := posed.windowed.log
          ++ [.framing node.describe ((size - length).fdiv step + 1) length step oneSided] }
        (.frames length step) [posed.signal] 0
      refine .bind (report_apply _) (.bind hcut ?_)
      cases posed.window with
      | none => exact hlast frames framed
      | some window =>
          obtain ⟨_, _, hmultiply⟩ := @exists_apply node context framed
            .window [frames, window] 0
          exact .bind hmultiply (hlast _ _)
  · refine .refuse hrun ?_
    rintro ⟨step', _, size', _, known', length, frames⟩
    obtain rfl := Option.some.inj (hstep.symm.trans frames.isStep)
    obtain ⟨-, rfl, -⟩ : batch = _ ∧ size = size' ∧ channels = _ := by
      simpa using hshape.symm.trans frames.isShape
    obtain rfl := hwindow.unique frames.isWindow
    exact hnone ⟨length, frames.isLength⟩

end

/-- The known length of a window is checked, and all that comes after it. -/
theorem window_settles {known : Option Int → Lower Result} {oneSided : Int}
    (h : ∀ length, posed.IsWindow length →
      Settles node (posed.Valid oneSided) (known length) context posed.windowed) :
    Settles node (posed.Valid oneSided) (match posed.window with
      | some _ => do
          let length ← windowLength node (← shape (← inputName node 2))
          known length
      | none => do
          let length ← pure none
          known length) context posed.windowed := by
  obtain ⟨named, hnamed, hgets⟩ := optionalInput_eq_ok posed.windows
  rw [← hnamed]
  generalize posed.windowed.scope = middle at hgets
  cases hgets with
  | none hempty => exact .bind rfl (h none (by rw [IsWindow, if_pos hempty]))
  | @some name ref _ hname given gets =>
      have hindex : 2 < node.inputs.length := (List.getElem?_eq_some_iff.1 hname).1
      have hgiven : ¬ (node.inputs.getD 2 "").isEmpty = true := by
        rw [List.getD_eq_getElem?_getD, hname, Option.getD_some, given]
        exact Bool.false_ne_true
      refine .bind (inputName_apply hindex) (.bind rfl ?_)
      obtain ⟨length, hlength, hrun⟩ | ⟨hnone, fault, hrun⟩ := windowLength_cases node context
        posed.windowed (Scopes.shape? (posed.windowed.scope :: context.outer) (node.inputs.getD 2 ""))
      · refine .bind hrun (h length ?_)
        rw [IsWindow, if_neg hgiven]
        exact hlength
      · refine .refuse hrun ?_
        rintro ⟨_, _, _, _, length, _, frames⟩
        have hwindow := frames.isWindow
        rw [IsWindow, if_neg hgiven] at hwindow
        exact hnone ⟨length, hwindow⟩

/-- A spectrum is lowered where it is valid, and refused everywhere else. -/
theorem settles {oneSided : Int} (hside : side node = .ok oneSided) :
    Settles node (posed.Valid oneSided) (spectrum node) context session := by
  have hone : 1 < node.inputs.length := posed.arity
  have hinput : input node 0 context session = .ok posed.signal posed.heard := by
    unfold input
    rw [bind_apply, inputName_apply (Nat.zero_lt_of_lt hone)]
    exact posed.hears
  refine .of_side hside (.bind hinput ?_)
  obtain ⟨step, hstep, hrun⟩ | ⟨hnone, fault, hrun⟩ :=
    knownInteger_cases "frame_step" hone posed.step
  · refine .bind hrun (.guard (fun hle => ?_) fun hpositive => ?_)
    · rintro ⟨_, _, _, _, _, _, frames⟩
      obtain rfl := Option.some.inj (hstep.symm.trans frames.isStep)
      exact absurd frames.step_pos (Int.not_lt.2 hle)
    refine .bind (inputName_apply (Nat.zero_lt_of_lt hone)) (.bind rfl ?_)
    obtain ⟨batch, size, channels, hshape, hchannels, hrun⟩ | ⟨hnone, fault, hrun⟩ :=
      signalDims_cases node context posed.heard
        (Scopes.shape? (posed.heard.scope :: context.outer) (node.inputs.getD 0 ""))
    · refine .bind hrun (.bind posed.windows (posed.window_settles fun known hwindow => ?_))
      rw [hshape]
      exact framing_settles hstep (Int.not_le.1 hpositive) hshape hchannels hwindow
    · refine .refuse hrun ?_
      rintro ⟨_, batch, size, channels, _, _, frames⟩
      exact hnone ⟨batch, size, channels, frames.isShape, frames.hasChannels⟩
  · refine .refuse hrun ?_
    rintro ⟨step, _, _, _, _, _, frames⟩
    cases hnone.symm.trans frames.isStep

end PosedSpectrum

/-- **Exactly the valid spectra are lowered.** A spectrum whose signal and
window have values is lowered if and only if it is valid, and otherwise the
node is refused. If it cannot be told which side is asked for, that is the
error, whatever else is wrong. -/
theorem spectrum_accepts_iff {node : NodeOf Importer} {context : Context} {session : Session}
    (posed : PosedSpectrum node context session) :
    (∀ oneSided, side node = .ok oneSided →
        ((∃ result session', spectrum node context session = .ok result session')
          ↔ posed.Valid oneSided)
        ∧ (¬ posed.Valid oneSided → ∃ fault session', spectrum node context session
          = .error (.invalidNode node.describe fault) session'))
      ∧ ∀ error, side node = .error error →
        spectrum node context session = .error (.argument error) session := by
  refine ⟨fun oneSided hside => (posed.settles hside).returns_iff, fun error hside => ?_⟩
  refine (side_apply _).trans ?_
  rw [hside]

/-- Spectra of frames of a given length, one every three samples. -/
def heldNode : NodeOf Importer where
  op := "STFT"
  inputs := ["x", "s", "", "l"]
  outputs := ["y"]

/-- The signal has eight samples, and the length of the frames is known. -/
def heldSession (length : Nat) : Session where
  scope := {
    bindings := .ofList [("x", .input 0)]
    tensors := .ofList [("s", .scalar .int64 3), ("l", .scalar .int64 length)]
    declarations := .ofList [("x", ⟨some [some 1, some 8, some 1], some .float32⟩)] }

/-- It is known what the node asks for. -/
def heldPosed (length : Nat) : PosedSpectrum heldNode ⟨17, []⟩ (heldSession length) where
  signal := .input 0
  heard := heldSession length
  window := none
  windowed := heldSession length
  arity := by decide
  hears := rfl
  windows := rfl
  step := fun t ht => by
    obtain rfl := Option.some.inj ht
    rfl
  length := fun _ t ht => by
    obtain rfl := Option.some.inj ht
    rfl

/-- A frame as long as the signal is accepted, and one that is longer is
refused. -/
theorem spectrum_accepts_wholeSignal :
    ((heldPosed 8).Valid 1 ∧ ∃ result session',
        spectrum heldNode ⟨17, []⟩ (heldSession 8) = .ok result session')
      ∧ ¬ (heldPosed 9).Valid 1 ∧ ∃ fault session', spectrum heldNode ⟨17, []⟩ (heldSession 9)
        = .error (.invalidNode "STFT node 'y'" fault) session' := by
  have hvalid : (heldPosed 8).Valid 1 :=
    (@PosedSpectrum.valid_iff _ _ _ (heldPosed 8) 1 3 1 8 1 8 none rfl rfl rfl rfl).2
      ⟨by decide, .inl rfl, by decide, fun _ hnone => (nomatch hnone), by decide⟩
  have hinvalid : ¬ (heldPosed 9).Valid 1 := fun valid => by
    obtain ⟨-, -, ⟨-, hle⟩, -⟩ :=
      (@PosedSpectrum.valid_iff _ _ _ (heldPosed 9) 1 3 1 8 1 9 none rfl rfl rfl rfl).1 valid
    exact absurd hle (by decide)
  obtain ⟨haccepts, -⟩ := (spectrum_accepts_iff (heldPosed 8)).1 1 rfl
  obtain ⟨-, hrefuses⟩ := (spectrum_accepts_iff (heldPosed 9)).1 1 rfl
  exact ⟨⟨hvalid, haccepts.2 hvalid⟩, hinvalid, hrefuses hinvalid⟩

/-- Spectra of a side that is no number. -/
def sidelessNode : NodeOf Importer where
  op := "STFT"
  inputs := ["x", "s"]
  outputs := ["y"]
  attributes := [("onesided", .text [0x78])]

/-- The signal has two dimensions only. -/
def flatSession : Session where
  scope := {
    bindings := .ofList [("x", .input 0)]
    tensors := .ofList [("s", .scalar .int64 3)]
    declarations := .ofList [("x", ⟨some [some 1, some 8], some .float32⟩)] }

/-- Whatever the side, there is no spectrum of such a signal, but the node is
not refused for it. -/
theorem spectrum_leaks_side :
    ∃ posed : PosedSpectrum sidelessNode ⟨17, []⟩ flatSession, (∀ oneSided, ¬ posed.Valid oneSided)
      ∧ spectrum sidelessNode ⟨17, []⟩ flatSession = .error (.argument .notNumber) flatSession := by
  refine ⟨{
    signal := .input 0
    heard := flatSession
    window := none
    windowed := flatSession
    arity := by decide
    hears := rfl
    windows := rfl
    step := fun t ht => by
      obtain rfl := Option.some.inj ht
      rfl
    length := fun hgiven => nomatch hgiven }, ?_, ?_⟩
  · rintro oneSided ⟨_, _, _, _, _, _, frames⟩
    cases frames.isShape
  · refine (side_apply _).trans ?_
    rw [show side sidelessNode = .error .notNumber from rfl]

end Handler

end OnnxLowering
