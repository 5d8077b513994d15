/-
Spectra that take their length from the window. Where a node says no
length, the frames have that of the window as far as it is known when the
graph is lowered, and else as many samples as there would be whole steps.
A run computes the short-time spectra of the length that was taken then
(`Windowed.returns_iff`), whatever window it is given. So it returns those
of the window's own length exactly if the two lengths are the same
(`spectrum_window`): a window of another length is refused, except where it
or the frames have a single entry, which is stretched.
-/
import OnnxLowering.Proofs.Handler.Framing
import OnnxLowering.Proofs.Signal.Windows

namespace OnnxLowering

namespace Handler

variable {node : NodeOf Importer} {values : Attributes} {outer : Scopes} {scope scope' : Scope}
  {result : Result}

namespace AppliedSpectrum

/-- A run returns a tensor as the value of the spectrum. -/
def Returns (_ : AppliedSpectrum node values outer scope scope' result) (m : ModuleOf Meaning)
    (hidden : String → Option Operand) (inputs : List Operand) (done : List Value) (t : Tensor) :
    Prop :=
  ∃ after, m.evalFrom hidden inputs done (scope'.nodes.drop done.length) = .ok after
    ∧ ∃ out, result = .one out ∧ out.value inputs after = t.asValue

/-- What a spectrum with a window is computed from: a signal of the declared
shape, and a window of any length. -/
structure Windowed (applied : AppliedSpectrum node values outer scope scope' result)
    (inputs : List Operand) (done : List Value) (signal w : Tensor)
    (batch size channels count : Nat) : Prop where
  nodes : done.length = applied.middle.nodes.length
  signalValue : applied.signal.value inputs done = signal.asValue
  shape : signal.shape = [batch, size, channels]
  declared : applied.dims = ((batch : Int), (size : Int), (channels : Int))
  windowValue : applied.window.map (fun entry => entry.2.value inputs done) = some w.asValue
  windowShape : w.shape = [count]

variable {applied : AppliedSpectrum node values outer scope scope' result}
  {m : ModuleOf Meaning} {hidden : String → Option Operand} {inputs : List Operand}
  {done after : List Value} {signal w t : Tensor} {batch size channels count length step : Nat}

/-- The values of the three nodes of a spectrum with a window. -/
theorem Windowed.evalFrom_eq_ok
    (fed : applied.Windowed inputs done signal w batch size channels count) :
    m.evalFrom hidden inputs done (scope'.nodes.drop done.length) = .ok after ↔
      ∃ cut, signal.frames applied.length applied.step = .ok cut ∧
        ∃ framed, cut.applyWindow w = .ok framed ∧
          ∃ t, framed.transform applied.length (applied.oneSided = 1) = .ok t
            ∧ after = done ++ [cut.asValue, framed.asValue, t.asValue] := by
  obtain ⟨hnodes, hframes, -⟩ := applied.nodes_eq
  obtain ⟨⟨name, ref⟩, hsome, hw⟩ := Option.map_eq_some_iff.1 fed.windowValue
  rw [fed.nodes, hnodes, hframes, List.append_assoc, List.drop_left, ← fed.nodes]
  simp only [hsome, Option.toList_some, List.map_cons, List.map_nil, List.cons_append,
    List.nil_append, List.length_cons, List.length_nil]
  have hcut : (Op.frames applied.length applied.step).eval ([applied.signal].map (Ref.value inputs done))
      = (signal.frames applied.length applied.step).map Tensor.asValue := by
    rw [List.map_singleton, fed.signalValue, Op.eval_frames]
  have hframed (cut : Tensor) : Op.window.eval ([.node done.length, ref].map (Ref.value inputs
      (done ++ [cut.asValue]))) = (cut.applyWindow w).map Tensor.asValue := by
    rw [List.map_cons, List.map_singleton, Ref.value_append hw, Ref.value_node_length,
      Op.eval_window]
  have hlast (cut framed : Tensor) : (Op.transform applied.length (applied.oneSided = 1)).eval
      ([Ref.node (done.length + 1)].map (Ref.value inputs (done ++ [cut.asValue] ++ [framed.asValue])))
      = (framed.transform applied.length (applied.oneSided = 1)).map Tensor.asValue := by
    have hnext := @Ref.value_node_length inputs (done ++ [cut.asValue]) framed
    rw [List.length_append, List.length_singleton] at hnext
    rw [List.map_singleton, hnext, Op.eval_transform]
  rw [ModuleOf.evalFrom_apply_eq_ok rfl hcut]
  refine exists_congr fun cut => and_congr_right fun _ => ?_
  rw [ModuleOf.evalFrom_apply_eq_ok rfl (hframed cut)]
  refine exists_congr fun framed => and_congr_right fun _ => ?_
  rw [ModuleOf.evalFrom_apply_eq_ok rfl (hlast cut framed)]
  refine exists_congr fun t => and_congr_right fun _ => ?_
  show Except.ok _ = _ ↔ _
  rw [Except.ok.injEq, eq_comm]
  simp only [List.append_assoc, List.cons_append, List.nil_append]

/-- A run returns the short-time spectra of the length that the frames were
given when the graph was lowered. -/
theorem Windowed.returns_iff
    (fed : applied.Windowed inputs done signal w batch size channels count) :
    applied.Returns m hidden inputs done t ↔
      signal.shortTime w applied.length applied.step (applied.oneSided = 1) = .ok t := by
  obtain ⟨-, -, hresult⟩ := applied.nodes_eq
  obtain ⟨_, hsome, -⟩ := Option.map_eq_some_iff.1 fed.windowValue
  have hvalue (cut framed u : Tensor) : (Ref.node (applied.middle.nodes.length
      + (applied.window.toList.length + 1))).value inputs
        (done ++ [cut.asValue, framed.asValue, u.asValue]) = u.asValue := by
    rw [hsome, ← fed.nodes]
    exact Ref.value_node rfl
  unfold Returns Tensor.shortTime
  simp only [fed.evalFrom_eq_ok, Except.bind_eq_ok]
  constructor
  · rintro ⟨_, ⟨cut, hcut, framed, hframed, u, hu, rfl⟩, out, hout, ht⟩
    obtain rfl : out = _ := Result.one.inj (hout.symm.trans hresult)
    obtain rfl : u = t := Option.some.inj (Value.one.inj ((hvalue _ _ _).symm.trans ht))
    exact ⟨cut, hcut, framed, hframed, hu⟩
  · rintro ⟨cut, hcut, framed, hframed, ht⟩
    exact ⟨_, ⟨cut, hcut, framed, hframed, t, ht, rfl⟩, _, hresult, hvalue _ _ _⟩

end AppliedSpectrum

/-- Short-time spectra with a window of the length of the frames: the frames
are multiplied by the window as the signal's type has it, and transformed
at their full length. -/
theorem spectra_of_shortTime {signal w t : Tensor} {batch size channels count step : Nat}
    {oneSided : Bool} (hsignal : signal.dtype.IsSignal) (hshape : signal.shape = [batch, size, channels])
    (hw : w.shape = [count]) (hchannels : channels = 1 ∨ channels = 2)
    (hreal : oneSided = true → channels = 1) (h : signal.shortTime w count step oneSided = .ok t) :
    ∃ framed, FramesOf signal (some (w.cast signal.dtype)) batch size channels count step framed
      ∧ SpectraOf framed batch ((size - count) / step + 1) count channels
        (if oneSided then count / 2 + 1 else count) t := by
  obtain ⟨-, hcount, -⟩ := Tensor.shortTime_shape hshape hw h
  obtain ⟨cut, hcut, h⟩ := Except.bind_eq_ok.1 h
  obtain ⟨framed, hframed, h⟩ := Except.bind_eq_ok.1 h
  obtain ⟨-, hle, hstep⟩ := Tensor.frames_shape hshape hcut
  obtain ⟨-, -, rfl⟩ := (Tensor.frames_eq_ok hshape hle hstep).1 hcut
  rw [← Tensor.applyWindow_cast] at hframed
  change Tensor.applyWindow _ (w.cast signal.dtype) = _ at hframed
  rw [Tensor.applyWindow_eq hsignal (w := w.cast signal.dtype) hw rfl] at hframed
  obtain rfl := Except.ok.inj hframed
  obtain ⟨-, -, rfl⟩ := (@Tensor.transform_eq_ok
    (signal.cutFrames (some (w.cast signal.dtype)) batch size channels count step) t _ _ _ _
    oneSided rfl hsignal hchannels hreal hcount).1 h
  exact ⟨signal.cutFrames (some (w.cast signal.dtype)) batch size channels count step,
    ⟨rfl, rfl, fun b hb k hk i hi c hc => Tensor.get_cutFrames hb hk hi hc⟩,
    ⟨rfl, rfl, fun b hb k hk j hj => Tensor.get_spectra hb hk hj⟩⟩

/-- **The length of the window.** A spectrum that says no length of its own
is lowered to frames of the length that the window is known to have, or
else of a length that depends on the signal and the step only. What a run
returns are the short-time spectra of the frames of that length. They are
those of frames as long as the window if and only if the window has that
length; if it has not, something is returned only where the window or the
frames have a single entry. So the same spectrum, lowered where the length
of the window is known, returns the same if and only if the length that
was taken without knowing it is the right one. -/
theorem spectrum_window {context : Context} {session session' : Session}
    (h : spectrum node context session = .ok result session')
    (hunsaid : (node.inputs.getD 3 "").isEmpty = true) :
    ∃ values, node.values = .ok values ∧ ∃ applied : AppliedSpectrum node values context.outer
        session.scope session'.scope result,
      applied.length = applied.windowSize.getD (applied.dims.2.1.fdiv applied.step)
      ∧ ∀ (m : ModuleOf Meaning) (hidden : String → Option Operand) (inputs : List Operand)
        (done : List Value) (signal w : Tensor) (batch size channels count : Nat),
      applied.Windowed inputs done signal w batch size channels count →
      ∃ length step : Nat, applied.length = length ∧ applied.step = step ∧ ∀ t : Tensor,
        (applied.Returns m hidden inputs done t
          ↔ signal.shortTime w length step (applied.oneSided = 1) = .ok t)
        ∧ (applied.Returns m hidden inputs done t →
          (count = length ∨ count = 1 ∨ length = 1)
          ∧ (signal.shortTime w count step (applied.oneSided = 1) = .ok t ↔ count = length)
          ∧ (signal.dtype.IsSignal → count = length → ∃ framed,
            FramesOf signal (some (w.cast signal.dtype)) batch size channels count step framed
            ∧ SpectraOf framed batch ((size - count) / step + 1) count channels
              (if applied.oneSided = 1 then count / 2 + 1 else count) t)
          ∧ ∀ {outer' : Scopes} {scope scope' : Scope} {result' : Result}
              (known : AppliedSpectrum node values outer' scope scope' result')
              {m' : ModuleOf Meaning} {hidden' : String → Option Operand} {inputs' : List Operand}
              {done' : List Value} {t' : Tensor},
            known.windowSize = some (count : Int) → known.step = applied.step →
            known.Windowed inputs' done' signal w batch size channels count →
            known.Returns m' hidden' inputs' done' t' → (t' = t ↔ count = length)) := by
  obtain ⟨values, hvalues, ⟨applied⟩⟩ := spectrum_eq_ok h
  have hlength := applied.isLength
  rw [if_pos hunsaid] at hlength
  refine ⟨values, hvalues, applied, hlength,
    fun m hidden inputs done signal w batch size channels count fed => ?_⟩
  obtain ⟨length, step, hl, hs, -, -, -, hchannels, hreal⟩ := applied.numbers fed.declared
  have hreturns {t : Tensor} := @AppliedSpectrum.Windowed.returns_iff _ _ _ _ _ _ applied m hidden
    inputs done signal w t batch size channels count fed
  rw [hl, hs] at hreturns
  refine ⟨length, step, hl, hs, fun t => ⟨hreturns, fun hruns => ?_⟩⟩
  have hspectra := hreturns.1 hruns
  have hown : signal.shortTime w count step (applied.oneSided = 1) = .ok t ↔ count = length :=
    ⟨Tensor.eq_of_shortTime fed.shape fed.windowShape hspectra, fun heq => heq ▸ hspectra⟩
  refine ⟨(Tensor.shortTime_shape fed.shape fed.windowShape hspectra).1, hown,
    fun hsignal heq => ?_, ?_⟩
  · obtain ⟨framed, hframed, ht⟩ := spectra_of_shortTime hsignal fed.shape fed.windowShape hchannels
      (fun hone => hreal (of_decide_eq_true hone)) (hown.2 heq)
    simp only [decide_eq_true_eq] at ht
    exact ⟨framed, hframed, ht⟩
  · intro _ _ _ _ known m' hidden' inputs' done' t' hknown hstep fed' hruns'
    have hone : known.oneSided = applied.oneSided :=
      Outcome.ok.inj (known.isOneSided.symm.trans applied.isOneSided)
    have hsame : known.length = count := (known.fits.window _ hknown).symm
    have hspectra' := fed'.returns_iff.1 hruns'
    rw [hsame, hstep, hs, hone] at hspectra'
    rw [← hown, hspectra', Except.ok.injEq]

/-- Where the length of the window is not known, frames of eight samples with
a step of two have a length of four. -/
theorem spectrum_window_unknown :
    ∃ result session', spectrum complexNode ⟨17, []⟩ (windowedSession 2 none) = .ok result session'
      ∧ ∀ (m : ModuleOf Meaning) (hidden : String → Option Operand) (signal w t : Tensor)
        (count : Nat) (after : List Value) (out : Ref), signal.shape = [1, 8, 2] → w.shape = [count] →
        m.evalFrom hidden [some signal, some w] [] session'.scope.nodes = .ok after →
        result = .one out → out.value [some signal, some w] after = t.asValue →
        (signal.shortTime w count 2 false = .ok t ↔ count = 4) := by
  obtain ⟨result, session', hrun⟩ := Lower.exists_of_succeeds
    (show (spectrum complexNode).succeeds ⟨17, []⟩ (windowedSession 2 none) = true by decide +kernel)
  refine ⟨result, session', hrun,
    fun m hidden signal w t count after out hsignal hw heval hresult hvalue => ?_⟩
  obtain ⟨values, hvalues, applied, -, hwindow⟩ := spectrum_window hrun rfl
  obtain ⟨href, hentry, hmiddle, hdims, hsize, hstep, hone, hlength⟩ :=
    applied_windowedSession hvalues applied
  obtain ⟨length, step, hl, hs, hreturns⟩ := hwindow m hidden [some signal, some w] [] signal w
    1 8 2 count {
      nodes := by rw [hmiddle]; rfl
      signalValue := by rw [href]; rfl
      shape := hsignal
      declared := hdims
      windowValue := by rw [hentry]; rfl
      windowShape := hw }
  have hstep' : applied.step = (2 : Nat) := (Except.ok.inj hstep).symm
  obtain rfl : step = 2 := Int.ofNat.inj (hs.symm.trans hstep')
  rw [show applied.windowSize = none from hsize, hdims, hstep'] at hlength
  obtain rfl : length = 4 := Int.ofNat.inj (hl.symm.trans hlength)
  have hown := ((hreturns t).2 ⟨after, heval, out, hresult, hvalue⟩).2.1
  rwa [hone] at hown

end Handler

-- ============================================================ short windows

/-- A real signal of four samples with a step of two, and a window of which
nothing is known. -/
def shortWindowGraph : Graph :=
  ⟨{ nodes := [{ op := "STFT", inputs := ["x", "st", "w"], outputs := ["y"] }]
     inputs := [{ name := "x", shape := some [.value 1, .value 4, .value 1] }, { name := "w" }]
     outputs := [{ name := "y" }]
     initializers := [("st", ⟨7, [], .integers [2]⟩)] }⟩

/-- The tensor that a module returns, if it returns one and nothing else. -/
def ModuleOf.returned? (m : Module) (arguments : List Operand) : Option Tensor :=
  match m.eval arguments with
  | .ok (.single operand) => operand
  | _ => none

theorem ModuleOf.eval_of_returned? {m : Module} {arguments : List Operand} {t : Tensor}
    (h : m.returned? arguments = some t) : m.eval arguments = .ok (.single (some t)) := by
  unfold returned? at h
  split at h
  · next heval => rw [heval, h]
  · cases h

/-- A window of one entry is stretched to frames of two samples. The frames
of its own length, of which there are as many, have one component each, and
not two. -/
theorem lower_shortWindow :
    ∃ m t u, (shortWindowGraph.lower Handlers.standard 17 false).1 = .ok m
      ∧ m.eval [some (.ofFn .float32 [1, 4, 1] fun _ => 0), some (.ofFn .float32 [1] fun _ => 0)]
        = .ok (.single (some t))
      ∧ (Tensor.ofFn .float32 [1, 4, 1] fun _ => 0).shortTime (.ofFn .float32 [1] fun _ => 0) 1 2 true
        = .ok u
      ∧ t.shape = [1, 2, 2, 2] ∧ u.shape = [1, 2, 1, 2] := by
  obtain ⟨m, hm, htest⟩ : ∃ m, (shortWindowGraph.lower Handlers.standard 17 false).1 = .ok m
      ∧ (m.returned? [some (.ofFn .float32 [1, 4, 1] fun _ => 0),
          some (.ofFn .float32 [1] fun _ => 0)]).any (·.shape = [1, 2, 2, 2]) = true :=
    Except.exists_of_test (by decide +kernel)
  obtain ⟨t, ht, hframes⟩ := (Option.any_eq_true _ _).1 htest
  obtain ⟨u, hu, hshape⟩ : ∃ u, (Tensor.ofFn .float32 [1, 4, 1] fun _ => 0).shortTime
      (.ofFn .float32 [1] fun _ => 0) 1 2 true = .ok u ∧ decide (u.shape = [1, 2, 1, 2]) = true :=
    Except.exists_of_test (by decide +kernel)
  exact ⟨m, t, u, hm, ModuleOf.eval_of_returned? ht, hu, of_decide_eq_true hframes,
    of_decide_eq_true hshape⟩

end OnnxLowering
