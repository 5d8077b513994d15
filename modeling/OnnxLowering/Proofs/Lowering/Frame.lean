/-
What a step of the lowering does not touch. A step `Reads` if it leaves
the scope of the graph alone, whatever its outcome; the scopes around are
not a step's to change at all. A step `RefusesCleanly` if it leaves the
scope alone whenever it refuses a node: it is enough that nothing which
writes comes before the last check, and that nothing refuses after that.
-/
import OnnxLowering.Proofs.Lowering.Steps

namespace OnnxLowering.Lower

variable {α β : Type} {context : Context} {session session' : Session}

/-- The scope of the graph after a step, and the scopes around it. -/
def scopesAfter (x : Lower α) (context : Context) (session : Session) : Scopes :=
  match x context session with
  | .ok _ session' => session'.scope :: context.outer
  | .error _ session' => session'.scope :: context.outer

/-- Whatever comes of a step, the scopes are what they were. -/
def Reads (x : Lower α) : Prop :=
  ∀ context session, x.scopesAfter context session = session.scope :: context.outer

/-- A step refuses no node. -/
def NeverRefuses (x : Lower α) : Prop :=
  ∀ context session description fault session',
    x context session ≠ .error (.invalidNode description fault) session'

/-- The node that a step refuses, as it is described, the reason, and what
has been reported until then. -/
def refusal? (x : Lower α) (context : Context) (session : Session) :
    Option (String × NodeFault × List LogRecord) :=
  match x context session with
  | .error (.invalidNode description fault) session' => some (description, fault, session'.log)
  | _ => none

theorem exists_of_refusal? {x : Lower α} {description : String} {fault : NodeFault}
    {log : List LogRecord} (h : x.refusal? context session = some (description, fault, log)) :
    ∃ session', x context session = .error (.invalidNode description fault) session'
      ∧ session'.log = log := by
  unfold refusal? at h
  split at h
  · next hx =>
      cases h
      exact ⟨_, hx, rfl⟩
  · cases h

/-- When a step refuses a node, the scopes are what they were. -/
def RefusesCleanly (x : Lower α) : Prop :=
  ∀ context session description fault session',
    x context session = .error (.invalidNode description fault) session' →
      x.scopesAfter context session = session.scope :: context.outer

theorem bind_eq_error {x : Lower α} {f : α → Lower β} {error : LowerError} :
    (x >>= f) context session = .error error session' ↔
      x context session = .error error session'
        ∨ ∃ a middle, x context session = .ok a middle
            ∧ f a context middle = .error error session' := by
  rw [bind_apply]
  cases hx : x context session with
  | ok a middle =>
      refine ⟨fun h => .inr ⟨a, middle, rfl, h⟩, ?_⟩
      rintro (h | ⟨_, _, h, hf⟩)
      · cases h
      · cases h
        exact hf
  | error error' middle =>
      constructor
      · intro h
        cases h
        exact .inl rfl
      · rintro (h | ⟨_, _, h, -⟩)
        · cases h
          rfl
        · cases h

-- ================================================================ reading

namespace Reads

variable {x : Lower α}

theorem scope_of_ok (h : x.Reads) {a : α} (hx : x context session = .ok a session') :
    session'.scope = session.scope := by
  have hscopes := h context session
  rw [scopesAfter, hx] at hscopes
  exact (List.cons.inj hscopes).1

theorem scopesAfter_bind {f : α → Lower β} (h : x.Reads)
    (hf : ∀ a middle, x context session = .ok a middle →
      (f a).scopesAfter context middle = middle.scope :: context.outer) :
    (x >>= f).scopesAfter context session = session.scope :: context.outer := by
  have hscopes := h context session
  unfold scopesAfter at hscopes ⊢
  rw [bind_apply]
  cases hx : x context session with
  | ok a middle => exact (hf a middle hx).trans (by rw [h.scope_of_ok hx])
  | error error middle =>
      rw [hx] at hscopes
      exact hscopes

theorem bind {f : α → Lower β} (h : x.Reads) (hf : ∀ a, (f a).Reads) : (x >>= f).Reads :=
  fun context _ => h.scopesAfter_bind fun a middle _ => hf a context middle

theorem pure (a : α) : (pure a : Lower α).Reads := fun _ _ => rfl

theorem throw (error : LowerError) : (throw error : Lower α).Reads := fun _ _ => rfl

theorem opset : opset.Reads := fun _ _ => rfl

theorem scopes : scopes.Reads := fun _ _ => rfl

theorem report (record : LogRecord) : (report record).Reads := fun _ _ => rfl

theorem ofExcept {ε : Type} (wrap : ε → LowerError) (result : Except ε α) :
    (ofExcept wrap result).Reads := by
  cases result with
  | ok a => exact pure a
  | error error => exact throw _

theorem ite {c : Prop} [Decidable c] {y : Lower α} (h : x.Reads) (hy : y.Reads) :
    (if c then x else y).Reads := by
  split
  · exact h
  · exact hy

/-- A check in front of a step. -/
theorem guard {c : Prop} [Decidable c] {error : LowerError} (h : x.Reads) :
    (if c then (MonadExcept.throw error : Lower PUnit) >>= fun _ => x else x).Reads :=
  ((throw error).bind fun _ => h).ite h

theorem guard' {c : Prop} [Decidable c] {error : LowerError} (h : x.Reads) :
    (if c then x else (MonadExcept.throw error : Lower PUnit) >>= fun _ => x).Reads :=
  h.ite ((throw error).bind fun _ => h)

theorem mapM {f : α → Lower β} (h : ∀ a, (f a).Reads) (as : List α) : (as.mapM f).Reads := by
  induction as with
  | nil => exact pure []
  | cons a as ih =>
      rw [List.mapM_cons]
      exact (h a).bind fun b => ih.bind fun bs => pure (b :: bs)

theorem reports (records : List LogRecord) :
    (forIn records PUnit.unit fun record _ => do
      Lower.report record
      Pure.pure (ForInStep.yield PUnit.unit) : Lower PUnit).Reads := by
  induction records with
  | nil => exact pure _
  | cons record records ih =>
      rw [List.forIn_cons]
      exact ((report record).bind fun _ => pure _).bind fun step => by
        cases step with
        | done u => exact pure u
        | yield u => exact ih

end Reads

theorem attributes_reads {G : Type} (node : NodeOf G) : (attributes node).Reads := .ofExcept _ _

theorem shape_reads (name : String) : (shape name).Reads := Reads.scopes.bind fun _ => .pure _

-- =============================================================== refusals

namespace NeverRefuses

variable {x : Lower α}

theorem bind {f : α → Lower β} (h : x.NeverRefuses) (hf : ∀ a, (f a).NeverRefuses) :
    (x >>= f).NeverRefuses := by
  intro context session description fault session' herror
  rcases bind_eq_error.1 herror with hx | ⟨a, middle, -, ha⟩
  · exact h _ _ _ _ _ hx
  · exact hf a _ _ _ _ _ ha

theorem pure (a : α) : (pure a : Lower α).NeverRefuses := fun _ _ _ _ _ h => nomatch h

theorem throw {error : LowerError} (h : ∀ description fault, error ≠ .invalidNode description fault) :
    (throw error : Lower α).NeverRefuses := by
  intro context session description fault session' herror
  cases herror
  exact h description fault rfl

theorem read : (read : Lower Context).NeverRefuses := fun _ _ _ _ _ h => nomatch h

theorem opset : opset.NeverRefuses := fun _ _ _ _ _ h => nomatch h

theorem scope : scope.NeverRefuses := fun _ _ _ _ _ h => nomatch h

theorem modifyScope (f : Scope → Scope) : (modifyScope f).NeverRefuses :=
  fun _ _ _ _ _ h => nomatch h

theorem withScope (f : Scope → α × Scope) : (withScope f).NeverRefuses :=
  fun _ _ _ _ _ h => nomatch h

theorem report (record : LogRecord) : (report record).NeverRefuses := fun _ _ _ _ _ h => nomatch h

theorem ite {c : Prop} [Decidable c] {y : Lower α} (h : x.NeverRefuses) (hy : y.NeverRefuses) :
    (if c then x else y).NeverRefuses := by
  split
  · exact h
  · exact hy

/-- A check in front of a step that is not one of a node. -/
theorem guard {c : Prop} [Decidable c] {error : LowerError}
    (herror : ∀ description fault, error ≠ .invalidNode description fault) (h : x.NeverRefuses) :
    (if c then (MonadExcept.throw error : Lower PUnit) >>= fun _ => x else x).NeverRefuses :=
  ((throw herror).bind fun _ => h).ite h

theorem mapM {f : α → Lower β} (h : ∀ a, (f a).NeverRefuses) (as : List α) :
    (as.mapM f).NeverRefuses := by
  induction as with
  | nil => exact pure []
  | cons a as ih =>
      rw [List.mapM_cons]
      exact (h a).bind fun b => ih.bind fun bs => pure (b :: bs)

end NeverRefuses

namespace RefusesCleanly

variable {x : Lower α}

theorem throw_bind (error : LowerError) (f : α → Lower β) :
    (throw error >>= f).RefusesCleanly := fun _ _ _ _ _ _ => rfl

/-- A step after one that can only have certain values. -/
theorem bind_of_forall {P : α → Prop} {f : α → Lower β} (h : x.Reads)
    (hP : ∀ context session a session', x context session = .ok a session' → P a)
    (hf : ∀ a, P a → (f a).RefusesCleanly) : (x >>= f).RefusesCleanly := by
  intro context session description fault session' herror
  refine h.scopesAfter_bind fun a middle ha => ?_
  rcases bind_eq_error.1 herror with hx | ⟨_, _, hx, hrest⟩
  · rw [ha] at hx
    cases hx
  · rw [ha] at hx
    cases hx
    exact hf a (hP _ _ _ _ ha) _ _ _ _ _ hrest

theorem bind {f : α → Lower β} (h : x.Reads) (hf : ∀ a, (f a).RefusesCleanly) :
    (x >>= f).RefusesCleanly :=
  bind_of_forall h (fun _ _ _ _ _ => trivial) fun a _ => hf a

theorem guard {c : Prop} [Decidable c] {error : LowerError} (h : x.RefusesCleanly) :
    (if c then (throw error : Lower PUnit) >>= fun _ => x else x).RefusesCleanly := by
  split
  · exact .throw_bind _ _
  · exact h

end RefusesCleanly

end OnnxLowering.Lower
