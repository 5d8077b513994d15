/-
What a reference semantics says of a computation: that it has a certain
value, that it fails, or nothing. Which error a failure is does not
matter. Where the reference says nothing, everything is right.

`Realises R x o` holds if the computation `x` does what `o` says, up to
the relation `R` between the values of the two. It follows the structure
of computations: sequences (`Realises.bind`), lists (`Realises.mapM`) and
loops (`Realises.foldlM`), so that a simulation is put together from
those of its steps.
-/
import OnnxLowering.Proofs.Except

namespace OnnxLowering

inductive Outcome (α : Type) where
  | ok (value : α)
  | failed
  | unspecified
deriving DecidableEq, Repr

namespace Outcome

variable {α β : Type}

protected def bind : Outcome α → (α → Outcome β) → Outcome β
  | ok value, f => f value
  | failed, _ => failed
  | unspecified, _ => unspecified

instance : Monad Outcome where
  pure := ok
  bind := Outcome.bind

instance : LawfulMonad Outcome :=
  LawfulMonad.mk' _ (fun x => by cases x <;> rfl) (fun _ _ => rfl)
    (fun x _ _ => by cases x <;> rfl)

@[simp] theorem pure_eq (value : α) : (pure value : Outcome α) = ok value := rfl

@[simp] theorem ok_bind (value : α) (f : α → Outcome β) : (ok value >>= f) = f value := rfl

@[simp] theorem failed_bind (f : α → Outcome β) : (failed >>= f) = failed := rfl

@[simp] theorem unspecified_bind (f : α → Outcome β) :
    (unspecified >>= f) = unspecified := rfl

theorem bind_eq_ok {x : Outcome α} {f : α → Outcome β} {b : β} :
    (x >>= f) = ok b ↔ ∃ a, x = ok a ∧ f a = ok b := by
  cases x with
  | ok a =>
      refine ⟨fun h => ⟨a, rfl, h⟩, ?_⟩
      rintro ⟨_, h, hf⟩
      cases h
      exact hf
  | failed => exact ⟨fun h => (nomatch h), fun ⟨_, h, _⟩ => (nomatch h)⟩
  | unspecified => exact ⟨fun h => (nomatch h), fun ⟨_, h, _⟩ => (nomatch h)⟩

theorem mapM_ok (f : α → β) (as : List α) : (as.mapM fun a => ok (f a)) = ok (as.map f) :=
  List.mapM_pure

theorem mapM_eq_ok {f : α → Outcome β} {as : List α} {bs : List β} :
    as.mapM f = ok bs ↔ List.Forall₂ (fun a b => f a = ok b) as bs := by
  induction as generalizing bs with
  | nil =>
      rw [List.mapM_nil, List.forall₂_nil_left_iff]
      exact ⟨fun h => (Outcome.ok.inj h).symm, fun h => h ▸ rfl⟩
  | cons a as ih =>
      rw [List.mapM_cons, bind_eq_ok]
      constructor
      · rintro ⟨b, hb, h⟩
        obtain ⟨rest, hrest, h⟩ := bind_eq_ok.1 h
        cases h
        exact .cons hb (ih.1 hrest)
      · intro h
        cases h with
        | cons hb hrest => exact ⟨_, hb, bind_eq_ok.2 ⟨_, ih.2 hrest, rfl⟩⟩

/-- The outcome of a computation that is its own reference. -/
def ofExcept {ε : Type} : Except ε α → Outcome α
  | .ok value => ok value
  | .error _ => failed

theorem ofExcept_eq_ok {ε : Type} {x : Except ε α} {a : α} :
    ofExcept x = ok a ↔ x = .ok a := by
  cases x with
  | ok b => exact ⟨fun h => congrArg Except.ok (Outcome.ok.inj h), fun h => Except.ok.inj h ▸ rfl⟩
  | error e => exact ⟨fun h => (nomatch h), fun h => (nomatch h)⟩

instance {o : Outcome α} {P : α → Prop} [∀ a, Decidable (P a)] :
    Decidable (∀ a, o = ok a → P a) :=
  match o with
  | ok a => decidable_of_iff (P a) ⟨fun h _ heq => Outcome.ok.inj heq ▸ h, fun h => h a rfl⟩
  | failed => isTrue fun _ heq => nomatch heq
  | unspecified => isTrue fun _ heq => nomatch heq

/-- Says nothing unless a condition holds. -/
def require (condition : Prop) [Decidable condition] : Outcome Unit :=
  if condition then ok () else unspecified

/-- Fails unless a condition holds. -/
def demand (condition : Prop) [Decidable condition] : Outcome Unit :=
  if condition then ok () else failed

theorem demand_bind_eq_ok {condition : Prop} [Decidable condition] {f : Unit → Outcome β}
    {b : β} : (demand condition >>= f) = ok b ↔ condition ∧ f () = ok b := by
  unfold demand
  by_cases hc : condition
  · rw [if_pos hc, ok_bind]
    exact ⟨fun h => ⟨hc, h⟩, And.right⟩
  · rw [if_neg hc]
    exact ⟨fun h => (nomatch h), fun h => absurd h.1 hc⟩

theorem require_bind_eq_ok {condition : Prop} [Decidable condition] {f : Unit → Outcome β}
    {b : β} : (require condition >>= f) = ok b ↔ condition ∧ f () = ok b := by
  unfold require
  by_cases hc : condition
  · rw [if_pos hc, ok_bind]
    exact ⟨fun h => ⟨hc, h⟩, And.right⟩
  · rw [if_neg hc]
    exact ⟨fun h => (nomatch h), fun h => absurd h.1 hc⟩

/-- An outcome says something. -/
def Says (o : Outcome α) : Prop := o ≠ unspecified

theorem says_ok (a : α) : Says (ok a) := fun h => nomatch h

theorem says_failed : Says (failed : Outcome α) := fun h => nomatch h

theorem says_ofExcept {ε : Type} (x : Except ε α) : Says (ofExcept x) := by
  cases x with
  | ok a => exact says_ok a
  | error e => exact says_failed

theorem says_demand (condition : Prop) [Decidable condition] : Says (demand condition) := by
  unfold demand
  split
  · exact says_ok ()
  · exact says_failed

theorem Says.bind {o : Outcome α} {f : α → Outcome β} (h : o.Says)
    (hf : ∀ a, o = ok a → (f a).Says) : (o >>= f).Says := by
  cases o with
  | ok a => exact hf a rfl
  | failed => exact says_failed
  | unspecified => exact absurd rfl h

theorem says_require {condition : Prop} [Decidable condition] (h : condition) :
    Says (require condition) := by
  unfold require
  rw [if_pos h]
  exact says_ok ()

theorem says_mapM {f : α → Outcome β} (hf : ∀ a, (f a).Says) (as : List α) : (as.mapM f).Says := by
  induction as with
  | nil => exact says_ok []
  | cons a as ih =>
      rw [List.mapM_cons]
      exact (hf a).bind fun _ _ => ih.bind fun _ _ => says_ok _

theorem says_foldlM {f : β → α → Outcome β} {as : List α} (hf : ∀ b, ∀ a ∈ as, (f b a).Says) (b : β) :
    (as.foldlM f b).Says := by
  induction as generalizing b with
  | nil => exact says_ok b
  | cons a as ih =>
      rw [List.foldlM_cons]
      exact (hf b a List.mem_cons_self).bind fun b' _ =>
        ih (fun b a ha => hf b a (List.mem_cons_of_mem _ ha)) b'

/-- An outcome is a certain value, if it says anything. -/
def Allows (o : Outcome α) (a : α) : Prop := o = ok a ∨ o = unspecified

theorem Allows.bind {o : Outcome α} {f : α → Outcome β} {a : α} {b : β} (h : o.Allows a)
    (hf : (f a).Allows b) : (o >>= f).Allows b := by
  rcases h with rfl | rfl
  · exact hf
  · exact .inr rfl

end Outcome

/-- A computation does what the outcome says. -/
def Realises {ε α β : Type} (R : α → β → Prop) (x : Except ε α) : Outcome β → Prop
  | .ok b => ∃ a, x = .ok a ∧ R a b
  | .failed => ∃ error, x = .error error
  | .unspecified => True

namespace Realises

variable {ε α β γ δ : Type} {R : α → β → Prop} {S : γ → δ → Prop}

theorem ok {a : α} {b : β} (h : R a b) : Realises R (.ok a : Except ε α) (.ok b) :=
  ⟨a, rfl, h⟩

theorem error {e : ε} : Realises R (.error e : Except ε α) .failed := ⟨e, rfl⟩

theorem unspecified {x : Except ε α} : Realises R x .unspecified := trivial

/-- A computation is right by itself. -/
theorem ofExcept (x : Except ε α) : Realises (fun a b => a = b) x (.ofExcept x) := by
  cases x with
  | ok a => exact ok rfl
  | error e => exact error

/-- A computation that has the values of its reference, and no others. -/
theorem of_iff {x : Except ε α} {o : Outcome α} (h : ∀ a, x = .ok a ↔ o = .ok a) :
    Realises (fun a b => a = b) x o := by
  cases o with
  | ok b => exact ⟨b, (h b).2 rfl, rfl⟩
  | failed =>
      cases x with
      | ok a => exact nomatch (h a).1 rfl
      | error e => exact error
  | unspecified => trivial

theorem mono {R' : α → β → Prop} {x : Except ε α} {o : Outcome β} (h : Realises R x o)
    (hR : ∀ a b, R a b → R' a b) : Realises R' x o := by
  cases o with
  | ok b =>
      obtain ⟨a, hx, hab⟩ := h
      exact ⟨a, hx, hR a b hab⟩
  | failed => exact h
  | unspecified => trivial

/-- The value is that of the computation. -/
theorem returned {x : Except ε α} {o : Outcome β} (h : Realises R x o) :
    Realises (fun a b => R a b ∧ x = .ok a) x o := by
  cases o with
  | ok b =>
      obtain ⟨a, hx, hab⟩ := h
      exact ⟨a, hx, hab, hx⟩
  | failed => exact h
  | unspecified => trivial

/-- The value is what the outcome says. -/
theorem specified {x : Except ε α} {o : Outcome β} (h : Realises R x o) :
    Realises (fun a b => R a b ∧ o = .ok b) x o := by
  cases o with
  | ok b =>
      obtain ⟨a, hx, hab⟩ := h
      exact ⟨a, hx, hab, rfl⟩
  | failed => exact h
  | unspecified => trivial

theorem bind {x : Except ε α} {o : Outcome β} {f : α → Except ε γ} {g : β → Outcome δ}
    (h : Realises R x o) (hfg : ∀ a b, o = .ok b → R a b → Realises S (f a) (g b)) :
    Realises S (x >>= f) (o >>= g) := by
  cases o with
  | ok b =>
      obtain ⟨a, rfl, hab⟩ := h
      exact hfg a b rfl hab
  | failed =>
      obtain ⟨e, rfl⟩ := h
      exact ⟨e, rfl⟩
  | unspecified => trivial

/-- A step of the computation that the reference does not have. -/
theorem bind_left {x : Except ε α} {a : α} {f : α → Except ε γ} {o : Outcome δ}
    (hx : x = .ok a) (h : Realises S (f a) o) : Realises S (x >>= f) o := by
  rw [hx]
  exact h

/-- A function of the value that the reference does not have. -/
theorem map_left {x : Except ε α} {o : Outcome β} {f : α → γ} {S : γ → β → Prop}
    (h : Realises R x o) (hS : ∀ a b, R a b → S (f a) b) : Realises S (x.map f) o := by
  cases o with
  | ok b =>
      obtain ⟨a, rfl, hab⟩ := h
      exact ok (hS a b hab)
  | failed =>
      obtain ⟨e, rfl⟩ := h
      exact error
  | unspecified => trivial

/-- A function of the value that only the reference has. -/
theorem map_right {x : Except ε α} {o : Outcome β} {g : β → γ} {S : α → γ → Prop}
    (h : Realises R x o) (hS : ∀ a b, R a b → S a (g b)) :
    Realises S x (o >>= fun b => .ok (g b)) := by
  cases o with
  | ok b =>
      obtain ⟨a, hx, hab⟩ := h
      exact ⟨a, hx, hS a b hab⟩
  | failed => exact h
  | unspecified => trivial

/-- A condition under which alone the reference says something. -/
theorem require_bind {condition : Prop} [Decidable condition] {x : Except ε α}
    {g : Unit → Outcome β} (h : condition → Realises R x (g ())) :
    Realises R x (Outcome.require condition >>= g) := by
  unfold Outcome.require
  by_cases hc : condition
  · rw [if_pos hc]
    exact h hc
  · rw [if_neg hc]
    trivial

/-- A step of the reference that has a certain value, if it says
anything. -/
theorem of_allows {x : Except ε α} {o : Outcome β} {b : β} {g : β → Outcome γ} {S : α → γ → Prop}
    (ho : o.Allows b) (h : Realises S x (g b)) : Realises S x (o >>= g) := by
  rcases ho with rfl | rfl
  · exact h
  · trivial

/-- Two computations that do what one outcome says both succeed or both
fail. -/
theorem agree {ε' : Type} {x : Except ε α} {y : Except ε' γ} {o : Outcome β} {S : γ → β → Prop}
    (hx : Realises R x o) (hy : Realises S y o) (hdefinite : o.Says) :
    (∃ a c b, x = .ok a ∧ y = .ok c ∧ R a b ∧ S c b)
      ∨ (∃ error, x = .error error) ∧ ∃ error, y = .error error := by
  cases o with
  | ok b =>
      obtain ⟨a, ha, hab⟩ := hx
      obtain ⟨c, hc, hcb⟩ := hy
      exact .inl ⟨a, c, b, ha, hc, hab, hcb⟩
  | failed => exact .inr ⟨hx, hy⟩
  | unspecified => exact absurd rfl hdefinite

/-- The same computation on corresponding elements of two lists. -/
theorem mapM {α' β' : Type} {R' : α' → β' → Prop} {f : α → Except ε α'}
    {g : β → Outcome β'} {as : List α} {bs : List β} (h : List.Forall₂ R as bs)
    (hfg : ∀ a b, R a b → Realises R' (f a) (g b)) :
    Realises (List.Forall₂ R') (as.mapM f) (bs.mapM g) := by
  induction h with
  | nil => exact ok .nil
  | cons hab hrest ih =>
      rw [List.mapM_cons, List.mapM_cons]
      refine (hfg _ _ hab).bind fun a' b' _ hab' => ih.bind fun as' bs' _ hrest' => ?_
      exact ok (.cons hab' hrest')

/-- A loop over corresponding lists, with states that correspond after
every step. -/
theorem foldlM {σ τ : Type} {I : σ → τ → Prop} {f : σ → α → Except ε σ}
    {g : τ → β → Outcome τ} {as : List α} {bs : List β} (h : List.Forall₂ R as bs)
    (hstep : ∀ s t a b, I s t → R a b → Realises I (f s a) (g t b)) {s : σ} {t : τ}
    (hst : I s t) : Realises I (as.foldlM f s) (bs.foldlM g t) := by
  induction h generalizing s t with
  | nil => exact ok hst
  | cons hab hrest ih =>
      rw [List.foldlM_cons, List.foldlM_cons]
      exact (hstep s t _ _ hst hab).bind fun s' t' _ hst' => ih hst'

end Realises

end OnnxLowering
