/-
Computations that can fail. A sequence of steps succeeds exactly if every
step does, and a list of them exactly if every one of the list does.
-/
import Mathlib.Data.List.Forall2
import Mathlib.Tactic.Common

namespace Except

variable {ε α β : Type}

@[simp] theorem ok_bind (a : α) (f : α → Except ε β) : (.ok a >>= f) = f a := rfl

@[simp] theorem error_bind (e : ε) (f : α → Except ε β) : (.error e >>= f) = .error e := rfl

theorem bind_eq_ok {x : Except ε α} {f : α → Except ε β} {b : β} :
    (x >>= f) = .ok b ↔ ∃ a, x = .ok a ∧ f a = .ok b := by
  cases x with
  | error error => exact ⟨fun h => (nomatch h), fun ⟨_, h, _⟩ => (nomatch h)⟩
  | ok a =>
      refine ⟨fun h => ⟨a, rfl, h⟩, ?_⟩
      rintro ⟨_, h, hf⟩
      cases h
      exact hf

theorem bind_eq_error {x : Except ε α} {f : α → Except ε β} {e : ε} :
    (x >>= f) = .error e ↔ x = .error e ∨ ∃ a, x = .ok a ∧ f a = .error e := by
  cases x with
  | error error =>
      constructor
      · intro h
        cases h
        exact Or.inl rfl
      · rintro (h | ⟨_, h, _⟩) <;> cases h
        rfl
  | ok a =>
      refine ⟨fun h => Or.inr ⟨a, rfl, h⟩, fun h => ?_⟩
      rcases h with h | ⟨_, h, hf⟩
      · cases h
      · cases h
        exact hf

/-- A check, and what comes after it. -/
theorem guard_eq_ok {c : Prop} [Decidable c] {e : ε} {x : Except ε α} {a : α} :
    (if c then (throw e : Except ε PUnit) >>= fun _ => x else x) = .ok a ↔ ¬ c ∧ x = .ok a := by
  by_cases hc : c
  · rw [if_pos hc]
    exact ⟨fun h => (nomatch h), fun h => absurd hc h.1⟩
  · rw [if_neg hc]
    exact ⟨fun h => ⟨hc, h⟩, fun h => h.2⟩

theorem guard_eq_ok' {c : Prop} [Decidable c] {e : ε} {x : Except ε α} {a : α} :
    (if c then x else (throw e : Except ε PUnit) >>= fun _ => x) = .ok a ↔ c ∧ x = .ok a := by
  by_cases hc : c
  · rw [if_pos hc]
    exact ⟨fun h => ⟨hc, h⟩, fun h => h.2⟩
  · rw [if_neg hc]
    exact ⟨fun h => (nomatch h), fun h => absurd h.1 hc⟩

theorem map_eq_ok {x : Except ε α} {f : α → β} {b : β} :
    f <$> x = .ok b ↔ ∃ a, x = .ok a ∧ f a = b := by
  cases x with
  | error error => exact ⟨fun h => (nomatch h), fun ⟨_, h, _⟩ => (nomatch h)⟩
  | ok a =>
      constructor
      · intro h
        exact ⟨a, rfl, Except.ok.inj h⟩
      · rintro ⟨_, h, rfl⟩
        cases h
        rfl

theorem eq_error_of_map {x : Except ε α} {f : α → β} {e : ε} (h : x.map f = .error e) :
    x = .error e := by
  cases x with
  | error error => exact congrArg Except.error (Except.error.inj h)
  | ok a => exact nomatch h

theorem eq_ok_of_isOk {x : Except ε α} (h : x.isOk = true) (default : α) :
    x = .ok (x.toOption.getD default) := by
  cases x with
  | error error => exact nomatch h
  | ok a => rfl

theorem exists_of_isOk {x : Except ε α} (h : x.isOk = true) : ∃ a, x = .ok a := by
  cases x with
  | error error => exact nomatch h
  | ok a => exact ⟨a, rfl⟩

/-- Something is true of the value of a computation that a test finds to
be so. -/
theorem exists_of_test {x : Except ε α} {test : α → Bool} (h : (x.map test).toOption = some true) :
    ∃ a, x = .ok a ∧ test a = true := by
  cases x with
  | error error => exact nomatch h
  | ok a => exact ⟨a, rfl, Option.some.inj h⟩

/-- A computation on every element of a list. -/
theorem mapM_eq_ok {f : α → Except ε β} {as : List α} {bs : List β} :
    as.mapM f = .ok bs ↔ List.Forall₂ (fun a b => f a = .ok b) as bs := by
  induction as generalizing bs with
  | nil =>
      rw [List.mapM_nil, List.forall₂_nil_left_iff]
      exact ⟨fun h => (Except.ok.inj h).symm, fun h => h ▸ rfl⟩
  | cons a as ih =>
      rw [List.mapM_cons, bind_eq_ok]
      constructor
      · rintro ⟨b, hb, h⟩
        obtain ⟨rest, hrest, h⟩ := bind_eq_ok.1 h
        cases h
        exact .cons hb (ih.1 hrest)
      · intro h
        cases h with
        | cons hb hrest =>
            refine ⟨_, hb, bind_eq_ok.2 ⟨_, ih.2 hrest, rfl⟩⟩

/-- A computation on every element of a list fails as it does on one of
them. -/
theorem exists_of_mapM_eq_error {f : α → Except ε β} {as : List α} {e : ε}
    (h : as.mapM f = .error e) : ∃ a ∈ as, f a = .error e := by
  induction as with
  | nil => cases h
  | cons a as ih =>
      rw [List.mapM_cons] at h
      rcases bind_eq_error.1 h with hfirst | ⟨b, -, h⟩
      · exact ⟨a, List.mem_cons_self, hfirst⟩
      · rcases bind_eq_error.1 h with hrest | ⟨bs, -, h⟩
        · obtain ⟨a', ha', hf⟩ := ih hrest
          exact ⟨a', List.mem_cons_of_mem _ ha', hf⟩
        · cases h

section

variable {f : List β → α → Except ε β} {as : List α} {before values : List β}

/-- A computation on one element after the other, given the values so far,
appends a value for each of them. -/
theorem exists_append_of_foldlM
    (h : as.foldlM (fun done a => do return done ++ [← f done a]) before = .ok values) :
    ∃ new, values = before ++ new ∧ new.length = as.length := by
  induction as generalizing before with
  | nil =>
      cases h
      exact ⟨[], (List.append_nil _).symm, rfl⟩
  | cons a as ih =>
      rw [List.foldlM_cons] at h
      obtain ⟨done, hfirst, hrest⟩ := bind_eq_ok.1 h
      obtain ⟨b, -, hdone⟩ := bind_eq_ok.1 hfirst
      cases hdone
      obtain ⟨new, rfl, hlength⟩ := ih hrest
      refine ⟨b :: new, ?_, by rw [List.length_cons, List.length_cons, hlength]⟩
      rw [List.append_assoc, List.singleton_append]

/-- The value of an element is what the computation makes of it. -/
theorem getElem?_of_foldlM {a : α} {i : Nat}
    (h : as.foldlM (fun done a => do return done ++ [← f done a]) before = .ok values)
    (ha : as[i]? = some a) :
    ∃ done b, f done a = .ok b ∧ values[before.length + i]? = some b := by
  induction as generalizing before i with
  | nil => cases ha
  | cons first as ih =>
      rw [List.foldlM_cons] at h
      obtain ⟨done, hfirst, hrest⟩ := bind_eq_ok.1 h
      obtain ⟨b, hb, hdone⟩ := bind_eq_ok.1 hfirst
      cases hdone
      cases i with
      | zero =>
          cases ha
          obtain ⟨new, rfl, -⟩ := exists_append_of_foldlM hrest
          refine ⟨before, b, hb, ?_⟩
          rw [List.append_assoc, Nat.add_zero, List.getElem?_append_right (Nat.le_refl _),
            Nat.sub_self]
          rfl
      | succ i =>
          obtain ⟨done, b, hb, hget⟩ := ih hrest ha
          rw [List.length_append, List.length_singleton, Nat.add_assoc, Nat.add_comm 1] at hget
          exact ⟨done, b, hb, hget⟩

end

end Except
