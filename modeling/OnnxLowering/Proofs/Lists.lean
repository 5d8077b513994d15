/-
Facts about lists that have nothing to do with graphs or modules.
-/
import Mathlib.Data.List.Forall2
import Mathlib.Tactic.Common

namespace OnnxLowering

variable {α β γ : Type}

theorem map_eq_map_iff_forall₂ {f : α → γ} {g : β → γ} {xs : List α} {ys : List β} :
    xs.map f = ys.map g ↔ List.Forall₂ (fun x y => f x = g y) xs ys := by
  rw [← List.forall₂_eq_eq_eq, List.forall₂_map_left_iff, List.forall₂_map_right_iff]

theorem eq_map_iff_forall₂ {g : β → α} {xs : List α} {ys : List β} :
    xs = ys.map g ↔ List.Forall₂ (fun x y => x = g y) xs ys := by
  rw [← List.forall₂_eq_eq_eq, List.forall₂_map_right_iff]

/-- The elements at all positions, one after the other. -/
theorem filterMap_range_getElem? (xs : List α) :
    (List.range xs.length).filterMap (xs[·]?) = xs := by
  induction xs with
  | nil => rfl
  | cons x xs ih =>
      rw [List.length_cons, List.range_succ_eq_map, List.filterMap_cons, List.getElem?_cons_zero,
        List.filterMap_map]
      exact congrArg (x :: ·) ih

/-- The last element, changed. -/
theorem modify_concat (xs : List α) (x : α) (f : α → α) :
    (xs ++ [x]).modify xs.length f = xs ++ [f x] := by
  rw [List.modify_eq_take_drop, List.take_left, List.drop_left]
  rfl

/-- A function of the positions that is a function of the elements. -/
theorem map_range_eq_map {f : Nat → β} {g : α → β} {xs : List α}
    (h : ∀ i x, xs[i]? = some x → f i = g x) : (List.range xs.length).map f = xs.map g := by
  refine List.ext_getElem? fun i => ?_
  rw [List.getElem?_map, List.getElem?_map]
  by_cases hi : i < xs.length
  · have hx := List.getElem?_eq_getElem hi
    rw [List.getElem?_range hi, hx, Option.map_some, Option.map_some, h i _ hx]
  · rw [List.getElem?_eq_none (Nat.le_of_not_lt hi),
      List.getElem?_eq_none (by rw [List.length_range]; exact Nat.le_of_not_lt hi)]
    rfl

theorem getElem?_map_range {f : Nat → β} {n i : Nat} {b : β}
    (h : ((List.range n).map f)[i]? = some b) : b = f i := by
  rw [List.getElem?_map, Option.map_eq_some_iff] at h
  obtain ⟨j, hj, rfl⟩ := h
  rw [List.getElem?_eq_some_iff] at hj
  obtain ⟨hi, hj⟩ := hj
  rw [List.getElem_range] at hj
  rw [hj]

/-- A relation at every position. -/
theorem forall₂_of_getElem? {R : α → β → Prop} {xs : List α} {ys : List β}
    (hlength : xs.length = ys.length)
    (h : ∀ (i : Nat) x y, xs[i]? = some x → ys[i]? = some y → R x y) : List.Forall₂ R xs ys := by
  refine List.forall₂_iff_get.2 ⟨hlength, fun i hx hy => ?_⟩
  exact h i _ _ (List.getElem?_eq_getElem hx) (List.getElem?_eq_getElem hy)

theorem getElem?_forall₂ {R : α → β → Prop} {xs : List α} {ys : List β}
    (h : List.Forall₂ R xs ys) {i : Nat} {x : α} {y : β} (hx : xs[i]? = some x)
    (hy : ys[i]? = some y) : R x y := by
  obtain ⟨hi, rfl⟩ := List.getElem?_eq_some_iff.1 hx
  obtain ⟨hj, rfl⟩ := List.getElem?_eq_some_iff.1 hy
  exact h.get hi hj

/-- Pairs with other first components that correspond to the pairs. -/
theorem forall₂_zip_left {δ : Type} {P : α × δ → γ → Prop} {Q : α × δ → β → Prop}
    {R : β × δ → γ → Prop} {xs : List α} {ys : List β} {ds : List δ} {cs : List γ}
    (hP : List.Forall₂ P (xs.zip ds) cs) (hQ : List.Forall₂ Q (xs.zip ds) ys)
    (h : ∀ x y d c, P (x, d) c → Q (x, d) y → R (y, d) c) : List.Forall₂ R (ys.zip ds) cs := by
  induction xs generalizing ys ds cs with
  | nil =>
      rw [List.zip_nil_left] at hP hQ
      cases hP
      cases hQ
      exact .nil
  | cons x xs ih =>
      cases ds with
      | nil =>
          rw [List.zip_nil_right] at hP ⊢
          cases hP
          exact .nil
      | cons d ds =>
          cases hP with
          | cons hpair hP =>
              cases hQ with
              | cons hxy hQ => exact .cons (h _ _ _ _ hpair hxy) (ih hP hQ)

/-- A relation of elements as one of pairs. -/
theorem forall₂_zip_of_left {δ : Type} {Q : α → β → Prop} {xs : List α} {ys : List β} {ds : List δ}
    (h : List.Forall₂ Q xs ys) (hlength : xs.length = ds.length) :
    List.Forall₂ (fun entry y => Q entry.1 y) (xs.zip ds) ys := by
  induction h generalizing ds with
  | nil => exact .nil
  | cons hxy hrest ih =>
      cases ds with
      | nil => cases hlength
      | cons d ds => exact .cons hxy (ih (Nat.succ.inj hlength))

theorem exists_of_forall₂ {R : α → β → Prop} {xs : List α} {ys : List β}
    (h : List.Forall₂ R xs ys) {x : α} (hx : x ∈ xs) : ∃ y, R x y := by
  obtain ⟨i, hi, rfl⟩ := List.mem_iff_getElem.1 hx
  exact ⟨_, h.get hi (h.length_eq ▸ hi)⟩

/-- What there is for every element there is for a list. -/
theorem exists_forall₂ {R : α → β → Prop} {xs : List α} (h : ∀ x ∈ xs, ∃ y, R x y) :
    ∃ ys, List.Forall₂ R xs ys := by
  induction xs with
  | nil => exact ⟨[], .nil⟩
  | cons x xs ih =>
      rw [List.forall_mem_cons] at h
      obtain ⟨y, hy⟩ := h.1
      obtain ⟨ys, hys⟩ := ih h.2
      exact ⟨y :: ys, .cons hy hys⟩

/-- What corresponds to two lists one after the other consists of what
corresponds to each. -/
theorem forall₂_append_left {R : α → β → Prop} {xs ys : List α} {zs : List β}
    (h : List.Forall₂ R (xs ++ ys) zs) :
    ∃ as bs, List.Forall₂ R xs as ∧ List.Forall₂ R ys bs ∧ as ++ bs = zs := by
  induction xs generalizing zs with
  | nil => exact ⟨[], zs, .nil, h, rfl⟩
  | cons x xs ih =>
      cases h with
      | cons hxz hrest =>
          obtain ⟨as, bs, has, hbs, rfl⟩ := ih hrest
          exact ⟨_ :: as, bs, .cons hxz has, hbs, rfl⟩

-- ============================================================== splicing

/-- The list with other elements from a position on. -/
def splice (first : Nat) (new xs : List α) : List α :=
  xs.take first ++ new ++ xs.drop (first + new.length)

theorem getElem?_splice {first : Nat} {new xs : List α}
    (hbound : first + new.length ≤ xs.length) (i : Nat) :
    (splice first new xs)[i]? =
      if first ≤ i ∧ i < first + new.length then new[i - first]? else xs[i]? := by
  have hfirst : (xs.take first).length = first := by
    rw [List.length_take]
    omega
  unfold splice
  by_cases hbefore : i < first
  · rw [if_neg (by omega), List.append_assoc, List.getElem?_append_left (by omega),
      List.getElem?_take_of_lt hbefore]
  · rw [List.append_assoc, List.getElem?_append_right (by omega), hfirst]
    by_cases hwithin : i < first + new.length
    · rw [if_pos ⟨by omega, hwithin⟩, List.getElem?_append_left (by omega)]
    · rw [if_neg (by omega), List.getElem?_append_right (by omega), List.getElem?_drop]
      congr 1
      omega

theorem length_splice {first : Nat} {new xs : List α}
    (hbound : first + new.length ≤ xs.length) : (splice first new xs).length = xs.length := by
  simp only [splice, List.length_append, List.length_take, List.length_drop]
  omega

theorem splice_nil (first : Nat) (xs : List α) : splice first [] xs = xs := by
  rw [splice, List.append_nil, List.length_nil, Nat.add_zero, List.take_append_drop]

/-- The elements in the middle of a list. -/
theorem splice_middle (front old back new : List α) (h : old.length = new.length) :
    splice front.length new (front ++ old ++ back) = front ++ new ++ back := by
  rw [splice, List.append_assoc front old back, List.take_left, ← List.append_assoc, ← h,
    ← List.length_append, List.drop_left]

theorem splice_set {first : Nat} {new xs : List α} {x : α} (h : first < xs.length) :
    splice (first + 1) new (xs.set first x) = splice first (x :: new) xs := by
  have htake : (xs.set first x).take (first + 1) = xs.take first ++ [x] := by
    rw [List.take_add_one, List.take_set_of_le (Nat.le_refl _), List.getElem?_set_self h]
    rfl
  rw [splice, splice, htake, List.drop_set_of_lt (by omega), List.length_cons]
  simp only [List.append_assoc, List.singleton_append]
  congr 3
  omega

theorem flatMap_subset {α β : Type} {xs ys : List α} (h : xs ⊆ ys) (f : α → List β) :
    xs.flatMap f ⊆ ys.flatMap f := by
  intro b hb
  obtain ⟨a, ha, hb⟩ := List.mem_flatMap.1 hb
  exact List.mem_flatMap.2 ⟨a, h ha, hb⟩

end OnnxLowering
