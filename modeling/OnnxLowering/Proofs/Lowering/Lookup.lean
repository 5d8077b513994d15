/-
What a lookup of a shape finds. The lookup stops at the first source that
says anything, and a declaration comes before all others: what is known of
a tensor counts only if no shape is declared on the way to it
(`Scopes.shape?_of_tensor?`).

A declaration that takes the place of another one changes a lookup in one
way only (`KnownShape.Redeclared`): both were in front of the same other
source. Whether that loses something depends on this source as well, and
`KnownShape.supersedes_iff` says which declarations never lose anything.
-/
import OnnxLowering.Proofs.Graph.Visits

namespace OnnxLowering

namespace KnownShape

variable {x x' s s' other : Option KnownShape} {t : Tensor}

-- ================================================================== knowledge

theorem Matches.eq_known_iff {known : KnownShape} (h : known.Matches t) :
    known = t.shape.known ↔ none ∉ known := by
  unfold Matches at h
  unfold Shape.known
  generalize t.shape = sizes at h
  induction h with
  | nil => exact iff_of_true rfl List.not_mem_nil
  | @cons size? size known sizes hsize _ ih =>
      rw [List.map_cons, List.cons.injEq, ih, List.mem_cons, not_or]
      refine and_congr_left fun _ => ?_
      cases size? with
      | none => exact iff_of_false (fun h => nomatch h) fun h => h rfl
      | some s => exact iff_of_true (by rw [hsize s rfl]; rfl) fun h => nomatch h

/-- All that is known of a shape, the rank and every size, is known
afterwards as well. -/
def Kept (before after : Option KnownShape) : Prop :=
  ∀ known ∈ before, ∃ known' ∈ after,
    List.Forall₂ (fun size? size?' : Option Int => ∀ size ∈ size?, size?' = some size) known known'

theorem Kept.refl (s : Option KnownShape) : Kept s s :=
  fun known hknown => ⟨known, hknown, List.forall₂_same.2 fun _ _ _ hsize => hsize⟩

theorem kept_none : Kept none s := fun _ h => nomatch h

/-- Nothing is known beyond a shape of which all is known. -/
theorem eq_known_of_kept {known : KnownShape} (h : Kept (some t.shape.known) (some known)) :
    known = t.shape.known := by
  obtain ⟨_, hknown, hkept⟩ := h _ rfl
  obtain rfl := Option.mem_some_iff.1 hknown
  unfold Shape.known at hkept ⊢
  rw [List.forall₂_map_left_iff] at hkept
  have heq := hkept.imp fun size size? hsize => (hsize _ rfl).symm
  rwa [← @List.forall₂_map_left_iff _ _ _ Eq, List.forall₂_eq_eq_eq, eq_comm] at heq

/-- What is known and true is part of the whole truth. -/
theorem kept_known (h : ∀ known ∈ s, known.Matches t) : Kept s (some t.shape.known) := by
  intro known hknown
  refine ⟨_, rfl, ?_⟩
  have hmatches := h known hknown
  unfold Matches at hmatches
  unfold Shape.known
  rw [List.forall₂_map_right_iff]
  exact hmatches.imp fun size? size hsize s hs => by rw [hsize s hs]; rfl

-- ================================================================== redeclared

/-- Where one declaration takes the place of another, a lookup finds what
it found before, or it finds one declaration after the other, each in front
of the same other source. -/
def Redeclared (x x' s s' : Option KnownShape) : Prop :=
  s' = s ∨ ∃ other : Option KnownShape, s = x.or other ∧ s' = x'.or other

theorem Redeclared.refl : Redeclared x x' s s := .inl rfl

/-- A declaration in front, which may be the one that is replaced. -/
theorem Redeclared.or {d d' : Option KnownShape} (h : Redeclared x x' s s')
    (hd : d' = d ∨ d = x ∧ d' = x') : Redeclared x x' (d.or s) (d'.or s') := by
  rcases hd with rfl | ⟨rfl, rfl⟩
  · cases d' with
    | none => exact h
    | some known => exact .refl
  · rcases h with rfl | ⟨other, rfl, rfl⟩
    · exact .inr ⟨_, rfl, rfl⟩
    · exact .inr ⟨other, by rw [← Option.or_assoc, Option.or_self],
        by rw [← Option.or_assoc, Option.or_self]⟩

/-- A declaration can take the place of another one without loss: it knows
all that the other one knew, and if there was no other, it knows all. -/
def Supersedes (x x' : Option KnownShape) : Prop :=
  Kept x x' ∧ (x = none → ∀ known ∈ x', none ∉ known)

/-- A true declaration can take the place of another one without loss if
and only if nothing is lost whatever true source is behind them. -/
theorem supersedes_iff (hx' : ∀ known ∈ x', known.Matches t) :
    Supersedes x x' ↔ ∀ other : Option KnownShape, (∀ known ∈ other, known.Matches t) →
      Kept (x.or other) (x'.or other) := by
  rw [Supersedes, Iff.comm]
  cases x with
  | some declared =>
      simp only [Option.some_or, reduceCtorEq, false_implies, and_true]
      constructor
      · intro h
        have hnone := h none fun _ h => nomatch h
        rwa [Option.or_none] at hnone
      · intro h other _ known hknown
        obtain ⟨known', hknown', hkept⟩ := h known hknown
        exact ⟨known', by rw [hknown', Option.some_or]; rfl, hkept⟩
  | none =>
      simp only [Option.none_or, true_implies, kept_none, true_and]
      cases x' with
      | none => exact iff_of_true (fun other _ => .refl other) fun _ h => nomatch h
      | some declared =>
          have hdeclared := hx' declared rfl
          simp only [Option.some_or, Option.mem_some_iff, forall_eq']
          constructor
          · intro h
            have hkept := h (some t.shape.known) fun known hknown =>
              Option.mem_some_iff.1 hknown ▸ matches_known t
            exact hdeclared.eq_known_iff.1 (eq_known_of_kept hkept)
          · intro hclosed other hother
            rw [hdeclared.eq_known_iff.2 hclosed]
            exact kept_known hother

/-- So a lookup loses nothing after such a declaration. -/
theorem Redeclared.kept (h : Redeclared x x' s s') (hs : ∀ known ∈ s, known.Matches t)
    (hs' : ∀ known ∈ s', known.Matches t) (supersedes : Supersedes x x') : Kept s s' := by
  rcases h with rfl | ⟨other, rfl, rfl⟩
  · exact .refl _
  have hx' : ∀ known ∈ x', known.Matches t := by
    intro known hknown
    rw [hknown] at hs'
    exact hs' known rfl
  cases x with
  | none =>
      rw [Option.none_or] at hs
      exact (supersedes_iff hx').1 supersedes other hs
  | some declared =>
      obtain ⟨known', hknown', hkept⟩ := supersedes.1 declared rfl
      intro known hknown
      obtain rfl : declared = known := Option.mem_some_iff.1 hknown
      exact ⟨known', by rw [hknown']; rfl, hkept⟩

end KnownShape

-- =================================================================== lookups

namespace Scopes

variable {scopes : Scopes} {name : String} {t : Tensor}

/-- What a lookup finds behind the declarations of a scope. -/
def behind? (scope : Scope) (outer : Scopes) (name : String) : Option KnownShape :=
  match scope.tensors.find? name with
  | some tensor => some tensor.shape.known
  | none =>
      match scope.bindings.find? name with
      | some ref => (scope.label ref).shape.join
      | none => shape? outer name

/-- A lookup stops at a declaration. -/
theorem shape?_cons (scope : Scope) (outer : Scopes) (name : String) :
    shape? (scope :: outer) name = (scope.declarations.shape? name).or (behind? scope outer name) := by
  rw [shape?, NameMap.shape?]
  cases (scope.declarations.find? name).bind KnownType.shape <;> rfl

/-- The first shape that is declared of a name on the way to its tensor. -/
def declared? : Scopes → String → Option KnownShape
  | [], _ => none
  | scope :: outer, name =>
      match scope.declarations.shape? name with
      | some known => some known
      | none => if scope.tensors.contains name then none else declared? outer name

/-- What is declared on the way to a tensor comes before what is known of
the tensor. -/
theorem shape?_of_tensor? (h : scopes.tensor? name = some t) :
    scopes.shape? name = some ((scopes.declared? name).getD t.shape.known) := by
  induction scopes with
  | nil => cases h
  | cons scope outer ih =>
      unfold tensor? at h
      unfold shape? declared? NameMap.shape?
      cases hdeclared : (scope.declarations.find? name).bind KnownType.shape with
      | some known => rfl
      | none =>
          cases htensor : scope.tensors.find? name with
          | some u =>
              rw [htensor] at h
              cases h
              rw [NameMap.contains, htensor]
              rfl
          | none =>
              rw [htensor] at h
              rw [NameMap.contains, htensor]
              cases hbinding : scope.bindings.find? name with
              | some ref =>
                  rw [NameMap.contains, hbinding] at h
                  cases h
              | none =>
                  rw [NameMap.contains, hbinding] at h
                  exact ih h

/-- So the shape of a tensor is found if and only if nothing else is
declared of it; of true declarations, if and only if none leaves a size
open. -/
theorem shape?_eq_known_iff (h : scopes.tensor? name = some t)
    (htrue : ∀ known ∈ scopes.declared? name, known.Matches t) :
    scopes.shape? name = some t.shape.known ↔ ∀ known ∈ scopes.declared? name, none ∉ known := by
  rw [shape?_of_tensor? h, Option.some.injEq]
  cases hdeclared : scopes.declared? name with
  | none => exact iff_of_true rfl fun _ h => nomatch h
  | some known =>
      rw [Option.getD_some, (htrue known hdeclared).eq_known_iff]
      simp only [Option.mem_some_iff, forall_eq']

end Scopes

end OnnxLowering
