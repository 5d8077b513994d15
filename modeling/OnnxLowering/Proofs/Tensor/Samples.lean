/-
Batches. The first dimension of a batch counts samples, and what holds of
a sample by itself is read off the batch one dimension further on: an
element along the second dimension (`select_select`), a new dimension
(`select_expand_of_batch`), a stack (`stack_select`). Batches are added
sample by sample if they have one rank (`add_select`); where the ranks
differ, the last dimensions are matched, and not those of the samples.
-/
import OnnxLowering.Proofs.Tensor.Slices
import OnnxLowering.Tensor.Arithmetic

namespace OnnxLowering

namespace Shape

/-- Shapes of as many dimensions are matched dimension by dimension. -/
theorem broadcast?_of_length_eq {as bs : Shape} (h : as.length = bs.length) :
    broadcast? as bs = stretchAll? as bs := by
  have happend : ∀ (xs ys : List Nat) (x y : Nat), xs.length = ys.length →
      stretchAll? (xs ++ [x]) (ys ++ [y])
        = (stretchAll? xs ys).bind fun zs => (stretch? x y).map fun z => zs ++ [z] := by
    intro xs
    induction xs with
    | nil =>
        intro ys x y hlength
        obtain rfl := List.length_eq_zero_iff.1 hlength.symm
        show ((stretch? x y).bind fun z => some [z]) = _
        cases stretch? x y <;> rfl
    | cons a xs ih =>
        intro ys x y hlength
        cases ys with
        | nil => cases hlength
        | cons b ys =>
            show ((stretch? a b).bind fun z => (stretchAll? (xs ++ [x]) (ys ++ [y])).bind
              fun zs => some (z :: zs)) = _
            rw [ih ys x y (Nat.succ.inj hlength)]
            show _ = ((stretch? a b).bind fun z => (stretchAll? xs ys).bind fun zs =>
              some (z :: zs)).bind fun zs => (stretch? x y).map fun z => zs ++ [z]
            cases stretch? a b <;> cases stretchAll? xs ys <;> cases stretch? x y <;> rfl
  unfold broadcast?
  induction as generalizing bs with
  | nil =>
      obtain rfl := List.length_eq_zero_iff.1 h.symm
      rfl
  | cons a as ih =>
      cases bs with
      | nil => cases h
      | cons b bs =>
          have hlength : as.reverse.length = bs.reverse.length := by
            rw [List.length_reverse, List.length_reverse]
            exact Nat.succ.inj h
          rw [List.reverse_cons, List.reverse_cons, happend _ _ a b hlength]
          have hrest := ih (Nat.succ.inj h)
          show _ = (stretch? a b).bind fun z => (stretchAll? as bs).bind fun zs => some (z :: zs)
          rw [← hrest]
          cases stretchAll? as.reverse bs.reverse <;> cases stretch? a b <;>
            simp

/-- A dimension that both shapes have in front stays. -/
theorem broadcast?_cons_self {as bs : Shape} (n : Nat) (h : as.length = bs.length) :
    broadcast? (n :: as) (n :: bs) = (broadcast? as bs).map (n :: ·) := by
  rw [broadcast?_of_length_eq h, broadcast?_of_length_eq (congrArg (· + 1) h)]
  show ((stretch? n n).bind fun z => (stretchAll? as bs).bind fun zs => some (z :: zs)) = _
  rw [stretch?, if_pos rfl]
  cases stretchAll? as bs <;> rfl

theorem project_cons {as : Shape} {is : List Nat} (h : is.length = as.length) (n i : Nat) :
    project (n :: as) (i :: is) = (if n = 1 then 0 else i) :: project as is := by
  unfold project
  rw [List.length_cons, List.length_cons, h, Nat.sub_self, Nat.sub_self, List.drop_zero,
    List.drop_zero, List.zipWith_cons_cons]

/-- Where operands of as many dimensions are read they have elements. -/
theorem inBounds_project {as bs cs : Shape} {is : List Nat} (h : as.length = bs.length)
    (hcs : broadcast? as bs = some cs) (his : InBounds cs is) :
    is.length = as.length ∧ InBounds as (project as is) ∧ InBounds bs (project bs is) := by
  rw [broadcast?_of_length_eq h] at hcs
  induction as generalizing bs cs is with
  | nil =>
      obtain rfl := List.length_eq_zero_iff.1 h.symm
      cases hcs
      cases is with
      | nil => exact ⟨rfl, trivial, trivial⟩
      | cons i is => exact his.elim
  | cons a as ih =>
      cases bs with
      | nil => cases h
      | cons b bs =>
          obtain ⟨c, hc, hrest⟩ := Option.bind_eq_some_iff.1 hcs
          obtain ⟨rest, htail, hsame⟩ := Option.bind_eq_some_iff.1 hrest
          cases hsame
          cases is with
          | nil => exact his.elim
          | cons i is =>
              have hlength := Nat.succ.inj h
              obtain ⟨hcount, hfirst, hsecond⟩ := ih hlength htail his.2
              have hi : i < c := his.1
              rw [project_cons hcount, project_cons (hcount.trans hlength)]
              unfold stretch? at hc
              refine ⟨congrArg (· + 1) hcount, ⟨?_, hfirst⟩, ⟨?_, hsecond⟩⟩
              all_goals grind

end Shape

namespace Tensor

/-- The first dimension of a batch counts its samples. -/
def Batch (b : Nat) (t : Tensor) : Prop := t.shape.head? = some b

instance (b : Nat) (t : Tensor) : Decidable (t.Batch b) := inferInstanceAs (Decidable (_ = _))

/-- The samples of some batches at a position. -/
def atSample (k : Nat) (ts : List Tensor) : List Tensor := ts.map fun t => t.select 0 k

variable {t : Tensor} {b k : Nat}

theorem Batch.shape_eq (h : t.Batch b) : t.shape = b :: t.shape.tail := by
  unfold Batch at h
  cases hshape : t.shape with
  | nil =>
      rw [hshape] at h
      cases h
  | cons d ds =>
      rw [hshape] at h
      rw [Option.some.inj h]
      rfl

theorem shape_select_zero (t : Tensor) (k : Nat) : (t.select 0 k).shape = t.shape.tail := by
  show t.shape.eraseIdx 0 = _
  cases t.shape <;> rfl

/-- A batch has one dimension more than its samples. -/
theorem Batch.shape_cons (h : t.Batch b) (k : Nat) : t.shape = b :: (t.select 0 k).shape := by
  rw [shape_select_zero]
  exact h.shape_eq

theorem Batch.rank_eq (h : t.Batch b) (k : Nat) : t.rank = (t.select 0 k).rank + 1 :=
  congrArg List.length (h.shape_cons k)

/-- The elements of a sample. -/
theorem Batch.get_select (h : t.Batch b) (hk : k < b) {is : List Nat}
    (his : Shape.InBounds t.shape.tail is) :
    (t.select 0 k).get is = t.get (k :: is) ∧ t.shape.InBounds (k :: is) := by
  refine ⟨get_ofFn ?_, ?_⟩
  · rwa [← shape_select_zero t k] at his
  · rw [h.shape_eq]
    exact ⟨hk, his⟩

/-- An element of a sample is a sample of an element. -/
theorem select_select (h : t.Batch b) (hk : k < b) {i : Nat} (hi : i < t.shape.getD 1 0) :
    (t.select 1 i).select 0 k = (t.select 0 k).select 0 i := by
  obtain ⟨d, rest, hshape⟩ : ∃ d rest, t.shape = b :: d :: rest := by
    have hcons := h.shape_eq
    cases htail : t.shape.tail with
    | nil =>
        rw [hcons, htail] at hi
        cases hi
    | cons d rest => exact ⟨d, rest, htail ▸ hcons⟩
  rw [hshape] at hi
  have hfirst : (t.select 1 i).shape = b :: rest := by
    show t.shape.eraseIdx 1 = _
    rw [hshape]
    rfl
  have hsecond : (t.select 0 k).shape = d :: rest := by
    rw [shape_select_zero, hshape]
    rfl
  refine ofFn_congr (by rw [hfirst, hsecond]; rfl) fun is his => ?_
  rw [hfirst] at his
  replace his : Shape.InBounds rest is := his
  have hleft : (t.select 1 i).get (k :: is) = t.get (k :: i :: is) :=
    get_ofFn (by
      show (t.select 1 i).shape.InBounds _
      rw [hfirst]
      exact ⟨hk, his⟩)
  have hright : (t.select 0 k).get (i :: is) = t.get (k :: i :: is) :=
    get_ofFn (by
      show (t.select 0 k).shape.InBounds _
      rw [hsecond]
      exact ⟨hi, his⟩)
  exact hleft.trans hright.symm

-- ======================================================= new dimensions

/-- A new dimension has one position, and there everything is. -/
theorem select_expand (t : Tensor) (hk : k ≤ t.rank) : (t.expand k).select k 0 = t := by
  have hshape : ((t.expand k).select k 0).shape = t.shape := List.eraseIdx_insertIdx_self _
  refine ext_get rfl hshape fun is his => ?_
  have hselect : ((t.expand k).select k 0).get is = (t.expand k).get (is.insertIdx k 0) := get_ofFn his
  rw [hshape] at his
  have hle : k ≤ is.length := by
    rw [his.length_eq]
    exact hk
  have hexpand : (t.expand k).get (is.insertIdx k 0) = t.get ((is.insertIdx k 0).eraseIdx k) :=
    get_ofFn ((Shape.inBounds_insertIdx hk hle).2 ⟨Nat.one_pos, his⟩)
  rw [hselect, hexpand, List.eraseIdx_insertIdx_self]

theorem shape_expand_one (h : t.Batch b) (k : Nat) :
    (t.expand 1).shape = b :: 1 :: (t.select 0 k).shape := by
  show t.shape.insertIdx 1 1 = _
  rw [h.shape_cons k]
  rfl

theorem Batch.expand (h : t.Batch b) : (t.expand 1).Batch b := by
  unfold Batch
  rw [shape_expand_one h 0]
  rfl

theorem batch_of_expand (h : (t.expand 1).Batch b) (hrank : 1 ≤ t.rank) : t.Batch b := by
  obtain ⟨d, rest, hshape⟩ := List.exists_cons_of_ne_nil (List.length_pos_iff.1 hrank)
  replace h : (t.shape.insertIdx 1 1).head? = some b := h
  unfold Batch
  rw [hshape] at h ⊢
  exact h

/-- A new dimension behind the first one is a new first dimension of each
sample. -/
theorem select_expand_of_batch (h : t.Batch b) (hk : k < b) :
    (t.expand 1).select 0 k = (t.select 0 k).expand 0 := by
  have hshape : ((t.expand 1).select 0 k).shape = 1 :: t.shape.tail := by
    rw [shape_select_zero, shape_expand_one h k, List.tail_cons, shape_select_zero]
  refine ext_get rfl ?_ fun is his => ?_
  · rw [hshape, ← shape_select_zero t k]
    rfl
  · rw [hshape] at his
    cases is with
    | nil => exact his.elim
    | cons i is =>
        have hbatch := h.expand.get_select hk (by
          rw [shape_expand_one h k, List.tail_cons, shape_select_zero]
          exact his)
        have hexpand : (t.expand 1).get (k :: i :: is) = t.get (k :: is) := get_ofFn hbatch.2
        have hsample : ((t.select 0 k).expand 0).get (i :: is) = (t.select 0 k).get is :=
          get_ofFn (by
            show Shape.InBounds (1 :: (t.select 0 k).shape) _
            rwa [shape_select_zero])
        rw [hbatch.1, hexpand, hsample, (h.get_select hk his.2).1]

-- ================================================================ stacks

/-- A single tensor is stacked by a new dimension. -/
theorem stack_singleton {z : Tensor} {axis : Int} :
    stack axis [t] = .ok z ↔ ∃ k, resolveAxis (t.rank + 1) axis = .ok k ∧ z = t.expand k := by
  have hexpand {k : Nat} (hk : resolveAxis (t.rank + 1) axis = .ok k) :
      stack axis [t] = .ok (t.expand k) := by
    have hle : k ≤ t.shape.length := Nat.le_of_lt_succ (resolveAxis_lt hk)
    rw [stack, hk, Outcome.demand, if_pos (fun _ hpart => absurd hpart List.not_mem_nil)]
    refine congrArg Outcome.ok (ofFn_congr rfl fun is his => ?_)
    obtain ⟨hzero, hin, -⟩ := Shape.InBounds.eraseIdx hle his
    rw [Nat.lt_one_iff.1 hzero]
    exact get_cast_self t hin
  constructor
  · intro h
    obtain ⟨k, hk, -⟩ := Outcome.bind_eq_ok.1 h
    rw [Outcome.ofExcept_eq_ok] at hk
    rw [hexpand hk] at h
    exact ⟨k, hk, (Outcome.ok.inj h).symm⟩
  · rintro ⟨k, hk, rfl⟩
    exact hexpand hk

/-- What a stack is made of. -/
theorem stack_cons_eq_ok {axis : Int} {first z : Tensor} {rest : List Tensor} :
    stack axis (first :: rest) = .ok z ↔ ∃ k dtype, resolveAxis (first.rank + 1) axis = .ok k
      ∧ joinType first rest = .ok dtype ∧ (∀ part ∈ rest, part.shape = first.shape)
      ∧ z = ofFn dtype (first.shape.insertIdx k (rest.length + 1)) fun is =>
        (((first :: rest)[is.getD k 0]?).map fun part =>
          (part.cast dtype).get (is.eraseIdx k)).getD 0 := by
  constructor
  · intro h
    obtain ⟨k, hk, h⟩ := Outcome.bind_eq_ok.1 h
    obtain ⟨dtype, hdtype, h⟩ := Outcome.bind_eq_ok.1 h
    obtain ⟨hshapes, h⟩ := Outcome.demand_bind_eq_ok.1 h
    exact ⟨k, dtype, Outcome.ofExcept_eq_ok.1 hk, Outcome.ofExcept_eq_ok.1 hdtype, hshapes,
      (Outcome.ok.inj h).symm⟩
  · rintro ⟨k, dtype, hk, hdtype, hshapes, rfl⟩
    rw [stack, hk, hdtype, Outcome.demand, if_pos hshapes]
    rfl

theorem atSample_cons (k : Nat) (first : Tensor) (rest : List Tensor) :
    atSample k (first :: rest) = first.select 0 k :: atSample k rest := rfl

theorem getElem?_atSample (k : Nat) (ts : List Tensor) (i : Nat) :
    (atSample k ts)[i]? = ts[i]?.map fun t => t.select 0 k := List.getElem?_map

/-- The types of samples are those of their batches. -/
theorem joinType_select (first : Tensor) (rest : List Tensor) (k : Nat) :
    joinType (first.select 0 k) (atSample k rest) = joinType first rest := by
  unfold joinType atSample
  rw [List.foldlM_map]
  rfl

/-- An axis that does not count from the end. -/
theorem resolveAxis_natCast (rank axis k : Nat) :
    resolveAxis rank axis = .ok k ↔ axis < rank ∧ k = axis := by
  unfold resolveAxis
  by_cases hrank : axis < rank
  · rw [if_pos (by simp only [Bool.and_eq_true, decide_eq_true_eq]; omega),
      if_neg (Int.not_lt.2 (Int.natCast_nonneg axis)), Int.toNat_natCast]
    exact ⟨fun h => ⟨hrank, (Except.ok.inj h).symm⟩, fun h => congrArg Except.ok h.2.symm⟩
  · rw [if_neg (by simp only [Bool.and_eq_true, decide_eq_true_eq]; omega)]
    exact ⟨fun h => (nomatch h), fun h => absurd h.1 hrank⟩

/-- Batches can be stacked behind their first dimension if the samples at
each position can be stacked, and that stacks the samples. -/
theorem stack_select {parts : List Tensor} {z : Nat → Tensor} (hb : 1 ≤ b)
    (hparts : ∀ part ∈ parts, part.Batch b)
    (h : ∀ k < b, stack 0 (atSample k parts) = .ok (z k)) :
    ∃ t, stack 1 parts = .ok t ∧ t.Batch b ∧ ∀ k < b, t.select 0 k = z k := by
  cases parts with
  | nil => exact nomatch h 0 hb
  | cons first rest =>
      rw [List.forall_mem_cons] at hparts
      have hfirst := h 0 hb
      rw [atSample_cons] at hfirst
      obtain ⟨_, dtype, -, hdtype, hshapes, -⟩ := stack_cons_eq_ok.1 hfirst
      rw [joinType_select] at hdtype
      have hsame : ∀ part ∈ rest, part.shape = first.shape := by
        intro part hpart
        rw [(hparts.2 part hpart).shape_cons 0, hparts.1.shape_cons 0,
          hshapes _ (List.mem_map_of_mem hpart)]
      have hrank := hparts.1.rank_eq 0
      refine ⟨_, stack_cons_eq_ok.2
          ⟨1, dtype, (resolveAxis_natCast _ 1 _).2 ⟨by omega, rfl⟩, hdtype, hsame, rfl⟩,
        ?_, fun k hk => ?_⟩
      · unfold Batch
        rw [shape_ofFn, hparts.1.shape_eq]
        rfl
      · have hsample := h k hk
        rw [atSample_cons] at hsample
        obtain ⟨_, dtype', hzero, hdtype', -, hz⟩ := stack_cons_eq_ok.1 hsample
        rw [joinType_select, hdtype] at hdtype'
        cases hdtype'
        obtain ⟨-, rfl⟩ := (resolveAxis_natCast _ 0 _).1 hzero
        rw [hz, ← atSample_cons]
        refine ofFn_congr ?_ fun is his => ?_
        · rw [shape_ofFn, hparts.1.shape_cons k, atSample, List.length_map]
          rfl
        · rw [shape_ofFn, hparts.1.shape_cons k] at his
          cases is with
          | nil => exact his.elim
          | cons i is =>
              have hall : ∀ part ∈ first :: rest, part.Batch b ∧ part.shape.tail = first.shape.tail :=
                List.forall_mem_cons.2 ⟨⟨hparts.1, rfl⟩, fun part hpart =>
                  ⟨hparts.2 part hpart, congrArg List.tail (hsame part hpart)⟩⟩
              refine (get_ofFn (show Shape.InBounds _ (k :: i :: is) from ?_)).trans ?_
              · rw [hparts.1.shape_cons k]
                exact ⟨hk, his⟩
              · show (((first :: rest)[i]?).map fun part => (part.cast dtype).get (k :: is)).getD 0
                  = (((atSample k (first :: rest))[i]?).map fun part => (part.cast dtype).get is).getD 0
                rw [getElem?_atSample, Option.map_map]
                refine congrArg (Option.getD · 0) (Option.map_congr fun part hpart => ?_)
                obtain ⟨hbatch, htail⟩ := hall part (List.mem_of_getElem? hpart)
                have hin : Shape.InBounds part.shape.tail is := by
                  rw [htail, ← shape_select_zero first k]
                  exact his.2
                obtain ⟨hget, hin'⟩ := hbatch.get_select hk hin
                rw [← shape_select_zero part k] at hin
                exact (get_cast hin').trans ((congrArg _ hget.symm).trans (get_cast hin).symm)

-- ================================================================== sums

variable {u : Tensor}

/-- A sample of what is built from elements is built from those at its
position. -/
theorem select_ofFn {dtype : DType} {shape : Shape} {element : List Nat → Nat} (hk : k < b) :
    (ofFn dtype (b :: shape) element).select 0 k = ofFn dtype shape fun is => element (k :: is) :=
  ofFn_congr rfl fun _ his => get_ofFn ⟨hk, his⟩

/-- Where operands of one rank are read in a sample they are read in the
batch. -/
theorem Batch.get_project (h : t.Batch b) (hk : k < b) {is : List Nat}
    (hlength : is.length = t.shape.tail.length)
    (his : Shape.InBounds t.shape.tail (Shape.project t.shape.tail is)) :
    t.get (Shape.project t.shape (k :: is))
      = (t.select 0 k).get (Shape.project (t.select 0 k).shape is) := by
  have hposition : (if b = 1 then 0 else k) = k := by
    split <;> omega
  rw [shape_select_zero, (h.get_select hk his).1, h.shape_eq, List.tail_cons,
    Shape.project_cons hlength, hposition]

/-- Batches of one rank are combined sample by sample. -/
theorem zipWith_select {dtype : DType} {combine : Nat → Nat → Nat} {v : Nat → Tensor}
    (ht : t.Batch b) (hu : u.Batch b) (hrank : t.rank = u.rank) (hb : 1 ≤ b)
    (h : ∀ k < b, zipWith dtype combine (t.select 0 k) (u.select 0 k) = .ok (v k)) :
    ∃ z, zipWith dtype combine t u = .ok z ∧ z.Batch b ∧ ∀ k < b, z.select 0 k = v k := by
  have hlength : t.shape.tail.length = u.shape.tail.length := by
    rw [List.length_tail, List.length_tail]
    exact congrArg (· - 1) hrank
  unfold zipWith at h ⊢
  simp only [shape_select_zero] at h
  rw [ht.shape_eq, hu.shape_eq, Shape.broadcast?_cons_self b hlength]
  cases hcommon : Shape.broadcast? t.shape.tail u.shape.tail with
  | none =>
      rw [hcommon] at h
      exact nomatch h 0 hb
  | some common =>
      rw [hcommon] at h
      refine ⟨_, rfl, rfl, fun k hk => ?_⟩
      rw [select_ofFn hk, ← Except.ok.inj (h k hk)]
      refine ofFn_congr rfl fun is his => ?_
      obtain ⟨hcount, hfirst, hsecond⟩ := Shape.inBounds_project hlength hcommon his
      rw [← ht.shape_eq, ← hu.shape_eq, ht.get_project hk hcount hfirst,
        hu.get_project hk (hcount.trans hlength) hsecond, shape_select_zero, shape_select_zero]

/-- The type of a sum is that of the sums of the samples: operands without
dimensions are all that count less, and of one rank none or both are
that. -/
theorem commonType_select (hrank : t.rank = u.rank) (ht : t.Batch b) (hu : u.Batch b) (k : Nat) :
    commonType (t.select 0 k) (u.select 0 k) = commonType t u := by
  have htails : (t.select 0 k).shape.length = (u.select 0 k).shape.length :=
    Nat.succ.inj ((ht.rank_eq k).symm.trans (hrank.trans (hu.rank_eq k)))
  unfold commonType
  rw [ht.shape_eq, hu.shape_eq]
  revert htails
  cases (t.select 0 k).shape <;> cases (u.select 0 k).shape <;> intro htails
  · rfl
  · cases htails
  · cases htails
  · rfl

theorem add_eq_ok {z : Tensor} : t.add u = .ok z ↔ ∃ dtype, commonType t u = .ok dtype
    ∧ zipWith dtype (fun x y => Element.add dtype (Element.cast t.dtype dtype x)
      (Element.cast u.dtype dtype y)) t u = .ok z
    ∧ dtype.isStorageOnly = false := by
  unfold add
  rw [Except.bind_eq_ok]
  refine exists_congr fun dtype => and_congr_right fun _ => ?_
  rw [Except.bind_eq_ok]
  cases dtype.isStorageOnly with
  | true => exact ⟨fun ⟨_, _, h⟩ => (nomatch h), fun ⟨_, h⟩ => (nomatch h)⟩
  | false =>
      constructor
      · rintro ⟨z', hz, h⟩
        cases h
        exact ⟨hz, rfl⟩
      · rintro ⟨hz, -⟩
        exact ⟨z, hz, rfl⟩

/-- Batches of one rank are added sample by sample. -/
theorem add_select {v : Nat → Tensor} (ht : t.Batch b) (hu : u.Batch b) (hrank : t.rank = u.rank)
    (hb : 1 ≤ b) (h : ∀ k < b, (t.select 0 k).add (u.select 0 k) = .ok (v k)) :
    ∃ z, t.add u = .ok z ∧ z.Batch b ∧ ∀ k < b, z.select 0 k = v k := by
  obtain ⟨dtype, hdtype, -, hstorage⟩ := add_eq_ok.1 (h 0 hb)
  rw [commonType_select hrank ht hu] at hdtype
  have hsums : ∀ k < b, zipWith dtype (fun x y => Element.add dtype (Element.cast t.dtype dtype x)
      (Element.cast u.dtype dtype y)) (t.select 0 k) (u.select 0 k) = .ok (v k) := by
    intro k hk
    obtain ⟨dtype', hdtype', hsum, -⟩ := add_eq_ok.1 (h k hk)
    rw [commonType_select hrank ht hu, hdtype] at hdtype'
    cases hdtype'
    exact hsum
  obtain ⟨z, hz, hsamples⟩ := zipWith_select ht hu hrank hb hsums
  exact ⟨z, add_eq_ok.2 ⟨dtype, hdtype, hz, hstorage⟩, hsamples⟩

end Tensor

end OnnxLowering
