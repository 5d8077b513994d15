/-
Joins of joins. Parts of one type stand one after the other in their
join, so it makes no difference whether some of them have been joined
before (`joinAligned_append`). That holds of types that are cast to a
common one, too, only if nothing is lost on the way: joining in two steps
casts in two steps.

Which joins succeed is decided by the shapes. Parts of one shape can be
joined if and only if the runs of them that they are split into can be
joined, and the joins with each other (`join_append_eq_ok`).

The other way round, a slice of a join that lies in one of its two parts
is the slice of this part (`abuts_of_join`).
-/
import OnnxLowering.Proofs.Tensor.Chunks

namespace OnnxLowering.Tensor

variable {axis : Int} {dtype : DType} {shape : Shape} {k : Nat} {front back parts : List Tensor}

-- ============================================================== positions

/-- The size of some parts along a dimension, all together. -/
def total (k : Nat) (parts : List Tensor) : Nat :=
  (parts.map fun part => part.shape.getD k 0).foldr (· + ·) 0

theorem total_cons (k : Nat) (part : Tensor) (rest : List Tensor) :
    total k (part :: rest) = part.shape.getD k 0 + total k rest := rfl

theorem total_append (k : Nat) (front back : List Tensor) :
    total k (front ++ back) = total k front + total k back := by
  induction front with
  | nil => exact (Nat.zero_add _).symm
  | cons part front ih =>
      rw [List.cons_append, total_cons, total_cons, ih, Nat.add_assoc]

theorem total_of_shape (h : ∀ part ∈ parts, part.shape = shape) :
    total k parts = parts.length * shape.getD k 0 := by
  have hsizes : ∀ part ∈ parts, part.shape.getD k 0 = shape.getD k 0 :=
    fun part hpart => by rw [h part hpart]
  rw [total, List.map_congr_left hsizes, List.map_const', ← List.sum, List.sum_replicate_nat]

/-- A position is one of the parts in front, or one of those behind them. -/
theorem pickPart_append (k : Nat) (front back : List Tensor) (i : Nat) :
    pickPart k (front ++ back) i
      = if i < total k front then pickPart k front i else pickPart k back (i - total k front) := by
  induction front generalizing i with
  | nil => rfl
  | cons part front ih =>
      rw [List.cons_append, pickPart, pickPart, ih, total_cons]
      by_cases hpart : i < part.shape.getD k 0
      · simp only [hpart, if_true]
        rw [if_pos (by omega)]
      · simp only [hpart, if_false]
        by_cases hfront : i - part.shape.getD k 0 < total k front
        · rw [if_pos hfront, if_pos (by omega)]
        · rw [if_neg hfront, if_neg (by omega), Nat.sub_sub]

theorem get_joinAligned {others : List Nat} {i : Nat} (hk : k < shape.length)
    (hothers : Shape.InBounds (shape.eraseIdx k) others) (hi : i < total k parts) :
    (joinAligned dtype shape k parts).get (others.insertIdx k i)
      = match pickPart k parts i with
        | some (part, i) => part.get (others.insertIdx k i)
        | none => 0 := by
  have hle : k ≤ others.length := by
    rw [hothers.length_eq, List.length_eraseIdx_of_lt hk]
    omega
  have hat : (others.insertIdx k i).getD k 0 = i := by
    rw [List.getD_eq_getElem?_getD, List.getElem?_insertIdx_self, if_pos hle]
    rfl
  show (ofFn dtype (shape.set k (total k parts)) fun is =>
    match pickPart k parts (is.getD k 0) with
    | some (part, i) => part.get (is.set k i)
    | none => 0).get (others.insertIdx k i) = _
  rw [get_ofFn (Shape.inBounds_set hk hothers hi), hat]
  cases pickPart k parts i with
  | none => rfl
  | some entry =>
      show entry.1.get ((others.insertIdx k i).set k entry.2) = _
      rw [set_insertIdx_self _ _ _ _ hle]

-- ================================================================== joins

/-- Joining what is in front, what is behind, and both, is joining
everything. -/
theorem joinAligned_append (hk : k < shape.length) :
    joinAligned dtype shape k (front ++ back)
      = joinAligned dtype (shape.set k (total k front)) k
          [joinAligned dtype shape k front, joinAligned dtype shape k back] := by
  have hsize (parts : List Tensor) :
      (joinAligned dtype shape k parts).shape.getD k 0 = total k parts := by
    show (shape.set k (total k parts)).getD k 0 = _
    rw [List.getD_eq_getElem?_getD, List.getElem?_set_self hk]
    rfl
  have htotal : total k [joinAligned dtype shape k front, joinAligned dtype shape k back]
      = total k (front ++ back) := by
    rw [total_cons, total_cons, hsize, hsize, total_append]
    rfl
  have hset : (shape.set k (total k front)).set k
      (total k [joinAligned dtype shape k front, joinAligned dtype shape k back])
      = shape.set k (total k (front ++ back)) := by
    rw [htotal, List.set_set]
  refine ext_get rfl hset.symm fun is his => ?_
  replace his : Shape.InBounds (shape.set k (total k (front ++ back))) is := his
  obtain ⟨others, i, rfl, -, hi, hothers⟩ := his.exists_insertIdx hk
  have hothers' : Shape.InBounds ((shape.set k (total k front)).eraseIdx k) others := by
    rwa [List.eraseIdx_set_eq]
  rw [get_joinAligned hk hothers hi,
    get_joinAligned (by rwa [List.length_set]) hothers' (by rwa [htotal]), pickPart_append]
  simp only [pickPart, hsize]
  rw [total_append] at hi
  by_cases hfront : i < total k front
  · simp only [hfront, if_true]
    exact (get_joinAligned hk hothers hfront).symm
  · have hback : i - total k front < total k back := by omega
    simp only [hfront, hback, if_true, if_false]
    exact (get_joinAligned hk hothers hback).symm

theorem cast_self (t : Tensor) : t.cast t.dtype = t :=
  ext_get rfl rfl fun _ his => get_cast_self t his

/-- Which tensors of one type can be joined, if they all have a say in the
shape. -/
theorem join_eq_ok {first z : Tensor} {rest : List Tensor}
    (hdtype : ∀ part ∈ rest, part.dtype = first.dtype)
    (hsized : ∀ part ∈ first :: rest, part.rank ≠ 0 ∧ part.shape ≠ [0]) :
    join (first :: rest) axis = .ok z ↔ Shape.isWord axis = true
      ∧ ∃ k, resolveAxis first.rank axis = .ok k
        ∧ (∀ part ∈ rest, part.rank = first.rank ∧ part.shape.set k 0 = first.shape.set k 0)
        ∧ z = joinAligned first.dtype first.shape k (first :: rest) := by
  cases haxis : Shape.isWord axis with
  | false =>
      refine ⟨fun h => ?_, fun h => absurd h.1 Bool.false_ne_true⟩
      simp only [join, haxis] at h
      cases h
  | true =>
      have hcast : (first :: rest).map (·.cast first.dtype) = first :: rest := by
        refine (List.map_congr_left fun part hpart => ?_).trans (List.map_id _)
        rcases List.mem_cons.1 hpart with rfl | hpart
        · exact cast_self part
        · rw [← hdtype part hpart]
          exact cast_self part
      rw [join_cons haxis hsized, joinType_of_dtype hdtype, Except.bind_eq_ok]
      simp only [Except.ok_bind, hcast, true_and]
      refine exists_congr fun k => and_congr_right fun _ => ?_
      rw [Except.guard_eq_ok', List.all_eq_true]
      simp only [Bool.and_eq_true, decide_eq_true_eq]
      exact and_congr_right fun _ => ⟨fun h => (Except.ok.inj h).symm, fun h => h ▸ rfl⟩

/-- Tensors without dimensions cannot be joined. -/
theorem rank_ne_zero_of_join {z : Tensor} (h : join parts axis = .ok z) :
    ∀ part ∈ parts, part.rank ≠ 0 := by
  unfold join at h
  obtain ⟨-, h⟩ := Except.guard_eq_ok'.1 h
  cases parts with
  | nil => cases h
  | cons first rest =>
      obtain ⟨hranks, -⟩ := Except.guard_eq_ok'.1 h
      simpa using hranks

/-- Empty vectors make an empty vector. -/
theorem join_empty_eq_ok {z : Tensor} (hne : parts ≠ [])
    (h : ∀ part ∈ parts, part.shape = [0] ∧ part.dtype = dtype) :
    join parts axis = .ok z ↔ Shape.isWord axis = true ∧ z = ofFn dtype [0] fun _ => 0 := by
  obtain ⟨first, rest, rfl⟩ := List.exists_cons_of_ne_nil hne
  have hranks : (first :: rest).all (·.rank ≠ 0) = true :=
    List.all_eq_true.2 fun part hpart => by simp [rank, (h part hpart).1]
  have hfilter : (first :: rest).filter (·.shape ≠ [0]) = [] :=
    List.filter_eq_nil_iff.2 fun part hpart => by simp [(h part hpart).1]
  have hdtype : joinType first rest = .ok dtype := by
    rw [← (h first List.mem_cons_self).2]
    exact joinType_of_dtype fun part hpart =>
      (h part (List.mem_cons_of_mem _ hpart)).2.trans (h first List.mem_cons_self).2.symm
  unfold join
  rw [Except.guard_eq_ok']
  refine and_congr_right fun _ => ?_
  simp only [hranks, hfilter, hdtype, if_true, Except.ok_bind]
  exact ⟨fun h => (Except.ok.inj h).symm, fun h => h ▸ rfl⟩

/-- Parts of one shape and type. -/
def Alike (shape : Shape) (dtype : DType) (parts : List Tensor) : Prop :=
  ∀ part ∈ parts, part.shape = shape ∧ part.dtype = dtype

theorem Alike.join_eq_ok {z : Tensor} (h : Alike shape dtype parts) (hne : parts ≠ [])
    (hrank : shape ≠ []) (hshape : shape ≠ [0]) :
    join parts axis = .ok z ↔ Shape.isWord axis = true
      ∧ ∃ k, resolveAxis shape.length axis = .ok k ∧ z = joinAligned dtype shape k parts := by
  obtain ⟨first, rest, rfl⟩ := List.exists_cons_of_ne_nil hne
  obtain ⟨rfl, rfl⟩ := h first List.mem_cons_self
  have hrest : ∀ part ∈ rest, part.shape = first.shape ∧ part.dtype = first.dtype :=
    fun part hpart => h part (List.mem_cons_of_mem _ hpart)
  rw [Tensor.join_eq_ok (fun part hpart => (hrest part hpart).2) fun part hpart => by
    rw [rank, (h part hpart).1]
    exact ⟨fun hzero => hrank (List.eq_nil_of_length_eq_zero hzero), hshape⟩]
  refine and_congr_right fun _ => exists_congr fun k => and_congr_right fun _ =>
    and_iff_right fun part hpart => ?_
  rw [rank, (hrest part hpart).1]
  exact ⟨rfl, rfl⟩

/-- A run of parts of which not all are empty vectors is none either. -/
theorem set_total_ne_zero (h : Alike shape dtype parts) (hne : parts ≠ []) (hk : k < shape.length)
    (hshape : shape ≠ [0]) : shape.set k (total k parts) ≠ [0] := by
  intro hzero
  have hlength : shape.length = 1 := by
    rw [← List.length_set, hzero]
    rfl
  obtain ⟨size, rfl⟩ := List.length_eq_one_iff.1 hlength
  obtain rfl : k = 0 := by omega
  rw [total_of_shape fun part hpart => (h part hpart).1] at hzero
  have hproduct : parts.length * size = 0 := (List.cons.inj hzero).1
  rcases Nat.mul_eq_zero.1 hproduct with hempty | hsize
  · exact hne (List.eq_nil_of_length_eq_zero hempty)
  · exact hshape (by rw [hsize])

/-- Joins along one dimension can be joined there. -/
theorem join_pair_eq_ok {z : Tensor} (hk : resolveAxis shape.length axis = .ok k)
    (hfront : shape.set k (total k front) ≠ [0]) (hback : shape.set k (total k back) ≠ [0]) :
    join [joinAligned dtype shape k front, joinAligned dtype shape k back] axis = .ok z
      ↔ Shape.isWord axis = true ∧ z = joinAligned dtype shape k (front ++ back) := by
  have hlt : k < shape.length := resolveAxis_lt hk
  have hrank (parts : List Tensor) : (joinAligned dtype shape k parts).rank = shape.length :=
    List.length_set
  have hset (parts : List Tensor) : (joinAligned dtype shape k parts).shape.set k 0 = shape.set k 0 :=
    List.set_set _
  have hnonzero : shape.length ≠ 0 := by omega
  rw [join_eq_ok (by simp [joinAligned]), hrank]
  · refine and_congr_right fun _ => ?_
    rw [joinAligned_append hlt]
    constructor
    · rintro ⟨k', hk', -, rfl⟩
      obtain rfl := Except.ok.inj (hk.symm.trans hk')
      rfl
    · rintro rfl
      refine ⟨k, hk, fun part hpart => ?_, rfl⟩
      obtain rfl := List.mem_singleton.1 hpart
      exact ⟨hrank back, (hset back).trans (hset front).symm⟩
  · intro part hpart
    simp only [List.mem_cons, List.not_mem_nil, or_false] at hpart
    rcases hpart with rfl | rfl
    · exact ⟨by rwa [hrank], hfront⟩
    · exact ⟨by rwa [hrank], hback⟩

/-- Parts of one shape and type can be joined if and only if they can be
joined in two runs, and these with each other. -/
theorem join_append_eq_ok {z : Tensor} (hfront : front ≠ []) (hback : back ≠ [])
    (h : Alike shape dtype (front ++ back)) :
    join (front ++ back) axis = .ok z
      ↔ ∃ a b, join front axis = .ok a ∧ join back axis = .ok b ∧ join [a, b] axis = .ok z := by
  have hfronts : Alike shape dtype front := fun part hpart => h part (List.mem_append_left _ hpart)
  have hbacks : Alike shape dtype back := fun part hpart => h part (List.mem_append_right _ hpart)
  have hne : front ++ back ≠ [] := List.append_ne_nil_of_left_ne_nil hfront back
  by_cases hzero : shape = [0]
  · subst hzero
    have hpair : ∀ part ∈ [ofFn dtype [0] fun _ => 0, ofFn dtype [0] fun _ => 0],
        part.shape = [0] ∧ part.dtype = dtype := by simp
    simp only [join_empty_eq_ok hne h, join_empty_eq_ok hfront hfronts, join_empty_eq_ok hback hbacks]
    constructor
    · rintro ⟨hword, rfl⟩
      exact ⟨_, _, ⟨hword, rfl⟩, ⟨hword, rfl⟩,
        (join_empty_eq_ok (List.cons_ne_nil _ _) hpair).2 ⟨hword, rfl⟩⟩
    · rintro ⟨_, _, ⟨hword, rfl⟩, ⟨-, rfl⟩, hjoin⟩
      exact (join_empty_eq_ok (List.cons_ne_nil _ _) hpair).1 hjoin
  -- Tensors without dimensions are joined on neither side.
  have hdims {parts : List Tensor} {z : Tensor} (hne : parts ≠ []) (h : Alike shape dtype parts)
      (hjoin : join parts axis = .ok z) : shape ≠ [] := by
    obtain ⟨first, rest, rfl⟩ := List.exists_cons_of_ne_nil hne
    have hrank := rank_ne_zero_of_join hjoin first List.mem_cons_self
    rw [rank, (h first List.mem_cons_self).1] at hrank
    exact fun hempty => hrank (by rw [hempty]; rfl)
  have hsplit (hrank : shape ≠ []) : join (front ++ back) axis = .ok z
      ↔ ∃ a b, join front axis = .ok a ∧ join back axis = .ok b ∧ join [a, b] axis = .ok z := by
    simp only [h.join_eq_ok hne hrank hzero, hfronts.join_eq_ok hfront hrank hzero,
      hbacks.join_eq_ok hback hrank hzero]
    have hpair {k : Nat} (hk : resolveAxis shape.length axis = .ok k) :
        join [joinAligned dtype shape k front, joinAligned dtype shape k back] axis = .ok z
          ↔ Shape.isWord axis = true ∧ z = joinAligned dtype shape k (front ++ back) :=
      join_pair_eq_ok hk (set_total_ne_zero hfronts hfront (resolveAxis_lt hk) hzero)
        (set_total_ne_zero hbacks hback (resolveAxis_lt hk) hzero)
    constructor
    · rintro ⟨hword, k, hk, rfl⟩
      exact ⟨_, _, ⟨hword, k, hk, rfl⟩, ⟨hword, k, hk, rfl⟩, (hpair hk).2 ⟨hword, rfl⟩⟩
    · rintro ⟨_, _, ⟨hword, k, hk, rfl⟩, ⟨-, k', hk', rfl⟩, hjoin⟩
      obtain rfl := Except.ok.inj (hk.symm.trans hk')
      exact ⟨hword, k, hk, ((hpair hk).1 hjoin).2⟩
  constructor
  · exact fun hjoin => (hsplit (hdims hne h hjoin)).1 hjoin
  · rintro ⟨a, b, ha, hb, hjoin⟩
    exact (hsplit (hdims hfront hfronts ha)).2 ⟨a, b, ha, hb, hjoin⟩

-- ================================================================ slices

/-- A tensor is one of size `m` and then one of size `n` along dimension
`k`. -/
structure Abuts (axis : Int) (k m n : Nat) (x front back : Tensor) : Prop where
  isWord : Shape.isWord axis = true
  resolve : resolveAxis x.rank axis = .ok k
  resolveFront : resolveAxis front.rank axis = .ok k
  resolveBack : resolveAxis back.rank axis = .ok k
  size : x.shape.getD k 0 = m + n
  sizeFront : front.shape.getD k 0 = m
  sizeBack : back.shape.getD k 0 = n
  cutFront : ∀ i < m, x.cut k i 1 = front.cut k i 1
  cutBack : ∀ i < n, x.cut k (m + i) 1 = back.cut k i 1

theorem sizeAlong_eq_ok {t : Tensor} {size : Nat} :
    t.sizeAlong axis = .ok size ↔ ∃ k, resolveAxis t.rank axis = .ok k ∧ t.shape.getD k 0 = size := by
  unfold sizeAlong
  cases resolveAxis t.rank axis with
  | error e => exact ⟨fun h => (nomatch h), fun ⟨_, h, _⟩ => (nomatch h)⟩
  | ok k =>
      constructor
      · exact fun h => ⟨k, rfl, Except.ok.inj h⟩
      · rintro ⟨_, ⟨⟩, rfl⟩
        rfl

/-- Positions of a join stand in one of its parts. -/
theorem cut_eq_cut {x t : Tensor} {first i : Nat} (hk : k < x.rank) (hdtype : x.dtype = t.dtype)
    (hshape : x.shape.set k 0 = t.shape.set k 0)
    (hget : ∀ others, Shape.InBounds (x.shape.eraseIdx k) others →
      x.get (others.insertIdx k first) = t.get (others.insertIdx k i)) :
    x.cut k first 1 = t.cut k i 1 := by
  have hset : x.shape.set k 1 = t.shape.set k 1 := by
    have := congrArg (·.set k 1) hshape
    simpa only [List.set_set] using this
  have herase : x.shape.eraseIdx k = t.shape.eraseIdx k := by
    have := congrArg (·.eraseIdx k) hshape
    simpa only [List.eraseIdx_set_eq] using this
  have hlt : k < t.rank := by
    have := congrArg List.length hset
    rw [List.length_set, List.length_set] at this
    rwa [rank, ← this]
  refine ext_get hdtype hset fun is his => ?_
  obtain ⟨others, j, rfl, -, hj, hothers⟩ := Shape.InBounds.exists_insertIdx hk his
  obtain rfl : j = 0 := by omega
  rw [get_cut hk hothers hj, get_cut hlt (herase ▸ hothers) hj]
  exact hget others hothers

/-- The slices of size one of a join are those of its parts. -/
theorem abuts_of_join {x front back : Tensor} {m n : Nat} (hjoin : join [front, back] axis = .ok x)
    (hdtype : back.dtype = front.dtype) (hm : front.sizeAlong axis = .ok m)
    (hn : back.sizeAlong axis = .ok n) (hpos : 0 < m ∧ 0 < n) : ∃ k, Abuts axis k m n x front back := by
  obtain ⟨k, hk, hfront⟩ := sizeAlong_eq_ok.1 hm
  obtain ⟨k', hk', hback⟩ := sizeAlong_eq_ok.1 hn
  have hsized {t : Tensor} {k size : Nat} (hk : resolveAxis t.rank axis = .ok k)
      (hsize : t.shape.getD k 0 = size) (hpos : 0 < size) : t.rank ≠ 0 ∧ t.shape ≠ [0] := by
    have hlt := resolveAxis_lt hk
    refine ⟨Nat.ne_zero_of_lt hlt, fun hzero => ?_⟩
    rw [hzero] at hsize
    rw [rank, hzero, List.length_singleton] at hlt
    obtain rfl : k = 0 := by omega
    exact Nat.ne_of_gt hpos hsize.symm
  have hparts : ∀ part ∈ [front, back], part.rank ≠ 0 ∧ part.shape ≠ [0] := by
    intro part hpart
    simp only [List.mem_cons, List.not_mem_nil, or_false] at hpart
    rcases hpart with rfl | rfl
    · exact hsized hk hfront hpos.1
    · exact hsized hk' hback hpos.2
  obtain ⟨hword, k'', hk'', hfits, rfl⟩ := (join_eq_ok (by simpa using hdtype) hparts).1 hjoin
  obtain rfl := Except.ok.inj (hk.symm.trans hk'')
  obtain ⟨hrank, hset⟩ := hfits back (List.mem_singleton_self _)
  rw [hrank] at hk'
  obtain rfl := Except.ok.inj (hk.symm.trans hk')
  have hlt : k < front.shape.length := resolveAxis_lt hk
  have htotal : total k [front, back] = m + n := by
    rw [total_cons, total_cons, hfront, hback]
    rfl
  have hshape : (joinAligned front.dtype front.shape k [front, back]).shape
      = front.shape.set k (m + n) := by
    rw [← htotal]
    rfl
  have hjoined : (joinAligned front.dtype front.shape k [front, back]).rank = front.rank :=
    List.length_set
  have hothers {others : List Nat} (h : Shape.InBounds
      ((joinAligned front.dtype front.shape k [front, back]).shape.eraseIdx k) others) :
      Shape.InBounds (front.shape.eraseIdx k) others := by
    rwa [hshape, List.eraseIdx_set_eq] at h
  refine ⟨k, hword, by rw [hjoined, hk], hk, by rw [hrank, hk], ?_, hfront, hback,
    fun i hi => cut_eq_cut (by rw [hjoined]; exact hlt) rfl ?_ fun others h => ?_,
    fun i hi => cut_eq_cut (by rw [hjoined]; exact hlt) hdtype.symm ?_ fun others h => ?_⟩
  · rw [hshape, List.getD_eq_getElem?_getD, List.getElem?_set_self hlt]
    rfl
  · rw [hshape, List.set_set]
  · rw [get_joinAligned hlt (hothers h) (by omega), pickPart, hfront]
    simp only [hi, if_true]
  · rw [hshape, List.set_set, hset]
  · rw [get_joinAligned hlt (hothers h) (by omega), pickPart, hfront, pickPart, hback]
    simp only [show ¬ m + i < m by omega, Nat.add_sub_cancel_left, hi, if_true, if_false]

end OnnxLowering.Tensor
