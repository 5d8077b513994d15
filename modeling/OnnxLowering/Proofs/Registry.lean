/-
Which entry of a registry serves an operation in a version, after any
history of registrations: the first one that was registered for the
greatest version not above (`ofList_serves_greatest`). The history may
hold registrations that are refused, because there is one already for the
same operation and version. They leave the registry as it is.

`Reflects` is what all registrations preserve: the entries of every
operation are sorted, and they are the first registrations of their
versions. The lookup walks along the entries and stops at the first one
that is too high, which is right because they are sorted
(`getLast?_takeWhile_eq_some`). Sorted lists with the same elements are
equal, so the registry of distinct registrations is the same, operation
by operation, in whatever order they come.
-/
import Mathlib.Data.List.Induction
import Mathlib.Data.List.Sort
import OnnxLowering.Registry

namespace OnnxLowering

namespace NameMap

variable {α : Type} {m : NameMap α} {name : String} {value : α}

-- ================================================================== names

theorem contains_iff : m.contains name = true ↔ ∃ value, m.find? name = some value :=
  Option.isSome_iff_exists

theorem mem_keys : name ∈ m.keys ↔ m.contains name = true := by
  unfold keys contains find?
  rw [List.mem_eraseDups, List.lookup_isSome_iff, List.mem_map]
  exact exists_congr fun entry => and_congr_right fun _ => by rw [beq_iff_eq, eq_comm]

theorem mem_toList : (name, value) ∈ m.toList ↔ m.find? name = some value := by
  unfold toList
  rw [List.mem_filterMap]
  constructor
  · rintro ⟨key, -, hkey⟩
    obtain ⟨found, hfound, hpair⟩ := Option.map_eq_some_iff.1 hkey
    cases hpair
    exact hfound
  · intro h
    exact ⟨name, mem_keys.2 (contains_iff.2 ⟨value, h⟩), by rw [h]; rfl⟩

theorem map_fst_toList : m.toList.map Prod.fst = m.keys := by
  unfold toList
  rw [List.map_filterMap]
  refine (List.filterMap_congr fun name hname => ?_).trans List.filterMap_some
  obtain ⟨value, hvalue⟩ := contains_iff.1 (mem_keys.1 hname)
  rw [hvalue]
  rfl

end NameMap

/-- What is left when repetitions are dropped has none. -/
theorem nodup_eraseDups {α : Type} [BEq α] [LawfulBEq α] (xs : List α) : xs.eraseDups.Nodup := by
  match xs with
  | [] => exact .nil
  | x :: xs =>
      rw [List.eraseDups_cons, List.nodup_cons]
      refine ⟨fun hmem => ?_, nodup_eraseDups _⟩
      have hkept := (List.mem_filter.1 (List.mem_eraseDups.1 hmem)).2
      rw [BEq.rfl] at hkept
      cases hkept
termination_by xs.length
decreasing_by exact Nat.lt_succ_of_le (List.length_filter_le _ _)

namespace Registry

variable {α : Type}

-- ================================================================ histories

/-- A call for an entry of an operation from a version on. -/
abbrev Registration (α : Type) := String × Int × α

/-- There has been a call for an operation and a version. -/
def Registered (history : List (Registration α)) (op : String) (version : Int) : Prop :=
  ∃ value, (op, version, value) ∈ history

/-- The entry of the first call for an operation and a version. -/
def first? (history : List (Registration α)) (op : String) (version : Int) : Option α :=
  (history.find? fun call => call.1 = op ∧ call.2.1 = version).map fun call => call.2.2

section

variable {history history' : List (Registration α)} {call : Registration α} {op : String}
  {version : Int} {value : α}

theorem first?_eq_none : first? history op version = none ↔ ¬ Registered history op version := by
  unfold first? Registered
  rw [Option.map_eq_none_iff, List.find?_eq_none]
  simp only [decide_eq_true_eq]
  constructor
  · rintro h ⟨value, hmem⟩
    exact h _ hmem ⟨rfl, rfl⟩
  · rintro h ⟨_, _, value⟩ hmem ⟨rfl, rfl⟩
    exact h ⟨value, hmem⟩

theorem registered_iff :
    Registered history op version ↔ ∃ value, first? history op version = some value := by
  rw [← Option.isSome_iff_exists, Option.isSome_iff_ne_none, Ne, first?_eq_none, not_not]

theorem mem_of_first? (h : first? history op version = some value) :
    (op, version, value) ∈ history := by
  obtain ⟨⟨op', version', value'⟩, hfind, rfl⟩ := Option.map_eq_some_iff.1 h
  have hcall := List.find?_some hfind
  obtain ⟨rfl, rfl⟩ := of_decide_eq_true hcall
  exact List.mem_of_find?_eq_some hfind

/-- One call more counts only if there was none like it. -/
theorem first?_append_singleton : first? (history ++ [call]) op version
    = (first? history op version).or
      (if call.1 = op ∧ call.2.1 = version then some call.2.2 else none) := by
  unfold first?
  rw [List.find?_append, List.find?_singleton]
  cases history.find? fun call => call.1 = op ∧ call.2.1 = version with
  | some found => rfl
  | none => by_cases hcall : call.1 = op ∧ call.2.1 = version <;> simp [hcall]

/-- Where all calls are distinct, each is the first one of its kind. -/
theorem first?_eq_some (distinct : (history.map fun call => (call.1, call.2.1)).Nodup) :
    first? history op version = some value ↔ (op, version, value) ∈ history := by
  refine ⟨mem_of_first?, fun hmem => ?_⟩
  obtain ⟨found, hfound⟩ := registered_iff.1 ⟨value, hmem⟩
  have hsame := List.inj_on_of_nodup_map distinct (mem_of_first? hfound) hmem rfl
  cases hsame
  exact hfound

end

-- =============================================================== the lookup

/-- Sorted entries up to the first one that is too high are all that are not
too high. -/
theorem takeWhile_eq_filter {entries : List (Int × α)} (sorted : Sorted entries) (version : Int) :
    entries.takeWhile (·.1 ≤ version) = entries.filter (·.1 ≤ version) := by
  induction entries with
  | nil => rfl
  | cons entry rest ih =>
      obtain ⟨above, rest_sorted⟩ := List.pairwise_cons.1 sorted
      by_cases hentry : entry.1 ≤ version
      · simp only [List.takeWhile_cons, List.filter_cons, hentry, decide_true, if_true, ih rest_sorted]
      · have hnone : rest.filter (·.1 ≤ version) = [] := by
          refine List.filter_eq_nil_iff.2 fun other hother hle => hentry ?_
          exact Int.le_trans (Int.le_of_lt (above other hother)) (of_decide_eq_true hle)
        simp only [List.takeWhile_cons, List.filter_cons, hentry, decide_false, hnone]
        rfl

theorem getLast?_eq_some {entries : List (Int × α)} (sorted : Sorted entries) {last : Int × α} :
    entries.getLast? = some last ↔ last ∈ entries ∧ ∀ entry ∈ entries, entry.1 ≤ last.1 := by
  constructor
  · intro h
    obtain ⟨front, rfl⟩ := List.getLast?_eq_some_iff.1 h
    obtain ⟨-, -, hfront⟩ := List.pairwise_append.1 sorted
    refine ⟨List.mem_append_right _ List.mem_cons_self, fun entry hentry => ?_⟩
    rcases List.mem_append.1 hentry with hmem | hmem
    · exact Int.le_of_lt (hfront entry hmem last List.mem_cons_self)
    · rw [List.mem_singleton.1 hmem]
  · rintro ⟨hmem, hgreatest⟩
    obtain ⟨front, back, rfl⟩ := List.append_of_mem hmem
    -- what stands behind the greatest entry would be greater
    obtain rfl : back = [] := by
      refine List.eq_nil_iff_forall_not_mem.2 fun entry hentry => ?_
      have habove := (List.pairwise_cons.1 (List.pairwise_append.1 sorted).2.1).1 entry hentry
      have hbelow := hgreatest entry (List.mem_append_right _ (List.mem_cons_of_mem _ hentry))
      omega
    exact List.getLast?_concat

/-- The entry that serves a version is the greatest of all that are not too
high. -/
theorem find?_eq_some {registry : Registry α} {op : String} (sorted : Sorted (registry.versions op))
    {version since : Int} {value : α} :
    registry.find? op version = some (since, value)
      ↔ (since, value) ∈ registry.versions op ∧ since ≤ version
        ∧ ∀ entry ∈ registry.versions op, entry.1 ≤ version → entry.1 ≤ since := by
  unfold find?
  rw [takeWhile_eq_filter sorted, getLast?_eq_some (sorted.filter _)]
  simp only [List.mem_filter, decide_eq_true_eq, and_imp, and_assoc]

-- ============================================================ registrations

/-- The registry holds the first registrations of a history, in order. -/
structure Reflects (registry : Registry α) (history : List (Registration α)) : Prop where
  sorted : ∀ op, Sorted (registry.versions op)
  entries : ∀ {op version value}, (version, value) ∈ registry.versions op
    ↔ first? history op version = some value
  nonempty : ∀ {op}, registry.contains op = true → registry.versions op ≠ []

/-- The registry after a call. -/
def enter (registry : Registry α) (call : Registration α) : Registry α :=
  match registry.register call.1 call.2.1 call.2.2 with
  | .ok registry => registry
  | .error _ => registry

theorem ofList_append (history later : List (Registration α)) :
    ofList (history ++ later) = later.foldl enter (ofList history) := List.foldl_append

section

variable {registry : Registry α} {history : List (Registration α)} {op : String} {version : Int}
  {value : α}

theorem versions_insert (entries : List (Int × α)) (other : String) :
    versions ⟨registry.entries.insert op entries⟩ other
      = if other = op then entries else registry.versions other := by
  unfold versions
  rw [NameMap.find?_insert]
  split <;> rfl

theorem Reflects.mem_versions (h : registry.Reflects history) {op : String} {version : Int} :
    version ∈ (registry.versions op).map Prod.fst ↔ Registered history op version := by
  rw [registered_iff, List.mem_map]
  constructor
  · rintro ⟨⟨_, value⟩, hmem, rfl⟩
    exact ⟨value, h.entries.1 hmem⟩
  · rintro ⟨value, hfirst⟩
    exact ⟨_, h.entries.2 hfirst, rfl⟩

/-- A version that is there already is refused. -/
theorem Reflects.register_again (h : registry.Reflects history) (hold : Registered history op version) :
    registry.register op version value = .error ⟨op, version⟩ := by
  obtain ⟨entry, hmem, hversion⟩ := List.mem_map.1 (h.mem_versions.2 hold)
  unfold register
  rw [if_pos (List.any_eq_true.2 ⟨entry, hmem, decide_eq_true hversion⟩)]

/-- A new version is put among the others. -/
theorem Reflects.register_new (h : registry.Reflects history)
    (hnew : ¬ Registered history op version) :
    registry.register op version value
      = .ok ⟨registry.entries.insert op (insertSorted version value (registry.versions op))⟩ := by
  unfold register
  rw [if_neg fun hany => hnew ?_]
  obtain ⟨entry, hmem, hversion⟩ := List.any_eq_true.1 hany
  exact h.mem_versions.1 (of_decide_eq_true hversion ▸ List.mem_map_of_mem hmem)

theorem reflects_empty : (empty : Registry α).Reflects [] where
  sorted _ := .nil
  entries := ⟨fun h => (nomatch h), fun h => (nomatch h)⟩
  nonempty h := nomatch h

/-- A call keeps the order, and counts if it is the first of its kind. -/
theorem Reflects.enter (h : registry.Reflects history) (call : Registration α) :
    (registry.enter call).Reflects (history ++ [call]) := by
  obtain ⟨op, version, value⟩ := call
  unfold Registry.enter
  by_cases hold : Registered history op version
  · obtain ⟨found, hfound⟩ := registered_iff.1 hold
    simp only [h.register_again hold]
    refine ⟨h.sorted, fun {op' version' value'} => ?_, h.nonempty⟩
    rw [h.entries, first?_append_singleton]
    by_cases hsame : op = op' ∧ version = version'
    · obtain ⟨rfl, rfl⟩ := hsame
      rw [hfound, Option.some_or]
    · rw [if_neg hsame, Option.or_none]
  · simp only [h.register_new hold]
    refine ⟨fun op' => ?_, fun {op' version' value'} => ?_, fun {op'} hcontains => ?_⟩
    · rw [versions_insert]
      split
      · exact (h.sorted op).insertSorted fun entry hentry hversion =>
          hold (h.mem_versions.1 (hversion ▸ List.mem_map_of_mem hentry))
      · exact h.sorted op'
    · rw [versions_insert, first?_append_singleton]
      by_cases hop : op' = op
      · subst hop
        rw [if_pos rfl, mem_insertSorted, h.entries, Prod.mk.injEq]
        by_cases hversion : version = version'
        · subst hversion
          rw [first?_eq_none.2 hold, Option.none_or, if_pos ⟨rfl, rfl⟩, Option.some.injEq]
          exact ⟨fun hor => hor.elim (fun heq => heq.2.symm) fun hnone => (nomatch hnone),
            fun heq => .inl ⟨rfl, heq.symm⟩⟩
        · rw [if_neg fun hboth => hversion hboth.2, Option.or_none]
          exact or_iff_right fun heq => hversion heq.1.symm
      · rw [if_neg hop, if_neg fun hboth => hop hboth.1.symm, Option.or_none, h.entries]
    · rw [versions_insert]
      split
      · exact List.ne_nil_of_mem (mem_insertSorted.2 (.inl rfl))
      · next hop =>
          refine h.nonempty ?_
          rwa [Registry.contains, NameMap.contains_insert, beq_false_of_ne hop, Bool.false_or]
            at hcontains

/-- Registrations, one after the other. -/
theorem reflects_ofList (history : List (Registration α)) : (ofList history).Reflects history := by
  induction history using List.reverseRecOn with
  | nil => exact reflects_empty
  | append_singleton history call ih =>
      rw [ofList_append]
      exact ih.enter call

/-- The operations and their versions. -/
theorem Reflects.mem_supported (h : registry.Reflects history) {versions : List Int} :
    (op, versions) ∈ registry.supported
      ↔ versions ≠ [] ∧ versions.Pairwise (· < ·)
        ∧ ∀ version, version ∈ versions ↔ Registered history op version := by
  have hmem : (op, versions) ∈ registry.supported
      ↔ registry.contains op = true ∧ versions = (registry.versions op).map Prod.fst := by
    unfold supported
    rw [List.mem_map]
    constructor
    · rintro ⟨⟨op', entries⟩, hentry, hpair⟩
      obtain ⟨rfl, rfl⟩ := Prod.mk.inj hpair
      rw [NameMap.mem_toList] at hentry
      exact ⟨NameMap.contains_iff.2 ⟨_, hentry⟩, by rw [Registry.versions, hentry]; rfl⟩
    · rintro ⟨hcontains, rfl⟩
      obtain ⟨entries, hentries⟩ := NameMap.contains_iff.1 hcontains
      exact ⟨(op, entries), NameMap.mem_toList.2 hentries, by rw [Registry.versions, hentries]; rfl⟩
  have hsorted : ((registry.versions op).map Prod.fst).Pairwise (· < ·) :=
    List.pairwise_map.2 (h.sorted op)
  rw [hmem]
  constructor
  · rintro ⟨hcontains, rfl⟩
    exact ⟨fun hnil => h.nonempty hcontains (List.map_eq_nil_iff.1 hnil), hsorted,
      fun _ => h.mem_versions⟩
  · rintro ⟨hnonempty, hpairwise, hversions⟩
    -- sorted lists of the same versions are the same list
    have hsame : versions = (registry.versions op).map Prod.fst := by
      refine List.Perm.eq_of_pairwise (fun a b _ _ hab hba => absurd hab (Int.lt_asymm hba)) hpairwise
        hsorted ((List.perm_ext_iff_of_nodup (hpairwise.imp Int.ne_of_lt)
          (hsorted.imp Int.ne_of_lt)).2 fun version => ?_)
      rw [hversions, h.mem_versions]
    refine ⟨?_, hsame⟩
    rw [Registry.contains, ← Bool.not_eq_false]
    intro hnone
    rw [hsame, Registry.versions, Option.not_isSome_iff_eq_none.1 (Bool.eq_false_iff.1 hnone)] at hnonempty
    exact hnonempty rfl

theorem nodup_supported (registry : Registry α) : (registry.supported.map Prod.fst).Nodup := by
  have hkeys : registry.supported.map Prod.fst = registry.entries.toList.map Prod.fst := by
    unfold supported
    rw [List.map_map]
    rfl
  rw [hkeys, NameMap.map_fst_toList]
  exact nodup_eraseDups _

/-- An operation is served by the first entry for the greatest version not
above. -/
theorem Reflects.find?_eq_some_iff (h : registry.Reflects history) {since : Int} :
    registry.find? op version = some (since, value)
      ↔ first? history op since = some value ∧ since ≤ version
        ∧ ∀ other, Registered history op other → other ≤ version → other ≤ since := by
  rw [find?_eq_some (h.sorted op), h.entries]
  refine and_congr_right fun _ => and_congr_right fun _ => ⟨fun hgreatest other hother => ?_, ?_⟩
  · obtain ⟨entry, hmem, rfl⟩ := List.mem_map.1 (h.mem_versions.2 hother)
    exact hgreatest entry hmem
  · exact fun hgreatest entry hmem => hgreatest _ (h.mem_versions.1 (List.mem_map_of_mem hmem))

theorem Reflects.find?_eq_none_iff (h : registry.Reflects history) :
    registry.find? op version = none ↔ ∀ since, Registered history op since → version < since := by
  unfold find?
  rw [takeWhile_eq_filter (h.sorted op), List.getLast?_eq_none_iff, List.filter_eq_nil_iff]
  simp only [decide_eq_true_eq, Int.not_le]
  constructor
  · intro hhigh since hsince
    obtain ⟨entry, hmem, rfl⟩ := List.mem_map.1 (h.mem_versions.2 hsince)
    exact hhigh entry hmem
  · exact fun hhigh entry hmem => hhigh _ (h.mem_versions.1 (List.mem_map_of_mem hmem))

end

/-- **The entry that serves a version.** After any calls, refused ones
included, an operation is served in a version by the entry that was first
registered for the greatest version not above, and by none if there is no
such version. A call is refused exactly if there was one for the same
operation and version, and then all that follows is as if it had not been
made. Every operation is listed once, with its versions in ascending order,
and neither that nor, if all calls are distinct, what serves a version
depends on their order. -/
theorem ofList_serves_greatest (history : List (Registration α)) :
    (∀ op version since value, (ofList history).find? op version = some (since, value)
        ↔ first? history op since = some value ∧ since ≤ version
          ∧ ∀ other, Registered history op other → other ≤ version → other ≤ since)
      ∧ (∀ op version, (ofList history).find? op version = none
        ↔ ∀ since, Registered history op since → version < since)
      ∧ (∀ op version value, Registered history op version →
        (ofList history).register op version value = .error ⟨op, version⟩
          ∧ ∀ later, ofList (history ++ (op, version, value) :: later) = ofList (history ++ later))
      ∧ (∀ op version value, ¬ Registered history op version →
        (ofList history).register op version value
          = .ok (ofList (history ++ [(op, version, value)])))
      ∧ ((ofList history).supported.map Prod.fst).Nodup
      ∧ (∀ op versions, (op, versions) ∈ (ofList history).supported
        ↔ versions ≠ [] ∧ versions.Pairwise (· < ·)
          ∧ ∀ version, version ∈ versions ↔ Registered history op version)
      ∧ ∀ history', history.Perm history' →
        (∀ entry, entry ∈ (ofList history').supported ↔ entry ∈ (ofList history).supported)
          ∧ ((history.map fun call => (call.1, call.2.1)).Nodup → ∀ op version,
            (ofList history').find? op version = (ofList history).find? op version) := by
  have h := reflects_ofList history
  refine ⟨fun _ _ _ _ => h.find?_eq_some_iff, fun _ _ => h.find?_eq_none_iff,
    fun op version value hold => ⟨h.register_again hold, fun later => ?_⟩,
    fun op version value hnew => ?_, nodup_supported _, fun _ _ => h.mem_supported,
    fun history' hperm => ?_⟩
  · have hsame : (ofList history).enter (op, version, value) = ofList history := by
      unfold enter
      rw [h.register_again hold]
    rw [ofList_append, ofList_append, List.foldl_cons, hsame]
  · have henter : ofList (history ++ [(op, version, value)])
        = (ofList history).enter (op, version, value) := ofList_append _ _
    rw [henter]
    unfold enter
    rw [h.register_new hnew]
  · have h' := reflects_ofList history'
    have hregistered (op : String) (version : Int) :
        Registered history' op version ↔ Registered history op version :=
      exists_congr fun _ => hperm.mem_iff.symm
    refine ⟨fun ⟨op, versions⟩ => ?_, fun distinct op version => Option.ext fun ⟨since, value⟩ => ?_⟩
    · simp only [h.mem_supported, h'.mem_supported, hregistered]
    · simp only [h.find?_eq_some_iff, h'.find?_eq_some_iff, hregistered, first?_eq_some distinct,
        first?_eq_some ((hperm.map _).nodup_iff.1 distinct), hperm.mem_iff]

/-- Entries of two operations, not in the order of their versions, and one
that is refused. -/
def mixedHistory : List (Registration Nat) :=
  [("Add", 7, 1), ("Mul", 1, 2), ("Add", 1, 3), ("Add", 7, 4)]

/-- The entry that came first serves its version and later ones, and the
one that came later serves those before. Nothing else is listed if the calls
come in the opposite order. -/
theorem ofList_serves_mixed :
    (ofList mixedHistory).find? "Add" 6 = some (1, 3)
      ∧ (ofList mixedHistory).find? "Add" 9 = some (7, 1)
      ∧ (ofList mixedHistory).find? "Add" 0 = none
      ∧ (ofList mixedHistory).register "Add" 7 5 = .error ⟨"Add", 7⟩
      ∧ ("Add", [1, 7]) ∈ (ofList mixedHistory).supported
      ∧ ∀ entry, entry ∈ (ofList mixedHistory.reverse).supported
        ↔ entry ∈ (ofList mixedHistory).supported := by
  obtain ⟨hserves, hnone, hrefuses, -, -, hlisted, horder⟩ := ofList_serves_greatest mixedHistory
  have hversions (version : Int) :
      Registered mixedHistory "Add" version ↔ version = 1 ∨ version = 7 := by
    constructor
    · rintro ⟨value, hmem⟩
      simp [mixedHistory] at hmem
      omega
    · rintro (rfl | rfl)
      · exact ⟨3, by decide⟩
      · exact ⟨1, by decide⟩
  have hmem (version : Int) : version ∈ [1, 7] ↔ Registered mixedHistory "Add" version := by
    rw [hversions, List.mem_cons, List.mem_singleton]
  refine ⟨(hserves _ _ _ _).2 ⟨by decide, by decide, fun other hother hle => ?_⟩,
    (hserves _ _ _ _).2 ⟨by decide, by decide, fun other hother hle => ?_⟩,
    (hnone _ _).2 fun since hsince => ?_, (hrefuses _ _ _ ((hversions 7).2 (.inr rfl))).1,
    (hlisted _ _).2 ⟨by decide, by decide, hmem⟩, (horder _ (List.reverse_perm _).symm).1⟩
  · have := (hversions other).1 hother
    omega
  · have := (hversions other).1 hother
    omega
  · have := (hversions since).1 hsince
    omega

end Registry

end OnnxLowering
