/-
Which strings are identifiers, and how every other string becomes one.

Identifiers are said here by ranges of characters, and what stands for a
character by a relation, so that nothing of `sanitize` is in the
statement about it: its values are identifiers, identifiers are its fixed
points, and a name that is neither empty nor an identifier changes
character by character, up to one underscore in front
(`sanitize_retracts`).

The three cases do not get in each other's way. Squashing comes first, so
the shield looks at a character that is a word character already, and a
digit of another alphabet, which has become an underscore by then, needs
none. Only the empty name is left empty by both, and it has a name of its
own.
-/
import Mathlib.Data.List.Forall2
import Mathlib.Tactic.Common
import OnnxLowering.Naming.Counter
import OnnxLowering.Text.Identifier

namespace OnnxLowering.Identifier

-- =========================================================== characters

/-- The digits `0` to `9`. -/
def Digit (c : Char) : Prop := '0' ≤ c ∧ c ≤ '9'

/-- Digits, the letters `A` to `Z` and `a` to `z`, and the underscore. -/
def Word (c : Char) : Prop :=
  Digit c ∨ 'A' ≤ c ∧ c ≤ 'Z' ∨ 'a' ≤ c ∧ c ≤ 'z' ∨ c = '_'

instance (c : Char) : Decidable (Digit c) := inferInstanceAs (Decidable (_ ∧ _))

instance (c : Char) : Decidable (Word c) := inferInstanceAs (Decidable (_ ∨ _))

/-- What a character becomes in an identifier. -/
inductive Becomes : Char → Char → Prop
  | kept {c : Char} (h : Word c) : Becomes c c
  | squashed {c : Char} (h : ¬ Word c) : Becomes c '_'

/-- The first character is a digit. -/
def StartsWithDigit : List Char → Prop
  | [] => False
  | c :: _ => Digit c

instance : DecidablePred StartsWithDigit
  | [] => isFalse id
  | c :: _ => inferInstanceAs (Decidable (Digit c))

/-- A string of word characters that is not empty and does not start with
a digit. -/
structure IsIdentifier (name : String) : Prop where
  ne_empty : name ≠ ""
  word : ∀ c ∈ name.toList, Word c
  start : ¬ StartsWithDigit name.toList

variable {c d : Char} {chars body : List Char} {name : String}

theorem isDigit_iff : c.isDigit = true ↔ Digit c :=
  Bool.and_eq_true_iff.trans (and_congr decide_eq_true_iff decide_eq_true_iff)

theorem isWord_iff : isWord c = true ↔ Word c := by
  have hupper : c.isUpper = true ↔ 'A' ≤ c ∧ c ≤ 'Z' := decide_eq_true_iff
  have hlower : c.isLower = true ↔ 'a' ≤ c ∧ c ≤ 'z' :=
    Bool.and_eq_true_iff.trans (and_congr decide_eq_true_iff decide_eq_true_iff)
  have halphanum : c.isAlphanum = (c.isUpper || c.isLower || c.isDigit) := rfl
  rw [isWord, halphanum, Bool.or_eq_true, Bool.or_eq_true, Bool.or_eq_true,
    hupper, hlower, isDigit_iff, decide_eq_true_eq, Word]
  tauto

instance (name : String) : Decidable (IsIdentifier name) :=
  decidable_of_iff
    (name ≠ "" ∧ name.toList.all isWord = true ∧ ¬ StartsWithDigit name.toList)
    ⟨fun ⟨hne, hall, hstart⟩ => ⟨hne, fun c hc => isWord_iff.1 (List.all_eq_true.1 hall c hc), hstart⟩,
      fun h => ⟨h.ne_empty, List.all_eq_true.2 fun c hc => isWord_iff.2 (h.word c hc), h.start⟩⟩

theorem word_underscore : Word '_' := Or.inr (Or.inr (Or.inr rfl))

theorem not_digit_underscore : ¬ Digit '_' := by decide

theorem Becomes.word (h : Becomes c d) : Word d := by
  cases h with
  | kept h => exact h
  | squashed h => exact word_underscore

-- ============================================================ squashing

theorem becomes_choice (c : Char) : Becomes c (if isWord c then c else '_') := by
  by_cases h : isWord c = true
  · rw [if_pos h]
    exact .kept (isWord_iff.1 h)
  · rw [if_neg h]
    exact .squashed (mt isWord_iff.2 h)

theorem becomes_squash : List.Forall₂ Becomes chars (squash chars) :=
  List.forall₂_map_right_iff.2 (List.forall₂_same.2 fun c _ => becomes_choice c)

/-- Characters become one thing only. -/
theorem eq_squash_of_becomes (h : List.Forall₂ Becomes chars body) : body = squash chars := by
  induction h with
  | nil => rfl
  | cons hfirst _ ih =>
      rw [squash, List.map_cons, ← squash, ← ih]
      cases hfirst with
      | kept h => rw [if_pos (isWord_iff.2 h)]
      | squashed h => rw [if_neg (mt isWord_iff.1 h)]

theorem word_of_mem_squash (h : d ∈ squash chars) : Word d := by
  obtain ⟨c, -, rfl⟩ := List.mem_map.1 h
  exact (becomes_choice c).word

theorem squash_of_word (h : ∀ c ∈ chars, Word c) : squash chars = chars := by
  refine (List.map_congr_left fun c hc => ?_).trans (List.map_id chars)
  rw [if_pos (isWord_iff.2 (h c hc)), id]

-- =============================================================== shield

theorem shield_of_digit (h : StartsWithDigit chars) : shield chars = '_' :: chars := by
  cases chars with
  | nil => exact h.elim
  | cons c rest => rw [shield, if_pos (isDigit_iff.2 h)]

theorem shield_of_not_digit (h : ¬ StartsWithDigit chars) : shield chars = chars := by
  cases chars with
  | nil => rfl
  | cons c rest => rw [shield, if_neg (mt isDigit_iff.1 h)]

theorem shield_ne_nil (h : chars ≠ []) : shield chars ≠ [] := by
  by_cases hdigit : StartsWithDigit chars
  · rw [shield_of_digit hdigit]
    exact List.cons_ne_nil _ _
  · rwa [shield_of_not_digit hdigit]

theorem word_of_mem_shield (hword : ∀ c ∈ chars, Word c) (h : c ∈ shield chars) : Word c := by
  by_cases hdigit : StartsWithDigit chars
  · rw [shield_of_digit hdigit, List.mem_cons] at h
    rcases h with rfl | h
    · exact word_underscore
    · exact hword c h
  · rw [shield_of_not_digit hdigit] at h
    exact hword c h

theorem not_startsWithDigit_shield : ¬ StartsWithDigit (shield chars) := by
  by_cases hdigit : StartsWithDigit chars
  · rw [shield_of_digit hdigit]
    exact not_digit_underscore
  · rwa [shield_of_not_digit hdigit]

-- ============================================================ sanitizing

theorem toList_sanitize (h : name ≠ "") :
    (sanitize name).toList = shield (squash name.toList) := by
  rw [sanitize, if_neg (mt String.isEmpty_iff.1 h), String.toList_ofList]

theorem isIdentifier_sanitize (name : String) : IsIdentifier (sanitize name) := by
  by_cases h : name = ""
  · subst h
    decide
  · have hsquash : squash name.toList ≠ [] :=
      mt List.map_eq_nil_iff.1 (mt String.toList_eq_nil_iff.1 h)
    refine ⟨fun hempty => shield_ne_nil hsquash ?_, fun c hc => ?_, ?_⟩
    · rw [← toList_sanitize h, hempty]
      rfl
    · rw [toList_sanitize h] at hc
      exact word_of_mem_shield (fun d => word_of_mem_squash) hc
    · rw [toList_sanitize h]
      exact not_startsWithDigit_shield

/-- Nothing is changed about an identifier. -/
theorem IsIdentifier.sanitize_eq (h : IsIdentifier name) : sanitize name = name := by
  rw [← String.toList_inj, toList_sanitize h.ne_empty, squash_of_word h.word,
    shield_of_not_digit h.start]

/-- **A retraction onto identifiers.** Every name becomes an identifier,
and the names that stay as they are are the identifiers, so that a second
time changes nothing. A name that is not empty becomes, character by
character, what its characters do, after one underscore if that starts
with a digit and after nothing else if it does not. -/
theorem sanitize_retracts (name : String) :
    IsIdentifier (sanitize name)
      ∧ (sanitize name = name ↔ IsIdentifier name)
      ∧ sanitize (sanitize name) = sanitize name
      ∧ (name ≠ "" → ∃ body, List.Forall₂ Becomes name.toList body
          ∧ (StartsWithDigit body → (sanitize name).toList = '_' :: body)
          ∧ (¬ StartsWithDigit body → (sanitize name).toList = body)) := by
  have hidentifier := isIdentifier_sanitize name
  refine ⟨hidentifier, ⟨fun h => h ▸ hidentifier, IsIdentifier.sanitize_eq⟩,
    hidentifier.sanitize_eq, fun h => ⟨squash name.toList, becomes_squash, ?_, ?_⟩⟩
  · intro hdigit
    rw [toList_sanitize h, shield_of_digit hdigit]
  · intro hdigit
    rw [toList_sanitize h, shield_of_not_digit hdigit]

/-- A digit of another alphabet is squashed, and the one behind it needs
no shield; in front of it, it does. -/
theorem sanitize_retracts_digits :
    sanitize "٣9" = "_9" ∧ sanitize "9٣" = "_9_" ∧ IsIdentifier (sanitize "9٣") := by
  obtain ⟨-, -, -, hbare⟩ := sanitize_retracts "٣9"
  obtain ⟨body, hbody, -, hplain⟩ := hbare (by decide)
  obtain ⟨hidentifier, -, -, hdigit⟩ := sanitize_retracts "9٣"
  obtain ⟨body', hbody', hshielded, -⟩ := hdigit (by decide)
  rw [eq_squash_of_becomes hbody] at hplain
  rw [eq_squash_of_becomes hbody'] at hshielded
  refine ⟨String.toList_inj.1 ?_, String.toList_inj.1 ?_, hidentifier⟩
  · rw [hplain (by decide)]
    decide
  · rw [hshielded (by decide)]
    decide

-- ============================================================ numbering

/-- What is put behind an identifier needs to be of word characters
only. -/
theorem IsIdentifier.append {suffix : String} (h : IsIdentifier name)
    (hsuffix : ∀ c ∈ suffix.toList, Word c) : IsIdentifier (name ++ suffix) := by
  obtain ⟨c, rest, hname⟩ := List.exists_cons_of_ne_nil (mt String.toList_eq_nil_iff.1 h.ne_empty)
  have hstart := h.start
  rw [hname] at hstart
  refine ⟨fun hempty => ?_, fun d hd => ?_, ?_⟩
  · have hlist := congrArg String.toList hempty
    rw [String.toList_append, hname] at hlist
    cases hlist
  · rw [String.toList_append, List.mem_append] at hd
    exact hd.elim (h.word d) (hsuffix d)
  · rw [String.toList_append, hname]
    exact hstart

/-- A name that is handed out for a wish is an identifier, also if it has a
number. -/
theorem isIdentifier_take (counters : Counters) (wish : String) :
    IsIdentifier (counters.take (sanitize wish)).1 := by
  have hbase := isIdentifier_sanitize wish
  show IsIdentifier (Counters.numbered _ _)
  rw [Counters.numbered]
  split
  · exact hbase
  · refine (hbase.append fun c hc => ?_).append fun c hc => ?_
    · obtain rfl : c = '_' := List.mem_singleton.1 hc
      exact word_underscore
    · rw [Nat.toString_eq_repr, Nat.toList_repr] at hc
      exact Or.inl (isDigit_iff.1 (Nat.isDigit_of_mem_toDigits (by decide) (by decide) hc))

end OnnxLowering.Identifier
