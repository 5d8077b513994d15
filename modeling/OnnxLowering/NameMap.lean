/-
Finite maps keyed by names. A map is the list of its insertions, newest
first, and the newest insertion of a name is the one that counts. Two
lemmas carry all reasoning: what a lookup sees after an insertion, under
the same name and under another one.
-/

namespace OnnxLowering

structure NameMap (α : Type) where
  entries : List (String × α) := []
deriving Repr

namespace NameMap

variable {α β : Type}

def empty : NameMap α := {}

instance : EmptyCollection (NameMap α) := ⟨empty⟩
instance : Inhabited (NameMap α) := ⟨empty⟩

def find? (m : NameMap α) (name : String) : Option α := m.entries.lookup name

def contains (m : NameMap α) (name : String) : Bool := (m.find? name).isSome

def insert (m : NameMap α) (name : String) (value : α) : NameMap α :=
  ⟨(name, value) :: m.entries⟩

/-- The map that a list of insertions, oldest first, leaves behind. -/
def ofList (entries : List (String × α)) : NameMap α := ⟨entries.reverse⟩

/-- The names of a map, each once. -/
def keys (m : NameMap α) : List String := (m.entries.map Prod.fst).eraseDups

/-- The names of a map, each once and with its value. -/
def toList (m : NameMap α) : List (String × α) :=
  m.keys.filterMap fun name => (m.find? name).map fun value => (name, value)

-- ============================================================ lookup laws

@[simp] theorem find?_empty (name : String) : (empty : NameMap α).find? name = none := rfl

@[simp] theorem find?_insert_self (m : NameMap α) (name : String) (value : α) :
    (m.insert name value).find? name = some value := by
  simp [find?, insert]

theorem find?_insert_of_ne (m : NameMap α) {name other : String} (value : α)
    (h : other ≠ name) : (m.insert name value).find? other = m.find? other := by
  simp [find?, insert, List.lookup_cons, beq_false_of_ne h]

theorem find?_insert (m : NameMap α) (name other : String) (value : α) :
    (m.insert name value).find? other =
      if other = name then some value else m.find? other := by
  split
  · next h => rw [h, find?_insert_self]
  · next h => exact m.find?_insert_of_ne value h

theorem contains_insert (m : NameMap α) (name other : String) (value : α) :
    (m.insert name value).contains other = (other == name || m.contains other) := by
  by_cases h : other = name <;> simp [contains, find?_insert, h]

@[simp] theorem contains_insert_self (m : NameMap α) (name : String) (value : α) :
    (m.insert name value).contains name = true := by
  rw [contains_insert, BEq.rfl, Bool.true_or]

theorem contains_insert_of_contains {m : NameMap α} {name other : String} {value : α}
    (h : m.contains other = true) : (m.insert name value).contains other = true := by
  rw [contains_insert, h, Bool.or_true]

end NameMap

end OnnxLowering
