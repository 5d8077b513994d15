/-
A registry of versioned entries. Every operation has a list of entries
in ascending order of the version from which they apply, and an entry
serves all versions up to the next one's. Registration keeps the order
whatever order the entries come in, and refuses a version that is
there already.
-/
import OnnxLowering.NameMap

namespace OnnxLowering

structure Registry (α : Type) where
  entries : NameMap (List (Int × α)) := .empty

/-- A second entry of one operation for one version. -/
structure RegistryError where
  op : String
  version : Int
deriving DecidableEq, Repr

def RegistryError.message (error : RegistryError) : String :=
  s!"Handler for {error.op}-{error.version} is already registered"

namespace Registry

variable {α : Type}

def empty : Registry α := {}

/-- The entries of an operation, in ascending order of version. -/
def versions (registry : Registry α) (op : String) : List (Int × α) :=
  (registry.entries.find? op).getD []

/-- Whether an operation has any entry. -/
def contains (registry : Registry α) (op : String) : Bool := registry.entries.contains op

/-- Puts an entry in front of the first one of a higher version. -/
def insertSorted (version : Int) (value : α) : List (Int × α) → List (Int × α)
  | [] => [(version, value)]
  | entry :: rest =>
      if entry.1 ≤ version then entry :: insertSorted version value rest
      else (version, value) :: entry :: rest

/-- Adds an entry of an operation from a version on. -/
def register (registry : Registry α) (op : String) (version : Int) (value : α) :
    Except RegistryError (Registry α) :=
  let versions := registry.versions op
  if versions.any (·.1 = version) then .error ⟨op, version⟩
  else .ok ⟨registry.entries.insert op (insertSorted version value versions)⟩

/-- The entry that serves an operation in a version: the last one that
applies from it or an earlier version on. -/
def find? (registry : Registry α) (op : String) (version : Int) : Option (Int × α) :=
  ((registry.versions op).takeWhile (·.1 ≤ version)).getLast?

/-- The operations and the versions from which their entries apply. -/
def supported (registry : Registry α) : List (String × List Int) :=
  registry.entries.toList.map fun (op, versions) => (op, versions.map Prod.fst)

-- ============================================================= the order

/-- The entries are in ascending order, and no version occurs twice. -/
def Sorted (entries : List (Int × α)) : Prop := entries.Pairwise (·.1 < ·.1)

theorem mem_insertSorted {version : Int} {value : α} {entries : List (Int × α)}
    {entry : Int × α} :
    entry ∈ insertSorted version value entries ↔
      entry = (version, value) ∨ entry ∈ entries := by
  induction entries with
  | nil => simp [insertSorted]
  | cons first rest ih =>
      rw [insertSorted]
      split
      · rw [List.mem_cons, ih, List.mem_cons]
        exact or_left_comm
      · rw [List.mem_cons]

/-- A new version keeps the order. -/
theorem Sorted.insertSorted {version : Int} {value : α} {entries : List (Int × α)}
    (sorted : Sorted entries) (new : ∀ entry ∈ entries, entry.1 ≠ version) :
    Sorted (Registry.insertSorted version value entries) := by
  induction entries with
  | nil => exact List.pairwise_singleton _ _
  | cons first rest ih =>
      obtain ⟨below, rest_sorted⟩ := List.pairwise_cons.1 sorted
      rw [Registry.insertSorted]
      split
      · next h =>
          refine List.pairwise_cons.2 ⟨fun entry hentry => ?_,
            ih rest_sorted fun entry hentry => new entry (List.mem_cons_of_mem _ hentry)⟩
          rcases mem_insertSorted.1 hentry with rfl | hrest
          · have := new first List.mem_cons_self
            simp only
            omega
          · exact below entry hrest
      · next h =>
          refine List.pairwise_cons.2 ⟨fun entry hentry => ?_, sorted⟩
          rcases List.mem_cons.1 hentry with rfl | hrest
          · simp only
            omega
          · have := below entry hrest
            simp only
            omega

-- ============================================================== from lists

/-- The registry of a list of entries; of two for one operation and
version the first counts. -/
def ofList (entries : List (String × Int × α)) : Registry α :=
  entries.foldl
    (fun registry (op, version, value) =>
      match registry.register op version value with
      | .ok registry => registry
      | .error _ => registry)
    empty

end Registry

end OnnxLowering
