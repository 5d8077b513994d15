/-
Binding arguments. In the textual form of a module the parameters are
variables under their own names. A parameter whose name no variable may
have is copied to a fresh variable before anything is computed, in the
order of the parameters; and such a copy may well overwrite a later
parameter, whose own copy then comes too late. `sources` says whose
argument each parameter ends up with. It is the identity whenever no
parameter has a reserved name.
-/
import OnnxLowering.Naming.Supply

namespace OnnxLowering.Arguments

/-- The variables that the parameters are read from, in order. -/
def sourceNames (parameters : List String) : List String :=
  let rec go (supply : NameSupply) : List String → List String
    | [] => []
    | name :: rest =>
        let (chosen, supply) := supply.create name
        chosen :: go supply rest
  go ⟨Reserved.prelude, .empty⟩ parameters

/-- For each parameter the position of the argument that it is bound
to. -/
def sources (parameters : List String) : List Nat :=
  let pairs := parameters.zip (sourceNames parameters)
  let start : NameMap Nat := .ofList parameters.zipIdx
  let final := pairs.foldl
    (fun held (name, chosen) =>
      if name = chosen then held
      else held.insert chosen ((held.find? name).getD 0))
    start
  pairs.map fun (_, chosen) => (final.find? chosen).getD 0

/-- The arguments as the parameters see them. -/
def bind {α : Type} (parameters : List String) (arguments : List α) : List α :=
  (sources parameters).filterMap (arguments[·]?)

end OnnxLowering.Arguments
