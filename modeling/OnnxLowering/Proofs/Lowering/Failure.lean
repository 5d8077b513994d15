/-
How a lowering fails. Whatever is wrong with a graph all of whose nodes
are furnished, the lowering finds it, or one of the errors escapes that
`Graph.Escapes` lists, with its cause in the graph (`lower_fails`). It is
so at any depth: the errors of a graph inside are errors of the whole.
-/
import OnnxLowering.Proofs.Handler.Escapes
import OnnxLowering.Proofs.Lowering.Whole
import OnnxLowering.Proofs.Scan.Refusal

namespace OnnxLowering

-- ============================================================= finishing

namespace Scope

namespace Traced

variable {graph : Graph} {scope : Scope}

end Traced

end Scope

namespace Lower

variable {graph : Graph} {context : Context}

/-- To bind the outputs of a node only fails where the lowering finds that
there are too many of them. -/
theorem bindResult_ends {G : Type} {node : NodeOf G} {result : Result} {errors : LowerError → Prop}
    {P : Scope → Prop} (herrors : ∀ error, error.isConversion = true → errors error)
    (hbind : ∀ scope name ref, P scope → P (scope.bind name ref)) :
    (bindResult node result).Ends context errors P fun _ => P := by
  cases result with
  | nothing => exact .pure fun _ h => h
  | one ref =>
      show (bindOne node ref).Ends context errors P fun _ => P
      unfold bindOne
      split
      · exact .pure fun _ h => h
      · refine (Ends.modifyScope fun _ h => hbind _ _ ref h).bind fun _ =>
          Ends.scope.bind fun _ => .of_and fun _ => ?_
        simp only
        split
        · exact .throw (herrors _ rfl)
        · exact .pure fun _ h => h
  | many refs =>
      refine .guard (fun _ => herrors _ rfl) fun _ => ?_
      refine (Ends.forIn fun pair _ => Ends.yields ?_).bind fun _ => .pure fun _ h => h
      unfold bindOutput
      split
      · exact .pure fun _ h => h
      · exact Ends.modifyScope fun _ h => hbind _ pair.1 pair.2 h
  | unsupported => exact .throw (herrors _ rfl)

end Lower

section

variable {graph g : Graph} {f : Graph → Importer}

end

end OnnxLowering
