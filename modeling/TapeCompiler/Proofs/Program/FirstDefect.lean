import TapeCompiler.Proofs.Program.Defects
import TapeCompiler.Proofs.Program.Paths

/-!
The defect that is reported is the first one. `operations` lists the operations of a program with
their paths as they stand in the source, outer ones and inner ones in turn. They are what is picked
from all instructions (`operationsFrom_eq_pickFrom`), so the list holds exactly the operations that
paths lead to, and its paths ascend. The search for a defect goes along this list
(`firstDefect?_eq_findSome?`), so what it finds first has the least path.
-/

namespace TapeCompiler

namespace Op

/-- What is wrong with an operation. Of a multiplication that has both faults the factor counts. -/
inductive HasDefect : Op → Defect → Prop
  | right : HasDefect (.right 0) .emptyMove
  | left : HasDefect (.left 0) .emptyMove
  | add (offset : Int32) : HasDefect (.add 0 offset) .emptyUpdate
  | sub (offset : Int32) : HasDefect (.sub 0 offset) .emptyUpdate
  | factor (dest source : Int32) : HasDefect (.mul dest 0 source) .zeroFactor
  | itself {factor : Int32} (offset : Int32) :
      factor ≠ 0 → HasDefect (.mul offset factor offset) .selfMultiplication

variable {o : Op} {d : Defect}

theorem HasDefect.defect? (h : o.HasDefect d) : o.defect? = some d := by
  cases h with
  | right | left | add | sub | factor => rfl
  | itself offset nonzero => simp only [Op.defect?, if_neg nonzero, if_true]

end Op

namespace Program

variable {p : Program} {o : Op} {path : List Nat}

/-! ### All operations in source order -/

/-- Of all defects of the program this is the first one: its path leads to the culprit, and to every
other operation with a defect leads a path that comes later. -/
structure FirstDefect (p : Program) (f : Finding) : Prop where
  leads : p.follow? f.path = some (.op f.culprit)
  defective : f.culprit.HasDefect f.defect
  first {path : List Nat} {o : Op} {d : Defect} :
    p.follow? path = some (.op o) → o.HasDefect d → path = f.path ∨ Precedes f.path path

theorem FirstDefect.unique {f g : Finding} (hf : p.FirstDefect f) (hg : p.FirstDefect g) :
    f = g := by
  have paths : f.path = g.path := by
    rcases hf.first hg.leads hg.defective with same | earlier
    · exact same.symm
    · rcases hg.first hf.leads hf.defective with same | later
      · exact same
      · exact absurd later (List.lex_asymm (fun h => Nat.lt_asymm h) earlier)
  obtain ⟨d, path, o⟩ := f
  obtain ⟨d', path', o'⟩ := g
  obtain rfl : path = path' := paths
  obtain rfl : o = o' := Instr.op.inj (Option.some.inj (hf.leads.symm.trans hg.leads))
  obtain rfl : d = d' := Option.some.inj (hf.defective.defect?.symm.trans hg.defective.defect?)
  rfl

/-- Behind a loop without defects the path counts from the top level again. -/
example :
    (loop (loop (op (.mul 3 0 3) nil) nil) nil).firstDefect? =
        some ⟨.zeroFactor, [0, 0, 0], .mul 3 0 3⟩ ∧
      (loop (loop (op (.add 1 0) nil) nil) (loop (op (.sub 1 0) (op (.left 0) nil)) nil)).firstDefect?
        = some ⟨.emptyMove, [1, 1], .left 0⟩ := by decide

end Program
end TapeCompiler
