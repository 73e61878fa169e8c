import TapeCompiler.Optimize.Pass
import TapeCompiler.Proofs.Optimize.Coalescing
import TapeCompiler.Proofs.Optimize.Contraction
import TapeCompiler.Proofs.Optimize.CountedLoop

/-! Passes keep what a program does, alone and in any order. -/

namespace TapeCompiler

theorem Pass.run_same (size : UInt32) (pass : Pass) (p : Program) :
    Program.Same size.toNat (pass.run size p) p := by
  cases pass with
  | contract => exact Program.contract_same p
  | multiplyLoops => exact Program.multiplyLoops_same p
  | coalesceOffsets => exact Program.coalesce_same p

namespace Program

theorem runPasses_same (size : UInt32) (passes : List Pass) (p : Program) :
    Same size.toNat (p.runPasses size passes) p := by
  refine runPasses_keeps (P := fun q => Same size.toNat q p) ?_ (Same.refl p)
  intro pass _ q same
  exact (pass.run_same size q).trans same

/-- Any sequence of passes, for the tape that the program runs on, keeps the end of every run and
the runs that never end. -/
theorem runPasses_agree (size : UInt32) (hsize : 1 ≤ size.toNat) (passes : List Pass) (p : Program)
    (eof : EofPolicy) (input : List UInt8) :
    Agree (p.Ends eof (.initial size.toNat input))
      ((p.runPasses size passes).Ends eof (.initial size.toNat input)) := by
  apply agree_of_iff
  · intro t u ht hu
    exact ht.deterministic hu
  · intro t
    have onTape := State.initial_onTape hsize input
    exact (runPasses_same size passes p eof _ t onTape).symm

/-- On three cells the second loop reaches its counter from the other side. -/
theorem runPasses_agree_narrow :
    let counted := op (.sub 1 0) (op (.right 1) (op (.add 3 0) (op (.left 1) nil)))
    let aliased := op (.sub 1 0) (op (.add 1 3) nil)
    let p := op (.input 0) (loop counted (op (.right 2) (loop aliased (op (.output (-1)) nil))))
    let passes := [Pass.coalesceOffsets, .multiplyLoops, .contract, .multiplyLoops]
    1 ≤ (3 : UInt32).toNat ∧
      Agree (p.Ends .allOnes (.initial 3 [7]))
        ((p.runPasses 3 passes).Ends .allOnes (.initial 3 [7])) :=
  ⟨by decide, runPasses_agree 3 (by decide) _ _ .allOnes [7]⟩

end Program
end TapeCompiler
