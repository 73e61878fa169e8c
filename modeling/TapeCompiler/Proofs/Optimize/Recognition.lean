import TapeCompiler.Optimize.CountedLoop
import TapeCompiler.Proofs.Program.Blocks

/-!
What is recognised as a counted loop. A loop is judged before its body is rewritten, but rewriting
the body would not change the verdict: where a loop stood in it, a loop or a multiplication stands
afterwards, and a body with either has no effect that could be counted (`effect?_multiplyLoops`).
So one run replaces all loops that can be replaced.
-/

namespace TapeCompiler.Program

variable {size : UInt32} {p : Program}

theorem effect?_toOps (f : Factors) (next : Program) (e : Effect) :
    (prepend f.toOps next).effect? e = none := by
  cases f with
  | nil => rfl
  | cons x rest => rfl

theorem effect?_multiplyLoops (size : UInt32) (p : Program) (e : Effect) :
    (p.multiplyLoops size).effect? e = p.effect? e := by
  induction p generalizing e with
  | nil => rfl
  | op o next ih =>
    simp only [multiplyLoops, effect?]
    cases o.effect? e with
    | none => rfl
    | some e' => exact ih e'
  | loop body next =>
    simp only [multiplyLoops]
    split
    · exact effect?_toOps _ _ e
    · rfl

theorem factors?_multiplyLoops (size tape : UInt32) (p : Program) :
    (p.multiplyLoops size).factors? tape = p.factors? tape := by
  simp only [factors?, effect?_multiplyLoops]

theorem factors?_bodies_multiplyLoops (size : UInt32) (p : Program) :
    ∀ body ∈ (p.multiplyLoops size).bodies, body.factors? size = none := by
  induction p with
  | nil =>
    intro body mem
    cases mem
  | op o next ih => exact ih
  | loop body next ihBody ihNext =>
    simp only [multiplyLoops]
    split
    · rw [bodies_prepend]
      exact ihNext
    · rename_i rejected
      -- The verdict was about the body as it stood; the body that is left has the same.
      have kept : (body.multiplyLoops size).factors? size = none := by
        rw [factors?_multiplyLoops]
        exact rejected
      exact forall_bodies_loop.mpr ⟨forall_blocks.mpr ⟨kept, ihBody⟩, ihNext⟩

theorem multiplyLoops_eq_self (h : ∀ body ∈ p.bodies, body.factors? size = none) :
    p.multiplyLoops size = p := by
  induction p with
  | nil => rfl
  | op o next ih => exact congrArg (op o) (ih h)
  | loop body next ihBody ihNext =>
    obtain ⟨inside, behind⟩ := forall_bodies_loop.mp h
    obtain ⟨rejected, deeper⟩ := forall_blocks.mp inside
    simp only [multiplyLoops, rejected, ihBody deeper, ihNext behind]

/-- No loop that is left, at any depth, is a counted loop, and there is nothing for a second run to
do. -/
theorem multiplyLoops_complete (size : UInt32) (p : Program) :
    (∀ body ∈ (p.multiplyLoops size).bodies, body.factors? size = none) ∧
    (p.multiplyLoops size).multiplyLoops size = p.multiplyLoops size := by
  have complete := factors?_bodies_multiplyLoops size p
  exact ⟨complete, multiplyLoops_eq_self complete⟩

/-- The outer loop stays when the inner one has become a multiplication. -/
theorem multiplyLoops_complete_nested :
    let counted := op (.sub 1 0) (op (.add 2 1) nil)
    let p := loop (op (.sub 1 0) (op (.right 3) (loop counted (op (.left 3) nil)))) nil
    let left := op (.sub 1 0)
      (op (.right 3) (op (.mul 1 2 0) (op (.clear 0) (op (.left 3) nil))))
    left ∈ (p.multiplyLoops 5).bodies ∧ left.factors? 5 = none := by
  intro counted p left
  have mem : left ∈ (p.multiplyLoops 5).bodies := by decide
  exact ⟨mem, (multiplyLoops_complete 5 p).1 left mem⟩

end TapeCompiler.Program
