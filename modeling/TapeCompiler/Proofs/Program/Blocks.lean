import TapeCompiler.Program.Basic

/-!
The parts of a program. Its blocks are the program itself and the bodies of its loops at every
depth. `Along` states something of each operation together with what follows it in its block, and
`Along.split` reads it back at any place of any block. By `segments` a block is a run of operations
up to its first loop, and then the same again behind the loop.
-/

namespace TapeCompiler.Program

variable {p body next : Program} {o : Op}

@[simp]
theorem nil_append (q : Program) : nil ++ q = q := rfl

@[simp]
theorem op_append (o : Op) (p q : Program) : op o p ++ q = op o (p ++ q) := rfl

@[simp]
theorem loop_append (body p q : Program) : loop body p ++ q = loop body (p ++ q) := rfl

@[simp]
theorem append_nil (p : Program) : p ++ nil = p := by
  induction p with
  | nil => rfl
  | op o next ih => rw [op_append, ih]
  | loop body next _ ih => rw [loop_append, ih]

@[simp]
theorem prepend_nil (p : Program) : prepend [] p = p := rfl

@[simp]
theorem prepend_cons (o : Op) (ops : List Op) (p : Program) :
    prepend (o :: ops) p = op o (prepend ops p) := rfl

theorem prepend_append (ops ops' : List Op) (p : Program) :
    prepend (ops ++ ops') p = prepend ops (prepend ops' p) :=
  List.foldr_append

/-- Proofs about every block that go from one loop to the next. -/
@[elab_as_elim]
theorem segments {motive : Program → Prop} (last : ∀ ops, motive (ofOps ops))
    (loop : ∀ ops body next, motive body → motive next → motive (prepend ops (loop body next)))
    (p : Program) : motive p := by
  -- The operations met so far are kept in front of the rest.
  have kept (ops : List Op) : motive (prepend ops p) := by
    induction p generalizing ops with
    | nil => exact last ops
    | op o next ih =>
      have further := ih (ops ++ [o])
      rwa [prepend_append] at further
    | loop body next ihBody ihNext => exact loop ops body next (ihBody []) (ihNext [])
  exact kept []

/-! ### Blocks -/

/-- The bodies of all loops, at every depth and in source order. -/
def bodies : Program → List Program
  | nil => []
  | op _ next => next.bodies
  | loop body next => body :: (body.bodies ++ next.bodies)

/-- The program and the bodies of its loops. -/
def blocks (p : Program) : List Program := p :: p.bodies

@[simp]
theorem bodies_loop (body next : Program) :
    (loop body next).bodies = body.blocks ++ next.bodies := rfl

@[simp]
theorem bodies_prepend (ops : List Op) (p : Program) : (prepend ops p).bodies = p.bodies := by
  induction ops with
  | nil => rfl
  | cons o rest ih => exact ih

theorem forall_blocks {P : Program → Prop} :
    (∀ b ∈ p.blocks, P b) ↔ P p ∧ ∀ b ∈ p.bodies, P b :=
  List.forall_mem_cons

theorem forall_bodies_loop {P : Program → Prop} :
    (∀ b ∈ (loop body next).bodies, P b) ↔
      (∀ b ∈ body.blocks, P b) ∧ ∀ b ∈ next.bodies, P b := by
  rw [bodies_loop, List.forall_mem_append]

/-! ### Operations with what follows them -/

/-- Each operation, at every depth, stands in the relation to what follows it in its block. -/
def Along (R : Op → Program → Prop) : Program → Prop
  | nil => True
  | op o next => R o next ∧ next.Along R
  | loop body next => body.Along R ∧ next.Along R

variable {R S : Op → Program → Prop}

theorem Along.mono (weaker : ∀ o next, R o next → S o next) (h : p.Along R) : p.Along S := by
  induction p with
  | nil => trivial
  | op o next ih => exact ⟨weaker o next h.1, ih h.2⟩
  | loop body next ihBody ihNext => exact ⟨ihBody h.1, ihNext h.2⟩

theorem Along.of_blocks (h : p.Along R) : ∀ b ∈ p.blocks, b.Along R := by
  refine forall_blocks.mpr ⟨h, ?_⟩
  induction p with
  | nil =>
    intro b mem
    cases mem
  | op o next ih => exact ih h.2
  | loop body next ihBody ihNext =>
    exact forall_bodies_loop.mpr ⟨forall_blocks.mpr ⟨h.1, ihBody h.1⟩, ihNext h.2⟩

theorem Along.behind (before : Program) (h : (before ++ op o next).Along R) : R o next := by
  induction before with
  | nil => exact h.1
  | op _ _ ih => exact ih h.2
  | loop _ _ _ ih => exact ih h.2

theorem Along.split (h : p.Along R) {b : Program} (mem : b ∈ p.blocks) {before : Program}
    (here : b = before ++ op o next) : R o next := by
  subst here
  exact (h.of_blocks _ mem).behind before

end TapeCompiler.Program
