import TapeCompiler.Optimize.Pass
import TapeCompiler.Proofs.Optimize.CountedLoop
import TapeCompiler.Proofs.Optimize.Settling
import TapeCompiler.Proofs.Source.Nesting
import TapeCompiler.Proofs.Source.Spelling

/-!
No pass makes a program longer or nests it deeper.

Contraction writes one operation for two, and coalescing a motion for one or more moves. A counted
loop is replaced by a multiplication for each cell that it changes, and one operation that clears
the counter. Each changed cell, the counter among them, is named by an update of its own in the body
(`length_effect?_le`), so the body alone is as long as what replaces the loop.
-/

namespace TapeCompiler

/-! ### Contraction and coalescing -/

namespace Program

theorem count_contract_le (p : Program) : p.contract.count ≤ p.count := by
  refine count_congruence.contractFrom ?_ none p
  intro earlier later merged _ next
  exact Nat.add_le_add_left (Nat.le_add_left _ _) 1

theorem count_coalesce_le (p : Program) : p.coalesce.count ≤ p.count := by
  have longer := count_coalesceFrom_le 0 p
  rwa [flush_zero] at longer

theorem depth_congruence : Congruence fun p q : Program => p.depth = q.depth where
  refl _ := rfl
  trans := Eq.trans
  op _ h := h
  loop hbody hnext := by rw [depth, depth, hbody, hnext]

theorem depth_flush (pending : Int32) (p : Program) : (flush pending p).depth = p.depth := by
  unfold flush
  split <;> rfl

theorem depth_contract (p : Program) : p.contract.depth = p.depth :=
  depth_congruence.contractFrom (fun _ _ => rfl) none p

theorem depth_coalesce (p : Program) : p.coalesce.depth = p.depth := by
  have same : (coalesceFrom 0 p).depth = (flush 0 p).depth := by
    apply depth_congruence.coalesceFrom
    · intro o d pending sum _ _ next
      rw [depth_flush, depth_flush, depth]
    · intro o shifted pending _ _ next
      rw [depth_flush, depth, depth, depth_flush]
  rwa [flush_zero] at same

end Program

/-! ### Counted loops -/

theorem Effect.length_bump_le (cell amount : Int) (changes : List (Int × Int)) :
    (bump cell amount changes).length ≤ changes.length + 1 := by
  induction changes with
  | nil => exact Nat.le_refl _
  | cons x rest ih =>
    unfold bump
    split
    · exact Nat.le_refl _
    · split
      · exact Nat.le_succ _
      · exact Nat.succ_le_succ ih

/-- A body that counts down changes its counter. -/
theorem Effect.CountsDown.exists_counter {size : UInt32} {e : Effect} (down : e.CountsDown size) :
    ∃ x ∈ e.changes, x.1 = 0 := by
  obtain ⟨_, counter, _⟩ := down
  unfold change at counter
  cases listed : e.changes.lookup 0 with
  | none =>
    rw [listed] at counter
    cases counter
  | some d =>
    obtain ⟨before, after, split, _⟩ := List.lookup_eq_some_iff.mp listed
    exact ⟨(0, d), by rw [split]; simp, rfl⟩

/-- An operation names at most one cell that was not changed before. -/
theorem Op.length_effect?_le {o : Op} {e e' : Effect} (h : o.effect? e = some e') :
    e'.changes.length ≤ e.changes.length + 1 := by
  cases o with
  | right | left =>
    cases h
    exact Nat.le_succ _
  | add | sub =>
    cases h
    exact Effect.length_bump_le _ _ _
  | mul | clear | output | input => cases h

theorem Factors.length_toOps (f : Factors) : f.toOps.length = f.length + 1 := by
  rw [toOps, List.length_append, List.length_map, List.length_singleton]

/-- The counter is among the changes and not among the factors. -/
theorem Factors.length_lt {size : UInt32} {e : Effect} {f : Factors} (down : e.CountsDown size)
    (h : ofChanges? e.changes = some f) : f.length < e.changes.length := by
  obtain ⟨x, listed, counter⟩ := down.exists_counter
  have kept : f.length = f.changes.length := (List.length_map _).symm
  rw [kept, changes_ofChanges? h, List.length_filter_lt_length_iff_exists]
  exact ⟨x, listed, by simp [counter]⟩

namespace Program

variable {size : UInt32} {body : Program}

theorem length_effect?_le {e e' : Effect} (h : body.effect? e = some e') :
    e'.changes.length ≤ e.changes.length + body.count := by
  induction body generalizing e with
  | nil =>
    cases h
    exact Nat.le_refl _
  | op o next ih =>
    obtain ⟨middle, first, rest⟩ := Option.bind_eq_some_iff.mp h
    have here := Op.length_effect?_le first
    have later := ih rest
    rw [count]
    omega
  | loop => cases h

/-- What replaces a loop is no longer than the body of the loop. -/
theorem length_toOps_le {f : Factors} (h : body.factors? size = some f) :
    f.toOps.length ≤ body.count := by
  obtain ⟨e, known, down, factors⟩ := factors?_eq_some h
  have fewer := Factors.length_lt down factors
  have named : e.changes.length ≤ 0 + body.count := length_effect?_le known
  rw [Factors.length_toOps]
  omega

theorem count_prepend (ops : List Op) (p : Program) :
    (prepend ops p).count = ops.length + p.count := by
  induction ops with
  | nil => exact (Nat.zero_add _).symm
  | cons o rest ih =>
    rw [prepend_cons, count, ih, List.length_cons]
    omega

theorem depth_prepend (ops : List Op) (p : Program) : (prepend ops p).depth = p.depth := by
  induction ops with
  | nil => rfl
  | cons o rest ih => exact ih

theorem count_multiplyLoops_le (size : UInt32) (p : Program) :
    (p.multiplyLoops size).count ≤ p.count := by
  induction p with
  | nil => exact Nat.le_refl _
  | op o next ih => exact Nat.add_le_add_left ih 1
  | loop body next ihBody ihNext =>
    simp only [multiplyLoops]
    split
    · rename_i f counted
      have shorter := length_toOps_le counted
      rw [count_prepend, count]
      omega
    · exact Nat.add_le_add (Nat.add_le_add_left ihBody 1) ihNext

theorem depth_multiplyLoops_le (size : UInt32) (p : Program) :
    (p.multiplyLoops size).depth ≤ p.depth := by
  induction p with
  | nil => exact Nat.le_refl _
  | op o next ih => exact ih
  | loop body next ihBody ihNext =>
    simp only [multiplyLoops]
    split
    · rw [depth_prepend]
      exact Nat.le_trans ihNext (Nat.le_max_right _ _)
    · simp only [depth]
      omega

end Program

/-! ### All passes -/

theorem Pass.run_smaller (size : UInt32) (pass : Pass) (p : Program) :
    (pass.run size p).count ≤ p.count ∧ (pass.run size p).depth ≤ p.depth := by
  cases pass with
  | contract => exact ⟨p.count_contract_le, Nat.le_of_eq p.depth_contract⟩
  | multiplyLoops => exact ⟨p.count_multiplyLoops_le size, p.depth_multiplyLoops_le size⟩
  | coalesceOffsets => exact ⟨p.count_coalesce_le, Nat.le_of_eq p.depth_coalesce⟩

namespace Program

theorem runPasses_smaller (size : UInt32) (passes : List Pass) (p : Program) :
    (p.runPasses size passes).count ≤ p.count ∧ (p.runPasses size passes).depth ≤ p.depth := by
  refine runPasses_keeps (P := fun q => q.count ≤ p.count ∧ q.depth ≤ p.depth) ?_
    ⟨Nat.le_refl _, Nat.le_refl _⟩
  rintro pass _ q ⟨fewer, flatter⟩
  obtain ⟨fewer', flatter'⟩ := pass.run_smaller size q
  exact ⟨Nat.le_trans fewer' fewer, Nat.le_trans flatter' flatter⟩

end Program

/-! ### From the source text -/

namespace Tree

theorem depth_le_of_parse {source : String} {t : Tree} (h : parse source = .ok t) :
    t.depth ≤ nestingLimit := by
  obtain ⟨balanced, placed⟩ := placed_of_parse h
  obtain ⟨front, back, split, reached⟩ := (parse_spells h).exists_level_eq_depth
  have shallow := balanced.placed_iff_level_le.mp placed front.length
  rw [split, List.take_left, reached] at shallow
  exact Int.ofNat_le.mp shallow

end Tree

namespace Program

theorem count_ofTree (t : Tree) : (ofTree t).count = t.nodeCount := by
  induction t with
  | nil => rfl
  | command _ _ next ih => rw [ofTree, count, ih, Tree.nodeCount]
  | loop _ body next ihBody ihNext => rw [ofTree, count, ihBody, ihNext, Tree.nodeCount]

theorem depth_ofTree (t : Tree) : (ofTree t).depth = t.depth := by
  induction t with
  | nil => rfl
  | command _ _ next ih => exact ih
  | loop _ body next ihBody ihNext => rw [ofTree, depth, ihBody, ihNext, Tree.depth]

/-- No pass makes a program longer, whatever the size of the tape. Contraction and coalescing keep
the depth of its loops, and multiplication does not add to it. So what becomes of a source text,
with any passes switched on, has at most as many instructions as its tree has nodes, and its loops
nest no deeper than a text may nest them. -/
theorem passes_never_grow :
    (∀ (size : UInt32) (p : Program),
      p.contract.count ≤ p.count ∧ (p.multiplyLoops size).count ≤ p.count ∧
        p.coalesce.count ≤ p.count ∧
      p.contract.depth = p.depth ∧ (p.multiplyLoops size).depth ≤ p.depth ∧
        p.coalesce.depth = p.depth) ∧
    ∀ (source : String) (t : Tree), Tree.parse source = .ok t → ∀ c : CompilerSettings,
      ((ofTree t).optimize c).count ≤ t.nodeCount ∧ ((ofTree t).optimize c).depth ≤ 512 := by
  constructor
  · intro size p
    exact ⟨count_contract_le p, count_multiplyLoops_le size p, count_coalesce_le p,
      depth_contract p, depth_multiplyLoops_le size p, depth_coalesce p⟩
  · intro source t read c
    obtain ⟨fewer, flatter⟩ := runPasses_smaller c.memorySize (Pass.enabled c.passes) (ofTree t)
    rw [count_ofTree] at fewer
    rw [depth_ofTree] at flatter
    exact ⟨fewer, Nat.le_trans flatter (Tree.depth_le_of_parse read)⟩

/-- The inner loop becomes two operations, and the moves around it go into their offsets. -/
theorem passes_never_grow_nested :
    let source := "+[>[->++<]<-]"
    let c : CompilerSettings := { memorySize := 3 }
    let rewritten := op (.add 1 0) (loop (ofOps [.mul 2 2 1, .clear 1, .sub 1 0]) nil)
    ∃ t, Tree.parse source = .ok t ∧ t.nodeCount = 11 ∧ t.depth = 2 ∧
      (ofTree t).optimize c = rewritten ∧
      ((ofTree t).optimize c).count ≤ t.nodeCount ∧ ((ofTree t).optimize c).depth ≤ 512 := by
  intro source c rewritten
  have read : Tree.parse "+[>[->++<]<-]" = .ok _ := rfl
  refine ⟨_, read, ?_, ?_, ?_, passes_never_grow.2 source _ read c⟩
  · decide
  · decide
  · decide +kernel

end Program
end TapeCompiler
