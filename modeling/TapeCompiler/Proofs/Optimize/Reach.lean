import TapeCompiler.Optimize.Pass
import TapeCompiler.Proofs.Optimize.Contraction
import TapeCompiler.Proofs.Optimize.CountedLoop
import TapeCompiler.Proofs.Optimize.Settling
import TapeCompiler.Proofs.Source.Tokens

/-!
How far from its start a block can touch the tape. A block is in reach if its moves and any one of
its offsets together stay below 2^31. `extent` counts the loops of a block as offsets too, each by
its own extent. Contraction keeps it, and a multiplication reaches no further than the loop that it
stands for, so the blocks of a source text of fewer than 2^31 characters are in reach until they are
coalesced.
-/

namespace TapeCompiler

namespace Op

variable {o : Op}

/-- The offsets of the cells that the operation uses. -/
def offsets : Op → List Int32
  | add _ offset | sub _ offset | clear offset | output offset | input offset => [offset]
  | mul dest _ source => [dest, source]
  | right _ | left _ => []

/-- The distance of the farthest of these cells. -/
def far : Op → Nat
  | add _ offset | sub _ offset | clear offset | output offset | input offset =>
    offset.toInt.natAbs
  | mul dest _ source => max dest.toInt.natAbs source.toInt.natAbs
  | right _ | left _ => 0

theorem natAbs_le_far {offset : Int32} (mem : offset ∈ o.offsets) :
    offset.toInt.natAbs ≤ o.far := by
  cases o with
  | right | left => cases mem
  | add | sub | clear | output | input =>
    obtain rfl := List.mem_singleton.mp mem
    exact Nat.le_refl _
  | mul dest factor source =>
    rcases List.mem_cons.mp mem with rfl | last
    · exact Nat.le_max_left _ _
    · obtain rfl := List.mem_singleton.mp last
      exact Nat.le_max_right _ _

theorem travel_merge? {earlier later merged : Op} (h : earlier.merge? later = some merged) :
    merged.travel = earlier.travel + later.travel := by
  obtain ⟨m, n, sum, rfl, rfl, rfl, hsum⟩ | ⟨m, n, sum, rfl, rfl, rfl, hsum⟩ |
    ⟨m, n, sum, a, rfl, rfl, rfl, hsum⟩ | ⟨m, n, sum, a, rfl, rfl, rfl, hsum⟩ := merge?_cases h
  · exact (Word.sum?_eq_some hsum).2
  · exact (Word.sum?_eq_some hsum).2
  · rfl
  · rfl

theorem far_merge? {earlier later merged : Op} (h : earlier.merge? later = some merged) :
    merged.far = max earlier.far later.far := by
  obtain ⟨m, n, sum, rfl, rfl, rfl, hsum⟩ | ⟨m, n, sum, rfl, rfl, rfl, hsum⟩ |
    ⟨m, n, sum, a, rfl, rfl, rfl, hsum⟩ | ⟨m, n, sum, a, rfl, rfl, rfl, hsum⟩ := merge?_cases h
  · rfl
  · rfl
  · exact (Nat.max_self _).symm
  · exact (Nat.max_self _).symm

theorem position_effect? {e e' : Effect} (h : o.effect? e = some e') :
    e'.position.natAbs ≤ e.position.natAbs + o.travel := by
  cases o with
  | right count | left count =>
    cases h
    simp only [Effect.move, travel]
    omega
  | add | sub =>
    cases h
    exact Nat.le_refl _
  | mul | clear | output | input => cases h

theorem changes_effect? {e e' : Effect} (h : o.effect? e = some e') {x : Int × Int}
    (mem : x ∈ e'.changes) :
    (∃ y ∈ e.changes, x.1 = y.1) ∨ x.1.natAbs ≤ e.position.natAbs + o.far := by
  cases o with
  | right | left =>
    cases h
    exact .inl ⟨x, mem, rfl⟩
  | add amount offset | sub amount offset =>
    cases h
    rcases Effect.mem_bump mem with new | old
    · right
      simp only [far]
      omega
    · exact .inl old
  | mul | clear | output | input => cases h

end Op

namespace Program

variable {p next body b : Program} {e e' : Effect}

/-- The offsets of the operations directly in a block. -/
def offsets : Program → List Int32
  | nil => []
  | op o next => o.offsets ++ next.offsets
  | loop _ next => next.offsets

/-- The moves directly in a block, and with them any offset there, go less than 2^31. -/
def InReach (b : Program) : Prop :=
  b.travel ≤ 2147483647 ∧ ∀ offset ∈ b.offsets, b.travel + offset.toInt.natAbs ≤ 2147483647

instance (b : Program) : Decidable b.InReach :=
  have : Decidable (∀ offset ∈ b.offsets, b.travel + offset.toInt.natAbs ≤ 2147483647) :=
    List.decidableBAll _ _
  instDecidableAnd

/-- The farthest that an offset of a block, or a loop from where it is entered, can reach. -/
def far : Program → Nat
  | nil => 0
  | op o next => max o.far next.far
  | loop body next => max (body.travel + body.far) next.far

/-- How far a block can reach. -/
def extent (p : Program) : Nat := p.travel + p.far

theorem extent_body_le (body next : Program) : body.extent ≤ (loop body next).extent := by
  simp only [extent, travel, far]
  omega

theorem extent_next_le (body next : Program) : next.extent ≤ (loop body next).extent := by
  simp only [extent, travel, far]
  omega

theorem extent_bodies_le : ∀ b ∈ p.bodies, b.extent ≤ p.extent := by
  induction p with
  | nil =>
    intro b mem
    cases mem
  | op o next ih =>
    intro b mem
    have inside := ih b mem
    simp only [extent, travel, far] at inside ⊢
    omega
  | loop body next ihBody ihNext =>
    have first := extent_body_le body next
    have second := extent_next_le body next
    refine forall_bodies_loop.mpr ⟨forall_blocks.mpr ⟨first, ?_⟩, ?_⟩
    · intro b mem
      exact Nat.le_trans (ihBody b mem) first
    · intro b mem
      exact Nat.le_trans (ihNext b mem) second

theorem natAbs_le_far {offset : Int32} (mem : offset ∈ p.offsets) :
    offset.toInt.natAbs ≤ p.far := by
  induction p with
  | nil => cases mem
  | op o next ih =>
    rcases List.mem_append.mp mem with here | later
    · exact Nat.le_trans (Op.natAbs_le_far here) (Nat.le_max_left _ _)
    · exact Nat.le_trans (ih later) (Nat.le_max_right _ _)
  | loop body next _ ih => exact Nat.le_trans (ih mem) (Nat.le_max_right _ _)

theorem inReach_of_extent (h : p.extent ≤ 2147483647) : ∀ b ∈ p.blocks, b.InReach := by
  have reach (b : Program) (hb : b.extent ≤ p.extent) : b.InReach := by
    unfold extent at h hb
    refine ⟨by omega, ?_⟩
    intro offset mem
    have bound := natAbs_le_far mem
    omega
  refine forall_blocks.mpr ⟨reach p (Nat.le_refl _), ?_⟩
  intro b mem
  exact reach b (extent_bodies_le b mem)

/-! ### Contraction -/

theorem reach_congruence :
    Congruence fun p q : Program => p.travel = q.travel ∧ p.far = q.far where
  refl _ := ⟨rfl, rfl⟩
  trans h h' := ⟨h.1.trans h'.1, h.2.trans h'.2⟩
  op o h := by simp only [travel, far, h.1, h.2, and_self]
  loop hbody hnext := by simp only [travel, far, hbody.1, hbody.2, hnext.1, hnext.2, and_self]

theorem reach_contract (p : Program) :
    p.contract.travel = p.travel ∧ p.contract.far = p.far := by
  refine reach_congruence.contractFrom ?_ none p
  intro earlier later merged merges next
  simp only [travel, far, Op.travel_merge? merges, Op.far_merge? merges]
  omega

theorem extent_contract (p : Program) : p.contract.extent = p.extent := by
  rw [extent, extent, (reach_contract p).1, (reach_contract p).2]

/-! ### Counted loops -/

/-- What a body changes lies within its extent. -/
theorem changes_effect? (h : body.effect? e = some e') {x : Int × Int} (mem : x ∈ e'.changes) :
    (∃ y ∈ e.changes, x.1 = y.1) ∨ x.1.natAbs ≤ e.position.natAbs + body.extent := by
  induction body generalizing e with
  | nil =>
    cases h
    exact .inl ⟨x, mem, rfl⟩
  | op o next ih =>
    obtain ⟨middle, first, rest⟩ := Option.bind_eq_some_iff.mp h
    have position := Op.position_effect? first
    simp only [extent, travel, far] at ih ⊢
    rcases ih rest with ⟨y, listed, same⟩ | later
    · rcases Op.changes_effect? first listed with ⟨z, old, same'⟩ | here
      · exact .inl ⟨z, old, same.trans same'⟩
      · right
        omega
    · right
      omega
  | loop => cases h

theorem natAbs_factors?_le {size : UInt32} {f : Factors} (h : body.factors? size = some f) :
    ∀ x ∈ f, x.1.toInt.natAbs ≤ body.extent := by
  obtain ⟨e, known, _, factors⟩ := factors?_eq_some h
  intro x listed
  have change : (x.1.toInt, x.2.toInt) ∈ f.changes := List.mem_map.mpr ⟨x, listed, rfl⟩
  obtain ⟨mem, _⟩ := Factors.ofChanges?_mem factors _ change
  rcases changes_effect? known mem with ⟨y, none, _⟩ | bound
  · cases none
  · simpa [Effect.start] using bound

theorem travel_prepend {ops : List Op} (h : ∀ o ∈ ops, o.travel = 0) (next : Program) :
    (prepend ops next).travel = next.travel := by
  induction ops with
  | nil => rfl
  | cons o rest ih =>
    obtain ⟨first, others⟩ := List.forall_mem_cons.mp h
    rw [prepend_cons, travel, first, Nat.zero_add]
    exact ih others

theorem far_prepend_le {ops : List Op} {n : Nat} (h : ∀ o ∈ ops, o.far ≤ n) (hnext : next.far ≤ n) :
    (prepend ops next).far ≤ n := by
  induction ops with
  | nil => exact hnext
  | cons o rest ih =>
    obtain ⟨first, others⟩ := List.forall_mem_cons.mp h
    exact Nat.max_le.mpr ⟨first, ih others⟩

theorem travel_multiplyLoops (size : UInt32) (p : Program) :
    (p.multiplyLoops size).travel = p.travel := by
  induction p with
  | nil => rfl
  | op o next ih => rw [multiplyLoops, travel, travel, ih]
  | loop body next _ ih =>
    simp only [multiplyLoops]
    split
    · rename_i f _
      have still : ∀ o ∈ f.toOps, o.travel = 0 :=
        Factors.forall_toOps (fun _ _ => rfl) rfl
      rw [travel_prepend still, ih]
      rfl
    · exact ih

theorem far_multiplyLoops_le (size : UInt32) (p : Program) :
    (p.multiplyLoops size).far ≤ p.far := by
  induction p with
  | nil => exact Nat.le_refl _
  | op o next ih =>
    simp only [multiplyLoops, far]
    omega
  | loop body next ihBody ihNext =>
    simp only [multiplyLoops]
    split
    · -- The loop was counted with the extent of its body, which holds every destination.
      rename_i f counted
      apply far_prepend_le
      · apply Factors.forall_toOps
        · intro x listed
          have bound := natAbs_factors?_le counted x listed
          exact Nat.max_le.mpr ⟨Nat.le_trans bound (Nat.le_max_left _ _), Nat.zero_le _⟩
        · exact Nat.zero_le _
      · exact Nat.le_trans ihNext (Nat.le_max_right _ _)
    · simp only [far, travel_multiplyLoops]
      omega

theorem extent_multiplyLoops_le (size : UInt32) (p : Program) :
    (p.multiplyLoops size).extent ≤ p.extent := by
  have far := far_multiplyLoops_le size p
  unfold extent
  rw [travel_multiplyLoops]
  omega

/-! ### From the source text -/

theorem extent_runPasses_le (size : UInt32) {passes : List Pass}
    (before : Pass.coalesceOffsets ∉ passes) (p : Program) :
    (p.runPasses size passes).extent ≤ p.extent := by
  refine runPasses_keeps (P := fun q => q.extent ≤ p.extent) ?_ (Nat.le_refl _)
  intro pass listed q bound
  cases pass with
  | contract => exact Nat.le_trans (Nat.le_of_eq (extent_contract q)) bound
  | multiplyLoops => exact Nat.le_trans (extent_multiplyLoops_le size q) bound
  | coalesceOffsets => exact absurd listed before

theorem extent_ofTree_le (t : Tree) : (ofTree t).extent ≤ t.tokens.length := by
  induction t with
  | nil => exact Nat.le_refl _
  | command symbol place next ih =>
    have one : (ofTree.ofCommand symbol).travel ≤ 1 ∧ (ofTree.ofCommand symbol).far = 0 := by
      cases symbol <;> decide
    simp only [extent, ofTree, travel, far, Tree.tokens, List.length_cons] at ih ⊢
    omega
  | loop place body next ihBody ihNext =>
    simp only [extent, ofTree, travel, far, Tree.tokens, List.length_cons, List.length_append]
      at ihBody ihNext ⊢
    omega

theorem length_tokens_le {source : String} {t : Tree} (h : Tree.parse source = .ok t) :
    t.tokens.length ≤ source.length := by
  rw [Tree.tokens_parse h, Token.ofText, ← String.length_toList]
  exact Nat.le_trans (List.length_filterMap_le _ _) (Nat.le_of_eq List.length_zipIdx)

theorem inReach_of_source {source : String} {t : Tree} (h : Tree.parse source = .ok t)
    (short : source.length < 2147483648) (size : UInt32) {passes : List Pass}
    (before : Pass.coalesceOffsets ∉ passes) :
    ∀ b ∈ ((ofTree t).runPasses size passes).blocks, b.InReach := by
  apply inReach_of_extent
  have passed := extent_runPasses_le size before (ofTree t)
  have lowered := extent_ofTree_le t
  have read := length_tokens_le h
  omega

end Program
end TapeCompiler
