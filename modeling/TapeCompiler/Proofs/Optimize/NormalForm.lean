import Mathlib.Data.List.Defs
import TapeCompiler.Proofs.Optimize.Reach

/-!
What a coalesced program looks like. A block is cut at its loops into segments. In a coalesced
segment the operations come first, each with the motion made before it added to its offsets, and one
move by the whole motion of the segment comes last, unless the segment ends where it began
(`Gathers`, `NormalForm`).

All of this needs blocks that are in reach, so that no motion and no offset leaves its range on the
way. `InReachFrom.op` says what coalescing does to one operation then.
-/

namespace TapeCompiler

namespace Op

variable {o : Op} {w : Int32}

theorem exists_shift? (near : ∀ offset ∈ o.offsets,
    w.toInt.natAbs + offset.toInt.natAbs ≤ 2147483647) : ∃ shifted, o.shift? w = some shifted := by
  have moves {offset : Int32} (mem : offset ∈ o.offsets) :
      shift?.moved w offset = some (.ofInt (offset.toInt + w.toInt)) := by
    have bound := near offset mem
    rw [shift?.moved, Word.narrow?, if_pos (by omega)]
  cases o with
  | right | left => exact ⟨_, rfl⟩
  | add | sub | clear | output | input =>
    simp only [shift?, moves List.mem_cons_self, Option.map_some]
    exact ⟨_, rfl⟩
  | mul dest factor source =>
    have last : source ∈ [dest, source] := List.mem_cons_of_mem _ List.mem_cons_self
    simp only [shift?, moves List.mem_cons_self, moves last]
    exact ⟨_, rfl⟩

end Op

/-! ### Segments -/

namespace Program

/-- The distance from the start of a segment to its end. -/
def netMotion : List Op → Int
  | [] => 0
  | o :: rest => o.distance?.getD 0 + netMotion rest

/-- The operations of a segment other than its moves, in order, each with the motion made before it;
`start` was made before the segment. -/
def located (start : Int) : List Op → List (Int × Op)
  | [] => []
  | o :: rest =>
    match o.distance? with
    | some distance => located (start + distance) rest
    | none => (start, o) :: located start rest

/-- The second segment is the first with its motion gathered in one move at the end. -/
def Gathers (ops ops' : List Op) : Prop :=
  ∃ kept last, ops' = kept ++ last ∧
    List.Forall₂ (fun x o => x.2.ShiftedBy x.1 o) (located 0 ops) kept ∧
    (netMotion ops = 0 ∧ last = [] ∨
      netMotion ops ≠ 0 ∧ ∃ move, move.distance? = some (netMotion ops) ∧ last = [move])

/-- The second block is the first with every segment gathered and every loop coalesced. -/
inductive NormalForm : Program → Program → Prop
  | last {ops ops' : List Op} (segment : Gathers ops ops') : NormalForm (ofOps ops) (ofOps ops')
  | loop {ops ops' : List Op} {body next next' : Program} (segment : Gathers ops ops')
      (rest : NormalForm next next') :
      NormalForm (prepend ops (.loop body next)) (prepend ops' (.loop body.coalesce next'))

/-- Moves stand right before a loop or at the end of the block, one at a time, and lead somewhere. -/
structure Tidy (q : Program) : Prop where
  last : ∀ (before after : Program) (o : Op), q = before ++ op o after → o.distance? ≠ none →
    after = nil ∨ ∃ body next, after = loop body next
  apart : ∀ (before after : Program) (o o' : Op), q = before ++ op o (op o' after) →
    o.distance? = none ∨ o'.distance? = none
  nonzero : ∀ (before after : Program) (o : Op), q = before ++ op o after → o.distance? ≠ some 0

/-! ### Blocks in reach -/

/-- The block is in reach behind a pending motion. -/
def InReachFrom (pending : Int32) (b : Program) : Prop :=
  pending.toInt.natAbs + b.travel ≤ 2147483647 ∧
    ∀ offset ∈ b.offsets, pending.toInt.natAbs + b.travel + offset.toInt.natAbs ≤ 2147483647

variable {p b q body next rest : Program} {o : Op} {pending : Int32}

theorem InReach.start (h : b.InReach) : b.InReachFrom 0 := by
  obtain ⟨moves, offsets⟩ := h
  refine ⟨by simpa using moves, ?_⟩
  intro offset mem
  simpa using offsets offset mem

/-- In reach, a move always joins the pending motion, and any other operation is shifted by it. -/
theorem InReachFrom.op (room : (op o next).InReachFrom pending) :
    (∃ d sum, o.distance? = some d ∧ sum.toInt = pending.toInt + d ∧ next.InReachFrom sum ∧
      coalesceFrom pending (.op o next) = coalesceFrom sum next) ∨
    (∃ shifted, o.distance? = none ∧ o.ShiftedBy pending.toInt shifted ∧
      next.InReachFrom pending ∧
      coalesceFrom pending (.op o next) = .op shifted (coalesceFrom pending next)) := by
  obtain ⟨moves, offsets⟩ := room
  simp only [travel] at moves offsets
  obtain ⟨here, later⟩ := List.forall_mem_append.mp offsets
  cases distance : o.distance? with
  | some d =>
    rw [Op.travel_eq_natAbs distance] at moves later
    cases fits : Word.narrow? (pending.toInt + d) with
    | none =>
      rw [Word.narrow?, if_pos (by omega)] at fits
      cases fits
    | some sum =>
      have joined := Word.narrow?_eq_some_iff.mp fits
      refine .inl ⟨d, sum, rfl, joined, ⟨by omega, ?_⟩, ?_⟩
      · intro offset mem
        have bound := later offset mem
        omega
      · simp only [coalesceFrom, distance, fits]
  | none =>
    rw [Op.travel_eq_zero distance] at moves here later
    have near : ∀ offset ∈ o.offsets,
        pending.toInt.natAbs + offset.toInt.natAbs ≤ 2147483647 := by
      intro offset mem
      have bound := here offset mem
      omega
    obtain ⟨shifted, shifts⟩ := Op.exists_shift? near
    refine .inr ⟨shifted, rfl, Op.shiftedBy_of_shift? distance shifts, ⟨by omega, ?_⟩, ?_⟩
    · intro offset mem
      have bound := later offset mem
      omega
    · simp only [coalesceFrom, distance, shifts]

theorem InReachFrom.loop (room : (loop body next).InReachFrom pending) : next.InReach := by
  obtain ⟨moves, offsets⟩ := room
  simp only [travel] at moves offsets
  refine ⟨by omega, ?_⟩
  intro offset mem
  have bound := offsets offset mem
  omega

/-! ### The form of each block -/

/-- Coalescing takes a segment's motion along to what follows it. -/
theorem coalesceFrom_prepend {ops : List Op} (room : (prepend ops rest).InReachFrom pending) :
    ∃ kept final, List.Forall₂ (fun x o => x.2.ShiftedBy x.1 o) (located pending.toInt ops) kept ∧
      final.toInt = pending.toInt + netMotion ops ∧ rest.InReachFrom final ∧
      coalesceFrom pending (prepend ops rest) = prepend kept (coalesceFrom final rest) := by
  -- A move changes where the rest is located from; any other operation finds its place at once.
  induction ops generalizing pending with
  | nil => exact ⟨[], pending, .nil, (Int.add_zero _).symm, room, rfl⟩
  | cons o ops ih =>
    rw [prepend_cons] at room ⊢
    obtain ⟨d, sum, distance, joined, further, step⟩ |
      ⟨shifted, distance, shifts, further, step⟩ := room.op
    · obtain ⟨kept, final, placed, total, behind, run⟩ := ih further
      refine ⟨kept, final, ?_, ?_, behind, step.trans run⟩
      · simp only [located, distance]
        rwa [joined] at placed
      · rw [total, joined, netMotion, distance, Option.getD_some, Int.add_assoc]
    · obtain ⟨kept, final, placed, total, behind, run⟩ := ih further
      refine ⟨shifted :: kept, final, ?_, ?_, behind, ?_⟩
      · simp only [located, distance]
        exact .cons shifts placed
      · rw [total, netMotion, distance, Option.getD_none, Int.zero_add]
      · rw [step, run, prepend_cons]

/-- The move that a pending motion is written out as. -/
theorem exists_flush_eq (pending : Int32) :
    ∃ last, (∀ p, flush pending p = prepend last p) ∧
      (pending.toInt = 0 ∧ last = [] ∨
        pending.toInt ≠ 0 ∧ ∃ move, move.distance? = some pending.toInt ∧ last = [move]) := by
  by_cases zero : pending = 0
  · refine ⟨[], ?_, .inl ⟨by rw [zero]; rfl, rfl⟩⟩
    intro p
    rw [zero, flush_zero, prepend_nil]
  · have distance : pending.toInt ≠ 0 := fun h => zero (Int32.toInt.inj h)
    refine ⟨[.motion pending.toInt], ?_, .inr ⟨distance, _, Op.distance?_motion_word pending, rfl⟩⟩
    intro p
    rw [flush_of_ne_zero zero]
    rfl

/-- A segment is gathered before whatever writes its motion out. -/
theorem gathers_coalesceFrom {ops : List Op} (room : (prepend ops rest).InReach)
    (writes : ∀ final, coalesceFrom final rest = flush final q) :
    ∃ ops', Gathers ops ops' ∧ (prepend ops rest).coalesce = prepend ops' q ∧
      ∃ final, rest.InReachFrom final := by
  obtain ⟨kept, final, placed, total, behind, run⟩ := coalesceFrom_prepend room.start
  rw [Int32.toInt_zero, Int.zero_add] at total
  obtain ⟨last, written, form⟩ := exists_flush_eq final
  rw [total] at form
  refine ⟨kept ++ last, ⟨kept, last, rfl, placed, form⟩, ?_, final, behind⟩
  rw [coalesce, run, writes, written, prepend_append]

theorem normalForm_coalesce (h : b.InReach) : NormalForm b b.coalesce := by
  induction b using segments with
  | last ops =>
    obtain ⟨ops', gathers, same, _⟩ := gathers_coalesceFrom h fun _ => rfl
    rw [ofOps, same]
    exact .last gathers
  | loop ops body next _ ih =>
    obtain ⟨ops', gathers, same, final, behind⟩ := gathers_coalesceFrom h fun _ => rfl
    rw [same]
    exact .loop gathers (ih behind.loop)

theorem blocks_coalesce (p : Program) : p.coalesce.blocks = p.blocks.map coalesce := by
  rw [blocks, blocks, List.map_cons, ← bodies_coalesceFrom 0 p]
  rfl

/-! ### Where the moves are -/

/-- The program starts with no operation. -/
def EndsSegment : Program → Prop
  | op _ _ => False
  | _ => True

/-- Every move leads somewhere and ends its segment. -/
def MovesLast (p : Program) : Prop :=
  p.Along fun o next => ∀ d, o.distance? = some d → d ≠ 0 ∧ next.EndsSegment

theorem movesLast_flush (h : p.MovesLast) (ends : p.EndsSegment) :
    (flush pending p).MovesLast := by
  by_cases zero : pending = 0
  · rwa [zero, flush_zero]
  · rw [flush_of_ne_zero zero]
    refine ⟨?_, h⟩
    intro d moves
    rw [Op.distance?_motion_word, Option.some.injEq] at moves
    refine ⟨?_, ends⟩
    rintro rfl
    exact zero (Int32.toInt.inj moves)

theorem movesLast_coalesceFrom (room : p.InReachFrom pending) (inner : ∀ b ∈ p.bodies, b.InReach) :
    (coalesceFrom pending p).MovesLast := by
  induction p generalizing pending with
  | nil => exact movesLast_flush trivial trivial
  | op o next ih =>
    obtain ⟨d, sum, _, _, further, step⟩ | ⟨shifted, _, shifts, further, step⟩ := room.op
    · rw [step]
      exact ih further inner
    · rw [step]
      refine ⟨?_, ih further inner⟩
      intro d moves
      cases shifts <;> cases moves
  | loop body next ihBody ihNext =>
    obtain ⟨inside, behind⟩ := forall_bodies_loop.mp inner
    obtain ⟨here, deeper⟩ := forall_blocks.mp inside
    have both : (loop (coalesceFrom 0 body) (coalesceFrom 0 next)).MovesLast :=
      ⟨ihBody here.start deeper, ihNext room.loop.start behind⟩
    exact movesLast_flush both trivial

theorem MovesLast.settled (h : p.MovesLast) : p.Settled := by
  apply h.mono
  intro o next last w moves
  obtain ⟨distance, ends⟩ := last w.toInt moves
  refine ⟨?_, ?_⟩
  · rintro rfl
    exact distance rfl
  · cases next with
    | nil | loop => trivial
    | op => exact ends.elim

theorem MovesLast.tidy (h : p.MovesLast) : ∀ q ∈ p.blocks, q.Tidy := by
  intro q mem
  have ends {before after : Program} {o : Op} {d : Int} (here : q = before ++ op o after)
      (moves : o.distance? = some d) : d ≠ 0 ∧ after.EndsSegment := h.split mem here d moves
  refine ⟨?_, ?_, ?_⟩
  · intro before after o here moves
    obtain ⟨d, distance⟩ := Option.ne_none_iff_exists'.mp moves
    cases after with
    | nil => exact .inl rfl
    | loop body next => exact .inr ⟨body, next, rfl⟩
    | op => exact (ends here distance).2.elim
  · intro before after o o' here
    cases distance : o.distance? with
    | none => exact .inl rfl
    | some d => exact (ends here distance).2.elim
  · intro before after o here nowhere
    exact (ends here nowhere).1 rfl

/-- Where all blocks are in reach, coalescing puts each of them in normal form: its segments
gathered, its loops coalesced, moves only at the ends of segments, and nothing left for a second
coalescing. The blocks of a source text of fewer than 2^31 characters are in reach, also after
contractions and the replacement of counted loops. -/
theorem coalesce_normalForm :
    (∀ p : Program, (∀ b ∈ p.blocks, b.InReach) →
      p.coalesce.blocks = p.blocks.map coalesce ∧
      (∀ b ∈ p.blocks, NormalForm b b.coalesce) ∧
      (∀ q ∈ p.coalesce.blocks, q.Tidy) ∧
      p.coalesce.coalesce = p.coalesce) ∧
    ∀ (source : String) (t : Tree), Tree.parse source = .ok t → source.length < 2147483648 →
      ∀ (size : UInt32) (passes : List Pass), Pass.coalesceOffsets ∉ passes →
        ∀ b ∈ ((ofTree t).runPasses size passes).blocks, b.InReach := by
  refine ⟨?_, ?_⟩
  · intro p reach
    obtain ⟨here, inner⟩ := forall_blocks.mp reach
    have last : p.coalesce.MovesLast := movesLast_coalesceFrom here.start inner
    refine ⟨blocks_coalesce p, ?_, last.tidy, coalesce_eq_self_iff.mpr last.settled⟩
    intro b mem
    exact normalForm_coalesce (reach b mem)
  · intro source t parsed short size passes before
    exact inReach_of_source parsed short size before

/-- Moves and an offset that go exactly to the limit. -/
theorem coalesce_normalForm_limit :
    let body := op (.left 2) (op (.sub 1 0) (op (.right 2) nil))
    let p := op (.right 2147483640) (op (.add 5 4) (op (.left 3) (loop body (op (.input 0) nil))))
    (∀ b ∈ p.blocks, b.InReach) ∧
      p.coalesce = op (.add 5 2147483644)
        (op (.right 2147483637) (loop (op (.sub 1 (-2)) nil) (op (.input 0) nil))) ∧
      NormalForm p p.coalesce ∧ p.coalesce.Tidy ∧ p.coalesce.coalesce = p.coalesce := by
  intro body p
  have reach : ∀ b ∈ p.blocks, b.InReach := by decide
  obtain ⟨_, form, tidy, again⟩ := coalesce_normalForm.1 p reach
  exact ⟨reach, by decide, form p List.mem_cons_self, tidy _ List.mem_cons_self, again⟩

end Program
end TapeCompiler
