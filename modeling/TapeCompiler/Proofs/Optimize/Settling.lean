import TapeCompiler.Proofs.Optimize.Coalescing
import TapeCompiler.Proofs.Program.Blocks

/-!
What a second coalescing changes. A program is left alone exactly if none of its moves could have
been carried further (`coalesce_eq_self_iff`). Moves written out before a loop, at the end of a
block or before an offset that would leave its range are of this kind. A move written out because
the motion would leave its range need not be: the motion starts over with the next move, may come
back, and then the first move has room again. `restarts` lists these places, and they decide whether
coalescing twice is coalescing once.
-/

namespace TapeCompiler

namespace Op

variable {o : Op} {d : Int}

theorem distance?_motion (range : d.natAbs < 4294967296) : (motion d).distance? = some d := by
  have count : (UInt32.ofNat d.natAbs).toNat = d.natAbs := UInt32.toNat_ofNat_of_lt' range
  unfold motion
  split
  · simp only [distance?, count, Option.some.injEq]
    omega
  · simp only [distance?, count, Option.some.injEq]
    omega

theorem distance?_motion_word (w : Int32) : (motion w.toInt).distance? = some w.toInt := by
  have low := w.le_toInt
  have high := w.toInt_lt
  exact distance?_motion (by omega)

theorem shift?_zero (o : Op) : o.shift? 0 = some o := by
  have same (offset : Int32) : shift?.moved 0 offset = some offset :=
    Word.narrow?_eq_some_iff.mpr (Int.add_zero _).symm
  cases o with
  | right | left => rfl
  | add | sub | clear | output | input => simp only [shift?, same, Option.map_some]
  | mul => simp only [shift?, same, Option.bind_eq_bind, Option.bind_some, pure]

/-- How far a move goes, in either direction. -/
def travel : Op → Nat
  | right count | left count => count.toNat
  | _ => 0

theorem travel_eq_natAbs (moves : o.distance? = some d) : o.travel = d.natAbs := by
  cases o with
  | right count =>
    cases moves
    rfl
  | left count =>
    cases moves
    rw [travel, Int.natAbs_neg, Int.natAbs_natCast]
  | add | sub | mul | clear | output | input => cases moves

theorem travel_eq_zero (stays : o.distance? = none) : o.travel = 0 := by
  cases o with
  | right | left => cases stays
  | add | sub | mul | clear | output | input => rfl

end Op

namespace Program

variable {p q next : Program} {o : Op} {d : Int} {pending w : Int32}

/-! ### Writing out a motion -/

theorem flush_of_ne_zero (h : pending ≠ 0) (p : Program) :
    flush pending p = op (.motion pending.toInt) p := if_neg h

theorem flush_inj : flush pending p = flush pending q ↔ p = q := by
  by_cases zero : pending = 0
  · rw [zero, flush_zero, flush_zero]
  · simp [flush_of_ne_zero zero]

theorem op_eq_flush (moves : o.distance? = some w.toInt) (nonzero : w ≠ 0) :
    op o next = flush w next := by
  have distance : w.toInt ≠ 0 := fun zero => nonzero (Int32.toInt.inj zero)
  rw [flush_of_ne_zero nonzero, ← Op.eq_motion moves distance]

@[simp]
theorem bodies_flush (pending : Int32) (p : Program) : (flush pending p).bodies = p.bodies := by
  unfold flush
  split <;> rfl

theorem bodies_coalesceFrom (pending : Int32) (p : Program) :
    (coalesceFrom pending p).bodies = p.bodies.map coalesce := by
  induction p generalizing pending with
  | nil => exact bodies_flush pending nil
  | op o next ih =>
    simp only [coalesceFrom]
    split
    · split
      · exact ih _
      · rw [bodies_flush]
        split
        · exact ih _
        · exact ih 0
    · split
      · exact ih pending
      · rw [bodies_flush]
        exact ih 0
  | loop body next ihBody ihNext =>
    rw [coalesceFrom, bodies_flush, bodies_loop, bodies_loop, blocks, blocks, ihBody, ihNext,
      List.map_append, List.map_cons]
    rfl

theorem count_le_flush (pending : Int32) (p : Program) : p.count ≤ (flush pending p).count := by
  unfold flush
  split
  · exact Nat.le_refl _
  · exact Nat.le_add_left _ _

theorem count_flush_le (pending : Int32) (p : Program) :
    (flush pending p).count ≤ 1 + p.count := by
  unfold flush
  split
  · exact Nat.le_add_left _ _
  · exact Nat.le_refl _

theorem count_congruence : Congruence fun p q : Program => p.count ≤ q.count where
  refl p := Nat.le_refl p.count
  trans := Nat.le_trans
  op _ h := Nat.add_le_add_left h 1
  loop hbody hnext := Nat.add_le_add (Nat.add_le_add_left hbody 1) hnext

/-- Nothing is longer for being coalesced, but for the motion that it starts with. -/
theorem count_coalesceFrom_le (pending : Int32) (p : Program) :
    (coalesceFrom pending p).count ≤ (flush pending p).count := by
  apply count_congruence.coalesceFrom
  · -- The move that joins the motion is one operation, and so is the motion at most.
    intro o d pending sum _ _ next
    exact Nat.le_trans (count_flush_le sum next) (count_le_flush pending (op o next))
  · intro o shifted pending _ _ next
    unfold flush
    split <;> exact Nat.le_refl _

/-! ### Programs that coalescing leaves alone -/

/-- What the program starts with ends a motion of `pending`: a loop or the end, or an operation that
would take the motion or one of its own offsets out of range. -/
def Stops (pending : Int32) : Program → Prop
  | op o _ =>
    match o.distance? with
    | some distance => Word.narrow? (pending.toInt + distance) = none
    | none => o.shift? pending = none
  | _ => True

/-- No move goes nowhere, and what follows a move ends its motion. A move too long for a pending
motion is written out as it is, whatever follows. -/
def Settled (p : Program) : Prop :=
  p.Along fun o next => ∀ w : Int32, o.distance? = some w.toInt → w ≠ 0 ∧ next.Stops w

theorem stops_move (moves : o.distance? = some d) :
    (op o next).Stops w ↔ Word.narrow? (w.toInt + d) = none := by
  simp only [Stops, moves]

theorem stops_stay (stays : o.distance? = none) :
    (op o next).Stops w ↔ o.shift? w = none := by
  simp only [Stops, stays]

theorem settled_stay (stays : o.distance? = none) : (op o next).Settled ↔ next.Settled := by
  constructor
  · exact fun h => h.2
  · intro h
    refine ⟨?_, h⟩
    intro w moves
    rw [stays] at moves
    cases moves

theorem settled_wide (moves : o.distance? = some d) (wide : Word.narrow? d = none) :
    (op o next).Settled ↔ next.Settled := by
  constructor
  · exact fun h => h.2
  · intro h
    refine ⟨?_, h⟩
    intro w narrow
    rw [moves, Option.some.injEq] at narrow
    rw [Word.narrow?_eq_some_iff.mpr narrow.symm] at wide
    cases wide

theorem settled_move (moves : o.distance? = some w.toInt) :
    (op o next).Settled ↔ w ≠ 0 ∧ next.Stops w ∧ next.Settled := by
  constructor
  · rintro ⟨here, rest⟩
    obtain ⟨nonzero, stops⟩ := here w moves
    exact ⟨nonzero, stops, rest⟩
  · rintro ⟨nonzero, stops, rest⟩
    refine ⟨?_, rest⟩
    intro w' moves'
    rw [moves, Option.some.injEq] at moves'
    obtain rfl := Int32.toInt.inj moves'
    exact ⟨nonzero, stops⟩

theorem settled_flush : (flush w p).Settled ↔ (w ≠ 0 → p.Stops w) ∧ p.Settled := by
  by_cases zero : w = 0
  · rw [zero, flush_zero]
    exact ⟨fun h => ⟨fun nonzero => absurd rfl nonzero, h⟩, fun h => h.2⟩
  · rw [flush_of_ne_zero zero, settled_move (Op.distance?_motion_word w)]
    exact ⟨fun h => ⟨fun _ => h.2.1, h.2.2⟩, fun h => ⟨zero, h.1 zero, h.2⟩⟩

/-- A move that goes nowhere is dropped. -/
theorem coalesceFrom_zero_ne (o : Op) (next : Program) : coalesceFrom 0 next ≠ op o next := by
  intro same
  have shorter := count_coalesceFrom_le 0 next
  rw [same, flush_zero] at shorter
  simp only [count] at shorter
  omega

/-- Of two moves that are joined one remains. -/
theorem coalesceFrom_ne_flush (nonzero : pending ≠ 0) (sum : Int32) (o : Op) (next : Program) :
    coalesceFrom sum next ≠ flush pending (op o next) := by
  intro same
  have shorter := count_coalesceFrom_le sum next
  have longer := count_flush_le sum next
  rw [same, flush_of_ne_zero nonzero] at shorter
  simp only [count] at shorter
  omega

/-- An operation in front of a settled rest. If it takes the motion in, it stands where the move
would have to. -/
theorem coalesceFrom_stay_iff (stays : o.distance? = none)
    (rest : coalesceFrom 0 next = next ↔ next.Settled) (pending : Int32) :
    coalesceFrom pending (op o next) = flush pending (op o next) ↔
      (flush pending (op o next)).Settled := by
  rw [settled_flush, settled_stay stays, stops_stay stays]
  cases shifts : o.shift? pending with
  | none =>
    simp only [coalesceFrom, stays, shifts, flush_inj, op.injEq, true_and, implies_true, rest]
  | some shifted =>
    by_cases zero : pending = 0
    · subst zero
      obtain rfl : o = shifted := Option.some.inj ((Op.shift?_zero o).symm.trans shifts)
      simp [coalesceFrom, stays, shifts, flush_zero, rest]
    · have different : shifted ≠ .motion pending.toInt := by
        rintro rfl
        have none := Op.distance?_shift? stays shifts
        rw [Op.distance?_motion_word] at none
        cases none
      simp [coalesceFrom, stays, shifts, flush_of_ne_zero zero, different, zero]

/-- A move in front of the rest: it joins the motion, starts it over, or is written out as it is. -/
theorem coalesceFrom_move_iff (moves : o.distance? = some d)
    (ih : ∀ w, coalesceFrom w next = flush w next ↔ (flush w next).Settled) (pending : Int32) :
    coalesceFrom pending (op o next) = flush pending (op o next) ↔
      (flush pending (op o next)).Settled := by
  have moved {w : Int32} (distance : w.toInt = d) (nonzero : w ≠ 0) :
      coalesceFrom w next = op o next ↔ (op o next).Settled := by
    rw [op_eq_flush (distance ▸ moves) nonzero]
    exact ih w
  rw [settled_flush, stops_move moves]
  cases fits : Word.narrow? (pending.toInt + d) with
  | some sum =>
    -- The motions join. Only a motion that was the move's alone is written out as that move again.
    simp only [coalesceFrom, moves, fits, reduceCtorEq, imp_false, Decidable.not_not]
    by_cases zero : pending = 0
    · subst zero
      have distance : sum.toInt = d := by
        rw [Word.narrow?_eq_some_iff.mp fits, Int32.toInt_zero, Int.zero_add]
      rw [flush_zero]
      by_cases nowhere : sum = 0
      · subst nowhere
        simp [settled_move (distance ▸ moves), coalesceFrom_zero_ne]
      · simp [moved distance nowhere]
    · simp [coalesceFrom_ne_flush zero, zero]
  | none =>
    cases narrow : Word.narrow? d with
    | some restart =>
      have distance := Word.narrow?_eq_some_iff.mp narrow
      have nonzero : restart ≠ 0 := by
        rintro rfl
        rw [← distance, Int32.toInt_zero, Int.add_zero,
          Word.narrow?_eq_some_iff.mpr rfl] at fits
        cases fits
      simp only [coalesceFrom, moves, fits, narrow, flush_inj, moved distance nonzero,
        implies_true, true_and]
    | none =>
      have nonzero : d ≠ 0 := by
        rintro rfl
        cases narrow
      have rest : coalesceFrom 0 next = next ↔ next.Settled := by
        simpa only [flush_zero] using ih 0
      simp only [coalesceFrom, moves, fits, narrow, flush_inj, ← Op.eq_motion moves nonzero,
        op.injEq, true_and, rest, settled_wide moves narrow, implies_true]

/-- Coalescing writes a pending motion out at once, and nothing else changes, exactly if the motion
has no way to go further and neither has any move behind it. -/
theorem coalesceFrom_eq_flush_iff (pending : Int32) (p : Program) :
    coalesceFrom pending p = flush pending p ↔ (flush pending p).Settled := by
  induction p generalizing pending with
  | nil => exact iff_of_true rfl (settled_flush.mpr ⟨fun _ => trivial, trivial⟩)
  | op o next ih =>
    cases moves : o.distance? with
    | none =>
      have rest : coalesceFrom 0 next = next ↔ next.Settled := by
        simpa only [flush_zero] using ih 0
      exact coalesceFrom_stay_iff moves rest pending
    | some d => exact coalesceFrom_move_iff moves ih pending
  | loop body next ihBody ihNext =>
    have inside : coalesceFrom 0 body = body ↔ body.Settled := by
      simpa only [flush_zero] using ihBody 0
    have behind : coalesceFrom 0 next = next ↔ next.Settled := by
      simpa only [flush_zero] using ihNext 0
    rw [settled_flush]
    simp only [coalesceFrom, flush_inj, loop.injEq, inside, behind]
    exact ⟨fun h => ⟨fun _ => trivial, h⟩, fun h => h.2⟩

theorem coalesce_eq_self_iff : p.coalesce = p ↔ p.Settled := by
  have iff := coalesceFrom_eq_flush_iff 0 p
  rwa [flush_zero] at iff

/-! ### Motions that start over -/

/-- Where a move would take the pending motion out of its range and the motion starts over with it:
the motion that is written out there, and what is written behind it. -/
def restarts (pending : Int32) : Program → List (Int32 × Program)
  | nil => []
  | op o next =>
    match o.distance? with
    | some distance =>
      match Word.narrow? (pending.toInt + distance) with
      | some sum => restarts sum next
      | none =>
        match Word.narrow? distance with
        | some restart => (pending, coalesceFrom restart next) :: restarts restart next
        | none => restarts 0 next
    | none =>
      match o.shift? pending with
      | some _ => restarts pending next
      | none => restarts 0 next
  | loop body next => restarts 0 body ++ restarts 0 next

/-- Of the moves that coalescing writes out, only those before a restart may have room to go on. -/
theorem settled_coalesceFrom_iff (pending : Int32) (p : Program) :
    (coalesceFrom pending p).Settled ↔ ∀ x ∈ p.restarts pending, x.2.Stops x.1 := by
  induction p generalizing pending with
  | nil =>
    refine iff_of_true (settled_flush.mpr ⟨fun _ => trivial, trivial⟩) ?_
    intro x mem
    cases mem
  | op o next ih =>
    cases moves : o.distance? with
    | none =>
      cases shifts : o.shift? pending with
      | some shifted =>
        simp only [coalesceFrom, restarts, moves, shifts, ← ih,
          settled_stay (Op.distance?_shift? moves shifts)]
      | none =>
        simp only [coalesceFrom, restarts, moves, shifts, ← ih, settled_flush, settled_stay moves,
          stops_stay moves, implies_true, true_and]
    | some d =>
      cases fits : Word.narrow? (pending.toInt + d) with
      | some sum => simp only [coalesceFrom, restarts, moves, fits, ← ih]
      | none =>
        cases narrow : Word.narrow? d with
        | some restart =>
          -- The move that stopped the motion is now pending itself; what comes first may not stop it.
          have nonzero : pending ≠ 0 := by
            rintro rfl
            rw [Int32.toInt_zero, Int.zero_add, narrow] at fits
            cases fits
          simp only [coalesceFrom, restarts, moves, fits, narrow, settled_flush, ih,
            List.forall_mem_cons, nonzero, ne_eq, not_false_eq_true, forall_const]
        | none =>
          have written : (Op.motion d).distance? = some d :=
            Op.distance?_motion (Op.distance?_range moves)
          simp only [coalesceFrom, restarts, moves, fits, narrow, settled_flush, ← ih,
            settled_wide written narrow, stops_move written, implies_true, true_and]
  | loop body next ihBody ihNext =>
    simp only [coalesceFrom, restarts, settled_flush, List.forall_mem_append, ← ihBody, ← ihNext]
    exact ⟨fun h => h.2, fun h => ⟨fun _ => trivial, h⟩⟩

/-- How far the moves of a block go together, in either direction. -/
def travel : Program → Nat
  | nil => 0
  | op o next => o.travel + next.travel
  | loop _ next => next.travel

/-- With less than 2^31 to go there is no occasion to start over. -/
theorem restarts_eq_nil (room : pending.toInt.natAbs + p.travel ≤ 2147483647)
    (inner : ∀ b ∈ p.bodies, b.travel ≤ 2147483647) : p.restarts pending = [] := by
  have zero : (0 : Int32).toInt.natAbs = 0 := rfl
  induction p generalizing pending with
  | nil => rfl
  | op o next ih =>
    simp only [travel] at room
    cases moves : o.distance? with
    | none =>
      have rest : next.restarts 0 = [] := ih (by omega) inner
      cases shifts : o.shift? pending with
      | some shifted =>
        simp only [restarts, moves, shifts]
        exact ih (by omega) inner
      | none => simpa only [restarts, moves, shifts] using rest
    | some d =>
      rw [Op.travel_eq_natAbs moves] at room
      cases fits : Word.narrow? (pending.toInt + d) with
      | some sum =>
        have joined := Word.narrow?_eq_some_iff.mp fits
        simp only [restarts, moves, fits]
        exact ih (by omega) inner
      | none =>
        rw [Word.narrow?, if_pos (by omega)] at fits
        cases fits
  | loop body next ihBody ihNext =>
    obtain ⟨inside, behind⟩ := forall_bodies_loop.mp inner
    obtain ⟨here, deeper⟩ := forall_blocks.mp inside
    simp only [travel] at room
    have first : body.restarts 0 = [] := ihBody (by omega) deeper
    have second : next.restarts 0 = [] := ihNext (by omega) behind
    rw [restarts, first, second, List.append_nil]

/-- Coalescing twice is coalescing once exactly if no move that is written out before a restart has
room for what is written behind it. There are no restarts where the moves of each block go less than
2^31 together, whatever the offsets. -/
theorem coalesce_coalesce_eq_iff (p : Program) :
    (p.coalesce.coalesce = p.coalesce ↔ ∀ x ∈ p.restarts 0, x.2.Stops x.1) ∧
    ((∀ b ∈ p.blocks, b.travel ≤ 2147483647) → p.coalesce.coalesce = p.coalesce) := by
  have iff : p.coalesce.coalesce = p.coalesce ↔ ∀ x ∈ p.restarts 0, x.2.Stops x.1 :=
    coalesce_eq_self_iff.trans (settled_coalesceFrom_iff 0 p)
  refine ⟨iff, ?_⟩
  intro short
  obtain ⟨here, inner⟩ := forall_blocks.mp short
  have none : p.restarts 0 = [] := restarts_eq_nil (by simpa using here) inner
  rw [iff, none]
  intro x mem
  cases mem

/-- The motion starts over with the move by one, comes back, and leaves room for the offset. -/
theorem coalesce_coalesce_ne :
    let p := op (.right 2147483647) (op (.right 1) (op (.left 1) (op (.output 0) nil)))
    p.coalesce = op (.right 2147483647) (op (.output 0) nil) ∧
      p.coalesce.coalesce = op (.output 2147483647) (op (.right 2147483647) nil) ∧
      p.coalesce.coalesce ≠ p.coalesce := by
  decide

end Program
end TapeCompiler
