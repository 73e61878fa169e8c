import TapeCompiler.Proofs.Optimize.Coalescing
import TapeCompiler.Proofs.Optimize.Contraction

/-!
Contraction and coalescing never cost steps. `NoSlower` compares the steps of two programs: one ends
wherever the other does, in the same state and no later. It is a congruence, so a rewrite that costs
nothing in one place costs nothing inside a loop, however often the loop is run.

A merged operation saves a step. A motion that is written out costs one, but it has taken at least
one move of the same block to come about, and that move is gone (`joined_noSlower`).
-/

namespace TapeCompiler.Program

/-- On a tape of `size` cells, `p` ends wherever `q` does, in the same state and after no more
steps. -/
def NoSlower (size : Nat) (p q : Program) : Prop :=
  ∀ eof s n t, s.OnTape size → Takes eof q s n t → ∃ m, m ≤ n ∧ Takes eof p s m t

variable {size : Nat} {p q r body body' next next' : Program} {o : Op}

theorem NoSlower.refl (p : Program) : NoSlower size p p := by
  intro eof s n t _ h
  exact ⟨n, Nat.le_refl n, h⟩

theorem NoSlower.trans (h : NoSlower size p q) (h' : NoSlower size q r) : NoSlower size p r := by
  intro eof s n t hs taken
  obtain ⟨m, fewer, middle⟩ := h' eof s n t hs taken
  obtain ⟨k, fewer', first⟩ := h eof s m t hs middle
  exact ⟨k, Nat.le_trans fewer' fewer, first⟩

theorem NoSlower.op (o : Op) (h : NoSlower size next next') :
    NoSlower size (op o next) (op o next') := by
  intro eof s n t hs taken
  cases taken with
  | op rest =>
    obtain ⟨m, fewer, rest'⟩ := h eof _ _ t (Op.apply_onTape hs eof o) rest
    exact ⟨m + 1, Nat.succ_le_succ fewer, .op rest'⟩

theorem NoSlower.loop (hbody : NoSlower size body body') (hnext : NoSlower size next next') :
    NoSlower size (loop body next) (loop body' next') := by
  intro eof s n t hs taken
  -- The count of steps bounds the iterations that are left.
  induction n using Nat.strongRecOn generalizing s with
  | ind n ih =>
    cases taken with
    | leave zero rest =>
      obtain ⟨m, fewer, rest'⟩ := hnext eof s _ t hs rest
      exact ⟨m + 1, Nat.succ_le_succ fewer, .leave zero rest'⟩
    | again nonzero inner rest =>
      obtain ⟨i, fewer, inner'⟩ := hbody eof s _ _ hs inner
      obtain ⟨j, fewer', rest'⟩ := ih _ (by omega) _ (inner.onTape hs) rest
      exact ⟨i + j + 1, by omega, .again nonzero inner' rest'⟩

theorem NoSlower.congruence : Congruence (NoSlower size) where
  refl := NoSlower.refl
  trans := NoSlower.trans
  op := NoSlower.op
  loop := NoSlower.loop

/-! ### Contraction -/

theorem merged_noSlower {earlier later merged : Op} (merges : earlier.merge? later = some merged)
    (next : Program) : NoSlower size (op merged next) (op earlier (op later next)) := by
  intro eof s n t hs taken
  cases taken with
  | op taken =>
    cases taken with
    | @op _ _ _ _ n rest =>
      rw [← Op.apply_merge? hs eof merges] at rest
      exact ⟨n + 1, Nat.le_succ _, .op rest⟩

theorem contract_noSlower (p : Program) : NoSlower size p.contract p :=
  NoSlower.congruence.contractFrom merged_noSlower none p

/-! ### Coalescing -/

/-- The steps that it takes to write out a pending motion. -/
def toll (pending : Int32) : Nat :=
  if pending = 0 then 0 else 1

theorem toll_le_one (pending : Int32) : toll pending ≤ 1 := by
  unfold toll
  split <;> decide

theorem takes_flush {eof : EofPolicy} {s t : State} {n : Nat} (hs : s.OnTape size)
    {pending : Int32} : Takes eof (flush pending next) s n t ↔
      ∃ m, n = m + toll pending ∧ Takes eof next (s.moved pending.toInt) m t := by
  by_cases zero : pending = 0
  · rw [zero, flush_zero, show (0 : Int32).toInt = 0 from rfl, State.moved_zero hs]
    constructor
    · intro taken
      exact ⟨n, rfl, taken⟩
    · rintro ⟨m, rfl, taken⟩
      exact taken
  · have low := pending.le_toInt
    have high := pending.toInt_lt
    have moves : (Op.motion pending.toInt).apply eof s = s.moved pending.toInt :=
      Op.apply_motion hs eof (by omega)
    rw [flush, if_neg zero, toll, if_neg zero]
    constructor
    · intro taken
      cases taken with
      | op rest => exact ⟨_, rfl, moves ▸ rest⟩
    · rintro ⟨m, rfl, rest⟩
      exact .op (moves ▸ rest)

/-- A move that joins the pending motion pays for writing the motion out. -/
theorem joined_noSlower {d : Int} {pending sum : Int32} (moves : o.distance? = some d)
    (total : sum.toInt = pending.toInt + d) (next : Program) :
    NoSlower size (flush sum next) (flush pending (op o next)) := by
  intro eof s n t hs taken
  obtain ⟨m, rfl, behind⟩ := (takes_flush hs).mp taken
  cases behind with
  | @op _ _ _ _ m rest =>
    rw [Op.apply_distance? (State.moved_onTape hs _) eof moves, State.moved_moved hs, ← total]
      at rest
    have paid := toll_le_one sum
    exact ⟨m + toll sum, by omega, (takes_flush hs).mpr ⟨m, rfl, rest⟩⟩

theorem passed_noSlower {pending : Int32} {shifted : Op} (stays : o.distance? = none)
    (shifts : o.shift? pending = some shifted) (next : Program) :
    NoSlower size (op shifted (flush pending next)) (flush pending (op o next)) := by
  intro eof s n t hs taken
  obtain ⟨m, rfl, behind⟩ := (takes_flush hs).mp taken
  cases behind with
  | @op _ _ _ _ m rest =>
    rw [← Op.apply_shift? hs eof stays shifts] at rest
    have written := (takes_flush (Op.apply_onTape hs eof shifted)).mpr ⟨m, rfl, rest⟩
    exact ⟨m + toll pending + 1, by omega, .op written⟩

theorem coalesce_noSlower (p : Program) : NoSlower size p.coalesce p := by
  have same : NoSlower size (coalesceFrom 0 p) (flush 0 p) :=
    NoSlower.congruence.coalesceFrom joined_noSlower passed_noSlower 0 p
  rwa [flush_zero] at same

/-! ### The interpreter -/

theorem NoSlower.interpret {c : CompilerSettings} (h : NoSlower c.memorySize.toNat q p)
    {limit : Option Nat} {input : List UInt8} {r : Report}
    (finished : p.interpret c limit input = .ok r) : q.interpret c limit input = .ok r := by
  have hsize : c.memorySize ≠ 0 := by
    intro zero
    rw [Program.interpret, if_pos zero] at finished
    cases finished
  have positive : 0 < c.memorySize.toNat := by
    apply Nat.pos_of_ne_zero
    intro zero
    exact hsize (UInt32.toNat.inj zero)
  obtain ⟨n, t, taken, within, rfl⟩ := (interpret_eq_ok_iff hsize).mp finished
  obtain ⟨m, fewer, taken'⟩ := h c.eof _ n t (State.initial_onTape positive input) taken
  refine (interpret_eq_ok_iff hsize).mpr ⟨m, t, taken', ?_, rfl⟩
  intro k same
  exact Nat.le_trans fewer (within k same)

/-- Contraction and coalescing never cost steps: what the interpreter finishes within a limit, or
without one, it finishes within the same limit after either of them, with the same report. -/
theorem contract_coalesce_within_limit (c : CompilerSettings) (limit : Option Nat) (p : Program)
    (input : List UInt8) (r : Report) (finished : p.interpret c limit input = .ok r) :
    p.contract.interpret c limit input = .ok r ∧ p.coalesce.interpret c limit input = .ok r := by
  constructor
  · exact (contract_noSlower p).interpret finished
  · exact (coalesce_noSlower p).interpret finished

/-- The motion leaves its range in the body. It is written out twice there, in place of two moves,
so the limit is met without a step to spare. -/
theorem contract_coalesce_within_limit_seven :
    let c : CompilerSettings := { memorySize := 3, eof := .zero }
    let body := ofOps [.sub 1 0, .right 2147483647, .right 1, .output 0]
    let p := op (.add 1 0) (loop body nil)
    let moved := ofOps [.sub 1 0, .right 2147483647, .output 1, .right 1]
    let r : Report := { pointer := 2, memory := #[0, 0, 0], output := #[0] }
    p.interpret c (some 7) [] = .ok r ∧ p.coalesce = op (.add 1 0) (loop moved nil) ∧
      p.contract.interpret c (some 7) [] = .ok r ∧ p.coalesce.interpret c (some 7) [] = .ok r := by
  intro c body p moved r
  have ran : p.run c.eof 7 (.initial c.memorySize.toNat []) =
      .finished ⟨#[0, 0, 0], 2, [], #[0]⟩ 0 := by decide +kernel
  have finished : p.interpret c (some 7) [] = .ok r := by
    obtain ⟨n, spent, taken⟩ := takes_of_run ran
    refine (interpret_eq_ok_iff (by decide)).mpr ⟨n, _, taken, ?_, rfl⟩
    rintro m ⟨⟩
    omega
  have coalesced : p.coalesce = op (.add 1 0) (loop moved nil) := by decide +kernel
  exact ⟨finished, coalesced, contract_coalesce_within_limit c (some 7) p [] r finished⟩

end TapeCompiler.Program
