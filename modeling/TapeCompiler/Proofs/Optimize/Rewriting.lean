import TapeCompiler.Optimize.Pass
import TapeCompiler.Proofs.Word

/-!
What contraction and coalescing put in the place of what. Both go through a program once, replace
operations one or two at a time and leave everything else where it is. So a relation that can be
carried to any place of a program (`Congruence`) holds between what a pass makes of a program and
the program itself as soon as it holds for the replacements. Each pass is gone through here, once
(`Congruence.contractFrom`, `Congruence.coalesceFrom`), and so are sequences of passes
(`runPasses_keeps`).
-/

namespace TapeCompiler

/-- A distance other than 0 belongs to one move. -/
theorem Op.eq_motion {o : Op} {d : Int} (moves : o.distance? = some d) (nonzero : d ≠ 0) :
    o = motion d := by
  cases o with
  | right count =>
    cases moves
    rw [motion, if_pos (by omega), Int.natAbs_natCast, UInt32.ofNat_toNat]
  | left count =>
    cases moves
    rw [motion, if_neg (by omega), Int.natAbs_neg, Int.natAbs_natCast, UInt32.ofNat_toNat]
  | add | sub | mul | clear | output | input => cases moves

namespace Program

/-- A relation between programs that can be carried to any place of a program. -/
structure Congruence (R : Program → Program → Prop) : Prop where
  refl (p : Program) : R p p
  trans {p q r : Program} : R p q → R q r → R p r
  op {next next' : Program} (o : Op) : R next next' → R (op o next) (op o next')
  loop {body body' next next' : Program} : R body body' → R next next' →
    R (loop body next) (loop body' next')

/-- The operation that is held back stands in front of what follows. -/
def release : Option Op → Program → Program
  | none, p => p
  | some held, p => op held p

theorem flush_zero (p : Program) : flush 0 p = p := if_pos rfl

namespace Congruence

variable {R : Program → Program → Prop}

/-- Contraction puts one operation in the place of two. -/
theorem contractFrom (h : Congruence R)
    (merged : ∀ {earlier later merged : Op}, earlier.merge? later = some merged →
      ∀ next, R (.op merged next) (.op earlier (.op later next)))
    (held : Option Op) (p : Program) : R (contractFrom held p) (release held p) := by
  induction p generalizing held with
  | nil => cases held <;> exact h.refl _
  | op o next ih =>
    cases held with
    | none => exact ih (some o)
    | some held =>
      simp only [Program.contractFrom]
      cases merges : held.merge? o with
      | none => exact h.op held (ih (some o))
      | some both => exact h.trans (ih (some both)) (merged merges next)
  | loop body next ihBody ihNext =>
    have inside : R (.loop (Program.contractFrom none body) (Program.contractFrom none next))
        (.loop body next) := h.loop (ihBody none) (ihNext none)
    cases held with
    | none => exact inside
    | some held => exact h.op held inside

theorem flush (h : Congruence R) (pending : Int32) {next next' : Program} (hnext : R next next') :
    R (flush pending next) (flush pending next') := by
  by_cases zero : pending = 0
  · rw [zero, flush_zero, flush_zero]
    exact hnext
  · rw [Program.flush, Program.flush, if_neg zero, if_neg zero]
    exact h.op _ hnext

/-- Coalescing lets a move join the motion that is pending, or the motion pass an operation. The
program behind the motion is what the result is compared with. -/
theorem coalesceFrom (h : Congruence R)
    (joined : ∀ {o : Op} {d : Int} {pending sum : Int32}, o.distance? = some d →
      sum.toInt = pending.toInt + d →
      ∀ next, R (.flush sum next) (.flush pending (.op o next)))
    (passed : ∀ {o shifted : Op} {pending : Int32}, o.distance? = none →
      o.shift? pending = some shifted →
      ∀ next, R (.op shifted (.flush pending next)) (.flush pending (.op o next)))
    (pending : Int32) (p : Program) : R (coalesceFrom pending p) (.flush pending p) := by
  induction p generalizing pending with
  | nil => exact h.refl _
  | op o next ih =>
    have settled : R (Program.coalesceFrom 0 next) next := by
      have same := ih 0
      rwa [flush_zero] at same
    simp only [Program.coalesceFrom]
    split
    · rename_i d moves
      split
      · rename_i sum fits
        exact h.trans (ih sum) (joined moves (Word.narrow?_eq_some_iff.mp fits) next)
      · -- The pending motion is written out, and the move starts a new one if it fits.
        apply h.flush pending
        split
        · rename_i restart fits
          have start : restart.toInt = (0 : Int32).toInt + d := by
            rw [Word.narrow?_eq_some_iff.mp fits]
            exact (Int.zero_add d).symm
          have alone := joined moves start next
          rw [flush_zero] at alone
          exact h.trans (ih restart) alone
        · rename_i wide
          have nonzero : d ≠ 0 := by
            rintro rfl
            exact absurd wide (by decide)
          rw [← Op.eq_motion moves nonzero]
          exact h.op o settled
    · rename_i stays
      split
      · rename_i shifted shifts
        exact h.trans (h.op shifted (ih pending)) (passed stays shifts next)
      · exact h.flush pending (h.op o settled)
  | loop body next ihBody ihNext =>
    have inside := h.loop (ihBody 0) (ihNext 0)
    rw [flush_zero, flush_zero] at inside
    exact h.flush pending inside

end Congruence

/-- What each of the passes keeps, all of them in a row keep. -/
theorem runPasses_keeps {P : Program → Prop} {size : UInt32} {passes : List Pass}
    (kept : ∀ pass ∈ passes, ∀ p, P p → P (pass.run size p)) {p : Program} (start : P p) :
    P (p.runPasses size passes) := by
  induction passes generalizing p with
  | nil => exact start
  | cons pass rest ih =>
    obtain ⟨first, others⟩ := List.forall_mem_cons.mp kept
    exact ih others (first p start)

end Program
end TapeCompiler
