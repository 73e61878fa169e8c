import TapeCompiler.Proofs.Machine.Tape
import TapeCompiler.Proofs.Optimize.Rewriting

/-!
When one program may stand for another. `Same` asks for the same ends from every state on the tape,
so that a run which never ends keeps never ending. It is a congruence: a rewrite that is right in
one place is right inside every loop.
-/

namespace TapeCompiler.Program

/-- On a tape of `size` cells, whatever the policy at the end of the input, one program ends in a
state exactly when the other does. -/
def Same (size : Nat) (p q : Program) : Prop :=
  ∀ eof s t, s.OnTape size → (Ends eof p s t ↔ Ends eof q s t)

variable {size : Nat} {p q r body body' next next' : Program}

theorem Same.refl (p : Program) : Same size p p := fun _ _ _ _ => Iff.rfl

theorem Same.symm (h : Same size p q) : Same size q p := fun eof s t hs => (h eof s t hs).symm

theorem Same.trans (h : Same size p q) (h' : Same size q r) : Same size p r :=
  fun eof s t hs => (h eof s t hs).trans (h' eof s t hs)

theorem Same.op (o : Op) (h : Same size next next') : Same size (op o next) (op o next') := by
  intro eof s t hs
  rw [ends_op, ends_op]
  exact h eof _ t (Op.apply_onTape hs eof o)

theorem Same.loop_ends (hbody : Same size body body') (hnext : Same size next next')
    {eof : EofPolicy} {s t : State} {n : Nat} (hs : s.OnTape size)
    (h : Takes eof (loop body next) s n t) : Ends eof (loop body' next') s t := by
  -- The count of steps bounds the iterations that are left.
  induction n using Nat.strongRecOn generalizing s with
  | ind n ih =>
    cases h with
    | leave zero rest => exact (ends_loop_zero zero).mpr ((hnext eof s t hs).mp rest.ends)
    | @again _ _ _ u _ i j nonzero inner rest =>
      have onTape := inner.onTape hs
      have once : Ends eof body' s u := (hbody eof s u hs).mp inner.ends
      exact (ends_loop_nonzero nonzero).mpr ⟨u, once, ih j (by omega) onTape rest⟩

theorem Same.loop (hbody : Same size body body') (hnext : Same size next next') :
    Same size (loop body next) (loop body' next') := by
  intro eof s t hs
  rw [ends_iff_takes, ends_iff_takes]
  constructor
  · rintro ⟨n, taken⟩
    exact ends_iff_takes.mp (hbody.loop_ends hnext hs taken)
  · rintro ⟨n, taken⟩
    exact ends_iff_takes.mp (hbody.symm.loop_ends hnext.symm hs taken)

theorem Same.congruence : Congruence (Same size) where
  refl := Same.refl
  trans := Same.trans
  op := Same.op
  loop := Same.loop

end TapeCompiler.Program
