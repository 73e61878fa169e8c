import TapeCompiler.Proofs.Machine.Ending

/-!
Two runs of one program side by side. A relation between states is kept in lock step if every
operation keeps it and related states agree on the cell that a loop tests. Then the two runs are at
the same place of the program after every number of steps (`LockStep.stop`), so they end together or
not at all, and a limit cuts both short or neither.
-/

namespace TapeCompiler

/-- Where a run under a limit comes to a halt: at its end, with `spare` steps to go, or where its
steps are used up, in front of what is `left` to run. -/
structure Stop where
  left : Program
  state : State
  spare : Nat
deriving DecidableEq, Repr

namespace Stop

def outcome (x : Stop) : Outcome :=
  match x.left with
  | .nil => .finished x.state x.spare
  | .op _ _ | .loop _ _ => .outOfSteps

theorem outcome_eq_finished_iff {x : Stop} {final : State} {spare : Nat} :
    x.outcome = .finished final spare ↔ x.left = .nil ∧ x.state = final ∧ x.spare = spare := by
  obtain ⟨left, state, steps⟩ := x
  cases left with
  | nil => simp [outcome]
  | op | loop => simp [outcome]

end Stop

namespace Program

/-- Where a run of at most `budget` steps stops. -/
def stop (eof : EofPolicy) : (budget : Nat) → Program → State → Stop
  | budget, nil, s => ⟨nil, s, budget⟩
  | 0, p, s => ⟨p, s, 0⟩
  | budget + 1, op o next, s => next.stop eof budget (o.apply eof s)
  | budget + 1, loop body next, s =>
    if s.current = 0 then next.stop eof budget s
    else (body ++ loop body next).stop eof budget s

theorem run_eq_outcome (eof : EofPolicy) (budget : Nat) (p : Program) (s : State) :
    p.run eof budget s = (p.stop eof budget s).outcome := by
  induction budget generalizing p s with
  | zero => cases p <;> rfl
  | succ budget ih =>
    cases p with
    | nil => rfl
    | op o next => exact ih next _
    | loop body next =>
      rw [run, stop]
      split
      · exact ih next s
      · exact ih _ s

end Program

/-- Related states stay related, and no loop tells them apart. -/
structure LockStep (eof : EofPolicy) (R : State → State → Prop) : Prop where
  current {s t : State} : R s t → s.current = t.current
  apply {s t : State} (o : Op) : R s t → R (o.apply eof s) (o.apply eof t)

namespace LockStep

variable {eof : EofPolicy} {R : State → State → Prop} {p : Program} {s s' t : State} {n : Nat}

theorem symm (h : LockStep eof R) : LockStep eof fun t s => R s t where
  current related := (h.current related).symm
  apply o related := h.apply o related

theorem stop (h : LockStep eof R) (budget : Nat) (p : Program) (related : R s t) :
    (p.stop eof budget s).left = (p.stop eof budget t).left ∧
      (p.stop eof budget s).spare = (p.stop eof budget t).spare ∧
      R (p.stop eof budget s).state (p.stop eof budget t).state := by
  induction budget generalizing p s t with
  | zero => cases p <;> exact ⟨rfl, rfl, related⟩
  | succ budget ih =>
    cases p with
    | nil => exact ⟨rfl, rfl, related⟩
    | op o next => exact ih next (h.apply o related)
    | loop body next =>
      rw [Program.stop, Program.stop, h.current related]
      split
      · exact ih next related
      · exact ih _ related

theorem takes (h : LockStep eof R) (related : R s t) (taken : Program.Takes eof p s n s') :
    ∃ t', Program.Takes eof p t n t' ∧ R s' t' := by
  have ended := taken.run 0
  rw [Program.run_eq_outcome, Stop.outcome_eq_finished_iff] at ended
  obtain ⟨ended, rfl, unused⟩ := ended
  obtain ⟨left, spare, states⟩ := h.stop (n + 0) p related
  have ended' : p.run eof (n + 0) t = .finished (p.stop eof (n + 0) t).state 0 := by
    rw [Program.run_eq_outcome, Stop.outcome_eq_finished_iff]
    exact ⟨left.symm.trans ended, rfl, spare.symm.trans unused⟩
  obtain ⟨m, spent, taken'⟩ := Program.takes_of_run ended'
  obtain rfl : n = m := by omega
  exact ⟨_, taken', states⟩

theorem runToEnd (h : LockStep eof R) (p : Program) (related : R s t) :
    Option.Rel R (p.runToEnd eof s) (p.runToEnd eof t) := by
  cases result : p.runToEnd eof s with
  | some s' =>
    obtain ⟨n, taken⟩ := Program.ends_iff_takes.mp (Program.ends_of_runToEnd result)
    obtain ⟨t', taken', related'⟩ := h.takes related taken
    rw [Program.runToEnd_eq_some_iff.mpr taken'.ends]
    exact .some related'
  | none =>
    cases result' : p.runToEnd eof t with
    | none => exact .none
    | some t' =>
      -- The other run would take this one to its end.
      obtain ⟨n, taken⟩ := Program.ends_iff_takes.mp (Program.ends_of_runToEnd result')
      obtain ⟨s', taken', _⟩ := h.symm.takes related taken
      rw [Program.runToEnd_eq_some_iff.mpr taken'.ends] at result
      cases result

/-- Runs that start in related states are answered alike, if related states are reported alike. -/
theorem interpret {c : CompilerSettings} (h : LockStep c.eof R)
    (reports : ∀ {s t : State}, R s t → s.report = t.report) (p : Program) (limit : Option Nat)
    {input input' : List UInt8}
    (start : R (.initial c.memorySize.toNat input) (.initial c.memorySize.toNat input')) :
    p.interpret c limit input = p.interpret c limit input' := by
  by_cases zero : c.memorySize = 0
  · rw [Program.interpret, Program.interpret, if_pos zero, if_pos zero]
  · apply Program.interpret_congr zero zero
    intro r
    rw [Program.interpret_eq_ok_iff zero, Program.interpret_eq_ok_iff zero]
    constructor
    · rintro ⟨n, t, taken, within, rfl⟩
      obtain ⟨t', taken', related⟩ := h.takes start taken
      exact ⟨n, t', taken', within, reports related⟩
    · rintro ⟨n, t, taken, within, rfl⟩
      obtain ⟨t', taken', related⟩ := h.symm.takes start taken
      exact ⟨n, t', taken', within, (reports related).symm⟩

end LockStep
end TapeCompiler
