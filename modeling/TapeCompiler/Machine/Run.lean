import TapeCompiler.Machine.State
import TapeCompiler.Program.Basic

/-!
Running a program. The program that is left to run is the whole control state: entering a loop puts
its body in front of the loop itself, so that the loop is tested again after the body. Every
operation is one step, and so is every test of a loop.
-/

namespace TapeCompiler

inductive Outcome where
  /-- The program came to its end with `spare` steps of its budget unused. -/
  | finished (final : State) (spare : Nat)
  | outOfSteps
deriving DecidableEq, Repr

namespace Program

/-- Run for at most `budget` steps. -/
def run (eof : EofPolicy) : (budget : Nat) → Program → State → Outcome
  | budget, nil, s => .finished s budget
  | 0, _, _ => .outOfSteps
  | budget + 1, op o next, s => next.run eof budget (o.apply eof s)
  | budget + 1, loop body next, s =>
    if s.current = 0 then next.run eof budget s
    else (body ++ loop body next).run eof budget s

/-- Run without a limit. A run that never ends has no result. -/
def runToEnd (eof : EofPolicy) (p : Program) (s : State) : Option State :=
  match p with
  | nil => some s
  | op o next => next |>.runToEnd eof (o.apply eof s)
  | loop body next =>
    if s.current = 0 then next |>.runToEnd eof s
    else body ++ loop body next |>.runToEnd eof s
partial_fixpoint

end Program
end TapeCompiler
