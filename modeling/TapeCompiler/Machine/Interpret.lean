import TapeCompiler.Error
import TapeCompiler.Machine.Run
import TapeCompiler.Report

/-! Running a program from a blank tape. -/

namespace TapeCompiler

/-- What is reported of the state in which a run ends. -/
def State.report (s : State) : Report :=
  { pointer := s.pointer, memory := s.tape, output := s.output }

namespace Program

def interpret (c : CompilerSettings) (limit : Option Nat) (p : Program) (input : List UInt8) :
    Except Error Report :=
  if c.memorySize = 0 then .error (.settings SizeError.zero.message)
  else
    let start := State.initial c.memorySize.toNat input
    match limit with
    | some limit =>
      match p.run c.eof limit start with
      | .finished s _ => .ok s.report
      | .outOfSteps => .error (.exhausted s!"step limit of {limit} exceeded")
    | none =>
      match p.runToEnd c.eof start with
      | some s => .ok s.report
      -- Never answered: without a limit, a run that does not end does not return.
      | none => .error (.exhausted "the run does not end")

end Program
end TapeCompiler
