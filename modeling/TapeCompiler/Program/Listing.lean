import TapeCompiler.Program.Basic

/-! The written form of a program: one instruction a line, loop bodies indented. -/

namespace TapeCompiler.Program

def indent (level : Nat) : String :=
  String.ofList (List.replicate (2 * level) ' ')

def lines (level : Nat) : Program → List String
  | nil => []
  | op o next => (indent level ++ o.render) :: lines level next
  | loop body next =>
    (indent level ++ "loop \x7b") ::
      (lines (level + 1) body ++ (indent level ++ "\x7d") :: lines level next)

/-- Every line ends with a newline. -/
def listing (p : Program) : String :=
  String.join ((p.lines 0).map (· ++ "\n"))

end TapeCompiler.Program
