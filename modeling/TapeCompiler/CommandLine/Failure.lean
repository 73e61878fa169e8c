import TapeCompiler.Error

/-! How a failed command explains itself. -/

namespace TapeCompiler.CommandLine

/-- What went wrong, and behind it the causes. -/
structure Failure where
  text : String
  causes : List String
deriving DecidableEq, Repr

namespace Failure

def ofError (e : Error) : Failure := ⟨e.message, e.cause?.toList⟩

/-- What was being done when it went wrong. -/
def during (doing : String) (f : Failure) : Failure := ⟨doing, f.text :: f.causes⟩

/-- A cause behind its margin; further lines of it are indented as far. -/
def indented (first margin cause : String) : String :=
  match cause.splitOn "\n" with
  | [] => first
  | line :: lines => String.join ((first ++ line) :: lines.map fun l => "\n" ++ margin ++ l)

/-- Several causes are numbered. -/
def numbered : Nat → List String → List String
  | _, [] => []
  | n, cause :: causes =>
    let label := toString n
    let first := String.ofList (List.replicate (5 - label.length) ' ') ++ label ++ ": "
    indented first "       " cause :: numbered (n + 1) causes

def render (f : Failure) : String :=
  let causes := match f.causes with
    | [] => []
    | [cause] => ["", "Caused by:", indented "    " "    " cause]
    | causes => "" :: "Caused by:" :: numbered 0 causes
  String.join ((("Error: " ++ f.text) :: causes).map (· ++ "\n"))

end Failure
end TapeCompiler.CommandLine
