import TapeCompiler.Source.Parser

/-! Everything that can go wrong, as it is reported to the user. -/

namespace TapeCompiler

inductive Error where
  | file (detail : String)
  | brackets (cause : BracketError)
  /-- A defect of the compiler, never caused by the source program. -/
  | internal (detail : String)
  | settings (detail : String)
  | wasm (detail : String)
  | exhausted (detail : String)
  | encoding (detail : String)
deriving DecidableEq, Repr

namespace Error

def message : Error → String
  | file detail => "IO error: " ++ detail
  | brackets cause => "Syntax error: " ++ cause.message
  | internal detail => "Internal compiler error: " ++ detail
  | settings detail => "Configuration error: " ++ detail
  | wasm detail => "WASM error: " ++ detail
  | exhausted detail => "Resource exhausted: " ++ detail
  | encoding detail => "Serialization error: " ++ detail

/-- The text of the error that lies behind this one, if there is one. -/
def cause? : Error → Option String
  | file detail => some detail
  | brackets cause => some cause.message
  | _ => none

/-- The source program itself is at fault. -/
def isSyntax : Error → Bool
  | brackets _ => true
  | _ => false

/-- The compiler itself is at fault. -/
def isInternal : Error → Bool
  | internal _ => true
  | _ => false

end Error
end TapeCompiler
