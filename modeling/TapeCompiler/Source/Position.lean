/-! Places in a source text. -/

namespace TapeCompiler

/-- Offset counts bytes from 0; line and column count from 1, columns in characters. -/
structure Position where
  offset : Nat
  line : Nat
  column : Nat
deriving DecidableEq, Repr

namespace Position

def start : Position := ⟨0, 1, 1⟩

/-- The place after `c`. Only a newline ends a line. -/
def advance (p : Position) (c : Char) : Position :=
  if c = '\n' then ⟨p.offset + c.utf8Size, p.line + 1, 1⟩
  else ⟨p.offset + c.utf8Size, p.line, p.column + 1⟩

def describe (p : Position) : String :=
  s!"line {p.line}, column {p.column} (offset {p.offset})"

end Position
end TapeCompiler
