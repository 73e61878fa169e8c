/-! The six commands that are not brackets. -/

namespace TapeCompiler

inductive Command where
  | right
  | left
  | increment
  | decrement
  | output
  | input
deriving DecidableEq, Repr

namespace Command

def ofChar? : Char → Option Command
  | '>' => some right
  | '<' => some left
  | '+' => some increment
  | '-' => some decrement
  | '.' => some output
  | ',' => some input
  | _ => none

def toChar : Command → Char
  | right => '>'
  | left => '<'
  | increment => '+'
  | decrement => '-'
  | output => '.'
  | input => ','

def name : Command → String
  | right => "Right"
  | left => "Left"
  | increment => "Increment"
  | decrement => "Decrement"
  | output => "Output"
  | input => "Input"

theorem ofChar?_toChar (c : Command) : ofChar? c.toChar = some c := by
  cases c <;> rfl

end Command
end TapeCompiler
