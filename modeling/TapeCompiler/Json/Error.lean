import TapeCompiler.Json.Number
import TapeCompiler.Text.Quoted

/-! What can be wrong with JSON text that is read for a purpose. -/

namespace TapeCompiler.Json

/-- A value that was met, as far as an error tells about it. -/
inductive Found where
  | null
  | bool (b : Bool)
  | integer (i : Int)
  | float (f : Float)
  | string (s : String)
  | sequence
  | map

namespace Found

def ofNumber : Number → Found
  | .integer i => integer i
  | .float f => float f

def describe : Found → String
  | null => "null"
  | bool b => if b then "boolean `true`" else "boolean `false`"
  | integer i => s!"integer `{i}`"
  | float f => s!"floating point `{Number.floatText f}`"
  | string s => "string " ++ Text.quote s
  | sequence => "sequence"
  | map => "map"

end Found

/-- The construct in which the text ends. -/
inductive Construct where
  | value
  | list
  | object
  | string
deriving DecidableEq, Repr

def Construct.describe : Construct → String
  | value => "a value"
  | list => "a list"
  | object => "an object"
  | string => "a string"

inductive ReadError where
  | unfinished (inside : Construct)
  | expectedColon
  | expectedListEnd
  | expectedObjectEnd
  | expectedWord
  | expectedValue
  | badEscape
  | badNumber
  | numberOutOfRange
  | controlCharacter
  | keyNotString
  | loneSurrogate
  | halfSurrogatePair
  | trailingComma
  | trailingCharacters
  | wrongType (found : Found) (expected : String)
  | wrongValue (found : Found) (expected : String)
  | wrongLength (length : Nat) (expected : String)
  | unknownName (name : String) (allowed : List String)
  | missingField (name : String)
  | repeatedField (name : String)

namespace ReadError

def ofNumber : NumberError → ReadError
  | .unfinished => unfinished .value
  | .malformed => badNumber
  | .outOfRange => numberOutOfRange

def message : ReadError → String
  | unfinished inside => "EOF while parsing " ++ inside.describe
  | expectedColon => "expected `:`"
  | expectedListEnd => "expected `,` or `]`"
  | expectedObjectEnd => "expected `,` or `\x7d`"
  | expectedWord => "expected ident"
  | expectedValue => "expected value"
  | badEscape => "invalid escape"
  | badNumber => "invalid number"
  | numberOutOfRange => "number out of range"
  | controlCharacter => "control character (\\u0000-\\u001F) found while parsing a string"
  | keyNotString => "key must be a string"
  | loneSurrogate => "lone leading surrogate in hex escape"
  | halfSurrogatePair => "unexpected end of hex escape"
  | trailingComma => "trailing comma"
  | trailingCharacters => "trailing characters"
  | wrongType found expected => s!"invalid type: {found.describe}, expected {expected}"
  | wrongValue found expected => s!"invalid value: {found.describe}, expected {expected}"
  | wrongLength length expected => s!"invalid length {length}, expected {expected}"
  | unknownName name allowed =>
    let listed := ", ".intercalate (allowed.map fun a => s!"`{a}`")
    s!"unknown variant `{name}`, expected one of {listed}"
  | missingField name => s!"missing field `{name}`"
  | repeatedField name => s!"duplicate field `{name}`"

end ReadError
end TapeCompiler.Json
