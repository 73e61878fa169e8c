/-! The input and output of a run, as the functions that a module imports see them. -/

namespace TapeCompiler.Wasm

structure Streams where
  input : List UInt8
  output : Array UInt8
deriving DecidableEq, Repr

namespace Streams

def ofInput (input : List UInt8) : Streams := ⟨input, #[]⟩

/-- What reading gives once the input is used up: minus one. -/
def endOfInput : UInt32 := 0xFFFFFFFF

/-- Take the next byte. -/
def read (s : Streams) : UInt32 × Streams :=
  match s.input with
  | b :: rest => (b.toUInt32, { s with input := rest })
  | [] => (endOfInput, s)

def write (s : Streams) (b : UInt8) : Streams :=
  { s with output := s.output.push b }

end Streams
end TapeCompiler.Wasm
