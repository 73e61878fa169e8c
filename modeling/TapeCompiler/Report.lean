import TapeCompiler.Json.Value
import TapeCompiler.Text.Utf8

/-! What is known after a run: the tape, the output and how long each phase took. -/

namespace TapeCompiler

/-- The phases of a run in their order. -/
inductive Phase where
  | parse
  | lower
  | contract
  | multiplyLoops
  | coalesceOffsets
  | codegen
  | validate
  | load
  | instantiate
  | execute
deriving DecidableEq, Repr

namespace Phase

def all : List Phase :=
  [parse, lower, contract, multiplyLoops, coalesceOffsets, codegen, validate, load, instantiate,
    execute]

/-- The name in a timing report on the terminal. -/
def label : Phase → String
  | parse => "parse"
  | lower => "lower"
  | contract => "contract"
  | multiplyLoops => "multiply-loops"
  | coalesceOffsets => "coalesce-offsets"
  | codegen => "codegen"
  | validate => "validate"
  | load => "load"
  | instantiate => "instantiate"
  | execute => "execute"

/-- The name of the field in a JSON document. -/
def field : Phase → String
  | multiplyLoops => "multiply_loops"
  | coalesceOffsets => "coalesce_offsets"
  | p => p.label

/-- The phase belongs to compilation and not to loading or running. -/
def isCompilation : Phase → Bool
  | load => false
  | instantiate => false
  | execute => false
  | _ => true

end Phase

/-- The nanoseconds that each phase took. -/
structure Timings where
  nanos : Phase → Nat

namespace Timings

def sum (t : Timings) (phases : List Phase) : Nat :=
  (phases.map t.nanos).foldr (· + ·) 0

def total (t : Timings) : Nat := t.sum Phase.all

def compileTotal (t : Timings) : Nat := t.sum (Phase.all.filter Phase.isCompilation)

/-- Whole seconds and the nanoseconds left over, for each phase. -/
def toJson (t : Timings) : Json :=
  .obj (Phase.all.map fun p =>
    (p.field, .obj [("secs", .num (t.nanos p / 1000000000 : Nat)),
      ("nanos", .num (t.nanos p % 1000000000 : Nat))]))

end Timings

/-- The outcome of a finished run. -/
structure Report where
  pointer : Nat
  memory : Array UInt8
  output : Array UInt8
  /-- The durations of the phases were recorded. -/
  timed : Bool := false
deriving DecidableEq, Repr

namespace Report

/-- The cell under the pointer, 0 if the pointer is outside the tape. -/
def currentCell (r : Report) : UInt8 :=
  r.memory.getD r.pointer 0

/-- The cells below `n` that are not 0, in front of `above`. -/
def usedBelow (memory : Array UInt8) : (n : Nat) → (above : List (Nat × UInt8)) →
    List (Nat × UInt8)
  | 0, above => above
  | n + 1, above =>
    let v := memory.getD n 0
    usedBelow memory n (if v = 0 then above else (n, v) :: above)

/-- The cells that are not 0, by ascending index. -/
def usedCells (r : Report) : List (Nat × UInt8) :=
  usedBelow r.memory r.memory.size []

def text (r : Report) : String :=
  Utf8.decodeLossy r.output.toList

end Report
end TapeCompiler
