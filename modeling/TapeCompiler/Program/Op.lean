import TapeCompiler.Word

/-!
Straight-line operations on a tape. Except for moves, every operation names its cells by an
offset from the pointer, which wraps around the tape.
-/

namespace TapeCompiler

inductive Op where
  | right (count : UInt32)
  | left (count : UInt32)
  | add (amount : UInt32) (offset : Int32)
  | sub (amount : UInt32) (offset : Int32)
  /-- Add `factor` times the cell at `source` to the cell at `dest`. -/
  | mul (dest factor source : Int32)
  | clear (offset : Int32)
  | output (offset : Int32)
  | input (offset : Int32)
deriving DecidableEq, Repr

namespace Op

/-- The operation on another cell. Moves and multiplications stay as they are. -/
def retarget (offset : Int32) : Op → Op
  | add amount _ => add amount offset
  | sub amount _ => sub amount offset
  | clear _ => clear offset
  | output _ => output offset
  | input _ => input offset
  | o => o

/-- The operation with `delta` added to every offset, unless one of them leaves its range. -/
def shift? (delta : Int32) : Op → Option Op
  | right count => some (right count)
  | left count => some (left count)
  | add amount o => (moved o).map (add amount)
  | sub amount o => (moved o).map (sub amount)
  | mul dest factor source => do
    let dest ← moved dest
    let source ← moved source
    return mul dest factor source
  | clear o => (moved o).map clear
  | output o => (moved o).map output
  | input o => (moved o).map input
where
  moved (offset : Int32) : Option Int32 := Word.narrow? (offset.toInt + delta.toInt)

/-- A cell relative to the pointer, the sign always written. -/
def cell (offset : Int32) : String :=
  if offset.toInt < 0 then s!"[p{offset.toInt}]" else s!"[p+{offset.toInt}]"

def render : Op → String
  | right count => s!"right {count.toNat}"
  | left count => s!"left {count.toNat}"
  | add amount o => s!"add {cell o} {amount.toNat}"
  | sub amount o => s!"sub {cell o} {amount.toNat}"
  | mul dest factor source => s!"mul {cell dest} {cell source} * {factor.toInt}"
  | clear o => s!"clear {cell o}"
  | output o => s!"output {cell o}"
  | input o => s!"input {cell o}"

end Op
end TapeCompiler
