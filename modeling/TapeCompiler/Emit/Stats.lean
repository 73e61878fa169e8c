import TapeCompiler.Program.Basic

/-! What is counted while code is produced. Loops and their depth are counted in 32 bits. -/

namespace TapeCompiler

structure Stats where
  instructions : Nat := 0
  loops : UInt32 := 0
  maxLoopDepth : UInt32 := 0
deriving DecidableEq, Repr

/-- A loop as it is met: its number, its nesting depth and the length of its body. -/
structure LoopNote where
  id : UInt32
  depth : UInt32
  length : Nat
deriving DecidableEq, Repr

/-- The counters, the number for the next loop, the current depth and the loops met so far, the
last one first. -/
structure Tally where
  stats : Stats := {}
  nextId : UInt32 := 0
  depth : UInt32 := 0
  notes : List LoopNote := []
deriving DecidableEq, Repr

namespace Tally

def instruction (t : Tally) : Tally :=
  { t with stats.instructions := t.stats.instructions + 1 }

/-- Enter a loop, which takes the next number. -/
def enter (t : Tally) (length : Nat) : Tally :=
  { stats := { t.stats with
      loops := t.stats.loops + 1
      maxLoopDepth := max t.stats.maxLoopDepth (t.depth + 1) }
    nextId := t.nextId + 1
    depth := t.depth + 1
    notes := ⟨t.nextId, t.depth + 1, length⟩ :: t.notes }

def leave (t : Tally) : Tally :=
  { t with depth := t.depth - 1 }

end Tally

/-- Count through a program. -/
def Program.tally (t : Tally) : Program → Tally
  | nil => t
  | op _ next => next.tally t.instruction
  | loop body next => next.tally (body.tally (t.instruction.enter body.length)).leave

end TapeCompiler
