import TapeCompiler.Program.Op
import TapeCompiler.Source.Tree

/-!
Programs: sequences of operations and loops. As in `Tree`, each constructor carries the rest of
its sequence.
-/

namespace TapeCompiler

inductive Program where
  | nil
  | op (o : Op) (next : Program)
  | loop (body next : Program)
deriving DecidableEq, Repr

namespace Program

def append : Program → Program → Program
  | nil, q => q
  | op o next, q => op o (next.append q)
  | loop body next, q => loop body (next.append q)

instance : Append Program := ⟨append⟩

/-- Put straight-line operations in front of a program. -/
def prepend (ops : List Op) (p : Program) : Program :=
  ops.foldr op p

def ofOps (ops : List Op) : Program :=
  prepend ops nil

/-- Instructions at the top level. -/
def length : Program → Nat
  | nil => 0
  | op _ next => next.length + 1
  | loop _ next => next.length + 1

def isEmpty : Program → Bool
  | nil => true
  | _ => false

/-- Instructions at every depth; a loop counts itself. -/
def count : Program → Nat
  | nil => 0
  | op _ next => 1 + next.count
  | loop body next => 1 + body.count + next.count

/-- The deepest nesting of loops. -/
def depth : Program → Nat
  | nil => 0
  | op _ next => next.depth
  | loop body next => max (body.depth + 1) next.depth

/-- One operation for each command of a tree. -/
def ofTree : Tree → Program
  | .nil => nil
  | .command c _ next => op (ofCommand c) (ofTree next)
  | .loop _ body next => loop (ofTree body) (ofTree next)
where
  ofCommand : Command → Op
    | .right => .right 1
    | .left => .left 1
    | .increment => .add 1 0
    | .decrement => .sub 1 0
    | .output => .output 0
    | .input => .input 0

end Program

/-- A single instruction of a program. -/
inductive Instr where
  | op (o : Op)
  | loop (body : Program)
deriving DecidableEq, Repr

namespace Instr

def toProgram : Instr → Program
  | op o => .op o .nil
  | loop body => .loop body .nil

def count (i : Instr) : Nat := i.toProgram.count

def depth (i : Instr) : Nat := i.toProgram.depth

def retarget (offset : Int32) : Instr → Instr
  | op o => op (o.retarget offset)
  | loop body => loop body

def shift? (delta : Int32) : Instr → Option Instr
  | op o => (o.shift? delta).map op
  | loop body => some (loop body)

def render : Instr → String
  | op o => o.render
  | loop body => s!"loop ({body.length} instructions)"

end Instr
end TapeCompiler
