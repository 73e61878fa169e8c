import TapeCompiler.Program.Basic

/-!
Contraction: neighbouring moves in one direction, and neighbouring updates of one cell in one
direction, become a single operation. Nothing is merged across a loop.
-/

namespace TapeCompiler

/-- One operation in place of `earlier` followed by `later`, unless the counts do not fit. -/
def Op.merge? (earlier later : Op) : Option Op :=
  match earlier, later with
  | right m, right n => (Word.sum? m n).map right
  | left m, left n => (Word.sum? m n).map left
  | add m a, add n b => if a = b then (Word.sum? m n).map (add · a) else none
  | sub m a, sub n b => if a = b then (Word.sum? m n).map (sub · a) else none
  | _, _ => none

namespace Program

/-- Contract what follows the operation `held`, which may still grow. -/
def contractFrom : Option Op → Program → Program
  | none, nil => nil
  | some held, nil => op held nil
  | none, op o next => contractFrom (some o) next
  | some held, op o next =>
    match held.merge? o with
    | some merged => contractFrom (some merged) next
    | none => op held (contractFrom (some o) next)
  | none, loop body next => loop (contractFrom none body) (contractFrom none next)
  | some held, loop body next =>
    op held (loop (contractFrom none body) (contractFrom none next))

def contract (p : Program) : Program :=
  contractFrom none p

end Program
end TapeCompiler
