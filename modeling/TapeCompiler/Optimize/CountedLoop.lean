import TapeCompiler.Program.Basic

/-!
Counted loops. A loop whose body only moves the pointer and updates cells, brings the pointer back
and takes exactly one from the cell it started on, runs as many times as that cell says. Every
other cell it touches gains a multiple of it, so multiplications and one `clear` replace the loop.

Offsets wrap around the tape. Where a touched offset other than 0 is the counter again, the loop
does not count down by one and is left alone.
-/

namespace TapeCompiler

/-- Where the pointer stands and by how much each touched cell has changed, both relative to the
start; cells in ascending order. -/
structure Effect where
  position : Int
  changes : List (Int × Int)
deriving DecidableEq, Repr

namespace Effect

def start : Effect := ⟨0, []⟩

/-- Add `amount` to the entry of `cell`, which is made if there is none. -/
def bump (cell amount : Int) : List (Int × Int) → List (Int × Int)
  | [] => [(cell, amount)]
  | (k, d) :: rest =>
    if cell < k then (cell, amount) :: (k, d) :: rest
    else if cell = k then (k, d + amount) :: rest
    else (k, d) :: bump cell amount rest

def move (e : Effect) (distance : Int) : Effect :=
  { e with position := e.position + distance }

def update (e : Effect) (offset amount : Int) : Effect :=
  { e with changes := bump (e.position + offset) amount e.changes }

/-- The total change of `cell`. -/
def change (e : Effect) (cell : Int) : Int :=
  (e.changes.lookup cell).getD 0

/-- Running a body with this effect takes one from the cell it starts on, whatever else it does,
on a tape of `size` cells. With no cells there is nothing to wrap around. -/
def CountsDown (size : UInt32) (e : Effect) : Prop :=
  e.position = 0 ∧ e.change 0 = -1 ∧
    ∀ x ∈ e.changes, x.1 ≠ 0 → size ≠ 0 → x.1 % size.toNat ≠ 0

instance (size : UInt32) (e : Effect) : Decidable (e.CountsDown size) := by
  unfold CountsDown; infer_instance

end Effect

/-- The effect after `o`, if `o` is a move or an update. -/
def Op.effect? (o : Op) (e : Effect) : Option Effect :=
  match o with
  | right count => some (e.move count.toNat)
  | left count => some (e.move (-count.toNat))
  | add amount offset => some (e.update offset.toInt amount.toNat)
  | sub amount offset => some (e.update offset.toInt (-amount.toNat))
  | _ => none

/-- The destinations of a counted loop and their factors, by ascending offset. -/
abbrev Factors := List (Int32 × Int32)

namespace Factors

def ofChanges? : List (Int × Int) → Option Factors
  | [] => some []
  | (cell, change) :: rest =>
    if cell = 0 ∨ change = 0 then ofChanges? rest
    else do
      let offset ← Word.narrow? cell
      let factor ← Word.narrow? change
      let others ← ofChanges? rest
      return (offset, factor) :: others

/-- What replaces the loop. -/
def toOps (f : Factors) : List Op :=
  f.map (fun (offset, factor) => .mul offset factor 0) ++ [.clear 0]

end Factors

namespace Program

/-- The effect of running the program once from `e`, if it consists of moves and updates. -/
def effect? (e : Effect) : Program → Option Effect
  | nil => some e
  | op o next => (o.effect? e).bind next.effect?
  | loop _ _ => none

/-- Recognise the body of a counted loop on a tape of `size` cells. -/
def factors? (size : UInt32) (body : Program) : Option Factors :=
  match body.effect? .start with
  | none => none
  | some e => if e.CountsDown size then Factors.ofChanges? e.changes else none

/-- Replace every counted loop; inside other loops go on with the body. -/
def multiplyLoops (size : UInt32) : Program → Program
  | nil => nil
  | op o next => op o (next.multiplyLoops size)
  | loop body next =>
    match body.factors? size with
    | some f => prepend f.toOps (next.multiplyLoops size)
    | none => loop (body.multiplyLoops size) (next.multiplyLoops size)

/-- The loops that `multiplyLoops` replaces, in source order. -/
def countedLoops (size : UInt32) : Program → List Factors
  | nil => []
  | op _ next => next.countedLoops size
  | loop body next =>
    match body.factors? size with
    | some f => f :: next.countedLoops size
    | none => body.countedLoops size ++ next.countedLoops size

end Program
end TapeCompiler
