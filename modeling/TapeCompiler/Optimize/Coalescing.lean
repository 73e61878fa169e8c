import TapeCompiler.Program.Basic

/-!
Coalescing: pointer moves are carried along as a pending motion and added to the offsets of the
operations they pass. The motion is written out before a loop and at the end of a block, so that a
loop tests the right cell, and wherever a motion or an offset would leave its range.
-/

namespace TapeCompiler

namespace Op

/-- A single move by `distance`. -/
def motion (distance : Int) : Op :=
  if distance > 0 then right (.ofNat distance.natAbs) else left (.ofNat distance.natAbs)

/-- The distance of a move. -/
def distance? : Op → Option Int
  | right count => some count.toNat
  | left count => some (-count.toNat)
  | _ => none

end Op

namespace Program

/-- Write out a pending motion. -/
def flush (pending : Int32) (next : Program) : Program :=
  if pending = 0 then next else op (.motion pending.toInt) next

def coalesceFrom (pending : Int32) : Program → Program
  | nil => flush pending nil
  | op o next =>
    match o.distance? with
    | some distance =>
      match Word.narrow? (pending.toInt + distance) with
      | some sum => coalesceFrom sum next
      | none =>
        flush pending <|
          match Word.narrow? distance with
          | some restart => coalesceFrom restart next
          | none => op (.motion distance) (coalesceFrom 0 next)
    | none =>
      match o.shift? pending with
      | some shifted => op shifted (coalesceFrom pending next)
      | none => flush pending (op o (coalesceFrom 0 next))
  | loop body next => flush pending (loop (coalesceFrom 0 body) (coalesceFrom 0 next))

def coalesce (p : Program) : Program :=
  coalesceFrom 0 p

end Program
end TapeCompiler
