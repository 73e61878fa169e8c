import TapeCompiler.Wasm.Module
import TapeCompiler.Wasm.Streams

/-!
Running a function body, one instruction after another. Entering a block, loop or conditional pushes
a label that says where a branch to it goes on and where the end of its body goes on. A run can be
cut off after a number of steps, or it goes on to its end. What fuel is worth is not decided here: a
meter, if there is one, is asked at every instruction and at every end of a body.
-/

namespace TapeCompiler.Wasm

/-- The functions that the outside world offers to a module. -/
inductive Host where
  | output
  | input
deriving DecidableEq, Repr

/-- All that instructions work on besides the operand stack. -/
structure Store where
  locals : List UInt32
  globals : List UInt32
  memory : Array UInt8
  streams : Streams
deriving DecidableEq, Repr

/-- The operand stack, topmost first. -/
abbrev Stack := List UInt32

inductive Trap where
  | unreachable
  | outOfBounds
  | divisionByZero
  /-- The instruction does not find what it needs; validation excludes this. -/
  | illFormed
deriving DecidableEq, Repr

abbrev Effects := Except Trap (Stack × Store)

@[inline]
def Host.call (h : Host) (vs : Stack) (s : Store) : Effects :=
  match h, vs with
  | .output, v :: vs => .ok (vs, { s with streams := s.streams.write v.toUInt8 })
  | .output, [] => .error .illFormed
  | .input, vs =>
    let (v, streams) := s.streams.read
    .ok (v :: vs, { s with streams := streams })

namespace Instr

/-- The byte address of an access. -/
@[inline]
def effective (base offset : UInt32) : Nat :=
  base.toNat + offset.toNat

def truth (b : Bool) : UInt32 := if b then 1 else 0

/-- Replace the two topmost operands by one. -/
@[inline]
def binary (vs : Stack) (s : Store) (f : UInt32 → UInt32 → UInt32) : Effects :=
  match vs with
  | b :: a :: vs => .ok (f a b :: vs, s)
  | _ => .error .illFormed

/-- Run one instruction. -/
@[inline]
def perform (hosts : List Host) (i : Instr) (vs : Stack) (s : Store) : Effects :=
  match i with
  | unreachable => .error .unreachable
  | call function =>
    match hosts[function]? with
    | some h => h.call vs s
    | none => .error .illFormed
  | localGet index =>
    match s.locals[index]? with
    | some v => .ok (v :: vs, s)
    | none => .error .illFormed
  | localSet index =>
    match vs with
    | v :: vs => .ok (vs, { s with locals := s.locals.set index v })
    | [] => .error .illFormed
  | localTee index =>
    match vs with
    | v :: vs => .ok (v :: vs, { s with locals := s.locals.set index v })
    | [] => .error .illFormed
  | globalGet index =>
    match s.globals[index]? with
    | some v => .ok (v :: vs, s)
    | none => .error .illFormed
  | globalSet index =>
    match vs with
    | v :: vs => .ok (vs, { s with globals := s.globals.set index v })
    | [] => .error .illFormed
  | load8 offset =>
    match vs with
    | base :: vs =>
      match s.memory[effective base offset]? with
      | some v => .ok (v.toUInt32 :: vs, s)
      | none => .error .outOfBounds
    | [] => .error .illFormed
  | store8 offset =>
    match vs with
    | v :: base :: vs =>
      let i := effective base offset
      if i < s.memory.size then
        .ok (vs, { s with memory := s.memory.setIfInBounds i v.toUInt8 })
      else .error .outOfBounds
    | _ => .error .illFormed
  | const value => .ok (value :: vs, s)
  | eqz =>
    match vs with
    | v :: vs => .ok (truth (v = 0) :: vs, s)
    | [] => .error .illFormed
  | geS => binary vs s fun a b => truth (a.toInt32 ≥ b.toInt32)
  | add => binary vs s (· + ·)
  | sub => binary vs s (· - ·)
  | mul => binary vs s (· * ·)
  | remU =>
    match vs with
    | b :: a :: vs => if b = 0 then .error .divisionByZero else .ok (a % b :: vs, s)
    | _ => .error .illFormed

end Instr

structure Label where
  /-- Where a branch to the label goes on. -/
  target : Code
  /-- Where the end of the body goes on. -/
  follow : Code
  /-- The operands at the entry, which a branch restores. -/
  stack : Stack
deriving DecidableEq, Repr

inductive Completion where
  /-- The end was reached with `spare` of the fuel unused. -/
  | finished (stack : Stack) (store : Store) (spare : Nat)
  | trapped (t : Trap)
  | outOfFuel
deriving DecidableEq, Repr

namespace Code

/-- Where a branch leads; beyond all labels lies the end of the function. -/
@[inline]
def branch (label : Nat) (labels : List Label) (vs : Stack) : Code × List Label × Stack :=
  match labels.drop label with
  | l :: outer => (l.target, outer, l.stack)
  | [] => (done, [], vs)

/-- Where a run goes on, or how it stops. -/
inductive Next where
  | on (code : Code) (labels : List Label) (stack : Stack) (store : Store)
  | finished (stack : Stack) (store : Store)
  | trapped (t : Trap)
deriving DecidableEq, Repr

/-- Run one instruction, or leave a body at its end. -/
@[inline]
def step (hosts : List Host) (code : Code) (labels : List Label) (vs : Stack) (s : Store) : Next :=
  match code, vs with
  | done, vs =>
    match labels with
    | [] => .finished vs s
    | l :: outer => .on l.follow outer vs s
  | plain i next, vs =>
    match i.perform hosts vs s with
    | .ok (vs, s) => .on next labels vs s
    | .error t => .trapped t
  | br label _, vs =>
    let (target, outer, vs) := branch label labels vs
    .on target outer vs s
  | brIf label next, v :: vs =>
    if v = 0 then .on next labels vs s
    else
      let (target, outer, vs) := branch label labels vs
      .on target outer vs s
  | block body next, vs => .on body (⟨next, next, vs⟩ :: labels) vs s
  | loop body next, vs => .on body (⟨loop body next, next, vs⟩ :: labels) vs s
  | ifThen body next, v :: vs =>
    if v = 0 then .on next labels vs s
    else .on body (⟨next, next, vs⟩ :: labels) vs s
  | ifElse yes no next, v :: vs =>
    .on (if v = 0 then no else yes) (⟨next, next, vs⟩ :: labels) vs s
  | brIf _ _, [] => .trapped .illFormed
  | ifThen _ _, [] => .trapped .illFormed
  | ifElse _ _ _, [] => .trapped .illFormed

/-- Run for at most `fuel` steps. -/
def run (hosts : List Host) : (fuel : Nat) → Code → List Label → Stack → Store → Completion
  | 0, _, _, _, _ => .outOfFuel
  | fuel + 1, code, labels, vs, s =>
    match code.step hosts labels vs s with
    | .on code labels vs s => run hosts fuel code labels vs s
    | .finished vs s => .finished vs s fuel
    | .trapped t => .trapped t

end Code

/-- How a run pays with its fuel. Each price takes what is left and gives what is left then, or
nothing if the run is to stop there. -/
structure Meter where
  /-- The price of entering a function. -/
  enter : (left : Nat) → Option Nat
  /-- The price of the instruction, or the end of a body, that the code starts with. -/
  charge : Code → (left : Nat) → Option Nat

namespace Meter

/-- One unit for a function and one for each instruction, but none for blocks, loops, ends and
`unreachable`. If nothing is left, the run stops at the next function or loop. -/
def standard : Meter where
  enter left := if left ≤ 1 then none else some (left - 1)
  charge
    | .loop _ _, left => if left = 0 then none else some left
    | .done, left => some left
    | .block _ _, left => some left
    | .plain .unreachable _, left => some left
    | _, left => some (left - 1)

/-- The price of a function. Without a meter everything is free. -/
def entering (meter : Option Meter) (left : Nat) : Option Nat :=
  match meter with
  | none => some left
  | some m => m.enter left

/-- The price of what the code starts with. -/
@[inline]
def charging (meter : Option Meter) (code : Code) (left : Nat) : Option Nat :=
  match meter with
  | none => some left
  | some m => m.charge code left

end Meter

/-- Run as far as the meter allows. There is no answer if the run never stops. -/
def Code.runToEnd (hosts : List Host) (meter : Option Meter) (left : Nat) (code : Code)
    (labels : List Label) (vs : Stack) (s : Store) : Option Completion :=
  match Meter.charging meter code left with
  | none => some .outOfFuel
  | some left =>
    match code.step hosts labels vs s with
    | .on code labels vs s => code |>.runToEnd hosts meter left labels vs s
    | .finished vs s => some (.finished vs s left)
    | .trapped t => some (.trapped t)
partial_fixpoint

/-- Run a function from its start. -/
def Body.call (hosts : List Host) (meter : Option Meter) (fuel : Nat) (b : Body) (s : Store) :
    Option Completion :=
  match Meter.entering meter fuel with
  | none => some .outOfFuel
  | some left => b.code.runToEnd hosts meter left [] [] s

end TapeCompiler.Wasm
