import TapeCompiler.Program.Op
import TapeCompiler.Settings.Basic

/-!
The state of the tape machine and what a straight-line operation does to it. The tape is a ring:
the pointer and every offset from it wrap around.
-/

namespace TapeCompiler

structure State where
  tape : Array UInt8
  pointer : Nat
  input : List UInt8
  output : Array UInt8
deriving DecidableEq, Repr

namespace State

/-- A blank tape of `size` cells with the pointer on the first. -/
def initial (size : Nat) (input : List UInt8) : State :=
  ⟨Array.replicate size 0, 0, input, #[]⟩

/-- The cell at `offset` from the pointer. -/
def address (s : State) (offset : Int32) : Nat :=
  (((s.pointer : Int) + offset.toInt) % (s.tape.size : Int)).toNat

def read (s : State) (i : Nat) : UInt8 :=
  s.tape.getD i 0

/-- The cell that a loop tests. -/
def current (s : State) : UInt8 :=
  s.read s.pointer

def write (s : State) (i : Nat) (v : UInt8) : State :=
  { s with tape := s.tape.setIfInBounds i v }

def right (s : State) (count : Nat) : State :=
  { s with pointer := (s.pointer + count % s.tape.size) % s.tape.size }

def left (s : State) (count : Nat) : State :=
  { s with pointer := (s.pointer + s.tape.size - count % s.tape.size) % s.tape.size }

/-- Store the next byte of the input, or what `eof` says when there is none. -/
def receive (eof : EofPolicy) (s : State) (i : Nat) : State :=
  match s.input with
  | byte :: rest => { s with input := rest }.write i byte
  | [] =>
    match eof.fill? with
    | some fill => s.write i fill
    | none => s

end State

/-- Run one operation. -/
def Op.apply (eof : EofPolicy) (o : Op) (s : State) : State :=
  match o with
  | right count => s.right count.toNat
  | left count => s.left count.toNat
  | add amount offset =>
    let i := s.address offset
    s.write i (s.read i + amount.toUInt8)
  | sub amount offset =>
    let i := s.address offset
    s.write i (s.read i - amount.toUInt8)
  | mul dest factor source =>
    let i := s.address dest
    s.write i (s.read i + s.read (s.address source) * factor.toUInt32.toUInt8)
  | clear offset => s.write (s.address offset) 0
  | output offset => { s with output := s.output.push (s.read (s.address offset)) }
  | input offset => s.receive eof (s.address offset)

end TapeCompiler
