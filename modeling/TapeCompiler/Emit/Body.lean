import TapeCompiler.Program.Basic
import TapeCompiler.Settings.Basic
import TapeCompiler.Wasm.Code

/-!
Code for programs. The pointer lives in a global; every cell is addressed relative to it, modulo
the size of the tape, in 32-bit arithmetic. Offsets are brought below the size beforehand, so that
for sizes up to 2^31 no sum overflows.
-/

namespace TapeCompiler

open Wasm (Code)

namespace Emit

def outputFunction : Nat := 0
def inputFunction : Nat := 1
def entryFunction : Nat := 2

def pointerGlobal : Nat := 0

def addressLocal : Nat := 0
def inputLocal : Nat := 1

/-- Push the pointer plus `delta`, modulo the size; `delta` is below the size. -/
def wrapped (size delta : UInt32) : List Wasm.Instr :=
  if delta = 0 then [.globalGet pointerGlobal]
  else [.globalGet pointerGlobal, .const delta, .add, .const size, .remU]

/-- An offset as a distance to the right below the size. -/
def delta (size : UInt32) (offset : Int32) : UInt32 :=
  .ofNat (offset.toInt % (size.toNat : Int)).toNat

/-- Push the address of the cell at `offset`. -/
def address (size : UInt32) (offset : Int32) : List Wasm.Instr :=
  wrapped size (delta size offset)

def loadCell (size : UInt32) (offset : Int32) : List Wasm.Instr :=
  address size offset ++ [.load8 0]

/-- Move the pointer by `delta` to the right. -/
def movePointer (size delta : UInt32) : List Wasm.Instr :=
  if delta = 0 then [] else wrapped size delta ++ [.globalSet pointerGlobal]

/-- Push the address and the value of a cell. -/
def openCell (size : UInt32) (offset : Int32) : List Wasm.Instr :=
  address size offset ++ [.localTee addressLocal, .localGet addressLocal, .load8 0]

def storeConst (size : UInt32) (offset : Int32) (value : UInt8) : List Wasm.Instr :=
  address size offset ++ [.const value.toUInt32, .store8 0]

/-- Store the byte that was read. -/
def storeInput (size : UInt32) (offset : Int32) : List Wasm.Instr :=
  address size offset ++ [.localGet inputLocal, .store8 0]

end Emit

open Emit

/-- The code for an operation, followed by `next`. -/
def Op.code (size : UInt32) (eof : EofPolicy) (o : Op) (next : Code) : Code :=
  match o with
  | right count => .prepend (movePointer size (count % size)) next
  | left count => .prepend (movePointer size ((size - count % size) % size)) next
  | add amount offset =>
    .prepend (openCell size offset ++ [.const (amount % 256), .add, .store8 0]) next
  | sub amount offset =>
    .prepend (openCell size offset ++ [.const (amount % 256), .sub, .store8 0]) next
  | mul dest factor source =>
    .prepend (openCell size dest ++ loadCell size source ++
      [.const factor.toUInt32, .mul, .add, .store8 0]) next
  | clear offset => .prepend (storeConst size offset 0) next
  | output offset => .prepend (loadCell size offset ++ [.call outputFunction]) next
  | input offset =>
    .prepend [.call inputFunction, .localSet inputLocal, .localGet inputLocal, .const 0, .geS] <|
      let store := Code.prepend (storeInput size offset) .done
      match eof.fill? with
      | none => .ifThen store next
      | some fill => .ifElse store (.prepend (storeConst size offset fill) .done) next

/-- The code for a program, followed by `next`. A loop is a Wasm loop around a block: the test
leaves the block, and the end of the body goes back to the loop. -/
def Program.code (size : UInt32) (eof : EofPolicy) : Program → Code → Code
  | nil, next => next
  | op o rest, next => o.code size eof (rest.code size eof next)
  | loop body rest, next =>
    let test (inside : Code) : Code := .prepend (loadCell size 0 ++ [.eqz]) (.brIf 0 inside)
    .loop (.block (test (body.code size eof (.br 1 .done))) .done) (rest.code size eof next)

end TapeCompiler
