/-!
Function bodies of the fragment of WebAssembly that tape programs need: 32-bit integers, byte
loads and stores, structured control without operands, and calls of imported functions.

Control structures carry the code that follows them, so that one induction covers a sequence and
everything nested in it.
-/

namespace TapeCompiler.Wasm

/-- Straight-line instructions. -/
inductive Instr where
  | unreachable
  | call (function : Nat)
  | localGet (index : Nat)
  | localSet (index : Nat)
  | localTee (index : Nat)
  | globalGet (index : Nat)
  | globalSet (index : Nat)
  /-- Load one byte as an unsigned number. -/
  | load8 (offset : UInt32)
  /-- Store the lowest byte. -/
  | store8 (offset : UInt32)
  | const (value : UInt32)
  | eqz
  /-- Greater or equal, as signed numbers. -/
  | geS
  | add
  | sub
  | mul
  /-- The remainder of unsigned division. -/
  | remU
deriving DecidableEq, Repr

/-- A branch names an enclosing block, loop or conditional by its distance, the innermost being 0.
A branch to a loop starts it again, any other leaves the construct. -/
inductive Code where
  | done
  | plain (i : Instr) (next : Code)
  | br (label : Nat) (next : Code)
  | brIf (label : Nat) (next : Code)
  | block (body next : Code)
  | loop (body next : Code)
  | ifThen (body next : Code)
  | ifElse (yes no next : Code)
deriving DecidableEq, Repr

/-- Put straight-line instructions in front of code. -/
def Code.prepend (is : List Instr) (next : Code) : Code :=
  is.foldr .plain next

end TapeCompiler.Wasm
