import TapeCompiler.Emit.Body
import TapeCompiler.Emit.Stats
import TapeCompiler.Error
import TapeCompiler.Event
import TapeCompiler.Wasm.Accept

/-!
Modules for programs. A module imports its two I/O functions, keeps the tape in the memory that it
exports and the pointer in a global, and exports one function that runs the program and returns
the pointer.
-/

namespace TapeCompiler

namespace Emit

def importSpace : String := "imports"
def outputName : String := "output"
def inputName : String := "input"
def entryName : String := "execute"
def memoryName : String := "memory"

/-- The type of the output function, with index 0 among the types. -/
def sinkType : Wasm.FuncType := ⟨1, 0⟩

/-- The type of the input function and of the entry, with index 1. -/
def sourceType : Wasm.FuncType := ⟨0, 1⟩

end Emit

open Emit

/-- The pages that hold the tape. -/
def CompilerSettings.pages (c : CompilerSettings) : Nat :=
  (c.memorySize.toNat + (Wasm.pageSize - 1)) / Wasm.pageSize

namespace Program

/-- The body of the entry function. -/
def body (c : CompilerSettings) (p : Program) : Wasm.Body where
  locals := 2
  code := p.code c.memorySize c.eof (.plain (.globalGet pointerGlobal) .done)

def toModule (c : CompilerSettings) (p : Program) : Wasm.Module where
  types := [sinkType, sourceType]
  imports := [⟨importSpace, outputName, 0⟩, ⟨importSpace, inputName, 1⟩]
  functions := [1]
  memories := [⟨c.pages, some c.pages⟩]
  globals := [⟨true, 0⟩]
  exports := [⟨entryName, .function, entryFunction⟩, ⟨memoryName, .memory, 0⟩]
  bodies := [p.body c]

end Program

/-- A module in binary form and what was counted on the way. -/
structure Emission where
  bytes : List UInt8
  stats : Stats
  notes : List LoopNote
deriving DecidableEq, Repr

def Emission.events (c : CompilerSettings) (e : Emission) : List Event :=
  e.notes.map (fun n => .emittingLoop n.id.toNat n.depth.toNat n.length) ++
    [.emitted e.bytes.length e.stats.loops.toNat e.stats.maxLoopDepth.toNat c.pages]

namespace Program

def emit (c : CompilerSettings) (p : Program) : Except SizeError Emission :=
  match c.check with
  | .error e => .error e
  | .ok () =>
    let t := p.tally {}
    .ok ⟨(p.toModule c).encode, t.stats, t.notes.reverse⟩

end Program

def invalidModule : Error := .internal "generated module failed validation"

/-- Check that bytes are a valid module. -/
def checkModule (bytes : List UInt8) : Except Error Unit :=
  match Wasm.Module.accept? bytes with
  | some _ => .ok ()
  | none => .error invalidModule

end TapeCompiler
