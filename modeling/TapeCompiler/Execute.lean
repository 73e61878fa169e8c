import TapeCompiler.Compile
import TapeCompiler.Machine.Interpret
import TapeCompiler.Wasm.Machine

/-!
Loading modules and running them. Every run starts from a fresh memory; the report shows the first
cells of it, as many as the module was loaded for. A run with a fuel limit is under a meter. A run
without one has no answer if the code never stops.
-/

namespace TapeCompiler

/-- Why a module cannot be loaded or run. -/
inductive LoadError where
  | engine
  | malformed
  | linking
  | instantiation
  | entry
  | noMemory
  | smallMemory (holds needs : Nat)
  | trapped
deriving DecidableEq, Repr

def LoadError.message : LoadError → String
  | engine => "Failed to create engine"
  | malformed => "Failed to compile module"
  | linking => "Failed to link module"
  | instantiation => "Failed to instantiate"
  | entry => "Failed to get entry function"
  | noMemory => s!"Module does not export '{Emit.memoryName}'"
  | smallMemory holds needs => s!"Module memory holds {holds} bytes, tape needs {needs}"
  | trapped => "Entry function failed"

/-- The stack needs some room. -/
def RuntimeSettings.check (r : RuntimeSettings) : Except LoadError Unit :=
  if r.maxWasmStack = 0 then .error .engine else .ok ()

/-- The function that an import asks for. -/
def Wasm.Module.host? (m : Wasm.Module) (i : Wasm.Import) : Option Wasm.Host :=
  let found (name : String) (type : Wasm.FuncType) : Bool :=
    i.space == Emit.importSpace && i.name == name && m.types[i.type]? == some type
  if found Emit.outputName Emit.sinkType then some .output
  else if found Emit.inputName Emit.sourceType then some .input
  else none

/-- A module with its imports resolved, for a tape of `memorySize` cells. -/
structure Loaded where
  code : Wasm.Module
  hosts : List Wasm.Host
  memorySize : UInt32
  settings : RuntimeSettings
deriving DecidableEq, Repr

def load (r : RuntimeSettings) (memorySize : UInt32) (bytes : List UInt8) :
    Except LoadError Loaded :=
  match Wasm.Module.accept? bytes with
  | none => .error .malformed
  | some m =>
    match m.imports.mapM m.host? with
    | none => .error .linking
    | some hosts => .ok ⟨m, hosts, memorySize, r⟩

namespace Loaded

/-- The memory before the first instruction; without one there is nothing to address. -/
def blankMemory (l : Loaded) : Array UInt8 :=
  match l.code.memories with
  | [] => #[]
  | limits :: _ => Array.replicate (limits.least * Wasm.pageSize) 0

/-- A store at the start of a function without parameters. -/
def store (b : Wasm.Body) (globals : List UInt32) (memory : Array UInt8)
    (streams : Wasm.Streams) : Wasm.Store where
  locals := List.replicate b.locals 0
  globals := globals
  memory := memory
  streams := streams

/-- A fresh instance: what the start function leaves, and the fuel that it leaves. -/
def instantiate (l : Loaded) (meter : Option Wasm.Meter) (fuel : Nat) (input : List UInt8) :
    Option (Except LoadError (Wasm.Store × Nat)) :=
  let fresh (b : Wasm.Body) : Wasm.Store :=
    store b (l.code.globals.map (·.value)) l.blankMemory (.ofInput input)
  match l.code.start with
  | none => some (.ok (fresh ⟨0, .done⟩, fuel))
  | some f =>
    match l.code.body? f with
    | none => some (.error .instantiation)
    | some b =>
      (b.call l.hosts meter fuel (fresh b)).map fun
        | .finished _ s spare => .ok (s, spare)
        | _ => .error .instantiation

/-- The exported entry function, which takes nothing and returns the pointer. -/
def entry? (l : Loaded) : Option Wasm.Body := do
  let e ← l.code.findExport? Emit.entryName
  if e.kind = .function ∧ l.code.functionType? e.index = some Emit.sourceType then
    l.code.body? e.index
  else none

def exportsMemory (l : Loaded) : Bool :=
  match l.code.findExport? Emit.memoryName with
  | some e => e.kind == .memory
  | none => false

/-- The checks between instantiation and the run; the memory has `memory` bytes. -/
def ready (l : Loaded) (memory : Nat) : Except LoadError Wasm.Body :=
  match l.entry? with
  | none => .error .entry
  | some b =>
    if !l.exportsMemory then .error .noMemory
    else if memory < l.memorySize.toNat then
      .error (.smallMemory memory l.memorySize.toNat)
    else .ok b

end Loaded

/-- How a run went, with what it reported. -/
structure Execution where
  result : Except Error Report
  events : List Event

namespace Loaded

def fuel (l : Loaded) : Option Nat := l.settings.maxFuel.map UInt64.toNat

/-- The meter for a run, and the fuel to begin with. Without a limit nothing is metered. -/
def metering (l : Loaded) (meter : Wasm.Meter) : Option Wasm.Meter × Nat :=
  match l.fuel with
  | none => (none, 0)
  | some fuel => (some meter, fuel)

/-- What is reported of the way the entry function stopped. -/
def conclude (l : Loaded) (input : List UInt8) : Wasm.Completion → Execution
  | .trapped _ => ⟨.error (.wasm LoadError.trapped.message), []⟩
  | .outOfFuel => ⟨.error (.exhausted "Out of fuel"), l.fuel.toList.map .ranOutOfFuel⟩
  | .finished vs s _ =>
    let pointer := vs.headD 0
    let consumed : List Event := if l.fuel.isSome then [.consumedFuel] else []
    ⟨.ok {
      pointer := pointer.toNat
      memory := s.memory.extract 0 l.memorySize.toNat
      output := s.streams.output
      timed := l.settings.recordTimings },
    consumed ++ [.finished pointer.toInt32.toInt s.streams.input.length,
      .executed input.length s.streams.output.size pointer.toNat]⟩

/-- Run once from a fresh memory. There is no answer if the run never stops. -/
def execute (l : Loaded) (meter : Wasm.Meter) (input : List UInt8) : Option Execution := do
  let failed (e : LoadError) : Execution := ⟨.error (.wasm e.message), []⟩
  let (meter, fuel) := l.metering meter
  match ← l.instantiate meter fuel input with
  | .error e => return failed e
  | .ok (s, spare) =>
    match l.ready s.memory.size with
    | .error e => return failed e
    | .ok b =>
      (b.call l.hosts meter spare (store b s.globals s.memory s.streams)).map (l.conclude input)

end Loaded

def RuntimeSettings.checked (r : RuntimeSettings) : Except Error Unit :=
  match r.check with
  | .ok () => .ok ()
  | .error e => .error (.wasm e.message)

def loaded (r : RuntimeSettings) (memorySize : UInt32) (bytes : List UInt8) :
    Except Error Loaded :=
  match load r memorySize bytes with
  | .ok l => .ok l
  | .error e => .error (.wasm e.message)

/-- A compiled source text, ready to run. -/
structure Runnable where
  artifact : Artifact
  loaded : Loaded

def build (r : RuntimeSettings) (c : CompilerSettings) (source : String) :
    Except Error Runnable := do
  r.checked
  let artifact ← compile c source
  let l ← loaded r c.memorySize artifact.emission.bytes
  return ⟨artifact, l⟩

end TapeCompiler
