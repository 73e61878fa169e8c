import TapeCompiler.Error
import TapeCompiler.Json.Record
import TapeCompiler.Json.Value
import TapeCompiler.Settings.Basic

/-! Settings as JSON text. -/

namespace TapeCompiler

open Json (Field Shape Reader)

namespace Settings

def memorySize : Reader UInt32 := fun cs => do
  let (n, cs) ← Json.natural 4294967295 "u32" cs
  return (.ofNat n, cs)

def long (expected : String) : Reader UInt64 := fun cs => do
  let (n, cs) ← Json.natural 18446744073709551615 expected cs
  return (.ofNat n, cs)

def eofPolicy : Reader EofPolicy :=
  Json.choice (EofPolicy.all.map fun e => (e.name, e))

/-- Either no passes are given or all of them. -/
def passShape : Shape PassSet where
  name := "struct PassConfig"
  initial := {}
  complete := true
  fields :=
    [.ofReader "contract" Json.boolean fun s b => { s with contract := b },
     .ofReader "multiply_loops" Json.boolean fun s b => { s with multiplyLoops := b },
     .ofReader "coalesce_offsets" Json.boolean fun s b => { s with coalesceOffsets := b }]

def compilerShape : Shape CompilerSettings where
  name := "struct CompilerConfig"
  initial := {}
  fields :=
    [.ofReader "memory_size" memorySize fun s n => { s with memorySize := n },
     .ofReader "eof_behavior" eofPolicy fun s e => { s with eof := e },
     .ofReader "passes" passShape.read fun s p => { s with passes := p }]

def runtimeShape : Shape RuntimeSettings where
  name := "struct RuntimeConfig"
  initial := {}
  fields :=
    [.ofReader "max_fuel" (Json.optional (long "u64")) fun s n => { s with maxFuel := n },
     .ofReader "max_wasm_stack" (long "usize") fun s n => { s with maxWasmStack := n },
     .ofReader "record_timings" Json.boolean fun s b => { s with recordTimings := b }]

def shape : Shape Settings where
  name := "struct Config"
  initial := {}
  fields :=
    [.ofReader "compiler" compilerShape.read fun s c => { s with compiler := c },
     .ofReader "runtime" runtimeShape.read fun s r => { s with runtime := r }]

/-- Read a configuration. The tape size is checked after the whole text was read. -/
def ofJson (text : String) : Except Error Settings :=
  match Json.readAll shape.read text with
  | .error e => .error (.encoding e.message)
  | .ok s =>
    match s.compiler.check with
    | .error e => .error (.settings e.message)
    | .ok () => .ok s

end Settings

def PassSet.toJson (p : PassSet) : Json :=
  .obj [("contract", .bool p.contract), ("multiply_loops", .bool p.multiplyLoops),
    ("coalesce_offsets", .bool p.coalesceOffsets)]

def CompilerSettings.toJson (c : CompilerSettings) : Json :=
  .obj [("memory_size", .num c.memorySize.toNat), ("eof_behavior", .str c.eof.name),
    ("passes", c.passes.toJson)]

def RuntimeSettings.toJson (r : RuntimeSettings) : Json :=
  let maxFuel : Json :=
    match r.maxFuel with
    | none => .null
    | some n => .num n.toNat
  .obj [("max_fuel", maxFuel), ("max_wasm_stack", .num r.maxWasmStack.toNat),
    ("record_timings", .bool r.recordTimings)]

def Settings.toJson (s : Settings) : Json :=
  .obj [("compiler", s.compiler.toJson), ("runtime", s.runtime.toJson)]

end TapeCompiler
