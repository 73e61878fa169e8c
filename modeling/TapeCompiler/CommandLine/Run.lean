import TapeCompiler.CommandLine.Failure
import TapeCompiler.CommandLine.Files
import TapeCompiler.CommandLine.Options
import TapeCompiler.Execute
import TapeCompiler.Program.Listing
import TapeCompiler.Settings.Json

/-!
What the command does with its arguments and files: settings first, then the source, then what the
mode asks for.
-/

namespace TapeCompiler.CommandLine

/-- What the command writes, and what it says on the terminal once that was written. -/
structure Product where
  payload : List UInt8
  notes : String := ""
deriving DecidableEq, Repr

def attempt {α : Type} : Except Error α → Except Failure α
  | .ok a => .ok a
  | .error e => .error (.ofError e)

/-- Access to a file while doing something. -/
def access {α : Type} (doing : String) : Except FileFault α → Except Failure α
  | .ok a => .ok a
  | .error e => .error ⟨doing, [e.message]⟩

def settingsFile (d : Disk) (path : String) : Except Error Settings :=
  match d.readText path with
  | .error e => .error (.file e.message)
  | .ok text => Settings.ofJson text

namespace Options

def override (o : Options) (s : Settings) : Settings where
  compiler :=
    { memorySize := o.memorySize.getD s.compiler.memorySize
      eof := o.eof.getD s.compiler.eof
      passes := if o.noOptimize then .none else s.compiler.passes }
  runtime :=
    { s.runtime with
      maxFuel := if o.fuel.isSome then o.fuel else s.runtime.maxFuel
      recordTimings := s.runtime.recordTimings || o.timings }

/-- The settings of the configuration file with those of the arguments over them. -/
def settings (o : Options) (d : Disk) : Except Failure Settings := do
  let base ← match o.config with
    | none => .ok {}
    | some path =>
      match settingsFile d path with
      | .ok s => .ok s
      | .error e => .error ((Failure.ofError e).during s!"Failed to load config {path}")
  let s := o.override base
  attempt s.compiler.checked
  return s

def inputBytes (o : Options) (d : Disk) : Except Failure (List UInt8) :=
  match o.input, o.inputFile with
  | some text, _ => .ok (Utf8.encode text)
  | none, some path => access s!"Failed to read input {path}" (d.read path)
  | none, none => .ok []

end Options

def padLeft (width : Nat) (s : String) : String :=
  String.ofList (List.replicate (width - s.length) ' ') ++ s

/-- A duration in the largest unit that leaves it at least one. -/
def duration (nanos : Nat) : String :=
  let (unit, name) :=
    if nanos ≥ 1000000000 then (1000000000, "s")
    else if nanos ≥ 1000000 then (1000000, "ms")
    else if nanos ≥ 1000 then (1000, "µs")
    else (1, "ns")
  let places := (Nat.toDigits 10 (unit + nanos % unit)).drop 1
  let places := (places.reverse.dropWhile (· = '0')).reverse
  let fraction := if places.isEmpty ∨ unit = 1 then "" else "." ++ String.ofList places
  s!"{nanos / unit}{fraction}{name}"

/-- One line for each phase and one for the total. Without durations only the names are given. -/
def timingLines (t : Option Timings) : List String :=
  let line (name : String) (nanos : Option Nat) : String :=
    padLeft 18 name ++ ":" ++ (nanos.map fun n => " " ++ duration n).getD ""
  Phase.all.map (fun p => line p.label (t.map (·.nanos p))) ++ [line "total" (t.map (·.total))]

/-- Cells in rows of sixteen. -/
def cellRows : (fuel start : Nat) → List UInt8 → List String
  | 0, _, _ => []
  | _ + 1, _, [] => []
  | fuel + 1, start, cells =>
    let row := " ".intercalate ((cells.take 16).map fun c => padLeft 3 (toString c.toNat))
    s!"{padLeft 6 (toString start)}: {row}" :: cellRows fuel (start + 16) (cells.drop 16)

/-- The pointer and the first `count` cells. -/
def memoryLines (r : Report) (count : Nat) : List String :=
  let cells := (r.memory.extract 0 count).toList
  s!"pointer: {r.pointer}" :: cellRows cells.length 0 cells

def unlines (lines : List String) : String :=
  String.join (lines.map (· ++ "\n"))

/-- Everything up to writing the result, unless a program that is run never stops. -/
def produce (meter : Wasm.Meter) (o : Options) (d : Disk) (t : Option Timings) :
    ExceptT Failure Option Product := do
  let s ← o.settings d
  let source ← access s!"Failed to read {o.file}" (d.readText o.file)
  let times := if o.timings then timingLines t else []
  match o.mode with
  | .run =>
    let input ← o.inputBytes d
    let program ← attempt (build s.runtime s.compiler source)
    let execution ← program.loaded.execute meter input
    let report ← attempt execution.result
    let cells := match o.dumpMemory with
      | none => []
      | some count => memoryLines report count
    return ⟨report.output.toList, unlines (cells ++ times)⟩
  | .ir =>
    let a ← attempt (compile s.compiler source)
    return ⟨Utf8.encode a.program.listing, unlines times⟩
  | .tree =>
    let a ← attempt (compile s.compiler source)
    return ⟨Utf8.encode (a.tree.render ++ "\n"), unlines times⟩
  | .wasm =>
    let a ← attempt (compile s.compiler source)
    return ⟨a.emission.bytes, unlines times⟩

/-- What the outside world sees of a command. -/
structure Exit where
  code : UInt8
  stdout : List UInt8 := []
  stderr : String := ""
  written : Option (String × List UInt8) := none
deriving DecidableEq, Repr

def usage : String := unlines
  ["Usage: tapec [OPTIONS] <FILE>",
   "",
   "  -i, --input <TEXT>        Input bytes for the program",
   "      --input-file <PATH>   Read input bytes from a file",
   "  -m, --memory-size <N>     Number of cells in the memory tape",
   "      --eof <POLICY>        At the end of the input: unchanged, zero, all-ones",
   "      --no-optimize         Skip every optimization pass",
   "      --emit <FORM>         run, ir, wasm or tree [default: run]",
   "  -o, --output <PATH>       Write the result here instead of to standard output",
   "  -c, --config <PATH>       JSON configuration file; options override it",
   "      --fuel <N>            Stop execution after this much fuel",
   "      --timings             Print the time of each phase",
   "      --dump-memory <N>     Print the first N memory cells after running",
   "  -h, --help                Print this help"]

/-- Write the result, to a file if one is named. -/
def deliver (o : Options) (d : Disk) (p : Product) : Except Failure Exit := do
  match o.output with
  | none => return { code := 0, stdout := p.payload, stderr := p.notes }
  | some path =>
    access s!"Failed to write {path}" (d.canWrite path)
    return { code := 0, stderr := p.notes, written := some (path, p.payload) }

/-- The whole command. There is no exit from a program that never stops. -/
def run (meter : Wasm.Meter) (args : List String) (d : Disk) (t : Option Timings) : Option Exit :=
  match Options.parse args with
  | .error .help => some { code := 0, stdout := Utf8.encode usage }
  | .error r => some { code := 2, stderr := s!"error: {r.message}\n\n{usage}" }
  | .ok o =>
    (produce meter o d t).run.map fun made =>
      match made >>= deliver o d with
      | .ok e => e
      | .error f => { code := 1, stderr := f.render }

end TapeCompiler.CommandLine
