import TapeCompiler.CommandLine.Run

/-! The command itself: files are read, the work is done elsewhere, and the outcome is written. -/

namespace TapeCompiler.CommandLine

/-- A fault by its number, which may come with its sign changed. -/
def numbered (code : UInt32) (details : String) : FileFault :=
  let number := min code (0 - code)
  if number = 2 then .notFound
  else if number = 20 then .notDirectory
  else if number = 21 then .isDirectory
  else if number = 36 then .nameTooLong
  else .other s!"{details.capitalize} (os error {number})"

def fault : IO.Error → FileFault
  | .noFileOrDirectory _ code details => numbered code details
  | .inappropriateType _ code details => numbered code details
  | .invalidArgument _ code details => numbered code details
  | .permissionDenied _ code details => numbered code details
  | .resourceExhausted _ code details => numbered code details
  | .noSuchThing _ code details => numbered code details
  | .resourceBusy code details => numbered code details
  | .hardwareFault code details => numbered code details
  | .otherError code details => numbered code details
  | e => .other (toString e)

/-- Read the files that the options name. -/
def prefetch (o : Options) : IO Disk := do
  let paths := o.file :: (o.config.toList ++ o.inputFile.toList)
  let files ← paths.mapM fun (path : String) => do
    let content : Except FileFault (List UInt8) ←
      try pure (.ok (← IO.FS.readBinFile path).toList)
      catch e => pure (.error (fault e))
    return (path, content)
  return ⟨fun path => (files.lookup path).getD (.error .notFound), fun _ => .ok ()⟩

/-- What the fuel of a run is spent on. -/
def meter : Wasm.Meter := .standard

def stopwatch {α : Type} (work : Unit → α) : IO (α × Nat) := do
  let start ← IO.monoNanosNow
  let a ← IO.lazyPure work
  let stop ← IO.monoNanosNow
  return (a, stop - start)

/-- How long each phase of compiling and running takes. Phases that are not reached take none. -/
def measure (s : Settings) (source : String) (running : Option (List UInt8)) : IO Timings := do
  let c := s.compiler
  let (tree, parse) ← stopwatch fun _ => Tree.parse source
  match tree with
  | .error _ => return ⟨fun _ => 0⟩
  | .ok tree =>
    let (p, lower) ← stopwatch fun _ => Program.ofTree tree
    let passes := Pass.enabled c.passes
    let mut p := p
    let mut spent : List (Pass × Nat) := []
    for pass in passes do
      let before := p
      let (after, nanos) ← stopwatch fun _ => pass.run c.memorySize before
      p := after
      spent := (pass, nanos) :: spent
    let program := p
    let (emission, codegen) ← stopwatch fun _ => (program.toModule c).encode
    let (_, validate) ← stopwatch fun _ => (program.firstDefect?, (checkModule emission).toBool)
    let of (pass : Pass) : Nat := (spent.lookup pass).getD 0
    let mut last : Nat × Nat := (0, 0)
    if let some input := running then
      let (l, load) ← stopwatch fun _ => loaded s.runtime c.memorySize emission
      if let .ok l := l then
        let (_, execute) ← stopwatch fun _ => (l.execute meter input).any (·.result.toBool)
        last := (load, execute)
    let (load, execute) := last
    return ⟨fun
      | .parse => parse
      | .lower => lower
      | .contract => of .contract
      | .multiplyLoops => of .multiplyLoops
      | .coalesceOffsets => of .coalesceOffsets
      | .codegen => codegen
      | .validate => validate
      | .load => load
      | .instantiate => 0
      | .execute => execute⟩

/-- The durations that a timing report asks for. -/
def clock (o : Options) (d : Disk) : IO (Option Timings) := do
  if !o.timings then return none
  match o.settings d, d.readText o.file with
  | .ok s, .ok source =>
    let input := if o.mode = .run then (o.inputBytes d).toOption else none
    return some (← measure s source input)
  | _, _ => return none

/-- Write what a command leaves behind; a failed write is a failed command. -/
def conclude (e : Option Exit) : IO UInt32 := do
  -- Never missing: a command without an exit does not come here.
  let some e := e | return 1
  let stderr ← IO.getStderr
  if let some (path, bytes) := e.written then
    try
      IO.FS.withFile path .write fun file => do
        file.write ⟨bytes.toArray⟩
        file.flush
    catch err =>
      stderr.putStr (Failure.render ⟨s!"Failed to write {path}", [(fault err).message]⟩)
      return 1
  let stdout ← IO.getStdout
  stdout.write ⟨e.stdout.toArray⟩
  stdout.flush
  stderr.putStr e.stderr
  return e.code.toUInt32

end TapeCompiler.CommandLine

open TapeCompiler.CommandLine in
def main (args : List String) : IO UInt32 := do
  match Options.parse args with
  | .error _ => conclude (run meter args ⟨fun _ => .error .notFound, fun _ => .ok ()⟩ none)
  | .ok o =>
    let d ← prefetch o
    conclude (run meter args d (← clock o d))
