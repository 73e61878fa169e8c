import TapeCompiler.Settings.Basic

/-!
The arguments of the command. An option takes its value from the next argument or behind an equals
sign; a short option also from the characters behind it. A value that starts with a dash has to be
attached. No option may be given twice.
-/

namespace TapeCompiler.CommandLine

/-- Run the program, or write one of its compiled forms. -/
inductive Mode where
  | run
  | ir
  | wasm
  | tree
deriving DecidableEq, Repr

namespace Mode

def name : Mode → String
  | run => "run"
  | ir => "ir"
  | wasm => "wasm"
  | tree => "tree"

def ofName? (s : String) : Option Mode :=
  [run, ir, wasm, tree].find? (·.name = s)

end Mode

inductive Key where
  | input
  | inputFile
  | memorySize
  | eof
  | noOptimize
  | emit
  | output
  | config
  | fuel
  | timings
  | dumpMemory
  | help
deriving DecidableEq, Repr

namespace Key

def all : List Key :=
  [input, inputFile, memorySize, eof, noOptimize, emit, output, config, fuel, timings, dumpMemory,
    help]

def long : Key → String
  | input => "input"
  | inputFile => "input-file"
  | memorySize => "memory-size"
  | eof => "eof"
  | noOptimize => "no-optimize"
  | emit => "emit"
  | output => "output"
  | config => "config"
  | fuel => "fuel"
  | timings => "timings"
  | dumpMemory => "dump-memory"
  | help => "help"

def ofLong? (s : String) : Option Key :=
  all.find? (·.long = s)

def ofShort? : Char → Option Key
  | 'i' => some input
  | 'm' => some memorySize
  | 'o' => some output
  | 'c' => some config
  | 'h' => some help
  | _ => none

def takesValue : Key → Bool
  | noOptimize => false
  | timings => false
  | help => false
  | _ => true

end Key

structure Options where
  file : String := ""
  input : Option String := none
  inputFile : Option String := none
  memorySize : Option UInt32 := none
  eof : Option EofPolicy := none
  noOptimize : Bool := false
  mode : Mode := .run
  output : Option String := none
  config : Option String := none
  fuel : Option UInt64 := none
  timings : Bool := false
  dumpMemory : Option Nat := none
deriving DecidableEq, Repr

/-- Why the arguments do not say what to do. -/
inductive Refusal where
  | help
  | unknownOption (arg : String)
  | missingValue (key : Key)
  | surplusValue (key : Key)
  | badValue (what value : String)
  | repeated (key : Key)
  | conflict
  | surplusFile (arg : String)
  | missingFile
deriving DecidableEq, Repr

namespace Refusal

def message : Refusal → String
  | help => ""
  | unknownOption arg => s!"unexpected argument '{arg}'"
  | missingValue key => s!"a value is required for '--{key.long}'"
  | surplusValue key => s!"'--{key.long}' takes no value"
  | badValue what value => s!"invalid value '{value}' for {what}"
  | repeated key => s!"'--{key.long}' cannot be used multiple times"
  | conflict => "'--input' cannot be used with '--input-file'"
  | surplusFile arg => s!"unexpected argument '{arg}'"
  | missingFile => "FILE is required"

end Refusal

/-- Decimal digits, at least one. -/
def digits? (cs : List Char) : Option Nat :=
  if cs ≠ [] ∧ cs.all Char.isDigit then
    some (cs.foldl (fun n c => n * 10 + (c.toNat - 48)) 0)
  else none

/-- A natural number of at most `limit`, perhaps behind a plus sign. -/
def natural? (limit : Nat) (s : String) : Option Nat := do
  let n ← digits? <| match s.toList with
    | '+' :: cs => cs
    | cs => cs
  if n ≤ limit then some n else none

/-- As `natural?`, but minus zero is zero. -/
def word? (s : String) : Option UInt32 := do
  let n ← match s.toList with
    | '-' :: cs => (digits? cs).filter (· = 0)
    | _ => natural? 4294967295 s
  return .ofNat n

/-- The options so far, and which of them were given. -/
structure Draft where
  options : Options := {}
  given : List Key := []
  hasFile : Bool := false

namespace Draft

def longMax : Nat := 18446744073709551615

/-- A path, which is never empty. -/
def path (what s : String) : Except Refusal String :=
  if s.isEmpty then .error (.badValue what s) else .ok s

def value {α : Type} (key : Key) (s : String) (v : Option α) : Except Refusal α :=
  match v with
  | some a => .ok a
  | none => .error (.badValue s!"'--{key.long}'" s)

/-- Store the value of an option; flags have none. -/
def set (o : Options) (key : Key) (s : String) : Except Refusal Options := do
  match key with
  | .input => return { o with input := some s }
  | .inputFile => return { o with inputFile := some (← path "'--input-file'" s) }
  | .memorySize => return { o with memorySize := some (← value key s (word? s)) }
  | .eof => return { o with eof := some (← value key s (EofPolicy.ofName? s)) }
  | .noOptimize => return { o with noOptimize := true }
  | .emit => return { o with mode := ← value key s (Mode.ofName? s) }
  | .output => return { o with output := some (← path "'--output'" s) }
  | .config => return { o with config := some (← path "'--config'" s) }
  | .fuel => return { o with fuel := some (.ofNat (← value key s (natural? longMax s))) }
  | .timings => return { o with timings := true }
  | .dumpMemory => return { o with dumpMemory := some (← value key s (natural? longMax s)) }
  | .help => throw .help

def give (d : Draft) (key : Key) (s : String) : Except Refusal Draft := do
  let options ← set d.options key s
  if key ∈ d.given then throw (.repeated key)
  return { d with options := options, given := key :: d.given }

def giveFile (d : Draft) (arg : String) : Except Refusal Draft := do
  if d.hasFile then throw (.surplusFile arg)
  let file ← path "FILE" arg
  return { d with options := { d.options with file := file }, hasFile := true }

/-- The argument is an option and not a value. A single dash is a value. -/
def isOption (arg : String) : Bool :=
  arg.startsWith "-" && arg ≠ "-"

/-- The name of a long option, and the value behind its first equals sign. -/
def splitLong (cs : List Char) : String × Option String :=
  match cs.span (· ≠ '=') with
  | (name, '=' :: v) => (String.ofList name, some (String.ofList v))
  | (name, _) => (String.ofList name, none)

/-- The value behind the letter of a short option. An equals sign there may stand alone. -/
def attachedShort? : List Char → Option String
  | [] => none
  | '=' :: v => some (String.ofList v)
  | v => some (String.ofList v)

/-- Go through the arguments; `pending` is an option that waits for its value. -/
def scan (d : Draft) (pending : Option Key) : List String → Except Refusal Draft
  | [] =>
    match pending with
    | some key => .error (.missingValue key)
    | none => .ok d
  | arg :: rest =>
    match pending with
    | some key =>
      if isOption arg then .error (.missingValue key)
      else do scan (← d.give key arg) none rest
    | none =>
      if arg = "--" then rest.foldlM giveFile d
      else if !isOption arg then do scan (← d.giveFile arg) none rest
      else
        match arg.toList with
        | '-' :: '-' :: cs =>
          let (name, attached) := splitLong cs
          match Key.ofLong? name, attached with
          | none, _ => .error (.unknownOption arg)
          | some key, some v =>
            if key.takesValue then do scan (← d.give key v) none rest
            else .error (.surplusValue key)
          | some key, none =>
            if key.takesValue then scan d (some key) rest
            else do scan (← d.give key "") none rest
        | '-' :: c :: cs =>
          match Key.ofShort? c with
          | none => .error (.unknownOption arg)
          | some key =>
            if !key.takesValue then do scan (← d.give key "") none rest
            else
              match attachedShort? cs with
              | some v => do scan (← d.give key v) none rest
              | none => scan d (some key) rest
        | _ => .error (.unknownOption arg)

end Draft

namespace Options

def parse (args : List String) : Except Refusal Options := do
  let d ← Draft.scan {} none args
  if .input ∈ d.given ∧ .inputFile ∈ d.given then throw .conflict
  if !d.hasFile then throw .missingFile
  return d.options

end Options
end TapeCompiler.CommandLine
