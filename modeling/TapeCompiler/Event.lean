import TapeCompiler.Optimize.Pass

/-! What the stages of the compiler report while they work. -/

namespace TapeCompiler

inductive Level where
  | trace
  | debug
  | info
  | warn
deriving DecidableEq, Repr

def Level.name : Level → String
  | trace => "TRACE"
  | debug => "DEBUG"
  | info => "INFO"
  | warn => "WARN"

inductive Event where
  | parsed (nodes : Nat)
  | lowered (depth instructions : Nat)
  | replacedLoop (destinations : Nat)
  | ranPass (pass : Pass) (before after : Nat)
  | emittingLoop (id depth body : Nat)
  | emitted (bytes loops maxLoopDepth pages : Nat)
  | compiled (instructions loops sourceLength wasmBytes : Nat)
  | ranOutOfFuel (maxFuel : Nat)
  | consumedFuel
  | finished (pointer : Int) (unread : Nat)
  | executed (inputLength outputLength pointer : Nat)
deriving DecidableEq, Repr

namespace Event

def level : Event → Level
  | replacedLoop _ => .trace
  | emittingLoop .. => .trace
  | compiled .. => .info
  | ranOutOfFuel _ => .warn
  | _ => .debug

/-- The message and the fields, these in the order of their written form. -/
def text : Event → String
  | parsed nodes => s!"parsed source nodes={nodes}"
  | lowered depth instructions =>
    s!"lowered syntax tree depth={depth} instructions={instructions}"
  | replacedLoop destinations => s!"rewrote multiplication loop destinations={destinations}"
  | ranPass pass before after =>
    s!"ran optimization pass after={after} before={before} pass=\"{pass.name}\""
  | emittingLoop id depth body => s!"emitting loop body={body} depth={depth} loop_id={id}"
  | emitted bytes loops maxLoopDepth pages =>
    s!"emitted module bytes={bytes} loops={loops} max_loop_depth={maxLoopDepth} pages={pages}"
  | compiled instructions loops sourceLength wasmBytes =>
    s!"compiled program instructions={instructions} loops={loops} source_len={sourceLength} " ++
      s!"wasm_bytes={wasmBytes}"
  | ranOutOfFuel maxFuel => s!"execution ran out of fuel max_fuel={maxFuel}"
  | consumedFuel => "Run consumed fuel"
  | finished pointer unread => s!"run finished pointer={pointer} unread_input={unread}"
  | executed inputLength outputLength pointer =>
    s!"executed module input_len={inputLength} output_len={outputLength} pointer={pointer}"

def line (e : Event) : String :=
  s!"{e.level.name} {e.text}"

end Event

/-- What applying a pass reports about the loops it replaces. -/
def Pass.events (size : UInt32) : Pass → Program → List Event
  | multiplyLoops, p => (p.countedLoops size).map fun f => .replacedLoop f.length
  | _, _ => []

namespace Program

/-- What running the passes one after another reports. -/
def optimizeEvents (size : UInt32) : List Pass → Program → List Event
  | [], _ => []
  | pass :: rest, p =>
    let q := pass.run size p
    pass.events size p ++ .ranPass pass p.count q.count :: q.optimizeEvents size rest

end Program
end TapeCompiler
