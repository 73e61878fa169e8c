import TapeCompiler.Emit.Module
import TapeCompiler.Program.Defect

/-! From a source text to a checked module. -/

namespace TapeCompiler

/-- Everything that compiling one source text produces. -/
structure Artifact where
  tree : Tree
  /-- The optimized program that the module was made from. -/
  program : Program
  emission : Emission
deriving DecidableEq, Repr

def CompilerSettings.checked (c : CompilerSettings) : Except Error Unit :=
  match c.check with
  | .ok () => .ok ()
  | .error e => .error (.settings e.message)

namespace Program

/-- Emit a program after the settings were checked. -/
def emitted (c : CompilerSettings) (p : Program) : Except Error Emission :=
  match p.emit c with
  | .ok e => .ok e
  | .error e => .error (.settings e.message)

def checkDefects (p : Program) : Except Error Unit :=
  match p.firstDefect? with
  | none => .ok ()
  | some f => .error (.internal f.message)

end Program

def Tree.parsed (source : String) : Except Error Tree :=
  match Tree.parse source with
  | .ok t => .ok t
  | .error e => .error (.brackets e)

/-- The settings are checked before the source is looked at. -/
def compile (c : CompilerSettings) (source : String) : Except Error Artifact := do
  c.checked
  let tree ← Tree.parsed source
  let program := (Program.ofTree tree).optimize c
  let emission ← program.emitted c
  program.checkDefects
  checkModule emission.bytes
  return ⟨tree, program, emission⟩

def Tree.event (t : Tree) : Event :=
  .parsed t.length

/-- What making a program from a tree reports. -/
def Program.event (p : Program) : Event :=
  .lowered p.depth p.count

/-- What compiling a source text reports. -/
def Artifact.events (c : CompilerSettings) (source : String) (a : Artifact) : List Event :=
  let p := Program.ofTree a.tree
  a.tree.event :: p.event ::
    (p.optimizeEvents c.memorySize (Pass.enabled c.passes) ++
    (a.emission.events c ++
    [.compiled a.program.count a.emission.stats.loops.toNat source.utf8ByteSize
      a.emission.bytes.length]))

end TapeCompiler
