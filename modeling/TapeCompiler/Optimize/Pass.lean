import TapeCompiler.Optimize.Coalescing
import TapeCompiler.Optimize.Contraction
import TapeCompiler.Optimize.CountedLoop
import TapeCompiler.Settings.Basic

/-! The optimization passes and the order in which they run. -/

namespace TapeCompiler

inductive Pass where
  | contract
  | multiplyLoops
  | coalesceOffsets
deriving DecidableEq, Repr

namespace Pass

def name : Pass → String
  | contract => "contract"
  | multiplyLoops => "multiply-loops"
  | coalesceOffsets => "coalesce-offsets"

/-- Coalescing comes last, after the operations that the other passes bring in. -/
def all : List Pass := [contract, multiplyLoops, coalesceOffsets]

def ofName? (s : String) : Option Pass :=
  all.find? (·.name = s)

def isEnabled (s : PassSet) : Pass → Bool
  | contract => s.contract
  | multiplyLoops => s.multiplyLoops
  | coalesceOffsets => s.coalesceOffsets

def enabled (s : PassSet) : List Pass :=
  all.filter (isEnabled s)

/-- Apply the pass for a tape of `size` cells. -/
def run (size : UInt32) : Pass → Program → Program
  | contract, p => p.contract
  | multiplyLoops, p => p.multiplyLoops size
  | coalesceOffsets, p => p.coalesce

end Pass

namespace Program

/-- Apply passes from left to right. -/
def runPasses (size : UInt32) (passes : List Pass) (p : Program) : Program :=
  passes.foldl (fun p pass => pass.run size p) p

def optimize (c : CompilerSettings) (p : Program) : Program :=
  p.runPasses c.memorySize (Pass.enabled c.passes)

end Program
end TapeCompiler
