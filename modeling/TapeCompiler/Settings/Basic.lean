/-! What a user can choose: the tape, the passes, and the limits of a run. -/

namespace TapeCompiler

/-- What reading a cell does once the input is used up. -/
inductive EofPolicy where
  | unchanged
  | zero
  | allOnes
deriving DecidableEq, Repr

namespace EofPolicy

/-- The byte that is stored at the end of the input, if any. -/
def fill? : EofPolicy → Option UInt8
  | unchanged => none
  | zero => some 0
  | allOnes => some 255

/-- The name in configuration files and on the command line. -/
def name : EofPolicy → String
  | unchanged => "unchanged"
  | zero => "zero"
  | allOnes => "all-ones"

def all : List EofPolicy := [unchanged, zero, allOnes]

def ofName? (s : String) : Option EofPolicy :=
  all.find? (·.name = s)

end EofPolicy

/-- The optimization passes that are switched on. -/
structure PassSet where
  contract : Bool := true
  multiplyLoops : Bool := true
  coalesceOffsets : Bool := true
deriving DecidableEq, Repr

def PassSet.none : PassSet := ⟨false, false, false⟩

structure CompilerSettings where
  memorySize : UInt32 := 30000
  eof : EofPolicy := .unchanged
  passes : PassSet := {}
deriving DecidableEq, Repr

structure RuntimeSettings where
  maxFuel : Option UInt64 := none
  maxWasmStack : UInt64 := 524288
  recordTimings : Bool := true
deriving DecidableEq, Repr

structure Settings where
  compiler : CompilerSettings := {}
  runtime : RuntimeSettings := {}
deriving DecidableEq, Repr

/-- Why a tape size is refused. -/
inductive SizeError where
  | zero
  | tooLarge (size : UInt32)
deriving DecidableEq, Repr

namespace CompilerSettings

def maxMemorySize : Nat := 2147483648

end CompilerSettings

def SizeError.message : SizeError → String
  | zero => "memory_size must be positive"
  | tooLarge size =>
    s!"memory_size {size.toNat} exceeds the maximum of {CompilerSettings.maxMemorySize}"

def CompilerSettings.check (c : CompilerSettings) : Except SizeError Unit :=
  if c.memorySize = 0 then .error .zero
  else if c.memorySize.toNat > maxMemorySize then .error (.tooLarge c.memorySize)
  else .ok ()

end TapeCompiler
