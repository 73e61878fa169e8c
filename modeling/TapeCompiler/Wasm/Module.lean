import TapeCompiler.Wasm.Code

/-! Modules. Every value is a 32-bit integer, so a type is only a number of values. -/

namespace TapeCompiler.Wasm

structure FuncType where
  params : Nat
  results : Nat
deriving DecidableEq, Repr

/-- An imported function of the type with this index. -/
structure Import where
  space : String
  name : String
  type : Nat
deriving DecidableEq, Repr

/-- The size of a memory in pages. -/
structure Limits where
  least : Nat
  most : Option Nat
deriving DecidableEq, Repr

structure Global where
  isMutable : Bool
  value : UInt32
deriving DecidableEq, Repr

inductive ExportKind where
  | function
  | memory
  | global
deriving DecidableEq, Repr

structure Export where
  name : String
  kind : ExportKind
  index : Nat
deriving DecidableEq, Repr

/-- A function body with its number of locals besides the parameters. -/
structure Body where
  locals : Nat
  code : Code
deriving DecidableEq, Repr

/-- Functions are numbered with the imported ones first; `functions` holds the type index of each
function that has a body here. -/
structure Module where
  types : List FuncType := []
  imports : List Import := []
  functions : List Nat := []
  memories : List Limits := []
  globals : List Global := []
  exports : List Export := []
  start : Option Nat := none
  bodies : List Body := []
deriving DecidableEq, Repr

/-- The bytes in a page of memory. -/
def pageSize : Nat := 65536

namespace Module

/-- The type of each function, the imported ones first. -/
def functionTypes (m : Module) : List (Option FuncType) :=
  (m.imports.map Import.type ++ m.functions).map (m.types[·]?)

def functionType? (m : Module) (function : Nat) : Option FuncType :=
  (m.functionTypes[function]?).join

/-- The body of a function, unless it is imported. -/
def body? (m : Module) (function : Nat) : Option Body :=
  if function < m.imports.length then none else m.bodies[function - m.imports.length]?

def findExport? (m : Module) (name : String) : Option Export :=
  m.exports.find? (·.name = name)

end Module
end TapeCompiler.Wasm
