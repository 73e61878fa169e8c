import TapeCompiler.Wasm.Decode
import TapeCompiler.Wasm.Validate

/-! Bytes that are a valid module. -/

namespace TapeCompiler.Wasm.Module

/-- The valid module that `bytes` stand for. -/
def accept? (bytes : List UInt8) : Option Module :=
  (decode? bytes).filter isValid

end TapeCompiler.Wasm.Module
