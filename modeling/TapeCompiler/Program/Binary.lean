import TapeCompiler.Error
import TapeCompiler.Program.Basic

/-!
The binary form of a program. Numbers are little-endian of fixed width; a sequence is its length
in eight bytes and then its items; an instruction is its index among the nine kinds in four bytes
and then its fields.
-/

namespace TapeCompiler

inductive DecodeError where
  | endOfFile
  | unknownKind (index : Nat)
deriving DecidableEq, Repr

def DecodeError.message : DecodeError → String
  | endOfFile => "io error: unexpected end of file"
  | unknownKind index =>
    s!"invalid value: integer `{index}`, expected variant index 0 <= i < 9"

namespace Binary

/-- The lowest `width` bytes of `n`, lowest first. -/
def encodeNat : (width : Nat) → Nat → List UInt8
  | 0, _ => []
  | width + 1, n => UInt8.ofNat (n % 256) :: encodeNat width (n / 256)

def decodeNat : (width : Nat) → List UInt8 → Except DecodeError (Nat × List UInt8)
  | 0, bytes => .ok (0, bytes)
  | _ + 1, [] => .error .endOfFile
  | width + 1, b :: rest => do
    let (n, rest) ← decodeNat width rest
    return (b.toNat + 256 * n, rest)

def encodeUnsigned (n : UInt32) : List UInt8 := encodeNat 4 n.toNat

def encodeSigned (i : Int32) : List UInt8 := encodeUnsigned i.toUInt32

def decodeUnsigned (bytes : List UInt8) : Except DecodeError (UInt32 × List UInt8) := do
  let (n, rest) ← decodeNat 4 bytes
  return (UInt32.ofNat n, rest)

def decodeSigned (bytes : List UInt8) : Except DecodeError (Int32 × List UInt8) := do
  let (n, rest) ← decodeUnsigned bytes
  return (n.toInt32, rest)

end Binary

open Binary

namespace Op

def encode : Op → List UInt8
  | right count => encodeNat 4 0 ++ encodeUnsigned count
  | left count => encodeNat 4 1 ++ encodeUnsigned count
  | add amount o => encodeNat 4 2 ++ encodeUnsigned amount ++ encodeSigned o
  | sub amount o => encodeNat 4 3 ++ encodeUnsigned amount ++ encodeSigned o
  | mul dest factor source =>
    encodeNat 4 4 ++ encodeSigned dest ++ encodeSigned factor ++ encodeSigned source
  | clear o => encodeNat 4 5 ++ encodeSigned o
  | output o => encodeNat 4 6 ++ encodeSigned o
  | input o => encodeNat 4 7 ++ encodeSigned o

/-- The fields of the operation of kind `index`. -/
def decodeFields (index : Nat) (bytes : List UInt8) : Except DecodeError (Op × List UInt8) :=
  match index with
  | 0 => do
    let (count, rest) ← decodeUnsigned bytes
    return (right count, rest)
  | 1 => do
    let (count, rest) ← decodeUnsigned bytes
    return (left count, rest)
  | 2 => do
    let (amount, rest) ← decodeUnsigned bytes
    let (o, rest) ← decodeSigned rest
    return (add amount o, rest)
  | 3 => do
    let (amount, rest) ← decodeUnsigned bytes
    let (o, rest) ← decodeSigned rest
    return (sub amount o, rest)
  | 4 => do
    let (dest, rest) ← decodeSigned bytes
    let (factor, rest) ← decodeSigned rest
    let (source, rest) ← decodeSigned rest
    return (mul dest factor source, rest)
  | 5 => do
    let (o, rest) ← decodeSigned bytes
    return (clear o, rest)
  | 6 => do
    let (o, rest) ← decodeSigned bytes
    return (output o, rest)
  | 7 => do
    let (o, rest) ← decodeSigned bytes
    return (input o, rest)
  | _ => .error (.unknownKind index)

end Op

namespace Program

def loopKind : Nat := 8

def encodeItems : Program → List UInt8
  | nil => []
  | op o next => o.encode ++ next.encodeItems
  | loop body next =>
    encodeNat 4 loopKind ++ encodeNat 8 body.length ++ body.encodeItems ++ next.encodeItems

def encode (p : Program) : List UInt8 :=
  encodeNat 8 p.length ++ p.encodeItems

/-- Read `n` instructions. Each takes at least one byte, so a fuel of as many units as there are
bytes never runs out before the bytes do. -/
def decodeItems : (fuel n : Nat) → List UInt8 → Except DecodeError (Program × List UInt8)
  | _, 0, bytes => .ok (nil, bytes)
  | 0, _ + 1, _ => .error .endOfFile
  | fuel + 1, n + 1, bytes => do
    let (index, rest) ← decodeNat 4 bytes
    if index = loopKind then
      let (inner, rest) ← decodeNat 8 rest
      let (body, rest) ← decodeItems fuel inner rest
      let (next, rest) ← decodeItems fuel n rest
      return (loop body next, rest)
    else
      let (o, rest) ← Op.decodeFields index rest
      let (next, rest) ← decodeItems fuel n rest
      return (op o next, rest)

/-- Read a program from the front of `bytes`; what follows it is left alone. -/
def decode (bytes : List UInt8) : Except DecodeError Program := do
  let (n, rest) ← decodeNat 8 bytes
  let (p, _) ← decodeItems bytes.length n rest
  return p

/-- Read a program, with the fault as it is reported to the user. -/
def decoded (bytes : List UInt8) : Except Error Program :=
  match decode bytes with
  | .ok p => .ok p
  | .error e => .error (.encoding e.message)

end Program
end TapeCompiler
