/-!
Variable-length integers: seven bits a byte, lowest first, the top bit set in all bytes but the
last. Writing uses as few bytes as the number allows; reading takes at most five.
-/

namespace TapeCompiler.Wasm.Leb128

def encodeFrom : (fuel : Nat) → Nat → List UInt8
  | 0, n => [UInt8.ofNat n]
  | fuel + 1, n =>
    if n < 128 then [UInt8.ofNat n]
    else UInt8.ofNat (n % 128 + 128) :: encodeFrom fuel (n / 128)

def encode (n : Nat) : List UInt8 :=
  encodeFrom n n

/-- Two's complement: the number ends where the sign fills all further bits. -/
def encodeSignedFrom : (fuel : Nat) → Int → List UInt8
  | 0, i => [UInt8.ofNat (i % 128).toNat]
  | fuel + 1, i =>
    if -64 ≤ i ∧ i < 64 then [UInt8.ofNat (i % 128).toNat]
    else UInt8.ofNat ((i % 128).toNat + 128) :: encodeSignedFrom fuel (i / 128)

/-- A 32-bit pattern, written as the signed number it stands for. -/
def encodeWord (w : UInt32) : List UInt8 :=
  encodeSignedFrom 4 w.toInt32.toInt

/-- The bits of a number of at most `limit` bytes, and how many bytes it took. -/
def groups? : (limit : Nat) → List UInt8 → Option ((Nat × Nat) × List UInt8)
  | 0, _ => none
  | _ + 1, [] => none
  | limit + 1, b :: rest =>
    if b < 128 then some ((b.toNat, 1), rest)
    else do
      let ((n, width), rest) ← groups? limit rest
      return ((b.toNat - 128 + 128 * n, width + 1), rest)

def decode? (bytes : List UInt8) : Option (Nat × List UInt8) := do
  let ((n, _), rest) ← groups? 5 bytes
  if n < 4294967296 then some (n, rest) else none

def decodeWord? (bytes : List UInt8) : Option (UInt32 × List UInt8) := do
  let ((n, width), rest) ← groups? 5 bytes
  let i : Int := if n < 1 <<< (7 * width - 1) then n else n - (1 <<< (7 * width) : Nat)
  if -2147483648 ≤ i ∧ i < 2147483648 then some (Int32.ofInt i |>.toUInt32, rest) else none

end TapeCompiler.Wasm.Leb128
