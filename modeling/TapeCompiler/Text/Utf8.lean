/-!
Reading bytes as UTF-8 text, either strictly or with a replacement character for each maximal part
that no character starts with.
-/

namespace TapeCompiler.Utf8

def decode? (bytes : List UInt8) : Option String :=
  String.fromUTF8? ⟨bytes.toArray⟩

def encode (s : String) : List UInt8 :=
  s.toUTF8.data.toList

theorem decode?_encode (s : String) : decode? (encode s) = some s := by
  have bytes : (⟨s.toUTF8.data.toList.toArray⟩ : ByteArray) = s.toByteArray := by
    simp [String.toUTF8]
  unfold decode? encode
  rw [bytes]
  exact dif_pos s.isValidUTF8

def replacement : Char := Char.ofNat 0xFFFD

/-- The number of continuation bytes that follow the first byte of a character, and the range in
which the first of them lies. -/
def lead? (b : UInt8) : Option (Nat × UInt8 × UInt8) :=
  if b < 0x80 then some (0, 0x80, 0xBF)
  else if b < 0xC2 then none
  else if b < 0xE0 then some (1, 0x80, 0xBF)
  else if b = 0xE0 then some (2, 0xA0, 0xBF)
  else if b = 0xED then some (2, 0x80, 0x9F)
  else if b < 0xF0 then some (2, 0x80, 0xBF)
  else if b = 0xF0 then some (3, 0x90, 0xBF)
  else if b < 0xF4 then some (3, 0x80, 0xBF)
  else if b = 0xF4 then some (3, 0x80, 0x8F)
  else none

/-- A character that has begun: its bits so far, the number of continuation bytes that are still to
come, and the range of the next. -/
structure Pending where
  bits : Nat
  missing : Nat
  low : UInt8
  high : UInt8

/-- The bits that the first byte of a character with `following` further bytes contributes. -/
def leadBits (b : UInt8) (following : Nat) : Nat :=
  match following with
  | 0 => b.toNat
  | 1 => b.toNat % 32
  | 2 => b.toNat % 16
  | _ => b.toNat % 8

/-- Read on with the characters so far, the last one first. -/
def lossyFrom : List UInt8 → Option Pending → List Char → List Char
  | [], none, done => done
  | [], some _, done => replacement :: done
  | b :: rest, none, done =>
    match lead? b with
    | none => lossyFrom rest none (replacement :: done)
    | some (0, _, _) => lossyFrom rest none (Char.ofNat b.toNat :: done)
    | some (n, low, high) => lossyFrom rest (some ⟨leadBits b n, n, low, high⟩) done
  | b :: rest, some p, done =>
    if p.low ≤ b ∧ b ≤ p.high then
      let bits := p.bits * 64 + b.toNat % 64
      if p.missing ≤ 1 then lossyFrom rest none (Char.ofNat bits :: done)
      else lossyFrom rest (some ⟨bits, p.missing - 1, 0x80, 0xBF⟩) done
    else
      match lead? b with
      | none => lossyFrom rest none (replacement :: replacement :: done)
      | some (0, _, _) => lossyFrom rest none (Char.ofNat b.toNat :: replacement :: done)
      | some (n, low, high) =>
        lossyFrom rest (some ⟨leadBits b n, n, low, high⟩) (replacement :: done)

/-- The text of `bytes`, with every maximal invalid part replaced. -/
def decodeLossy (bytes : List UInt8) : String :=
  String.ofList (lossyFrom bytes none []).reverse

end TapeCompiler.Utf8
