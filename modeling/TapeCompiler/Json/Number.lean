import TapeCompiler.Decimal.Shortest

/-!
Numbers in JSON text. A number without point and exponent is an integer if it fits in 64 bits, and
otherwise a floating-point number: its leading digits, as far as they fit in 64 bits, scaled by a
power of ten.
-/

namespace TapeCompiler.Json

inductive Number where
  | integer (i : Int)
  | float (f : Float)

inductive NumberError where
  /-- The text ends inside the number. -/
  | unfinished
  | malformed
  | outOfRange
deriving DecidableEq, Repr

namespace Number

def digit? (c : Char) : Option Nat :=
  if c.isDigit then some (c.toNat - 48) else none

def maxSignificand : Nat := 18446744073709551615

/-- Leading digits of a number that fit in 64 bits, starting from `n`, how many there are, and what
follows. -/
def significand (n count : Nat) : List Char → Nat × Nat × List Char
  | [] => (n, count, [])
  | c :: rest =>
    match digit? c with
    | some d =>
      if n * 10 + d ≤ maxSignificand then significand (n * 10 + d) (count + 1) rest
      else (n, count, c :: rest)
    | none => (n, count, c :: rest)

/-- All digits in front, and what follows. -/
def digits (cs : List Char) : List Char × List Char :=
  cs.span Char.isDigit

/-- The largest power of ten that is a floating-point number. -/
def maxPower : Nat := 308

def power (n : Nat) : Float := Float.ofScientific 1 false n

/-- Divide by `10 ^ n`, in steps of the largest power. A number that has become 0 stays 0. -/
def shrink : (fuel : Nat) → Float → Nat → Float
  | 0, f, _ => f
  | fuel + 1, f, n =>
    if n ≤ maxPower then f / power n
    else if f == 0 then f
    else shrink fuel (f / power maxPower) (n - maxPower)

/-- The number `n * 10 ^ exponent`. -/
def scale (n : Nat) (exponent : Int) : Except NumberError Float :=
  let f := (UInt64.ofNat n).toFloat
  match exponent with
  | .negSucc e => .ok (shrink 4 f (e + 1))
  | .ofNat e =>
    if e ≤ maxPower then
      let g := f * power e
      if g.isInf then .error .outOfRange else .ok g
    else if f == 0 then .ok f
    else .error .outOfRange

def withSign (negative : Bool) (f : Float) : Float :=
  if negative then -f else f

/-- The exponent behind its mark, for leading digits `n` that are already scaled by `shift`. -/
def exponent (negative : Bool) (n : Nat) (shift : Int) (cs : List Char) :
    Except NumberError (Number × List Char) := do
  let (down, cs) := match cs with
    | '+' :: rest => (false, rest)
    | '-' :: rest => (true, rest)
    | cs => (false, cs)
  match cs with
  | [] => .error .unfinished
  | c :: _ =>
    if (digit? c).isNone then .error .malformed
    else
      let (ds, rest) := digits cs
      let e : Nat := ds.foldl (fun e d => e * 10 + (d.toNat - 48)) 0
      if e ≤ 2147483647 then
        let f ← scale n (if down then shift - e else shift + e)
        return (.float (withSign negative f), rest)
      else if n ≠ 0 ∧ !down then .error .outOfRange
      else return (.float (withSign negative 0), rest)

/-- The places behind the point. -/
def fraction (negative : Bool) (n : Nat) (shift : Int) (cs : List Char) :
    Except NumberError (Number × List Char) := do
  let (m, count, rest) := significand n 0 cs
  let (surplus, rest) := digits rest
  if count = 0 ∧ surplus = [] then
    .error (if rest = [] then .unfinished else .malformed)
  else
    let shift := shift - count
    match rest with
    | 'e' :: rest => exponent negative m shift rest
    | 'E' :: rest => exponent negative m shift rest
    | rest =>
      let f ← scale m shift
      return (.float (withSign negative f), rest)

/-- The number of an integer without point and exponent. Minus zero is not an integer. -/
def whole (negative : Bool) (n : Nat) : Number :=
  if !negative then .integer n
  else if n = 0 ∨ 9223372036854775808 < n then .float (-(UInt64.ofNat n).toFloat)
  else .integer (-n)

/-- What stands behind the leading digits `n`; `surplus` more were left out. -/
def tail (negative : Bool) (n surplus : Nat) (cs : List Char) :
    Except NumberError (Number × List Char) := do
  match cs with
  | '.' :: rest => fraction negative n surplus rest
  | 'e' :: rest => exponent negative n surplus rest
  | 'E' :: rest => exponent negative n surplus rest
  | rest =>
    if surplus = 0 then return (whole negative n, rest)
    else
      let f ← scale n surplus
      return (.float (withSign negative f), rest)

/-- A number behind its sign. Only a number below one starts with 0. -/
def read (negative : Bool) (cs : List Char) : Except NumberError (Number × List Char) :=
  match cs with
  | [] => .error .unfinished
  | '0' :: rest =>
    if (rest.head?.bind digit?).isSome then .error .malformed else tail negative 0 0 rest
  | c :: _ =>
    if (digit? c).isNone then .error .malformed
    else
      let (n, _, rest) := significand 0 0 cs
      let (surplus, rest) := digits rest
      tail negative n surplus.length rest

/-- Step over a number behind its sign. -/
def skip (cs : List Char) : Except NumberError (List Char) := do
  let rest ← match cs with
    | '0' :: rest =>
      if (rest.head?.bind digit?).isSome then .error .malformed else .ok rest
    | c :: rest => if (digit? c).isSome then .ok (digits rest).2 else .error .malformed
    | [] => .error .malformed
  let rest ← match rest with
    | '.' :: rest =>
      let (ds, rest) := digits rest
      if ds = [] then .error .malformed else .ok rest
    | rest => .ok rest
  match rest with
  | 'e' :: rest => skipExponent rest
  | 'E' :: rest => skipExponent rest
  | rest => .ok rest
where
  skipExponent (cs : List Char) : Except NumberError (List Char) :=
    let cs := match cs with
      | '+' :: rest => rest
      | '-' :: rest => rest
      | cs => cs
    let (ds, rest) := digits cs
    if ds = [] then .error .malformed else .ok rest

/-- Trailing zeros dropped, but never the last digit. -/
def trim (ds : List Char) : List Char :=
  match (ds.reverse.dropWhile (· = '0')).reverse with
  | [] => ['0']
  | ds => ds

/-- An exponent is written with its sign and without leading zeros. -/
def exponentText (e : Int) : List Char :=
  (if e < 0 then '-' else '+') :: Nat.toDigits 10 e.natAbs

/-- Digits with a point behind the first, times a power of ten. Numbers from 1e-5 to below 1e16 are
written without an exponent, and those always with at least one place. -/
def layout (ds : List Char) (e : Int) : List Char :=
  if 0 ≤ e ∧ e ≤ 15 then
    let before := e.toNat + 1
    let padded := ds ++ List.replicate (before - ds.length) '0'
    let places := padded.drop before
    padded.take before ++ '.' :: (if places = [] then ['0'] else places)
  else if -5 ≤ e ∧ e < 0 then
    '0' :: '.' :: (List.replicate (e.natAbs - 1) '0' ++ ds)
  else
    match ds with
    | [] => []
    | [d] => d :: 'e' :: exponentText e
    | d :: places => d :: '.' :: (places ++ 'e' :: exponentText e)

def floatText (f : Float) : String :=
  let negative := f.toBits.toNat ≥ 0x8000000000000000
  let fraction := Decimal.Fraction.ofFloat f
  let text :=
    if fraction.mantissa = 0 then ['0', '.', '0']
    else
      let d := Decimal.shortest fraction
      let ds := Nat.toDigits 10 d.value
      layout (trim ds) (d.exponent + (ds.length : Int) - 1)
  String.ofList (if negative then '-' :: text else text)

end Number
end TapeCompiler.Json
