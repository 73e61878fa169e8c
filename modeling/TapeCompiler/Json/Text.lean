import TapeCompiler.Json.Error

/-! The pieces of JSON text: blanks, words, strings, and values that are stepped over. -/

namespace TapeCompiler.Json

abbrev Reader (α : Type) := List Char → Except ReadError (α × List Char)

def isBlank (c : Char) : Bool :=
  c = ' ' || c = '\n' || c = '\t' || c = '\r'

def skipBlanks (cs : List Char) : List Char :=
  cs.dropWhile isBlank

/-- The rest of a word whose first letter was read. -/
def word : List Char → List Char → Except ReadError (List Char)
  | [], cs => .ok cs
  | _ :: _, [] => .error (.unfinished .value)
  | w :: ws, c :: cs => if c = w then word ws cs else .error .expectedWord

def number (negative : Bool) : Reader Number := fun cs =>
  match Number.read negative cs with
  | .ok r => .ok r
  | .error e => .error (.ofNumber e)

namespace Escape

def hexDigit? (c : Char) : Option Nat :=
  if c.isDigit then some (c.toNat - 48)
  else if 'a' ≤ c ∧ c ≤ 'f' then some (c.toNat - 87)
  else if 'A' ≤ c ∧ c ≤ 'F' then some (c.toNat - 55)
  else none

/-- Four hexadecimal digits. The text has ended if fewer than four bytes are left of it. -/
def unit : Reader Nat := fun cs =>
  let ahead := cs.take 4
  if (ahead.map Char.utf8Size).foldr (· + ·) 0 < 4 then .error (.unfinished .string)
  else
    match ahead.mapM hexDigit? with
    | some [a, b, c, d] => .ok (((a * 16 + b) * 16 + c) * 16 + d, cs.drop 4)
    | _ => .error .badEscape

/-- The character that a letter behind a backslash stands for. -/
def simple? : Char → Option Char
  | '"' => some '"'
  | '\\' => some '\\'
  | '/' => some '/'
  | 'b' => some (Char.ofNat 8)
  | 'f' => some (Char.ofNat 12)
  | 'n' => some '\n'
  | 'r' => some '\r'
  | 't' => some '\t'
  | _ => none

/-- A character written as one 16-bit unit, or as a pair of surrogates. -/
def unicode : Reader Char := fun cs => do
  let (high, cs) ← unit cs
  if 0xDC00 ≤ high ∧ high ≤ 0xDFFF then throw .loneSurrogate
  else if high < 0xD800 ∨ 0xDBFF < high then return (Char.ofNat high, cs)
  else
    match cs with
    | [] => throw (.unfinished .string)
    | '\\' :: [] => throw (.unfinished .string)
    | '\\' :: 'u' :: cs =>
      let (low, cs) ← unit cs
      if low < 0xDC00 ∨ 0xDFFF < low then throw .loneSurrogate
      else return (Char.ofNat ((high - 0xD800) * 1024 + (low - 0xDC00) + 0x10000), cs)
    | _ => throw .halfSurrogatePair

end Escape

/-- Read a string behind its opening quote; `done` holds its characters so far, the last one
first. Each round takes at least one character. -/
def stringFrom : (fuel : Nat) → (done : List Char) → Reader String
  | 0, _, _ => .error (.unfinished .string)
  | _ + 1, _, [] => .error (.unfinished .string)
  | fuel + 1, done, c :: cs =>
    if c = '"' then .ok (String.ofList done.reverse, cs)
    else if c = '\\' then
      match cs with
      | [] => .error (.unfinished .string)
      | e :: cs =>
        if e = 'u' then do
          let (c, cs) ← Escape.unicode cs
          stringFrom fuel (c :: done) cs
        else
          match Escape.simple? e with
          | some c => stringFrom fuel (c :: done) cs
          | none => .error .badEscape
    else if c.toNat < 32 then .error .controlCharacter
    else stringFrom fuel (c :: done) cs

def string : Reader String := fun cs => stringFrom cs.length [] cs

/-- Step over a string behind its opening quote. Surrogates need not come in pairs here. -/
def skipStringFrom : (fuel : Nat) → List Char → Except ReadError (List Char)
  | 0, _ => .error (.unfinished .string)
  | _ + 1, [] => .error (.unfinished .string)
  | fuel + 1, c :: cs =>
    if c = '"' then .ok cs
    else if c = '\\' then
      match cs with
      | [] => .error (.unfinished .string)
      | e :: cs =>
        if e = 'u' then do
          let (_, cs) ← Escape.unit cs
          skipStringFrom fuel cs
        else if (Escape.simple? e).isSome then skipStringFrom fuel cs
        else .error .badEscape
    else if c.toNat < 32 then .error .controlCharacter
    else skipStringFrom fuel cs

def skipString (cs : List Char) : Except ReadError (List Char) :=
  skipStringFrom cs.length cs

/-- A colon between a key and its value. -/
def colon (cs : List Char) : Except ReadError (List Char) :=
  match skipBlanks cs with
  | ':' :: cs => .ok cs
  | [] => .error (.unfinished .object)
  | _ => .error .expectedColon

/-- What is expected next while a value is stepped over. -/
inductive Expect where
  | value
  | key
  /-- A comma or the end of the innermost list or object. -/
  | separator

inductive Bracket where
  | list
  | object

/-- Step over what is left of a value inside the given brackets, innermost first. Each round takes
at least one character or goes from a value to its separator. -/
def skipFrom : (fuel : Nat) → Expect → List Bracket → List Char → Except ReadError (List Char)
  | 0, _, _, _ => .error (.unfinished .value)
  | fuel + 1, .value, outer, cs =>
    match skipBlanks cs with
    | [] => .error (.unfinished .value)
    | '[' :: cs =>
      match skipBlanks cs with
      | [] => .error (.unfinished .list)
      | ']' :: cs => skipFrom fuel .separator outer cs
      | cs => skipFrom fuel .value (.list :: outer) cs
    | '\x7b' :: cs =>
      match skipBlanks cs with
      | [] => .error (.unfinished .object)
      | '\x7d' :: cs => skipFrom fuel .separator outer cs
      | cs => skipFrom fuel .key (.object :: outer) cs
    | '"' :: cs => do skipFrom fuel .separator outer (← skipString cs)
    | 'n' :: cs => do skipFrom fuel .separator outer (← word ['u', 'l', 'l'] cs)
    | 't' :: cs => do skipFrom fuel .separator outer (← word ['r', 'u', 'e'] cs)
    | 'f' :: cs => do skipFrom fuel .separator outer (← word ['a', 'l', 's', 'e'] cs)
    | '-' :: cs => do skipFrom fuel .separator outer (← skipNumber cs)
    | c :: cs =>
      if c.isDigit then do skipFrom fuel .separator outer (← skipNumber (c :: cs))
      else .error .expectedValue
  | fuel + 1, .key, outer, cs =>
    match skipBlanks cs with
    | [] => .error (.unfinished .object)
    | '"' :: cs => do
      let cs ← skipString cs
      skipFrom fuel .value outer (← colon cs)
    | _ => .error .keyNotString
  | _ + 1, .separator, [], cs => .ok cs
  | fuel + 1, .separator, .list :: outer, cs =>
    match skipBlanks cs with
    | [] => .error (.unfinished .list)
    | ',' :: cs => skipFrom fuel .value (.list :: outer) cs
    | ']' :: cs => skipFrom fuel .separator outer cs
    | _ => .error .expectedListEnd
  | fuel + 1, .separator, .object :: outer, cs =>
    match skipBlanks cs with
    | [] => .error (.unfinished .object)
    | ',' :: cs => skipFrom fuel .key (.object :: outer) cs
    | '\x7d' :: cs => skipFrom fuel .separator outer cs
    | _ => .error .expectedObjectEnd
where
  skipNumber (cs : List Char) : Except ReadError (List Char) :=
    match Number.skip cs with
    | .ok cs => .ok cs
    | .error e => .error (.ofNumber e)

/-- Step over any value. -/
def skipValue (cs : List Char) : Except ReadError (List Char) :=
  skipFrom (2 * cs.length + 2) .value [] cs

end TapeCompiler.Json
