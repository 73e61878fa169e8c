import TapeCompiler.Json.Text

/-!
Reading JSON text into typed values. Errors come in reading order: a value of the wrong type ends
the reading where it stands. A record is written as an object, or as a list of its fields in order.
-/

namespace TapeCompiler.Json

/-- The error for a value of another type than `expected`. The value is read as far as the error
tells about it. -/
def mismatch {α : Type} (expected : String) (cs : List Char) : Except ReadError α := do
  match cs with
  | 'n' :: cs =>
    let _ ← word ['u', 'l', 'l'] cs
    throw (.wrongType .null expected)
  | 't' :: cs =>
    let _ ← word ['r', 'u', 'e'] cs
    throw (.wrongType (.bool true) expected)
  | 'f' :: cs =>
    let _ ← word ['a', 'l', 's', 'e'] cs
    throw (.wrongType (.bool false) expected)
  | '-' :: cs =>
    let (n, _) ← number true cs
    throw (.wrongType (.ofNumber n) expected)
  | '"' :: cs =>
    let (s, _) ← string cs
    throw (.wrongType (.string s) expected)
  | '[' :: _ => throw (.wrongType .sequence expected)
  | '\x7b' :: _ => throw (.wrongType .map expected)
  | c :: _ =>
    if c.isDigit then
      let (n, _) ← number false cs
      throw (.wrongType (.ofNumber n) expected)
    else throw .expectedValue
  | [] => throw .expectedValue

/-- Go on with the first character that is not blank. -/
def atValue {α : Type} (read : Reader α) : Reader α := fun cs =>
  match skipBlanks cs with
  | [] => .error (.unfinished .value)
  | cs => read cs

def boolean : Reader Bool := atValue fun cs => do
  match cs with
  | 't' :: cs => return (true, ← word ['r', 'u', 'e'] cs)
  | 'f' :: cs => return (false, ← word ['a', 'l', 's', 'e'] cs)
  | cs => mismatch "a boolean" cs

/-- A natural number of at most `limit`. -/
def natural (limit : Nat) (expected : String) : Reader Nat := atValue fun cs => do
  let bounded (r : Number × List Char) : Except ReadError (Nat × List Char) :=
    match r.1 with
    | .integer i =>
      if 0 ≤ i ∧ i ≤ limit then return (i.toNat, r.2)
      else throw (.wrongValue (.integer i) expected)
    | .float f => throw (.wrongType (.float f) expected)
  match cs with
  | '-' :: cs => bounded (← number true cs)
  | c :: _ => if c.isDigit then bounded (← number false cs) else mismatch expected cs
  | [] => mismatch expected cs

/-- Null, or what `read` reads. -/
def optional {α : Type} (read : Reader α) : Reader (Option α) := fun cs => do
  match skipBlanks cs with
  | 'n' :: cs => return (none, ← word ['u', 'l', 'l'] cs)
  | cs =>
    let (a, cs) ← read cs
    return (some a, cs)

/-- One of a few names behind its opening quote. -/
def name {α : Type} (options : List (String × α)) : Reader α := fun cs => do
  let (s, cs) ← string cs
  match options.lookup s with
  | some a => return (a, cs)
  | none => throw (.unknownName s (options.map (·.1)))

/-- Null. -/
def nothing : Reader Unit := atValue fun cs => do
  match cs with
  | 'n' :: cs => return ((), ← word ['u', 'l', 'l'] cs)
  | cs => mismatch "unit" cs

/-- One of a few names, as a string or as the only key of an object with value null. -/
def choice {α : Type} (options : List (String × α)) : Reader α := atValue fun cs => do
  match cs with
  | '"' :: cs => name options cs
  | '\x7b' :: cs =>
    match skipBlanks cs with
    | '"' :: cs =>
      let (a, cs) ← name options cs
      let (_, cs) ← nothing (← colon cs)
      match skipBlanks cs with
      | '\x7d' :: cs => return (a, cs)
      | [] => throw (.unfinished .object)
      | _ => throw .expectedValue
    | '\x7d' :: _ => throw .expectedValue
    | [] => throw (.unfinished .object)
    | _ => throw .keyNotString
  | _ => throw .expectedValue

/-- A field of a record of type `σ`: its name, and how its value is read into the record. -/
structure Field (σ : Type) where
  name : String
  read : σ → Reader σ

/-- A field by its setter. -/
def Field.ofReader {σ α : Type} (name : String) (read : Reader α) (set : σ → α → σ) : Field σ where
  name := name
  read s := fun cs => do
    let (a, cs) ← read cs
    return (set s a, cs)

/-- How a record is read. Fields that are not given keep their value of `initial`, unless the
record has to be complete. -/
structure Shape (σ : Type) where
  name : String
  initial : σ
  fields : List (Field σ)
  complete : Bool := false

namespace Shape

/-- The fields of a record in a list, `count` of them read; `fields` are those to come. -/
def items {σ : Type} (shape : Shape σ) (count : Nat) (s : σ) : List (Field σ) → Reader σ
  | [], cs => .ok (s, cs)
  | field :: fields, cs =>
    let missing : Except ReadError (σ × List Char) :=
      if shape.complete then
        .error (.wrongLength count s!"{shape.name} with {shape.fields.length} elements")
      else .ok (s, cs)
    let next (cs : List Char) : Except ReadError (σ × List Char) := do
      let (s, cs) ← field.read s cs
      items shape (count + 1) s fields cs
    match skipBlanks cs with
    | [] => .error (.unfinished .list)
    | ']' :: _ => missing
    | ',' :: rest =>
      if count = 0 then next cs
      else
        match skipBlanks rest with
        | [] => .error (.unfinished .value)
        | ']' :: _ => .error .trailingComma
        | rest => next rest
    | cs => if count = 0 then next cs else .error .expectedListEnd

/-- The end of a list whose fields were read. -/
def listEnd (cs : List Char) : Except ReadError (List Char) :=
  match skipBlanks cs with
  | ']' :: cs => .ok cs
  | ',' :: cs =>
    match skipBlanks cs with
    | ']' :: _ => .error .trailingComma
    | _ => .error .trailingCharacters
  | [] => .error (.unfinished .list)
  | _ => .error .trailingCharacters

/-- The entries of an object; `seen` holds the fields that were given. Each round takes at least
one character. -/
def entries {σ : Type} (shape : Shape σ) : (fuel : Nat) → (first : Bool) → (seen : List String) →
    (s : σ) → Reader σ
  | 0, _, _, _, _ => .error (.unfinished .object)
  | fuel + 1, first, seen, s, cs =>
    let entry (cs : List Char) : Except ReadError (σ × List Char) := do
      let (key, cs) ← string cs
      match shape.fields.find? (·.name = key) with
      | some field =>
        if key ∈ seen then throw (.repeatedField key)
        let (s, cs) ← field.read s (← colon cs)
        entries shape fuel false (key :: seen) s cs
      | none => entries shape fuel false seen s (← skipValue (← colon cs))
    match skipBlanks cs with
    | [] => .error (.unfinished .object)
    | '\x7d' :: cs =>
      match shape.fields.find? (·.name ∉ seen) with
      | some field => if shape.complete then .error (.missingField field.name) else .ok (s, cs)
      | none => .ok (s, cs)
    | ',' :: rest =>
      if first then .error .keyNotString
      else
        match skipBlanks rest with
        | [] => .error (.unfinished .value)
        | '"' :: rest => entry rest
        | '\x7d' :: _ => .error .trailingComma
        | _ => .error .keyNotString
    | '"' :: rest => if first then entry rest else .error .expectedObjectEnd
    | _ => .error (if first then .keyNotString else .expectedObjectEnd)

def read {σ : Type} (shape : Shape σ) : Reader σ := atValue fun cs => do
  match cs with
  | '[' :: cs =>
    let (s, cs) ← shape.items 0 shape.initial shape.fields cs
    return (s, ← listEnd cs)
  | '\x7b' :: cs => shape.entries (cs.length + 1) true [] shape.initial cs
  | cs => mismatch shape.name cs

end Shape

/-- Read a whole text. -/
def readAll {α : Type} (read : Reader α) (text : String) : Except ReadError α := do
  let (a, cs) ← read text.toList
  if skipBlanks cs = [] then return a else throw .trailingCharacters

end TapeCompiler.Json
