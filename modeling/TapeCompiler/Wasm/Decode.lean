import TapeCompiler.Wasm.Encode

/-! Reading the binary form of modules. -/

namespace TapeCompiler.Wasm

/-- What ends a sequence of instructions. -/
inductive Ending where
  | close
  | otherwise
deriving DecidableEq, Repr

namespace Decode

abbrev Reader (α : Type) := List UInt8 → Option (α × List UInt8)

def byte : Reader UInt8
  | [] => none
  | b :: rest => some (b, rest)

/-- Exactly this byte. -/
def exactly (expected : UInt8) : Reader Unit
  | [] => none
  | b :: rest => if b = expected then some ((), rest) else none

/-- The next `n` bytes. -/
def take : Nat → Reader (List UInt8)
  | 0, bytes => some ([], bytes)
  | _ + 1, [] => none
  | n + 1, b :: rest => do
    let (bs, rest) ← take n rest
    return (b :: bs, rest)

def repeated {α : Type} (item : Reader α) : Nat → Reader (List α)
  | 0, bytes => some ([], bytes)
  | n + 1, bytes => do
    let (x, rest) ← item bytes
    let (xs, rest) ← repeated item n rest
    return (x :: xs, rest)

def vector {α : Type} (item : Reader α) : Reader (List α) := fun bytes => do
  let (n, rest) ← Leb128.decode? bytes
  repeated item n rest

def sized : Reader (List UInt8) := fun bytes => do
  let (n, rest) ← Leb128.decode? bytes
  take n rest

/-- A reader that has to use up the bytes it is given. -/
def whole {α : Type} (item : Reader α) (bytes : List UInt8) : Option α :=
  match item bytes with
  | some (x, []) => some x
  | _ => none

def name : Reader String := fun bytes => do
  let (bs, rest) ← sized bytes
  let s ← Utf8.decode? bs
  return (s, rest)

/-- A list of value types, all of them 32-bit integers. -/
def values : Reader Nat := fun bytes => do
  let (ts, rest) ← vector (exactly 0x7F) bytes
  return (ts.length, rest)

def funcType : Reader FuncType := fun bytes => do
  let (_, rest) ← exactly 0x60 bytes
  let (params, rest) ← values rest
  let (results, rest) ← values rest
  return (⟨params, results⟩, rest)

def importEntry : Reader Import := fun bytes => do
  let (space, rest) ← name bytes
  let (item, rest) ← name rest
  let (_, rest) ← exactly 0x00 rest
  let (type, rest) ← Leb128.decode? rest
  return (⟨space, item, type⟩, rest)

def limits : Reader Limits := fun bytes => do
  let (flag, rest) ← byte bytes
  if flag = 0x00 then
    let (least, rest) ← Leb128.decode? rest
    return (⟨least, none⟩, rest)
  else if flag = 0x01 then
    let (least, rest) ← Leb128.decode? rest
    let (most, rest) ← Leb128.decode? rest
    return (⟨least, some most⟩, rest)
  else none

def mutability : Reader Bool := fun bytes => do
  let (flag, rest) ← byte bytes
  if flag = 0x00 then return (false, rest)
  else if flag = 0x01 then return (true, rest)
  else none

def globalEntry : Reader Global := fun bytes => do
  let (_, rest) ← exactly 0x7F bytes
  let (isMutable, rest) ← mutability rest
  let (_, rest) ← exactly 0x41 rest
  let (value, rest) ← Leb128.decodeWord? rest
  let (_, rest) ← exactly 0x0B rest
  return (⟨isMutable, value⟩, rest)

def exportKind : Reader ExportKind := fun bytes => do
  let (flag, rest) ← byte bytes
  if flag = 0x00 then return (.function, rest)
  else if flag = 0x02 then return (.memory, rest)
  else if flag = 0x03 then return (.global, rest)
  else none

def exportEntry : Reader Export := fun bytes => do
  let (item, rest) ← name bytes
  let (kind, rest) ← exportKind rest
  let (index, rest) ← Leb128.decode? rest
  return (⟨item, kind, index⟩, rest)

/-- An instruction with one index behind its opcode. -/
def indexed (make : Nat → Instr) : Reader Instr := fun bytes => do
  let (index, rest) ← Leb128.decode? bytes
  return (make index, rest)

/-- A byte access: its alignment can only be 0. -/
def access (make : UInt32 → Instr) : Reader Instr := fun bytes => do
  let (_, rest) ← exactly 0x00 bytes
  let (offset, rest) ← Leb128.decode? rest
  return (make (.ofNat offset), rest)

/-- What stands behind the opcode of a straight-line instruction. -/
def operands (opcode : UInt8) : Reader Instr := fun bytes =>
  match opcode with
  | 0x00 => some (.unreachable, bytes)
  | 0x10 => indexed .call bytes
  | 0x20 => indexed .localGet bytes
  | 0x21 => indexed .localSet bytes
  | 0x22 => indexed .localTee bytes
  | 0x23 => indexed .globalGet bytes
  | 0x24 => indexed .globalSet bytes
  | 0x2D => access .load8 bytes
  | 0x3A => access .store8 bytes
  | 0x41 => do
    let (value, rest) ← Leb128.decodeWord? bytes
    return (.const value, rest)
  | 0x45 => some (.eqz, bytes)
  | 0x4E => some (.geS, bytes)
  | 0x6A => some (.add, bytes)
  | 0x6B => some (.sub, bytes)
  | 0x6C => some (.mul, bytes)
  | 0x70 => some (.remU, bytes)
  | _ => none

/-- Instructions up to the mark that ends them. Each takes at least one byte, so as many units of
fuel as there are bytes are enough. -/
def code : (fuel : Nat) → Reader (Code × Ending)
  | 0, _ => none
  | _ + 1, [] => none
  | fuel + 1, opcode :: rest =>
    if opcode = 0x0B then some ((.done, .close), rest)
    else if opcode = 0x05 then some ((.done, .otherwise), rest)
    else if opcode = 0x02 ∨ opcode = 0x03 then do
      let (_, rest) ← exactly 0x40 rest
      let ((body, ending), rest) ← code fuel rest
      if ending ≠ .close then none
      else
        let ((next, ending), rest) ← code fuel rest
        let whole := if opcode = 0x02 then Code.block body next else Code.loop body next
        return ((whole, ending), rest)
    else if opcode = 0x04 then do
      let (_, rest) ← exactly 0x40 rest
      let ((yes, ending), rest) ← code fuel rest
      match ending with
      | .close =>
        let ((next, ending), rest) ← code fuel rest
        return ((.ifThen yes next, ending), rest)
      | .otherwise =>
        let ((no, ending), rest) ← code fuel rest
        if ending ≠ .close then none
        else
          let ((next, ending), rest) ← code fuel rest
          return ((.ifElse yes no next, ending), rest)
    else if opcode = 0x0C ∨ opcode = 0x0D then do
      let (label, rest) ← Leb128.decode? rest
      let ((next, ending), rest) ← code fuel rest
      let whole := if opcode = 0x0C then Code.br label next else Code.brIf label next
      return ((whole, ending), rest)
    else do
      let (i, rest) ← operands opcode rest
      let ((next, ending), rest) ← code fuel rest
      return ((.plain i next, ending), rest)

/-- A run of locals. -/
def localRun : Reader Nat := fun bytes => do
  let (n, rest) ← Leb128.decode? bytes
  let (_, rest) ← exactly 0x7F rest
  return (n, rest)

def bodyContent : Reader Body := fun bytes => do
  let (runs, rest) ← vector localRun bytes
  let ((c, ending), rest) ← code rest.length rest
  if ending = .close then return (⟨runs.foldr (· + ·) 0, c⟩, rest) else none

def body : Reader Body := fun bytes => do
  let (content, rest) ← sized bytes
  let b ← whole bodyContent content
  return (b, rest)

/-- Add what a section holds to the module. A custom section has a name and is otherwise free. -/
def fill (id : UInt8) (payload : List UInt8) (m : Module) : Option Module :=
  match id with
  | 0 => do
    let _ ← name payload
    return m
  | 1 => do return { m with types := ← whole (vector funcType) payload }
  | 2 => do return { m with imports := ← whole (vector importEntry) payload }
  | 3 => do return { m with functions := ← whole (vector Leb128.decode?) payload }
  | 5 => do return { m with memories := ← whole (vector limits) payload }
  | 6 => do return { m with globals := ← whole (vector globalEntry) payload }
  | 7 => do return { m with exports := ← whole (vector exportEntry) payload }
  | 8 => do return { m with start := some (← whole Leb128.decode? payload) }
  | 10 => do return { m with bodies := ← whole (vector body) payload }
  | _ => none

/-- The sections after the one numbered `last`. They come in ascending order, except that custom
sections may stand anywhere. -/
def sections : (fuel : Nat) → (last : UInt8) → Module → List UInt8 → Option Module
  | _, _, m, [] => some m
  | 0, _, _, _ :: _ => none
  | fuel + 1, last, m, id :: rest => do
    let (payload, rest) ← sized rest
    let m ← fill id payload m
    if id = 0 then sections fuel last m rest
    else if last < id then sections fuel id m rest
    else none

end Decode

/-- The module that `bytes` stand for, with nothing left over. -/
def Module.decode? (bytes : List UInt8) : Option Module := do
  let (header, rest) ← Decode.take 8 bytes
  if header = Encode.header then Decode.sections rest.length 0 {} rest else none

end TapeCompiler.Wasm
