import TapeCompiler.Proofs.Emit.Validity

/-!
The emitted bytes are the generated module. Code is a tree, while a body in a module is a sequence
in which constructs are opened and closed; `opcodes` is that sequence, once for code and once for a
program, as its instructions come. The two agree (`Program.opcodes_code`), the bytes of code are
those of its opcodes (`Code.encode_eq_flatMap`), and reading the bytes gives everything back
(`Program.emit_faithful`).
-/

namespace TapeCompiler

namespace Wasm

/-- An instruction as it stands in a body. -/
inductive Opcode where
  | plain (i : Instr)
  | block
  | loop
  | cond
  | otherwise
  | close
  | br (label : Nat)
  | brIf (label : Nat)
deriving DecidableEq, Repr

def Opcode.encode : Opcode → List UInt8
  | plain i => i.encode
  | block => [0x02, 0x40]
  | loop => [0x03, 0x40]
  | cond => [0x04, 0x40]
  | otherwise => [0x05]
  | close => [0x0B]
  | br label => 0x0C :: Leb128.encode label
  | brIf label => 0x0D :: Leb128.encode label

/-- Straight-line instructions, one after another. -/
def Opcode.straight (is : List Instr) : List Opcode :=
  is.map plain

namespace Code

/-- Code as a sequence, without the mark that ends it. -/
def opcodes : Code → List Opcode
  | done => []
  | plain i next => .plain i :: next.opcodes
  | br label next => .br label :: next.opcodes
  | brIf label next => .brIf label :: next.opcodes
  | block body next => .block :: (body.opcodes ++ .close :: next.opcodes)
  | loop body next => .loop :: (body.opcodes ++ .close :: next.opcodes)
  | ifThen body next => .cond :: (body.opcodes ++ .close :: next.opcodes)
  | ifElse yes no next =>
    .cond :: (yes.opcodes ++ .otherwise :: (no.opcodes ++ .close :: next.opcodes))

theorem encode_eq_flatMap (c : Code) : c.encode = c.opcodes.flatMap Opcode.encode := by
  induction c with
  | done => rfl
  | plain i next ih => simp [encode, opcodes, Opcode.encode, ih]
  | br label next ih => simp [encode, opcodes, Opcode.encode, ih]
  | brIf label next ih => simp [encode, opcodes, Opcode.encode, ih]
  | block body next ihBody ih => simp [encode, opcodes, Opcode.encode, ihBody, ih]
  | loop body next ihBody ih => simp [encode, opcodes, Opcode.encode, ihBody, ih]
  | ifThen body next ihBody ih => simp [encode, opcodes, Opcode.encode, ihBody, ih]
  | ifElse yes no next ihYes ihNo ih => simp [encode, opcodes, Opcode.encode, ihYes, ihNo, ih]

@[simp]
theorem opcodes_prepend (is : List Instr) (next : Code) :
    (prepend is next).opcodes = Opcode.straight is ++ next.opcodes := by
  induction is with
  | nil => rfl
  | cons i is ih =>
    show Opcode.plain i :: (prepend is next).opcodes = _
    rw [ih]
    rfl

end Code
end Wasm

open Wasm (Code Opcode)
open Emit

/-- The opcodes of an operation, in the order in which they are put out. -/
def Op.opcodes (size : UInt32) (eof : EofPolicy) : Op → List Opcode
  | right count => Opcode.straight (movePointer size (count % size))
  | left count => Opcode.straight (movePointer size ((size - count % size) % size))
  | add amount offset =>
    Opcode.straight (openCell size offset ++ [.const (amount % 256), .add, .store8 0])
  | sub amount offset =>
    Opcode.straight (openCell size offset ++ [.const (amount % 256), .sub, .store8 0])
  | mul dest factor source =>
    Opcode.straight (openCell size dest ++ loadCell size source ++
      [.const factor.toUInt32, .mul, .add, .store8 0])
  | clear offset => Opcode.straight (storeConst size offset 0)
  | output offset => Opcode.straight (loadCell size offset ++ [.call outputFunction])
  | input offset =>
    Opcode.straight
      [.call inputFunction, .localSet inputLocal, .localGet inputLocal, .const 0, .geS] ++
    [.cond] ++ Opcode.straight (storeInput size offset) ++
    (match eof.fill? with
      | none => []
      | some fill => .otherwise :: Opcode.straight (storeConst size offset fill)) ++ [.close]

theorem Op.opcodes_code (size : UInt32) (eof : EofPolicy) (o : Op) (next : Code) :
    (o.code size eof next).opcodes = o.opcodes size eof ++ next.opcodes := by
  cases o with
  | right | left | add | sub | mul | clear | output => exact Code.opcodes_prepend _ _
  | input offset =>
    simp only [Op.code, Op.opcodes]
    cases eof.fill? with
    | none => simp [Code.opcodes]
    | some fill => simp [Code.opcodes]

namespace Program

/-- The opcodes of a program, in the order in which they are put out. -/
def opcodes (size : UInt32) (eof : EofPolicy) : Program → List Opcode
  | nil => []
  | op o rest => o.opcodes size eof ++ rest.opcodes size eof
  | loop body rest =>
    [.loop, .block] ++ Opcode.straight (loadCell size 0 ++ [.eqz]) ++ [.brIf 0] ++
      body.opcodes size eof ++ [.br 1, .close, .close] ++ rest.opcodes size eof

theorem opcodes_code (size : UInt32) (eof : EofPolicy) (p : Program) (next : Code) :
    (p.code size eof next).opcodes = p.opcodes size eof ++ next.opcodes := by
  induction p generalizing next with
  | nil => rfl
  | op o rest ih => rw [code, Op.opcodes_code, ih, opcodes, List.append_assoc]
  | loop body rest ihBody ihRest => simp [code, opcodes, Code.opcodes, ihBody, ihRest]

/-- All opcodes of the entry function: those of the program, then the pointer, then the end. -/
def entryOpcodes (c : CompilerSettings) (p : Program) : List Opcode :=
  p.opcodes c.memorySize c.eof ++ [.plain (.globalGet pointerGlobal), .close]

theorem opcodes_body (c : CompilerSettings) (p : Program) :
    (p.body c).code.opcodes ++ [.close] = p.entryOpcodes c := by
  rw [body, opcodes_code, List.append_assoc]
  rfl

/-- What the code section holds: one body, with its own length. -/
def codeSection (c : CompilerSettings) (p : Program) : List UInt8 :=
  Wasm.Encode.vector Wasm.Encode.body [p.body c]

theorem codeSection_eq (c : CompilerSettings) (p : Program) :
    p.codeSection c = Wasm.Leb128.encode 1 ++
      Wasm.Encode.sized ([0x01, 0x02, 0x7F] ++ (p.entryOpcodes c).flatMap Opcode.encode) := by
  have code : (p.body c).code.encode ++ [0x0B] = (p.entryOpcodes c).flatMap Opcode.encode := by
    rw [← opcodes_body, Code.encode_eq_flatMap, List.flatMap_append]
    rfl
  have one : p.codeSection c = Wasm.Leb128.encode 1 ++ (Wasm.Encode.body (p.body c) ++ []) := rfl
  rw [one, List.append_nil, Wasm.Encode.body, code]
  rfl

/-- The pages are the fewest that hold the tape. -/
theorem pages_le_iff (c : CompilerSettings) (n : Nat) :
    c.pages ≤ n ↔ c.memorySize.toNat ≤ n * Wasm.pageSize := by
  simp only [CompilerSettings.pages, Wasm.pageSize]
  omega

theorem length_framed_le (id : UInt8) (payload : List UInt8) :
    (Wasm.Encode.framed id payload).length ≤ 2 * payload.length + 2 := by
  have number := Wasm.Leb128.length_encode_le payload.length
  simp only [Wasm.Encode.framed, Wasm.Encode.sized, List.length_cons, List.length_append]
  omega

open Wasm.Encode in
theorem length_memory_le (n : Nat) :
    (listSection 5 limits [⟨n, some n⟩]).length ≤ 4 * n + 10 := by
  have number := Wasm.Leb128.length_encode_le n
  have one : (Wasm.Leb128.encode 1).length = 1 := rfl
  have payload : (vector limits [⟨n, some n⟩]).length =
      2 + 2 * (Wasm.Leb128.encode n).length := by
    simp only [vector, limits, List.flatMap_cons, List.flatMap_nil, List.length_append,
      List.length_cons, List.length_nil, Nat.zero_add, one]
    omega
  refine Nat.le_trans (length_framed_le 5 _) ?_
  omega

open Wasm.Encode in
/-- Before the code, only the number of pages depends on the settings. -/
theorem length_front_lt (c : CompilerSettings) (p : Program) :
    (p.toModule c).front.length < 4294967296 := by
  have count := pages_le c
  have memory := length_memory_le c.pages
  have before : (listSection 1 funcType [sinkType, sourceType] ++
      (listSection 2 importEntry [⟨importSpace, outputName, 0⟩, ⟨importSpace, inputName, 1⟩] ++
      listSection 3 Wasm.Leb128.encode [1])).length ≤ 100 := by decide +kernel
  have after : (listSection 6 globalEntry [⟨true, 0⟩] ++ listSection 7 exportEntry
      [⟨entryName, .function, entryFunction⟩, ⟨memoryName, .memory, 0⟩]).length ≤ 100 := by
    decide +kernel
  simp only [Wasm.Module.front, toModule, List.length_append, List.length_nil] at before after ⊢
  omega

/-- The module is read back, unless 32 bits cannot count its code. -/
theorem decode?_toModule (c : CompilerSettings) (p : Program) :
    Wasm.Module.decode? (p.toModule c).encode =
      if (p.codeSection c).length < 4294967296 then some (p.toModule c) else none :=
  Wasm.Module.decode?_encode_code (fits_toModule c p) (length_front_lt c p) (List.cons_ne_nil _ _)

open Wasm.Encode (framed header sized) in
/-- The emitted bytes are a faithful encoding of the generated module. They are the seven sections
in their order, each behind its own length, and the last one holds the opcodes as they were put out.
Reading them uses up every byte and gives the module back: its types, imports and exports, the pages
that hold the tape, the pointer at 0, and a body of just these opcodes with two locals. Code that 32
bits cannot count has no binary form, and only such bytes are not read. -/
theorem emit_faithful (c : CompilerSettings) (checked : c.check = .ok ()) (p : Program) :
    ∃ e, p.emit c = .ok e ∧
      (∃ types imports functions memories globals exports, e.bytes = header ++
        (framed 1 types ++ (framed 2 imports ++ (framed 3 functions ++ (framed 5 memories ++
        (framed 6 globals ++ (framed 7 exports ++ framed 10 (p.codeSection c)))))))) ∧
      p.codeSection c = Wasm.Leb128.encode 1 ++
        sized ([0x01, 0x02, 0x7F] ++ (p.entryOpcodes c).flatMap Opcode.encode) ∧
      ((p.codeSection c).length < 4294967296 → ∃ code : Code,
        code.opcodes ++ [.close] = p.entryOpcodes c ∧
        Wasm.Module.decode? e.bytes = some {
          types := [⟨1, 0⟩, ⟨0, 1⟩]
          imports := [⟨"imports", "output", 0⟩, ⟨"imports", "input", 1⟩]
          functions := [1]
          memories := [⟨c.pages, some c.pages⟩]
          globals := [⟨true, 0⟩]
          exports := [⟨"execute", .function, 2⟩, ⟨"memory", .memory, 0⟩]
          bodies := [⟨2, code⟩] }) ∧
      (4294967296 ≤ (p.codeSection c).length → Wasm.Module.decode? e.bytes = none) ∧
      ∀ n, c.pages ≤ n ↔ c.memorySize.toNat ≤ n * 65536 := by
  obtain ⟨e, emitted, bytes⟩ := emit_bytes checked p
  refine ⟨e, emitted, ?_, codeSection_eq c p, ?_, ?_, pages_le_iff c⟩
  · rw [bytes]
    exact ⟨_, _, _, _, _, _, rfl⟩
  · intro counted
    refine ⟨(p.body c).code, opcodes_body c p, ?_⟩
    rw [bytes, decode?_toModule, if_pos counted]
    rfl
  · intro long
    rw [bytes, decode?_toModule, if_neg (Nat.not_lt.mpr long)]

/-- On the widest tape the size is written as a negative number and read back as it was. -/
theorem emit_faithful_widest :
    let c : CompilerSettings := { memorySize := 2147483648, eof := .allOnes }
    let p := loop (op (.left 1) (op (.input (-3)) nil)) nil
    c.check = .ok () ∧ (p.codeSection c).length < 4294967296 ∧
      ∃ e code, p.emit c = .ok e ∧ code.opcodes ++ [.close] = p.entryOpcodes c ∧
        Opcode.plain (.const 2147483648) ∈ p.entryOpcodes c ∧
        ∃ m, Wasm.Module.decode? e.bytes = some m ∧ m.memories = [⟨32768, some 32768⟩] ∧
          m.bodies = [⟨2, code⟩] := by
  intro c p
  have pages : c.pages = 32768 := by decide
  have counted : (p.codeSection c).length < 4294967296 := by decide +kernel
  obtain ⟨e, emitted, _, _, read, _⟩ := emit_faithful c rfl p
  obtain ⟨code, opcodes, decoded⟩ := read counted
  rw [pages] at decoded
  exact ⟨rfl, counted, e, code, emitted, opcodes, by decide, _, decoded, rfl, rfl⟩

end Program
end TapeCompiler
