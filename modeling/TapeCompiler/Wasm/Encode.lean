import TapeCompiler.Text.Utf8
import TapeCompiler.Wasm.Leb128
import TapeCompiler.Wasm.Module

/-! The binary form of modules. -/

namespace TapeCompiler.Wasm

def Instr.encode : Instr → List UInt8
  | unreachable => [0x00]
  | call function => 0x10 :: Leb128.encode function
  | localGet index => 0x20 :: Leb128.encode index
  | localSet index => 0x21 :: Leb128.encode index
  | localTee index => 0x22 :: Leb128.encode index
  | globalGet index => 0x23 :: Leb128.encode index
  | globalSet index => 0x24 :: Leb128.encode index
  | load8 offset => 0x2D :: 0x00 :: Leb128.encode offset.toNat
  | store8 offset => 0x3A :: 0x00 :: Leb128.encode offset.toNat
  | const value => 0x41 :: Leb128.encodeWord value
  | eqz => [0x45]
  | geS => [0x4E]
  | add => [0x6A]
  | sub => [0x6B]
  | mul => [0x6C]
  | remU => [0x70]

/-- The instructions, without the mark that ends them. -/
def Code.encode : Code → List UInt8
  | done => []
  | plain i next => i.encode ++ next.encode
  | br label next => 0x0C :: (Leb128.encode label ++ next.encode)
  | brIf label next => 0x0D :: (Leb128.encode label ++ next.encode)
  | block body next => 0x02 :: 0x40 :: (body.encode ++ 0x0B :: next.encode)
  | loop body next => 0x03 :: 0x40 :: (body.encode ++ 0x0B :: next.encode)
  | ifThen body next => 0x04 :: 0x40 :: (body.encode ++ 0x0B :: next.encode)
  | ifElse yes no next =>
    0x04 :: 0x40 :: (yes.encode ++ 0x05 :: (no.encode ++ 0x0B :: next.encode))

namespace Encode

/-- A list, after its length. -/
def vector {α : Type} (item : α → List UInt8) (xs : List α) : List UInt8 :=
  Leb128.encode xs.length ++ xs.flatMap item

/-- Bytes, after their number. -/
def sized (bytes : List UInt8) : List UInt8 :=
  Leb128.encode bytes.length ++ bytes

def name (s : String) : List UInt8 :=
  sized (Utf8.encode s)

def values (n : Nat) : List UInt8 :=
  vector (fun b => [b]) (List.replicate n (0x7F : UInt8))

def funcType (t : FuncType) : List UInt8 :=
  0x60 :: (values t.params ++ values t.results)

def importEntry (i : Import) : List UInt8 :=
  name i.space ++ name i.name ++ 0x00 :: Leb128.encode i.type

def limits (l : Limits) : List UInt8 :=
  match l.most with
  | none => 0x00 :: Leb128.encode l.least
  | some most => 0x01 :: (Leb128.encode l.least ++ Leb128.encode most)

def globalEntry (g : Global) : List UInt8 :=
  0x7F :: (if g.isMutable then 0x01 else 0x00) :: 0x41 :: (Leb128.encodeWord g.value ++ [0x0B])

def exportKind : ExportKind → UInt8
  | .function => 0x00
  | .memory => 0x02
  | .global => 0x03

def exportEntry (e : Export) : List UInt8 :=
  name e.name ++ exportKind e.kind :: Leb128.encode e.index

/-- The locals of a body, as one run. -/
def localRun (n : Nat) : List UInt8 :=
  if n = 0 then [0x00] else 0x01 :: (Leb128.encode n ++ [0x7F])

def body (b : Body) : List UInt8 :=
  sized (localRun b.locals ++ (b.code.encode ++ [0x0B]))

def framed (id : UInt8) (payload : List UInt8) : List UInt8 :=
  id :: sized payload

/-- A section that holds a list; an empty one is left out. -/
def listSection {α : Type} (id : UInt8) (item : α → List UInt8) (xs : List α) : List UInt8 :=
  if xs.isEmpty then [] else framed id (vector item xs)

def header : List UInt8 :=
  [0x00, 0x61, 0x73, 0x6D, 0x01, 0x00, 0x00, 0x00]

end Encode

open Encode in
def Module.encode (m : Module) : List UInt8 :=
  header ++
    (listSection 1 funcType m.types ++
    (listSection 2 importEntry m.imports ++
    (listSection 3 Leb128.encode m.functions ++
    (listSection 5 limits m.memories ++
    (listSection 6 globalEntry m.globals ++
    (listSection 7 exportEntry m.exports ++
    ((match m.start with
      | none => []
      | some f => framed 8 (Leb128.encode f)) ++
    listSection 10 body m.bodies)))))))

end TapeCompiler.Wasm
