import TapeCompiler.Wasm.Module

/-!
Validation: every instruction finds the operands it needs, every index names something, and every
function leaves exactly its results.
-/

namespace TapeCompiler.Wasm

/-- The operands that are known to be on the stack. Behind an instruction that never goes on there
may be any number of others below them. -/
inductive Operands where
  | exactly (n : Nat)
  | atLeast (n : Nat)
deriving DecidableEq, Repr

namespace Operands

def push (k : Nat) : Operands → Operands
  | exactly n => exactly (n + k)
  | atLeast n => atLeast (n + k)

def pop? (k : Nat) : Operands → Option Operands
  | exactly n => if k ≤ n then some (exactly (n - k)) else none
  | atLeast n => some (atLeast (n - k))

/-- The stack may be taken for one of just `k` operands. -/
def is (k : Nat) : Operands → Bool
  | exactly n => n == k
  | atLeast n => n ≤ k

/-- Take `inputs` operands and leave `outputs`. -/
def step? (inputs outputs : Nat) (o : Operands) : Option Operands :=
  (o.pop? inputs).map (push outputs)

end Operands

/-- What code can refer to. -/
structure Context where
  within : Module
  locals : Nat
deriving DecidableEq, Repr

namespace Context

def hasMemory (c : Context) : Bool := !c.within.memories.isEmpty

/-- An imported function: bodies here call no others. -/
def callee? (c : Context) (function : Nat) : Option FuncType :=
  if function < c.within.imports.length then c.within.functionType? function else none

end Context

/-- The operands after an instruction. -/
def Instr.check? (c : Context) (o : Operands) : Instr → Option Operands
  | unreachable => some (.atLeast 0)
  | call function => do
    let t ← c.callee? function
    o.step? t.params t.results
  | localGet index => if index < c.locals then o.step? 0 1 else none
  | localSet index => if index < c.locals then o.step? 1 0 else none
  | localTee index => if index < c.locals then o.step? 1 1 else none
  | globalGet index => do
    let _ ← c.within.globals[index]?
    o.step? 0 1
  | globalSet index => do
    let g ← c.within.globals[index]?
    if g.isMutable then o.step? 1 0 else none
  | load8 _ => if c.hasMemory then o.step? 1 1 else none
  | store8 _ => if c.hasMemory then o.step? 2 0 else none
  | const _ => o.step? 0 1
  | eqz => o.step? 1 1
  | geS => o.step? 2 1
  | add => o.step? 2 1
  | sub => o.step? 2 1
  | mul => o.step? 2 1
  | remU => o.step? 2 1

namespace Code

/-- The operands at the end of code that starts with `o`. `labels` holds, innermost first, how
many operands a branch to each enclosing label takes along. Structured control takes and leaves
none. -/
def check? (c : Context) : (labels : List Nat) → Operands → Code → Option Operands
  | _, o, done => some o
  | labels, o, plain i next =>
    match i.check? c o with
    | none => none
    | some o => check? c labels o next
  | labels, o, br label next =>
    match labels[label]?.bind o.pop? with
    | none => none
    | some _ => check? c labels (.atLeast 0) next
  | labels, o, brIf label next =>
    match (o.pop? 1).bind fun o => labels[label]?.bind fun k => o.step? k k with
    | none => none
    | some o => check? c labels o next
  | labels, o, block body next =>
    match check? c (0 :: labels) (.exactly 0) body with
    | none => none
    | some e => if e.is 0 then check? c labels o next else none
  | labels, o, loop body next =>
    match check? c (0 :: labels) (.exactly 0) body with
    | none => none
    | some e => if e.is 0 then check? c labels o next else none
  | labels, o, ifThen body next =>
    match o.pop? 1, check? c (0 :: labels) (.exactly 0) body with
    | some o, some e => if e.is 0 then check? c labels o next else none
    | _, _ => none
  | labels, o, ifElse yes no next =>
    match o.pop? 1, check? c (0 :: labels) (.exactly 0) yes,
        check? c (0 :: labels) (.exactly 0) no with
    | some o, some e, some f => if e.is 0 && f.is 0 then check? c labels o next else none
    | _, _, _ => none

end Code

/-- The body has the type `t` in the module. -/
def Body.isValid (m : Module) (t : FuncType) (b : Body) : Bool :=
  match b.code.check? ⟨m, t.params + b.locals⟩ [t.results] (.exactly 0) with
  | some o => o.is t.results
  | none => false

/-- A memory may have all that 32 bits can address. -/
def Limits.isValid (l : Limits) : Bool :=
  l.least ≤ 65536 && l.most.all fun most => l.least ≤ most && most ≤ 65536

namespace Module

def exportIsValid (m : Module) (e : Export) : Bool :=
  match e.kind with
  | .function => e.index < m.imports.length + m.functions.length
  | .memory => e.index < m.memories.length
  | .global => e.index < m.globals.length

def isValid (m : Module) : Bool :=
  m.functionTypes.all Option.isSome &&
  m.functions.length == m.bodies.length &&
  m.memories.length ≤ 1 && m.memories.all Limits.isValid &&
  m.exports.all m.exportIsValid && decide (m.exports.map Export.name).Nodup &&
  m.start.all (fun f => m.functionType? f == some ⟨0, 0⟩) &&
  (m.functions.zip m.bodies).all fun (type, body) =>
    match m.types[type]? with
    | some t => body.isValid m t
    | none => false

end Module
end TapeCompiler.Wasm
