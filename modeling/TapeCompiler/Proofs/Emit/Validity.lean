import TapeCompiler.Emit.Module
import TapeCompiler.Proofs.Wasm.RoundTrip
import TapeCompiler.Proofs.Wasm.Typing

/-!
The code for programs is well typed. Every operation and every loop leaves the operand stack at the
height it found, whatever lies below and around it, so validation goes on behind them as if they
were not there (`check?_code`). Its numbers fit their binary forms (`fits_code`), so what the
decoder reads back from the emitted bytes is the module that was typed.
-/

namespace TapeCompiler

open Wasm (Code Context Operands)
open Emit

namespace Emit

/-- What the code for programs refers to. -/
structure Provides (c : Context) : Prop where
  output : c.callee? outputFunction = some sinkType
  input : c.callee? inputFunction = some sourceType
  pointer : ∃ g, c.within.globals[pointerGlobal]? = some g ∧ g.isMutable = true
  locals : c.locals = 2
  memory : c.hasMemory = true

/-- The operands after straight-line instructions. -/
def checkAll? (c : Context) (o : Operands) (is : List Wasm.Instr) : Option Operands :=
  is.foldlM (fun o i => i.check? c o) o

variable {c : Context} {labels : List Nat} {o : Operands} {n : Nat} {size : UInt32}
  {offset : Int32} {next : Code}

@[simp]
theorem checkAll?_nil : checkAll? c o [] = some o := rfl

@[simp]
theorem checkAll?_cons {i : Wasm.Instr} {is : List Wasm.Instr} :
    checkAll? c o (i :: is) = (i.check? c o).bind (fun o => checkAll? c o is) := rfl

@[simp]
theorem checkAll?_append {is is' : List Wasm.Instr} :
    checkAll? c o (is ++ is') = (checkAll? c o is).bind (fun o => checkAll? c o is') := by
  simp [checkAll?, List.foldlM_append]

@[simp]
theorem check?_prepend {is : List Wasm.Instr} :
    (Code.prepend is next).check? c labels o =
      (checkAll? c o is).bind (fun o => next.check? c labels o) := by
  induction is generalizing o with
  | nil => rfl
  | cons i is ih =>
    have first : (Code.prepend (i :: is) next).check? c labels o =
        (i.check? c o).bind (fun o => (Code.prepend is next).check? c labels o) := by
      rw [Code.prepend, List.foldr_cons, Code.check?]
      cases i.check? c o <;> rfl
    rw [first, checkAll?_cons, Option.bind_assoc]
    congr 1
    funext o
    exact ih

@[simp]
theorem exactly_step? {k b : Nat} (enough : k ≤ n) :
    (Operands.exactly n).step? k b = some (.exactly (n - k + b)) := by
  simp [Operands.step?, Operands.pop?, enough, Operands.push]

@[simp]
theorem checkAll?_wrapped (h : Provides c) (delta : UInt32) :
    checkAll? c (.exactly n) (wrapped size delta) = some (.exactly (n + 1)) := by
  obtain ⟨g, pointer, _⟩ := h.pointer
  unfold wrapped
  split
  · simp [Wasm.Instr.check?, pointer]
  · simp [Wasm.Instr.check?, pointer]

@[simp]
theorem checkAll?_address (h : Provides c) :
    checkAll? c (.exactly n) (address size offset) = some (.exactly (n + 1)) :=
  checkAll?_wrapped h _

@[simp]
theorem checkAll?_loadCell (h : Provides c) :
    checkAll? c (.exactly n) (loadCell size offset) = some (.exactly (n + 1)) := by
  simp [loadCell, h, Wasm.Instr.check?, h.memory]

@[simp]
theorem checkAll?_openCell (h : Provides c) :
    checkAll? c (.exactly n) (openCell size offset) = some (.exactly (n + 2)) := by
  simp [openCell, h, Wasm.Instr.check?, h.memory, h.locals, addressLocal]

@[simp]
theorem checkAll?_movePointer (h : Provides c) (delta : UInt32) :
    checkAll? c (.exactly n) (movePointer size delta) = some (.exactly n) := by
  obtain ⟨g, pointer, free⟩ := h.pointer
  unfold movePointer
  split
  · rfl
  · simp [h, Wasm.Instr.check?, pointer, free]

@[simp]
theorem checkAll?_storeConst (h : Provides c) (value : UInt8) :
    checkAll? c (.exactly n) (storeConst size offset value) = some (.exactly n) := by
  simp [storeConst, h, Wasm.Instr.check?, h.memory]

@[simp]
theorem checkAll?_storeInput (h : Provides c) :
    checkAll? c (.exactly n) (storeInput size offset) = some (.exactly n) := by
  simp [storeInput, h, Wasm.Instr.check?, h.memory, h.locals, inputLocal]

end Emit

variable {c : Context} {labels : List Nat} {n : Nat} {size : UInt32} {eof : EofPolicy}

/-- An operation leaves the height of the stack as it is. -/
theorem Op.check?_code (h : Provides c) (o : Op) (next : Code) :
    (o.code size eof next).check? c labels (.exactly n) = next.check? c labels (.exactly n) := by
  cases o with
  | right count => simp [Op.code, h]
  | left count => simp [Op.code, h]
  | add amount offset =>
    simp [Op.code, h, Wasm.Instr.check?, h.memory]
  | sub amount offset =>
    simp [Op.code, h, Wasm.Instr.check?, h.memory]
  | mul dest factor source =>
    simp [Op.code, h, Wasm.Instr.check?, h.memory]
  | clear offset => simp [Op.code, h]
  | output offset =>
    simp [Op.code, h, Wasm.Instr.check?, h.output, sinkType]
  | input offset =>
    have store : (Code.prepend (storeInput size offset) .done).check? c (0 :: labels) (.exactly 0) =
        some (.exactly 0) := by simp [h, Code.check?]
    simp only [Op.code]
    cases eof.fill? with
    | none =>
      simp [Wasm.Instr.check?, h.input, h.locals, inputLocal, sourceType, Code.check?, store,
        Operands.pop?, Operands.is]
    | some fill =>
      have other : (Code.prepend (storeConst size offset fill) .done).check? c (0 :: labels)
          (.exactly 0) = some (.exactly 0) := by simp [h, Code.check?]
      simp [Wasm.Instr.check?, h.input, h.locals, inputLocal, sourceType, Code.check?, store, other,
        Operands.pop?, Operands.is]

/-- A program leaves the height of the stack as it is. -/
theorem Program.check?_code (h : Provides c) (p : Program) (next : Code) :
    (p.code size eof next).check? c labels (.exactly n) = next.check? c labels (.exactly n) := by
  induction p generalizing labels n next with
  | nil => rfl
  | op o rest ih => rw [Program.code, Op.check?_code h, ih]
  | loop body rest ihBody ihRest =>
    -- From inside the block, its own label is 0 and that of the loop is 1.
    have inside : (body.code size eof (.br 1 .done)).check? c (0 :: 0 :: labels) (.exactly 0) =
        some (.atLeast 0) := by
      rw [ihBody]
      rfl
    simp [Program.code, Code.check?, h, Wasm.Instr.check?, Operands.pop?, Operands.is, inside,
      ihRest]

/-! ### The module -/

theorem Emit.provides_toModule (s : CompilerSettings) (p : Program) :
    Provides ⟨p.toModule s, 2⟩ where
  output := rfl
  input := rfl
  pointer := ⟨_, rfl, rfl⟩
  locals := rfl
  memory := rfl

namespace Program

theorem check?_body (s : CompilerSettings) (p : Program) :
    (p.body s).code.check? ⟨p.toModule s, 2⟩ [1] (.exactly 0) = some (.exactly 1) := by
  rw [body, check?_code (provides_toModule s p)]
  rfl

theorem typed_body (s : CompilerSettings) (p : Program) :
    (p.body s).code.Typed ⟨p.toModule s, 2⟩ [1] 0 1 :=
  Code.typed_iff_check?.mpr ⟨_, check?_body s p, rfl⟩

theorem pages_le (s : CompilerSettings) : s.pages ≤ 65536 := by
  have bound := s.memorySize.toNat_lt
  simp only [CompilerSettings.pages, Wasm.pageSize]
  omega

theorem isValid_limits {n : Nat} (h : n ≤ 65536) : Wasm.Limits.isValid ⟨n, some n⟩ = true := by
  simp [Wasm.Limits.isValid, h]

theorem isValid_toModule (s : CompilerSettings) (p : Program) : (p.toModule s).isValid = true := by
  have memory : (p.toModule s).memories.all Wasm.Limits.isValid = true := by
    simp [toModule, isValid_limits (pages_le s)]
  have bodies : (p.body s).isValid (p.toModule s) sourceType = true :=
    Wasm.Body.isValid_iff.mpr (typed_body s p)
  have names : decide ((p.toModule s).exports.map Wasm.Export.name).Nodup = true := by
    show decide [entryName, memoryName].Nodup = true
    decide
  unfold Wasm.Module.isValid
  rw [memory, names]
  simp only [Bool.and_true, Bool.and_eq_true]
  refine ⟨⟨⟨⟨⟨rfl, rfl⟩, rfl⟩, rfl⟩, rfl⟩, ?_⟩
  simpa [toModule] using bodies

end Program

/-! ### Its binary form -/

namespace Emit

def AllFit (is : List Wasm.Instr) : Prop :=
  ∀ i ∈ is, i.Fits

@[simp]
theorem allFit_nil : AllFit [] := by
  simp [AllFit]

@[simp]
theorem allFit_cons {i : Wasm.Instr} {is : List Wasm.Instr} :
    AllFit (i :: is) ↔ i.Fits ∧ AllFit is := List.forall_mem_cons

@[simp]
theorem allFit_append {is is' : List Wasm.Instr} :
    AllFit (is ++ is') ↔ AllFit is ∧ AllFit is' := List.forall_mem_append

@[simp]
theorem fits_prepend {is : List Wasm.Instr} {next : Code} :
    (Code.prepend is next).Fits ↔ AllFit is ∧ next.Fits := by
  induction is with
  | nil => simp [Code.prepend]
  | cons i is ih =>
    show i.Fits ∧ (Code.prepend is next).Fits ↔ _
    rw [ih, allFit_cons, and_assoc]

@[simp]
theorem allFit_wrapped (size delta : UInt32) : AllFit (wrapped size delta) := by
  unfold wrapped
  split <;> simp [Wasm.Instr.Fits, pointerGlobal]

@[simp]
theorem allFit_address (size : UInt32) (offset : Int32) : AllFit (address size offset) :=
  allFit_wrapped size _

@[simp]
theorem allFit_movePointer (size delta : UInt32) : AllFit (movePointer size delta) := by
  unfold movePointer
  split <;> simp [Wasm.Instr.Fits, pointerGlobal]

end Emit

theorem Op.fits_code (size : UInt32) (eof : EofPolicy) (o : Op) {next : Code} (h : next.Fits) :
    (o.code size eof next).Fits := by
  cases o with
  | right count => simp [Op.code, h]
  | left count => simp [Op.code, h]
  | add amount offset => simp [Op.code, openCell, Wasm.Instr.Fits, addressLocal, h]
  | sub amount offset => simp [Op.code, openCell, Wasm.Instr.Fits, addressLocal, h]
  | mul dest factor source =>
    simp [Op.code, openCell, loadCell, Wasm.Instr.Fits, addressLocal, h]
  | clear offset => simp [Op.code, storeConst, Wasm.Instr.Fits, h]
  | output offset => simp [Op.code, loadCell, Wasm.Instr.Fits, outputFunction, h]
  | input offset =>
    simp only [Op.code]
    cases eof.fill? with
    | none => simp [Wasm.Instr.Fits, Code.Fits, storeInput, inputFunction, inputLocal, h]
    | some fill =>
      simp [Wasm.Instr.Fits, Code.Fits, storeInput, storeConst, inputFunction, inputLocal, h]

namespace Program

theorem fits_code (size : UInt32) (eof : EofPolicy) (p : Program) {next : Code} (h : next.Fits) :
    (p.code size eof next).Fits := by
  induction p generalizing next with
  | nil => exact h
  | op o rest ih => exact Op.fits_code size eof o (ih h)
  | loop body rest ihBody ihRest =>
    have inside : (body.code size eof (.br 1 .done)).Fits := ihBody (by simp [Code.Fits])
    simp [Program.code, Code.Fits, loadCell, Wasm.Instr.Fits, inside, ihRest h]

theorem fits_toModule (s : CompilerSettings) (p : Program) : (p.toModule s).Fits := by
  have pages := pages_le s
  have code : (p.body s).code.Fits :=
    fits_code _ _ p (by simp [Code.Fits, Wasm.Instr.Fits, pointerGlobal])
  constructor
  · simp [toModule]
  · simp [toModule]
  · simp [toModule, Wasm.Limits.Fits]
    omega
  · simp [toModule, entryFunction]
  · simp [toModule]
  · simp [toModule, Wasm.Body.Fits, code]
    simp [body]

theorem accept?_encode (s : CompilerSettings) (p : Program)
    (small : (p.toModule s).encode.length < 4294967296) :
    Wasm.Module.accept? (p.toModule s).encode = some (p.toModule s) := by
  rw [Wasm.Module.accept?, Wasm.Module.decode?_encode (fits_toModule s p) small]
  simp [isValid_toModule]

theorem emit_bytes {s : CompilerSettings} (checked : s.check = .ok ()) (p : Program) :
    ∃ e, p.emit s = .ok e ∧ e.bytes = (p.toModule s).encode := by
  unfold emit
  rw [checked]
  exact ⟨_, rfl, rfl⟩

/-- Every emitted module is valid. Its entry function takes nothing, has two locals and leaves one
value; each instruction of the program leaves the stack at the height it found, wherever it stands;
and what is emitted, unless it has more bytes than 32 bits can count, passes the check. -/
theorem emit_valid (s : CompilerSettings) (checked : s.check = .ok ()) (p : Program) :
    (p.toModule s).functionType? entryFunction = some ⟨0, 1⟩ ∧
    (p.toModule s).body? entryFunction = some (p.body s) ∧ (p.body s).locals = 2 ∧
    (p.body s).code.Typed ⟨p.toModule s, 2⟩ [1] 0 1 ∧
    (∀ (q : Program) (labels : List Nat) (n : Nat),
      (q.code s.memorySize s.eof .done).Typed ⟨p.toModule s, 2⟩ labels n n) ∧
    ∃ e, p.emit s = .ok e ∧ (e.bytes.length < 4294967296 →
      Wasm.Module.accept? e.bytes = some (p.toModule s) ∧ checkModule e.bytes = .ok ()) := by
  refine ⟨rfl, rfl, rfl, typed_body s p, ?_, ?_⟩
  · intro q labels n
    refine Code.typed_iff_check?.mpr ⟨.exactly n, ?_, Operands.exactly_is.mpr rfl⟩
    rw [check?_code (provides_toModule s p)]
    rfl
  · obtain ⟨e, emitted, bytes⟩ := emit_bytes checked p
    refine ⟨e, emitted, fun small => ?_⟩
    rw [bytes] at small ⊢
    have accepted := accept?_encode s p small
    exact ⟨accepted, by rw [checkModule, accepted]⟩

/-- Nested loops with a conditional inside, on a tape of three cells. -/
theorem emit_valid_nested :
    let s : CompilerSettings := { memorySize := 3, eof := .zero }
    let p := loop (op (.input (-4)) (loop (op (.mul 1 2 0) (op (.left 7) nil)) nil)) nil
    s.check = .ok () ∧ (p.body s).code.Typed ⟨p.toModule s, 2⟩ [1] 0 1 ∧
      ∃ e, p.emit s = .ok e ∧ e.bytes.length < 4294967296 ∧ checkModule e.bytes = .ok () := by
  intro s p
  obtain ⟨_, _, _, typed, _, e, emitted, passes⟩ := emit_valid s rfl p
  have bytes : e.bytes = (p.toModule s).encode := by
    obtain rfl := Except.ok.inj emitted
    rfl
  have small : (p.toModule s).encode.length < 4294967296 := by decide +kernel
  rw [← bytes] at small
  exact ⟨rfl, typed, e, emitted, small, (passes small).2⟩

end Program
end TapeCompiler
