import TapeCompiler.Proofs.Wasm.Leb128
import TapeCompiler.Wasm.Decode

/-!
The parts of a binary module are read as they were written, whatever follows them. Lengths and
indices are written as 32-bit numbers, so every part has to be shorter than `2 ^ 32` bytes and its
indices have to fit (`Fits`).
-/

namespace TapeCompiler.Wasm

/-! ### Numbers that fit -/

def Limits.Fits (l : Limits) : Prop :=
  l.least < 4294967296 ∧ ∀ most ∈ l.most, most < 4294967296

def Instr.Fits : Instr → Prop
  | call function => function < 4294967296
  | localGet index => index < 4294967296
  | localSet index => index < 4294967296
  | localTee index => index < 4294967296
  | globalGet index => index < 4294967296
  | globalSet index => index < 4294967296
  | _ => True

def Code.Fits : Code → Prop
  | done => True
  | plain i next => i.Fits ∧ next.Fits
  | br label next => label < 4294967296 ∧ next.Fits
  | brIf label next => label < 4294967296 ∧ next.Fits
  | block body next => body.Fits ∧ next.Fits
  | loop body next => body.Fits ∧ next.Fits
  | ifThen body next => body.Fits ∧ next.Fits
  | ifElse yes no next => yes.Fits ∧ no.Fits ∧ next.Fits

def Body.Fits (b : Body) : Prop :=
  b.locals < 4294967296 ∧ b.code.Fits

/-- The indices and sizes in a module are 32-bit numbers. -/
structure Module.Fits (m : Module) : Prop where
  imports : ∀ i ∈ m.imports, i.type < 4294967296
  functions : ∀ type ∈ m.functions, type < 4294967296
  memories : ∀ l ∈ m.memories, l.Fits
  exports : ∀ e ∈ m.exports, e.index < 4294967296
  start : ∀ f ∈ m.start, f < 4294967296
  bodies : ∀ b ∈ m.bodies, b.Fits

/-! ### Readers -/

/-- From `bytes` the reader takes `x` and leaves what follows. -/
def Decode.Reads {α : Type} (item : Reader α) (bytes : List UInt8) (x : α) : Prop :=
  ∀ rest, item (bytes ++ rest) = some (x, rest)

namespace Decode

variable {α : Type} {item : Reader α} {write : α → List UInt8}

theorem reads_leb128 {n : Nat} (h : n < 4294967296) : Reads Leb128.decode? (Leb128.encode n) n :=
  Leb128.decode?_encode h

theorem reads_word (w : UInt32) : Reads Leb128.decodeWord? (Leb128.encodeWord w) w :=
  Leb128.decodeWord?_encodeWord w

theorem reads_take (bytes : List UInt8) : Reads (take bytes.length) bytes bytes := by
  intro rest
  induction bytes with
  | nil => rfl
  | cons b bytes ih => simp [take, ih]

theorem length_le_sized (bytes : List UInt8) : bytes.length ≤ (Encode.sized bytes).length := by
  simp only [Encode.sized, List.length_append]
  omega

theorem reads_sized {bytes : List UInt8} (counted : bytes.length < 4294967296) :
    Reads sized (Encode.sized bytes) bytes := by
  intro rest
  simp [sized, Encode.sized, reads_leb128 counted _, reads_take bytes _]

/-- More bytes than 32 bits can count are not read. -/
theorem sized_none {bytes : List UInt8} (long : 4294967296 ≤ bytes.length) (rest : List UInt8) :
    sized (Encode.sized bytes ++ rest) = none := by
  simp [sized, Encode.sized, Leb128.decode?_encode_none long _]

theorem Reads.whole {bytes : List UInt8} {x : α} (h : Reads item bytes x) :
    whole item bytes = some x := by
  have read := h []
  rw [List.append_nil] at read
  simp [Decode.whole, read]

theorem reads_repeated {xs : List α} (h : ∀ x ∈ xs, Reads item (write x) x) :
    Reads (repeated item xs.length) (xs.flatMap write) xs := by
  intro rest
  induction xs with
  | nil => rfl
  | cons x xs ih =>
    have first := h x List.mem_cons_self (xs.flatMap write ++ rest)
    have others := ih fun y hy => h y (List.mem_cons_of_mem x hy)
    simp [repeated, first, others]

theorem length_le_flatMap {xs : List α} (nonempty : ∀ x ∈ xs, write x ≠ []) :
    xs.length ≤ (xs.flatMap write).length := by
  induction xs with
  | nil => simp
  | cons x xs ih =>
    have first := List.length_pos_iff.mpr (nonempty x List.mem_cons_self)
    have others := ih fun y hy => nonempty y (List.mem_cons_of_mem x hy)
    simp only [List.length_cons, List.flatMap_cons, List.length_append]
    omega

theorem length_item_le (write : α → List UInt8) {xs : List α} {x : α} (h : x ∈ xs) :
    (write x).length ≤ (xs.flatMap write).length := by
  induction xs with
  | nil => contradiction
  | cons y ys ih =>
    simp only [List.flatMap_cons, List.length_append]
    cases h with
    | head => omega
    | tail _ h => exact Nat.le_trans (ih h) (Nat.le_add_left _ _)

/-- A list is read if every item of it is that is short enough. -/
theorem reads_vector {xs : List α} (small : (Encode.vector write xs).length < 4294967296)
    (nonempty : ∀ x ∈ xs, write x ≠ [])
    (h : ∀ x ∈ xs, (write x).length < 4294967296 → Reads item (write x) x) :
    Reads (vector item) (Encode.vector write xs) xs := by
  intro rest
  simp only [Encode.vector, List.length_append] at small
  have count := length_le_flatMap nonempty
  have items : ∀ x ∈ xs, Reads item (write x) x := by
    intro x hx
    have part := length_item_le write hx
    exact h x hx (by omega)
  have counted : xs.length < 4294967296 := by omega
  simp [vector, Encode.vector, reads_leb128 counted _, reads_repeated items rest]

theorem reads_name {s : String} (small : (Encode.name s).length < 4294967296) :
    Reads name (Encode.name s) s := by
  intro rest
  have counted : (Utf8.encode s).length < 4294967296 := Nat.lt_of_le_of_lt (length_le_sized _) small
  simp [name, Encode.name, reads_sized counted rest, Utf8.decode?_encode]

theorem reads_values {n : Nat} (small : (Encode.values n).length < 4294967296) :
    Reads values (Encode.values n) n := by
  have units : Encode.values n =
      Encode.vector (fun _ : Unit => [0x7F]) (List.replicate n ()) := by
    simp [Encode.values, Encode.vector, List.flatMap_replicate]
  rw [units] at small ⊢
  have read : Reads (vector (exactly 0x7F)) _ _ :=
    reads_vector small (by simp) (by simp [Reads, exactly])
  intro rest
  simp [values, read rest]

theorem reads_funcType {t : FuncType} (small : (Encode.funcType t).length < 4294967296) :
    Reads funcType (Encode.funcType t) t := by
  intro rest
  simp only [Encode.funcType, List.length_cons, List.length_append] at small
  have params := reads_values (show (Encode.values t.params).length < 4294967296 by omega)
  have results := reads_values (show (Encode.values t.results).length < 4294967296 by omega)
  simp [funcType, Encode.funcType, exactly, params _, results _]

theorem reads_importEntry {i : Import} (small : (Encode.importEntry i).length < 4294967296)
    (fits : i.type < 4294967296) : Reads importEntry (Encode.importEntry i) i := by
  intro rest
  simp only [Encode.importEntry, List.length_cons, List.length_append] at small
  have space := reads_name (show (Encode.name i.space).length < 4294967296 by omega)
  have name := reads_name (show (Encode.name i.name).length < 4294967296 by omega)
  simp [importEntry, Encode.importEntry, space _, name _, exactly, reads_leb128 fits _]

theorem reads_limits {l : Limits} (fits : l.Fits) : Reads limits (Encode.limits l) l := by
  intro rest
  obtain ⟨least, most⟩ := l
  obtain ⟨hleast, hmost⟩ := fits
  cases most with
  | none => simp [limits, Encode.limits, byte, reads_leb128 hleast _]
  | some most =>
    simp [limits, Encode.limits, byte, reads_leb128 hleast _, reads_leb128 (hmost most rfl) _]

theorem reads_globalEntry (g : Global) : Reads globalEntry (Encode.globalEntry g) g := by
  intro rest
  obtain ⟨isMutable, value⟩ := g
  cases isMutable with
  | false => simp [globalEntry, Encode.globalEntry, exactly, mutability, byte, reads_word value _]
  | true => simp [globalEntry, Encode.globalEntry, exactly, mutability, byte, reads_word value _]

theorem reads_exportEntry {e : Export} (small : (Encode.exportEntry e).length < 4294967296)
    (fits : e.index < 4294967296) : Reads exportEntry (Encode.exportEntry e) e := by
  intro rest
  simp only [Encode.exportEntry, List.length_cons, List.length_append] at small
  have name := reads_name (show (Encode.name e.name).length < 4294967296 by omega)
  obtain ⟨_, kind, index⟩ := e
  cases kind with
  | function =>
    simp [exportEntry, Encode.exportEntry, name _, exportKind, Encode.exportKind, byte,
      reads_leb128 fits _]
  | memory =>
    simp [exportEntry, Encode.exportEntry, name _, exportKind, Encode.exportKind, byte,
      reads_leb128 fits _]
  | global =>
    simp [exportEntry, Encode.exportEntry, name _, exportKind, Encode.exportKind, byte,
      reads_leb128 fits _]

/-! ### Code -/

/-- The opcodes that `code` reads itself. -/
def controlOpcodes : List UInt8 := [0x02, 0x03, 0x04, 0x05, 0x0B, 0x0C, 0x0D]

theorem reads_indexed {make : Nat → Instr} {n : Nat} (fits : n < 4294967296) :
    Reads (indexed make) (Leb128.encode n) (make n) := by
  intro rest
  simp [indexed, reads_leb128 fits rest]

theorem reads_access (make : UInt32 → Instr) (offset : UInt32) :
    Reads (access make) (0x00 :: Leb128.encode offset.toNat) (make offset) := by
  intro rest
  simp [access, exactly, reads_leb128 offset.toNat_lt rest]

theorem reads_operands {i : Instr} (fits : i.Fits) :
    ∃ opcode operand, i.encode = opcode :: operand ∧ opcode ∉ controlOpcodes ∧
      Reads (operands opcode) operand i := by
  cases i with
  | unreachable => exact ⟨0x00, [], rfl, by decide, fun _ => rfl⟩
  | call function => exact ⟨0x10, _, rfl, by decide, reads_indexed fits⟩
  | localGet index => exact ⟨0x20, _, rfl, by decide, reads_indexed fits⟩
  | localSet index => exact ⟨0x21, _, rfl, by decide, reads_indexed fits⟩
  | localTee index => exact ⟨0x22, _, rfl, by decide, reads_indexed fits⟩
  | globalGet index => exact ⟨0x23, _, rfl, by decide, reads_indexed fits⟩
  | globalSet index => exact ⟨0x24, _, rfl, by decide, reads_indexed fits⟩
  | load8 offset => exact ⟨0x2D, _, rfl, by decide, reads_access .load8 offset⟩
  | store8 offset => exact ⟨0x3A, _, rfl, by decide, reads_access .store8 offset⟩
  | const value =>
    refine ⟨0x41, _, rfl, by decide, fun rest => ?_⟩
    simp [operands, reads_word value rest]
  | eqz => exact ⟨0x45, [], rfl, by decide, fun _ => rfl⟩
  | geS => exact ⟨0x4E, [], rfl, by decide, fun _ => rfl⟩
  | add => exact ⟨0x6A, [], rfl, by decide, fun _ => rfl⟩
  | sub => exact ⟨0x6B, [], rfl, by decide, fun _ => rfl⟩
  | mul => exact ⟨0x6C, [], rfl, by decide, fun _ => rfl⟩
  | remU => exact ⟨0x70, [], rfl, by decide, fun _ => rfl⟩

/-- The byte that stands for an ending. -/
def mark : Ending → UInt8
  | .close => 0x0B
  | .otherwise => 0x05

theorem mark_close : mark .close = 0x0B := rfl

theorem mark_otherwise : mark .otherwise = 0x05 := rfl

/-- Code is read up to the mark of its ending. -/
theorem code_encode {c : Code} (fits : c.Fits) (ending : Ending) {fuel : Nat}
    (enough : c.encode.length ≤ fuel) (rest : List UInt8) :
    code (fuel + 1) (c.encode ++ mark ending :: rest) = some ((c, ending), rest) := by
  induction c generalizing ending fuel rest with
  | done => cases ending <;> simp [Code.encode, mark, code]
  | plain i next ih =>
    obtain ⟨opcode, operand, first, straight, read⟩ := reads_operands fits.1
    simp only [Code.encode, first, List.cons_append, List.length_cons, List.length_append] at enough
    obtain ⟨fuel, rfl⟩ : ∃ k, fuel = k + 1 := ⟨fuel - 1, by omega⟩
    have others := ih fits.2 ending (show _ ≤ fuel by omega) rest
    simp only [controlOpcodes, List.mem_cons, List.not_mem_nil, or_false, not_or] at straight
    simp [Code.encode, first, code, straight, read _, others]
  | br label next ih =>
    simp only [Code.encode, List.length_cons, List.length_append] at enough
    obtain ⟨fuel, rfl⟩ : ∃ k, fuel = k + 1 := ⟨fuel - 1, by omega⟩
    have others := ih fits.2 ending (show _ ≤ fuel by omega) rest
    simp [Code.encode, code, reads_leb128 fits.1 _, others]
  | brIf label next ih =>
    simp only [Code.encode, List.length_cons, List.length_append] at enough
    obtain ⟨fuel, rfl⟩ : ∃ k, fuel = k + 1 := ⟨fuel - 1, by omega⟩
    have others := ih fits.2 ending (show _ ≤ fuel by omega) rest
    simp [Code.encode, code, reads_leb128 fits.1 _, others]
  | block body next ihBody ih =>
    simp only [Code.encode, List.length_cons, List.length_append] at enough
    obtain ⟨fuel, rfl⟩ : ∃ k, fuel = k + 1 := ⟨fuel - 1, by omega⟩
    have inner := ihBody fits.1 .close (show _ ≤ fuel by omega)
    have others := ih fits.2 ending (show _ ≤ fuel by omega) rest
    simp only [mark_close] at inner
    simp [Code.encode, code, exactly, inner, others]
  | loop body next ihBody ih =>
    simp only [Code.encode, List.length_cons, List.length_append] at enough
    obtain ⟨fuel, rfl⟩ : ∃ k, fuel = k + 1 := ⟨fuel - 1, by omega⟩
    have inner := ihBody fits.1 .close (show _ ≤ fuel by omega)
    have others := ih fits.2 ending (show _ ≤ fuel by omega) rest
    simp only [mark_close] at inner
    simp [Code.encode, code, exactly, inner, others]
  | ifThen body next ihBody ih =>
    simp only [Code.encode, List.length_cons, List.length_append] at enough
    obtain ⟨fuel, rfl⟩ : ∃ k, fuel = k + 1 := ⟨fuel - 1, by omega⟩
    have inner := ihBody fits.1 .close (show _ ≤ fuel by omega)
    have others := ih fits.2 ending (show _ ≤ fuel by omega) rest
    simp only [mark_close] at inner
    simp [Code.encode, code, exactly, inner, others]
  | ifElse yes no next ihYes ihNo ih =>
    simp only [Code.encode, List.length_cons, List.length_append] at enough
    obtain ⟨fuel, rfl⟩ : ∃ k, fuel = k + 1 := ⟨fuel - 1, by omega⟩
    have inner := ihYes fits.1 .otherwise (show _ ≤ fuel by omega)
    have other := ihNo fits.2.1 .close (show _ ≤ fuel by omega)
    have others := ih fits.2.2 ending (show _ ≤ fuel by omega) rest
    simp only [mark_close, mark_otherwise] at inner other
    simp [Code.encode, code, exactly, inner, other, others]

theorem reads_localRun {n : Nat} (fits : n < 4294967296) :
    ∃ runs : List Nat,
      Reads (vector localRun) (Encode.localRun n) runs ∧ runs.foldr (· + ·) 0 = n := by
  by_cases none : n = 0
  · subst none
    exact ⟨[], fun _ => rfl, rfl⟩
  · refine ⟨[n], fun rest => ?_, by simp⟩
    have one := reads_leb128 (show 1 < 4294967296 by decide)
    have count : Encode.localRun n = Leb128.encode 1 ++ (Leb128.encode n ++ [0x7F]) := by
      rw [Encode.localRun, if_neg none]
      rfl
    simp [count, vector, one _, repeated, localRun, reads_leb128 fits _, exactly]

theorem reads_body {b : Body} (fits : b.Fits) (small : (Encode.body b).length < 4294967296) :
    Reads body (Encode.body b) b := by
  intro rest
  obtain ⟨runs, read, sum⟩ := reads_localRun fits.1
  have instructions := code_encode fits.2 .close (Nat.le_refl _) []
  simp only [mark_close] at instructions
  have content : whole bodyContent (Encode.localRun b.locals ++ (b.code.encode ++ [0x0B])) =
      some b := by
    simp [whole, bodyContent, read _, instructions, sum]
  have counted := Nat.lt_of_le_of_lt (length_le_sized _) small
  simp [body, Encode.body, reads_sized counted rest, content]

end Decode
end TapeCompiler.Wasm
