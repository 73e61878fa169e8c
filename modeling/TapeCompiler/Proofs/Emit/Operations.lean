import TapeCompiler.Proofs.Emit.Addressing

/-!
What the generated code of a single operation does. A state of the tape machine is kept in a store
as its `image`: the tape is the front of the memory, the pointer is the global. For tapes of up to
2^31 cells the addresses are exact, so the code reads and writes the cells of the state.
-/

namespace TapeCompiler

open Wasm (Code Stack Label Host)
open Wasm.Instr (performAll performAll_cons performAll_append)

namespace Emit

/-- The imported functions, in the order of the imports. -/
def hosts : List Host := [.output, .input]

/-- The store for a state, with the memory behind the tape and the two scratch locals. -/
def image (behind : Array UInt8) (addressed received : UInt32) (s : State) : Wasm.Store where
  locals := [addressed, received]
  globals := [.ofNat s.pointer]
  memory := s.tape ++ behind
  streams := ⟨s.input, s.output⟩

variable {size : UInt32} {s : State} {behind : Array UInt8} {x y : UInt32} {vs : Stack}

/-! ### Addresses -/

theorem toNat_small {i : Nat} (hsize : size.toNat ≤ 2147483648) (hi : i < size.toNat) :
    (UInt32.ofNat i).toNat = i :=
  UInt32.toNat_ofNat_of_lt' (Nat.lt_of_lt_of_le hi (Nat.le_trans hsize (by decide)))

theorem toNat_pointer_lt (hs : s.OnTape size.toNat) (hsize : size.toNat ≤ 2147483648) :
    (UInt32.ofNat s.pointer).toNat < size.toNat := by
  rw [toNat_small hsize hs.pointer_lt]
  exact hs.pointer_lt

/-- The word at which the code arrives is the cell at the distance. -/
theorem sum_mod_eq_cell (hs : s.OnTape size.toNat) (hsize : size.toNat ≤ 2147483648) {d : UInt32}
    {e : Int} (distance : (d.toNat : Int) = e % (size.toNat : Int)) :
    (UInt32.ofNat s.pointer + d) % size = .ofNat (s.cell e) := by
  apply UInt32.toNat.inj
  rw [toNat_small hsize (State.cell_lt hs e),
    toNat_sum_mod hsize (toNat_pointer_lt hs hsize) distance, toNat_small hsize hs.pointer_lt,
    State.cell_eq_turn hs]

theorem performAll_address (hs : s.OnTape size.toNat) (hsize : size.toNat ≤ 2147483648)
    (offset : Int32) :
    performAll hosts (address size offset) vs (image behind x y s) =
      .ok (.ofNat (s.address offset) :: vs, image behind x y s) := by
  rw [address, performAll_wrapped rfl (toNat_pointer_lt hs hsize),
    sum_mod_eq_cell hs hsize (toNat_delta hs.pos offset), State.address_eq_cell]

theorem performAll_right (hs : s.OnTape size.toNat) (hsize : size.toNat ≤ 2147483648)
    (count : UInt32) :
    performAll hosts (movePointer size (count % size)) vs (image behind x y s) =
      .ok (vs, image behind x y (s.right count.toNat)) := by
  rw [performAll_movePointer rfl (toNat_pointer_lt hs hsize),
    sum_mod_eq_cell hs hsize (toNat_rightward size count), State.right_eq_moved]
  rfl

theorem performAll_left (hs : s.OnTape size.toNat) (hsize : size.toNat ≤ 2147483648)
    (count : UInt32) :
    performAll hosts (movePointer size ((size - count % size) % size)) vs (image behind x y s) =
      .ok (vs, image behind x y (s.left count.toNat)) := by
  rw [performAll_movePointer rfl (toNat_pointer_lt hs hsize),
    sum_mod_eq_cell hs hsize (toNat_leftward hs.pos count), State.left_eq_moved hs]
  rfl

/-! ### Cells -/

theorem perform_load8 (hs : s.OnTape size.toNat) (hsize : size.toNat ≤ 2147483648) {i : Nat}
    (hi : i < size.toNat) :
    (Wasm.Instr.load8 0).perform hosts (.ofNat i :: vs) (image behind x y s) =
      .ok ((s.read i).toUInt32 :: vs, image behind x y s) := by
  have bound : i < s.tape.size := hs.size_eq ▸ hi
  have here : Wasm.Instr.effective (.ofNat i) 0 = i := toNat_small hsize hi
  simp only [Wasm.Instr.perform, here, image, Array.getElem?_append_left bound,
    Array.getElem?_eq_getElem bound, State.read, Array.getD_eq_getD_getElem?, Option.getD_some]

theorem perform_store8 (hs : s.OnTape size.toNat) (hsize : size.toNat ≤ 2147483648) {i : Nat}
    (hi : i < size.toNat) (v : UInt32) :
    (Wasm.Instr.store8 0).perform hosts (v :: .ofNat i :: vs) (image behind x y s) =
      .ok (vs, image behind x y (s.write i v.toUInt8)) := by
  have bound : i < s.tape.size := hs.size_eq ▸ hi
  have here : Wasm.Instr.effective (.ofNat i) 0 = i := toNat_small hsize hi
  have within : i < (s.tape ++ behind).size := by
    rw [Array.size_append]
    omega
  simp only [Wasm.Instr.perform, here, image, if_pos within,
    Array.setIfInBounds_append_left bound, State.write]

theorem performAll_loadCell (hs : s.OnTape size.toNat) (hsize : size.toNat ≤ 2147483648)
    (offset : Int32) :
    performAll hosts (loadCell size offset) vs (image behind x y s) =
      .ok ((s.read (s.address offset)).toUInt32 :: vs, image behind x y s) := by
  rw [loadCell, performAll_append (performAll_address hs hsize offset),
    performAll_cons (perform_load8 hs hsize (State.address_lt hs _))]
  rfl

theorem performAll_openCell (hs : s.OnTape size.toNat) (hsize : size.toNat ≤ 2147483648)
    (offset : Int32) :
    performAll hosts (openCell size offset) vs (image behind x y s) =
      .ok ((s.read (s.address offset)).toUInt32 :: .ofNat (s.address offset) :: vs,
        image behind (.ofNat (s.address offset)) y s) := by
  rw [openCell, performAll_append (performAll_address hs hsize offset)]
  have tee : (Wasm.Instr.localTee addressLocal).perform hosts (.ofNat (s.address offset) :: vs)
      (image behind x y s) = .ok (.ofNat (s.address offset) :: vs,
        image behind (.ofNat (s.address offset)) y s) := rfl
  have get : (Wasm.Instr.localGet addressLocal).perform hosts (.ofNat (s.address offset) :: vs)
      (image behind (.ofNat (s.address offset)) y s) =
        .ok (.ofNat (s.address offset) :: .ofNat (s.address offset) :: vs,
          image behind (.ofNat (s.address offset)) y s) := rfl
  rw [performAll_cons tee, performAll_cons get,
    performAll_cons (perform_load8 hs hsize (State.address_lt hs _))]
  rfl

theorem performAll_storeConst (hs : s.OnTape size.toNat) (hsize : size.toNat ≤ 2147483648)
    (offset : Int32) (v : UInt8) :
    performAll hosts (storeConst size offset v) vs (image behind x y s) =
      .ok (vs, image behind x y (s.write (s.address offset) v)) := by
  have push : (Wasm.Instr.const v.toUInt32).perform hosts (.ofNat (s.address offset) :: vs)
      (image behind x y s) =
        .ok (v.toUInt32 :: .ofNat (s.address offset) :: vs, image behind x y s) := rfl
  rw [storeConst, performAll_append (performAll_address hs hsize offset), performAll_cons push,
    performAll_cons (perform_store8 hs hsize (State.address_lt hs _) _), UInt8.toUInt8_toUInt32]
  rfl

theorem performAll_storeInput (hs : s.OnTape size.toNat) (hsize : size.toNat ≤ 2147483648)
    (offset : Int32) :
    performAll hosts (storeInput size offset) vs (image behind x y s) =
      .ok (vs, image behind x y (s.write (s.address offset) y.toUInt8)) := by
  have get : (Wasm.Instr.localGet inputLocal).perform hosts (.ofNat (s.address offset) :: vs)
      (image behind x y s) = .ok (y :: .ofNat (s.address offset) :: vs, image behind x y s) := rfl
  rw [storeInput, performAll_append (performAll_address hs hsize offset), performAll_cons get,
    performAll_cons (perform_store8 hs hsize (State.address_lt hs _) _)]
  rfl

/-- Combining the value of a cell with an operand and storing the result. -/
theorem performAll_update (hs : s.OnTape size.toNat) (hsize : size.toNat ≤ 2147483648)
    (offset : Int32) (operand : UInt32) {i : Wasm.Instr} {f : UInt32 → UInt32 → UInt32}
    (combines : ∀ a b vs st, i.perform hosts (b :: a :: vs) st = .ok (f a b :: vs, st)) :
    performAll hosts (openCell size offset ++ [.const operand, i, .store8 0]) vs
        (image behind x y s) =
      .ok (vs, image behind (.ofNat (s.address offset)) y (s.write (s.address offset)
        (f (s.read (s.address offset)).toUInt32 operand).toUInt8)) := by
  have push (vs : Stack) (st : Wasm.Store) :
      (Wasm.Instr.const operand).perform hosts vs st = .ok (operand :: vs, st) := rfl
  rw [performAll_append (performAll_openCell hs hsize offset), performAll_cons (push _ _),
    performAll_cons (combines _ _ _ _),
    performAll_cons (perform_store8 hs hsize (State.address_lt hs _) _)]
  rfl

theorem performAll_multiply (hs : s.OnTape size.toNat) (hsize : size.toNat ≤ 2147483648)
    (dest factor source : Int32) :
    performAll hosts (openCell size dest ++ loadCell size source ++
        [.const factor.toUInt32, .mul, .add, .store8 0]) vs (image behind x y s) =
      .ok (vs, image behind (.ofNat (s.address dest)) y (s.write (s.address dest)
        (s.read (s.address dest) + s.read (s.address source) * factor.toUInt32.toUInt8))) := by
  have push (vs : Stack) (st : Wasm.Store) :
      (Wasm.Instr.const factor.toUInt32).perform hosts vs st =
        .ok (factor.toUInt32 :: vs, st) := rfl
  have times (a b : UInt32) (vs : Stack) (st : Wasm.Store) :
      Wasm.Instr.mul.perform hosts (b :: a :: vs) st = .ok (a * b :: vs, st) := rfl
  have plus (a b : UInt32) (vs : Stack) (st : Wasm.Store) :
      Wasm.Instr.add.perform hosts (b :: a :: vs) st = .ok ((a + b) :: vs, st) := rfl
  rw [List.append_assoc, performAll_append (performAll_openCell hs hsize dest),
    performAll_append (performAll_loadCell hs hsize source), performAll_cons (push _ _),
    performAll_cons (times _ _ _ _), performAll_cons (plus _ _ _ _),
    performAll_cons (perform_store8 hs hsize (State.address_lt hs _) _)]
  simp only [UInt32.toUInt8_add, UInt32.toUInt8_mul, UInt8.toUInt8_toUInt32]
  rfl

theorem performAll_output (hs : s.OnTape size.toNat) (hsize : size.toNat ≤ 2147483648)
    (offset : Int32) :
    performAll hosts (loadCell size offset ++ [.call outputFunction]) vs (image behind x y s) =
      .ok (vs, image behind x y
        { s with output := s.output.push (s.read (s.address offset)) }) := by
  have call (byte : UInt8) :
      (Wasm.Instr.call outputFunction).perform hosts (byte.toUInt32 :: vs) (image behind x y s) =
        .ok (vs, image behind x y { s with output := s.output.push byte }) := by
    simp only [Wasm.Instr.perform, outputFunction, hosts, List.getElem?_cons_zero,
      Wasm.Host.call, image, Wasm.Streams.write, UInt8.toUInt8_toUInt32]
  rw [performAll_append (performAll_loadCell hs hsize offset), performAll_cons (call _)]
  rfl

theorem toUInt8_mod_256 (amount : UInt32) : (amount % 256).toUInt8 = amount.toUInt8 := by
  apply UInt8.toNat.inj
  simp only [UInt32.toNat_toUInt8, UInt32.toNat_mod, show (256 : UInt32).toNat = 256 from rfl]
  omega

end Emit

open Emit Wasm.Point

namespace Op

variable {size : UInt32} {s : State} {behind : Array UInt8} {x y : UInt32} {vs : Stack}
  {labels : List Label} {next : Code}

/-- Reading a byte: the result of the imported function is kept, and its sign is tested. -/
theorem performAll_receive :
    performAll hosts
        [.call inputFunction, .localSet inputLocal, .localGet inputLocal, .const 0, .geS] vs
        (image behind x y s) =
      match s.input with
      | byte :: rest => .ok (1 :: vs, image behind x byte.toUInt32 { s with input := rest })
      | [] => .ok (0 :: vs, image behind x Wasm.Streams.endOfInput s) := by
  cases hinput : s.input with
  | nil =>
    have read : (⟨s.input, s.output⟩ : Wasm.Streams).read =
        (Wasm.Streams.endOfInput, ⟨s.input, s.output⟩) := by
      simp only [Wasm.Streams.read, hinput]
    have call : (Wasm.Instr.call inputFunction).perform hosts vs (image behind x y s) =
        .ok (Wasm.Streams.endOfInput :: vs, image behind x y s) := by
      simp only [Wasm.Instr.perform, inputFunction, hosts, List.getElem?_cons_succ,
        List.getElem?_cons_zero, Wasm.Host.call, image, read]
    rw [performAll_cons call]
    rfl
  | cons byte rest =>
    have read : (⟨s.input, s.output⟩ : Wasm.Streams).read =
        (byte.toUInt32, ⟨rest, s.output⟩) := by
      simp only [Wasm.Streams.read, hinput]
    have call : (Wasm.Instr.call inputFunction).perform hosts vs (image behind x y s) =
        .ok (byte.toUInt32 :: vs, image behind x y { s with input := rest }) := by
      simp only [Wasm.Instr.perform, inputFunction, hosts, List.getElem?_cons_succ,
        List.getElem?_cons_zero, Wasm.Host.call, image, read]
    have positive : Wasm.Instr.truth (byte.toUInt32.toInt32 ≥ (0 : UInt32).toInt32) = 1 := by
      have small := byte.toNat_lt
      have value : byte.toUInt32.toInt32.toInt = byte.toNat := by
        rw [← Int32.toInt_toBitVec, UInt32.toBitVec_toInt32, BitVec.toInt_eq_toNat_bmod,
          UInt32.toNat_toBitVec, UInt8.toNat_toUInt32]
        simp only [Int.bmod]
        omega
      have nonnegative : (0 : UInt32).toInt32 ≤ byte.toUInt32.toInt32 := by
        rw [Int32.le_iff_toInt_le, value]
        exact Int.natCast_nonneg _
      simp only [Wasm.Instr.truth, ge_iff_le, nonnegative, decide_true, if_true]
    rw [performAll_cons call, ← positive]
    rfl

theorem leads_input (hs : s.OnTape size.toNat) (hsize : size.toNat ≤ 2147483648)
    (eof : EofPolicy) (offset : Int32) :
    ∃ n x' y', Leads hosts n ⟨(input offset).code size eof next, labels, vs, image behind x y s⟩
      ⟨next, labels, vs, image behind x' y' (s.receive eof (s.address offset))⟩ := by
  have tested : performAll hosts _ vs (image behind x y s) = _ := performAll_receive
  simp only [code, State.receive]
  cases hinput : s.input with
  | cons byte rest =>
    -- A byte: the arm that stores it, whatever the policy.
    rw [hinput] at tested
    have onTape : State.OnTape size.toNat { s with input := rest } := ⟨hs.size_eq, hs.pointer_lt⟩
    have stored : performAll hosts (storeInput size offset) vs
        (image behind x byte.toUInt32 { s with input := rest }) =
          .ok (vs, image behind x byte.toUInt32
            (State.write { s with input := rest } (s.address offset) byte)) := by
      rw [performAll_storeInput onTape hsize, UInt8.toUInt8_toUInt32]
      rfl
    cases eof.fill? with
    | none =>
      exact ⟨_, _, _, (Code.leads_prepend tested).trans
        ((Code.leads_ifThen (by decide)).trans (Code.leads_body _ stored))⟩
    | some fill =>
      exact ⟨_, _, _, (Code.leads_prepend tested).trans
        ((Code.leads_ifElse (by decide)).trans (Code.leads_body _ stored))⟩
  | nil =>
    -- The end of the input: the policy decides whether there is an arm for it.
    rw [hinput] at tested
    cases eof.fill? with
    | none => exact ⟨_, _, _, (Code.leads_prepend tested).trans Code.leads_ifThen_zero⟩
    | some fill =>
      exact ⟨_, _, _, (Code.leads_prepend tested).trans (Code.leads_ifElse_zero.trans
        (Code.leads_body _ (performAll_storeConst hs hsize offset fill)))⟩

/-- The code of an operation comes to what follows it, in the image of the state after the
operation. -/
theorem leads_code (hs : s.OnTape size.toNat) (hsize : size.toNat ≤ 2147483648)
    (eof : EofPolicy) (o : Op) :
    ∃ n x' y', Leads hosts n ⟨o.code size eof next, labels, vs, image behind x y s⟩
      ⟨next, labels, vs, image behind x' y' (o.apply eof s)⟩ := by
  have straight {is : List Wasm.Instr} {x' y' : UInt32} {t : State}
      (h : performAll hosts is vs (image behind x y s) = .ok (vs, image behind x' y' t)) :
      ∃ n x' y', Leads hosts n ⟨.prepend is next, labels, vs, image behind x y s⟩
        ⟨next, labels, vs, image behind x' y' t⟩ :=
    ⟨is.length, x', y', Code.leads_prepend h⟩
  cases o with
  | right count => exact straight (performAll_right hs hsize count)
  | left count => exact straight (performAll_left hs hsize count)
  | add amount offset =>
    apply straight
    rw [performAll_update hs hsize offset (amount % 256) (i := .add) (f := (· + ·))
      (fun _ _ _ _ => rfl)]
    simp only [UInt32.toUInt8_add, UInt8.toUInt8_toUInt32, toUInt8_mod_256]
    rfl
  | sub amount offset =>
    apply straight
    rw [performAll_update hs hsize offset (amount % 256) (i := .sub) (f := (· - ·))
      (fun _ _ _ _ => rfl)]
    simp only [UInt32.toUInt8_sub, UInt8.toUInt8_toUInt32, toUInt8_mod_256]
    rfl
  | mul dest factor source => exact straight (performAll_multiply hs hsize dest factor source)
  | clear offset => exact straight (performAll_storeConst hs hsize offset 0)
  | output offset => exact straight (performAll_output hs hsize offset)
  | input offset => exact leads_input hs hsize eof offset

end Op
end TapeCompiler
