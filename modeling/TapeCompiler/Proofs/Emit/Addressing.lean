import TapeCompiler.Emit.Body
import TapeCompiler.Proofs.Machine.Safety
import TapeCompiler.Proofs.Wasm.Running

/-!
The arithmetic of generated addresses. Every offset and every count is brought to a distance below
the size while code is produced. The code adds it to the pointer and takes the remainder by the size,
both in 32 bits (`performAll_wrapped`). Up to the greatest size the sum does not overflow, so the code
comes to the cell where the interpreter is, too; for any greater size it misses a cell
(`exact_iff_le_maxMemorySize`).
-/

namespace TapeCompiler

open Wasm (Code Stack Label Host)
open Wasm.Instr (performAll performAll_append)
open Wasm.Point (Leads)

namespace Emit

variable {size p d : UInt32}

/-! ### Distances -/

theorem toNat_delta (hsize : 0 < size.toNat) (offset : Int32) :
    ((delta size offset).toNat : Int) = offset.toInt % (size.toNat : Int) := by
  have low := Int.emod_nonneg offset.toInt (show (size.toNat : Int) ≠ 0 by omega)
  have high := Int.emod_lt_of_pos offset.toInt (show (0 : Int) < size.toNat by omega)
  have word := size.toNat_lt
  rw [delta, UInt32.toNat_ofNat_of_lt' (by simp only [UInt32.size]; omega)]
  omega

theorem toNat_rightward (size count : UInt32) :
    ((count % size).toNat : Int) = (count.toNat : Int) % (size.toNat : Int) := by
  rw [UInt32.toNat_mod, Int.natCast_emod]

theorem toNat_leftward (hsize : 0 < size.toNat) (count : UInt32) :
    (((size - count % size) % size).toNat : Int) = -(count.toNat : Int) % (size.toNat : Int) := by
  have small := Nat.mod_lt count.toNat hsize
  have le : count % size ≤ size := by
    rw [UInt32.le_iff_toNat_le, UInt32.toNat_mod]
    omega
  have residue := Int.emod_nonneg (-(count.toNat : Int)) (show (size.toNat : Int) ≠ 0 by omega)
  have turned : (-(count.toNat : Int) % (size.toNat : Int)).toNat =
      (size.toNat - count.toNat % size.toNat) % size.toNat := by
    have left := turn_neg hsize count.toNat 0
    rwa [turn, Int.natCast_zero, Int.zero_add, Nat.zero_add] at left
  rw [UInt32.toNat_mod, UInt32.toNat_sub_of_le _ _ le, UInt32.toNat_mod, ← turned]
  exact Int.toNat_of_nonneg residue

/-- The pointer plus a distance below the size is taken modulo the size without overflow. -/
theorem toNat_sum_mod (high : size.toNat ≤ 2147483648) (below : p.toNat < size.toNat) {e : Int}
    (distance : (d.toNat : Int) = e % (size.toNat : Int)) :
    ((p + d) % size).toNat = turn size.toNat e p.toNat := by
  have small := Int.emod_lt_of_pos e (show (0 : Int) < size.toNat by omega)
  have fits : p.toNat + d.toNat < 2 ^ 32 := by omega
  have same : (d.toNat : Int) % (size.toNat : Int) = e % (size.toNat : Int) := by
    rw [distance, Int.emod_emod_of_dvd _ (Int.dvd_refl _)]
  rw [UInt32.toNat_mod, UInt32.toNat_add, Nat.mod_eq_of_lt fits, ← turn_natCast, turn_congr same]

/-! ### The code -/

variable {hosts : List Host} {vs : Stack} {st : Wasm.Store}

/-- The store with the pointer at `q`. -/
def pointTo (st : Wasm.Store) (q : UInt32) : Wasm.Store :=
  { st with globals := st.globals.set pointerGlobal q }

theorem pointTo_self (held : st.globals[pointerGlobal]? = some p) : pointTo st p = st := by
  obtain ⟨locals, globals, memory, streams⟩ := st
  cases globals with
  | nil => cases held
  | cons q rest =>
    cases held
    rfl

theorem sum_zero_mod (below : p.toNat < size.toNat) : (p + 0) % size = p := by
  apply UInt32.toNat.inj
  rw [UInt32.add_zero, UInt32.toNat_mod, Nat.mod_eq_of_lt below]

theorem performAll_wrapped (held : st.globals[pointerGlobal]? = some p)
    (below : p.toNat < size.toNat) (d : UInt32) :
    performAll hosts (wrapped size d) vs st = .ok ((p + d) % size :: vs, st) := by
  have positive : size ≠ 0 := by
    rintro rfl
    exact Nat.not_lt_zero _ below
  by_cases zero : d = 0
  · rw [wrapped, if_pos zero, zero, sum_zero_mod below]
    simp only [performAll, Wasm.Instr.perform, held]
  · rw [wrapped, if_neg zero]
    simp only [performAll, Wasm.Instr.perform, Wasm.Instr.binary, held, if_neg positive]

theorem performAll_movePointer (held : st.globals[pointerGlobal]? = some p)
    (below : p.toNat < size.toNat) (d : UInt32) :
    performAll hosts (movePointer size d) vs st = .ok (vs, pointTo st ((p + d) % size)) := by
  by_cases zero : d = 0
  · rw [movePointer, if_pos zero, zero, sum_zero_mod below, pointTo_self held]
    rfl
  · rw [movePointer, if_neg zero, performAll_append (performAll_wrapped held below d)]
    rfl

/-! ### Both machines -/

/-- Generated addresses and moves are exact for every size that is accepted. Wherever the pointer
stands on the tape, the code for an address pushes the cell at the offset, and the code for a move
sets the pointer by the whole count, to the right and to the left. The interpreter comes to the same
cell from there, and so does the machine that checks its words of 64 bits. -/
theorem addressing_exact (size : UInt32) (high : size.toNat ≤ CompilerSettings.maxMemorySize)
    (hosts : List Host) (next : Code) (labels : List Label) (vs : Stack) (st : Wasm.Store)
    (p : UInt32) (held : st.globals[pointerGlobal]? = some p) (below : p.toNat < size.toNat)
    (s : State) (cells : s.tape.size = size.toNat) (pointer : s.pointer = p.toNat)
    (eof : EofPolicy) :
    (∀ offset : Int32, ∃ n a,
      Leads hosts n ⟨.prepend (address size offset) next, labels, vs, st⟩
        ⟨next, labels, a :: vs, st⟩ ∧
      a = (p + delta size offset) % size ∧
      (a.toNat : Int) = ((p.toNat : Int) + offset.toInt) % (size.toNat : Int) ∧
      s.address offset = a.toNat ∧ Checked.address s offset = .ok a.toNat) ∧
    (∀ count : UInt32, ∃ n q,
      Leads hosts n ⟨(Op.right count).code size eof next, labels, vs, st⟩
        ⟨next, labels, vs, pointTo st q⟩ ∧
      (q.toNat : Int) = ((p.toNat : Int) + count.toNat) % (size.toNat : Int) ∧
      (Op.right count).apply eof s = { s with pointer := q.toNat } ∧
      Checked.right s count = .ok { s with pointer := q.toNat }) ∧
    ∀ count : UInt32, ∃ n q,
      Leads hosts n ⟨(Op.left count).code size eof next, labels, vs, st⟩
        ⟨next, labels, vs, pointTo st q⟩ ∧
      (q.toNat : Int) = ((p.toNat : Int) - count.toNat) % (size.toNat : Int) ∧
      (Op.left count).apply eof s = { s with pointer := q.toNat } ∧
      Checked.left s count = .ok { s with pointer := q.toNat } := by
  have pos : 0 < size.toNat := Nat.zero_lt_of_lt below
  have small : size.toNat < 4294967296 := size.toNat_lt
  have onTape : s.OnTape size.toNat := ⟨cells, by rwa [pointer]⟩
  refine ⟨fun offset => ?_, fun count => ?_, fun count => ?_⟩
  · have value := toNat_sum_mod high below (toNat_delta pos offset)
    have interpreted : s.address offset = ((p + delta size offset) % size).toNat := by
      rw [value, State.address_eq_turn onTape, pointer]
    refine ⟨_, _, Code.leads_prepend (performAll_wrapped held below _), rfl, ?_, interpreted, ?_⟩
    · rw [value, toInt_turn pos]
    · rw [Checked.address_eq onTape small, interpreted]
  · have value := toNat_sum_mod high below (toNat_rightward size count)
    have interpreted : s.right count.toNat =
        { s with pointer := ((p + count % size) % size).toNat } := by
      rw [value, State.right_eq_turn onTape, pointer]
    refine ⟨_, _, Code.leads_prepend (performAll_movePointer held below _), ?_, interpreted, ?_⟩
    · rw [value, toInt_turn pos]
    · rw [Checked.right_eq onTape small, interpreted]
  · have value := toNat_sum_mod high below (toNat_leftward pos count)
    have interpreted : s.left count.toNat =
        { s with pointer := ((p + (size - count % size) % size) % size).toNat } := by
      rw [value, State.left_eq_turn onTape, pointer]
    refine ⟨_, _, Code.leads_prepend (performAll_movePointer held below _), ?_, interpreted, ?_⟩
    · rw [value, toInt_turn pos, Int.sub_eq_add_neg]
    · rw [Checked.left_eq onTape small, interpreted]

/-- On the longest tape, from its last cell: the size is a negative number if it is read with a
sign, and the greatest distances make the greatest sums that do not overflow. -/
theorem addressing_exact_longest :
    let size : UInt32 := 2147483648
    let st : Wasm.Store := ⟨[0, 0], [2147483647], #[], ⟨[], #[]⟩⟩
    let s : State := { State.initial 2147483648 [] with pointer := 2147483647 }
    size.toInt32.toInt = -2147483648 ∧ size.toNat ≤ CompilerSettings.maxMemorySize ∧
      st.globals[pointerGlobal]? = some 2147483647 ∧ s.tape.size = size.toNat ∧
      (∃ n, Leads [] n ⟨.prepend (address size (-1)) .done, [], [], st⟩
        ⟨.done, [], [2147483646], st⟩) ∧ s.address (-1) = 2147483646 ∧
      (∃ n, Leads [] n ⟨.prepend (address size (-2147483648)) .done, [], [], st⟩
        ⟨.done, [], [2147483647], st⟩) ∧
      (∃ n, Leads [] n ⟨(Op.right 4294967295).code size .zero .done, [], [], st⟩
        ⟨.done, [], [], pointTo st 2147483646⟩) ∧
      ∃ n, Leads [] n ⟨(Op.left 4294967295).code size .zero .done, [], [], st⟩
        ⟨.done, [], [], pointTo st 0⟩ := by
  intro size st s
  have cells : s.tape.size = size.toNat := Array.size_replicate
  obtain ⟨addresses, rights, lefts⟩ := addressing_exact size (by decide) [] .done [] [] st
    2147483647 rfl (by decide) s cells rfl .zero
  have word {a b : UInt32} (h : (a.toNat : Int) = b.toNat) : a = b :=
    UInt32.toNat.inj (Int.ofNat.inj h)
  obtain ⟨_, a, pushed, _, value, interpreted, _⟩ := addresses (-1)
  obtain ⟨_, b, pushed', _, value', _⟩ := addresses (-2147483648)
  obtain ⟨_, q, moved, target, _⟩ := rights 4294967295
  obtain ⟨_, q', moved', target', _⟩ := lefts 4294967295
  obtain rfl : a = 2147483646 := word (value.trans (by decide))
  obtain rfl : b = 2147483647 := word (value'.trans (by decide))
  obtain rfl : q = 2147483646 := word (target.trans (by decide))
  obtain rfl : q' = 0 := word (target'.trans (by decide))
  exact ⟨by decide, by decide, rfl, cells, ⟨_, pushed⟩, interpreted, ⟨_, pushed'⟩, ⟨_, moved⟩,
    _, moved'⟩

/-- The greatest size is just as great as it can be. On any longer tape the sum overflows where one
cell to the left of the last one is meant. -/
theorem exact_iff_le_maxMemorySize (positive : size ≠ 0) :
    (∀ (p : UInt32) (offset : Int32), p.toNat < size.toNat →
      ((p + delta size offset) % size).toNat = turn size.toNat offset.toInt p.toNat) ↔
    size.toNat ≤ CompilerSettings.maxMemorySize := by
  have pos : 0 < size.toNat := Nat.pos_of_ne_zero fun zero => positive (UInt32.toNat.inj zero)
  constructor
  · intro agree
    apply Nat.le_of_not_lt
    intro large
    have word := size.toNat_lt
    have long : 2147483648 < size.toNat := large
    have last : (size - 1).toNat = size.toNat - 1 :=
      UInt32.toNat_sub_of_le _ _ (UInt32.le_iff_toNat_le.mpr pos)
    have back : (delta size (-1)).toNat = size.toNat - 1 := by
      have distance : ((delta size (-1)).toNat : Int) = -1 % (size.toNat : Int) :=
        toNat_delta pos (-1)
      rw [show (-1 : Int) = size.toNat - 1 + size.toNat * -1 by omega,
        Int.add_mul_emod_self_left, Int.emod_eq_of_lt (by omega) (by omega)] at distance
      omega
    have meant : turn size.toNat (-1) (size.toNat - 1) = size.toNat - 2 := by
      rw [turn, Int.emod_eq_of_lt (by omega) (by omega)]
      omega
    -- The sum of two numbers below the size loses 2^32 once, which is no multiple of the size.
    have found : ((size - 1 + delta size (-1)) % size).toNat =
        2 * size.toNat - 2 - 4294967296 := by
      have wraps : (size.toNat - 1 + (size.toNat - 1)) % 2 ^ 32 =
          2 * size.toNat - 2 - 4294967296 := by omega
      rw [UInt32.toNat_mod, UInt32.toNat_add, last, back, wraps, Nat.mod_eq_of_lt (by omega)]
    have both := agree (size - 1) (-1) (by omega)
    rw [found, last] at both
    have impossible : 2 * size.toNat - 2 - 4294967296 = size.toNat - 2 := both.trans meant
    omega
  · intro high p offset below
    exact toNat_sum_mod high below (toNat_delta pos offset)

end Emit
end TapeCompiler
