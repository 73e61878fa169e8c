import TapeCompiler.Proofs.Machine.Ending

/-!
The tape as a ring. Distances from the pointer are integers and wrap around, so that moves compose
by addition: `moved` is the one motion that both directions are cases of. `OnTape` holds in every
state of a run, and in such a state no access misses the tape.
-/

namespace TapeCompiler

/-- The cell of a ring of `size` cells that is `d` further on than the cell `i`. -/
def turn (size : Nat) (d : Int) (i : Nat) : Nat :=
  (((i : Int) + d) % (size : Int)).toNat

section Turn

variable {size : Nat}

theorem turn_lt (pos : 0 < size) (d : Int) (i : Nat) : turn size d i < size := by
  have low := Int.emod_nonneg ((i : Int) + d) (show (size : Int) ≠ 0 by omega)
  have high := Int.emod_lt_of_pos ((i : Int) + d) (show (0 : Int) < size by omega)
  unfold turn
  omega

theorem toInt_turn (pos : 0 < size) (d : Int) (i : Nat) :
    (turn size d i : Int) = ((i : Int) + d) % (size : Int) :=
  Int.toNat_of_nonneg (Int.emod_nonneg _ (by omega))

theorem turn_zero {i : Nat} (hi : i < size) : turn size 0 i = i := by
  rw [turn, Int.add_zero, Int.emod_eq_of_lt (by omega) (by omega), Int.toNat_natCast]

theorem turn_turn (pos : 0 < size) (a b : Int) (i : Nat) :
    turn size b (turn size a i) = turn size (a + b) i := by
  have low := Int.emod_nonneg ((i : Int) + a) (show (size : Int) ≠ 0 by omega)
  unfold turn
  rw [Int.toNat_of_nonneg low, Int.emod_add_emod, Int.add_assoc]

/-- Only the distance modulo the size counts. -/
theorem turn_congr {d e : Int} (h : d % (size : Int) = e % (size : Int)) (i : Nat) :
    turn size d i = turn size e i := by
  rw [turn, turn, Int.add_emod, h, ← Int.add_emod]

theorem turn_natCast (n i : Nat) : turn size n i = (i + n) % size := by
  rw [turn, ← Int.natCast_add, ← Int.natCast_emod, Int.toNat_natCast]

/-- To the left by a count is to the right by what its remainder leaves of the size. -/
theorem turn_neg (pos : 0 < size) (count i : Nat) :
    turn size (-count) i = (i + (size - count % size)) % size := by
  have small := Nat.mod_lt count pos
  have parts : (count : Int) = size * (count / size : Nat) + (count % size : Nat) := by
    exact_mod_cast (Nat.div_add_mod count size).symm
  have apart : ((size - count % size : Nat) : Int) =
      -(count : Int) + size * (1 + (count / size : Nat)) := by
    rw [Int.mul_add]
    omega
  rw [← turn_natCast]
  apply turn_congr
  rw [apart, Int.add_mul_emod_self_left]

end Turn

namespace State

/-- The tape has `size` cells and the pointer stands on one of them. -/
structure OnTape (size : Nat) (s : State) : Prop where
  size_eq : s.tape.size = size
  pointer_lt : s.pointer < size

theorem OnTape.pos {size : Nat} {s : State} (hs : s.OnTape size) : 0 < size :=
  Nat.zero_lt_of_lt hs.pointer_lt

/-- The cell at a distance from the pointer. -/
def cell (s : State) (d : Int) : Nat :=
  (((s.pointer : Int) + d) % (s.tape.size : Int)).toNat

/-- The state with the pointer moved by a distance. -/
def moved (s : State) (d : Int) : State :=
  { s with pointer := s.cell d }

variable {size : Nat} {s t : State}

theorem address_eq_cell (s : State) (offset : Int32) : s.address offset = s.cell offset.toInt := rfl

theorem initial_onTape (hsize : 0 < size) (input : List UInt8) :
    (initial size input).OnTape size := by
  constructor
  · exact Array.size_replicate
  · exact hsize

theorem cell_eq_turn (hs : s.OnTape size) (d : Int) : s.cell d = turn size d s.pointer := by
  rw [← hs.size_eq]
  rfl

theorem address_eq_turn (hs : s.OnTape size) (offset : Int32) :
    s.address offset = turn size offset.toInt s.pointer :=
  cell_eq_turn hs offset.toInt

theorem cell_lt (hs : s.OnTape size) (d : Int) : s.cell d < size := by
  rw [cell_eq_turn hs]
  exact turn_lt hs.pos d s.pointer

theorem address_lt (hs : s.OnTape size) (offset : Int32) : s.address offset < size :=
  cell_lt hs offset.toInt

theorem cell_zero (hs : s.OnTape size) : s.cell 0 = s.pointer := by
  rw [cell_eq_turn hs, turn_zero hs.pointer_lt]

theorem cell_eq_iff (hs : s.OnTape size) {c : Nat} (hc : c < size) (d : Int) :
    s.cell d = c ↔ ((s.pointer : Int) + d - c) % (size : Int) = 0 := by
  have low := Int.emod_nonneg ((s.pointer : Int) + d) (show (size : Int) ≠ 0 by omega)
  have here : (c : Int) % size = c := Int.emod_eq_of_lt (by omega) (by omega)
  rw [← Int.emod_eq_emod_iff_emod_sub_eq_zero, here, cell, hs.size_eq]
  omega

theorem cell_eq_pointer_iff (hs : s.OnTape size) (d : Int) :
    s.cell d = s.pointer ↔ d % (size : Int) = 0 := by
  have apart : (s.pointer : Int) + d - s.pointer = d := by omega
  rw [cell_eq_iff hs hs.pointer_lt, apart]

theorem moved_pointer (s : State) (d : Int) : (s.moved d).pointer = s.cell d := rfl

@[simp]
theorem moved_tape (s : State) (d : Int) : (s.moved d).tape = s.tape := rfl

@[simp]
theorem moved_input (s : State) (d : Int) : (s.moved d).input = s.input := rfl

@[simp]
theorem moved_output (s : State) (d : Int) : (s.moved d).output = s.output := rfl

theorem moved_onTape (hs : s.OnTape size) (d : Int) : (s.moved d).OnTape size :=
  ⟨hs.size_eq, cell_lt hs d⟩

theorem moved_zero (hs : s.OnTape size) : s.moved 0 = s := by
  simp only [moved, cell_zero hs]

theorem cell_moved (hs : s.OnTape size) (a b : Int) : (s.moved a).cell b = s.cell (a + b) := by
  rw [cell_eq_turn (moved_onTape hs a), moved_pointer, cell_eq_turn hs, cell_eq_turn hs,
    turn_turn hs.pos]

theorem moved_moved (hs : s.OnTape size) (a b : Int) : (s.moved a).moved b = s.moved (a + b) := by
  simp only [moved, ← cell_moved hs a b]

theorem right_eq_moved (s : State) (count : Nat) : s.right count = s.moved count := by
  have target : s.cell count = (s.pointer + count) % s.tape.size := turn_natCast count s.pointer
  rw [right, moved, target, Nat.add_mod_mod]

theorem left_eq_moved (hs : s.OnTape size) (count : Nat) : s.left count = s.moved (-count) := by
  have small := Nat.mod_lt count hs.pos
  rw [left, moved, cell_eq_turn hs, turn_neg hs.pos, hs.size_eq, Nat.add_sub_assoc (by omega)]

theorem right_eq_turn (hs : s.OnTape size) (count : Nat) :
    s.right count = { s with pointer := turn size count s.pointer } := by
  rw [right_eq_moved, moved, cell_eq_turn hs]

theorem left_eq_turn (hs : s.OnTape size) (count : Nat) :
    s.left count = { s with pointer := turn size (-count) s.pointer } := by
  rw [left_eq_moved hs, moved, cell_eq_turn hs]

/-! Reading and writing cells. -/

@[simp]
theorem read_moved (s : State) (d : Int) (i : Nat) : (s.moved d).read i = s.read i := rfl

@[simp]
theorem write_size (s : State) (i : Nat) (v : UInt8) : (s.write i v).tape.size = s.tape.size :=
  Array.size_setIfInBounds

@[simp]
theorem write_pointer (s : State) (i : Nat) (v : UInt8) : (s.write i v).pointer = s.pointer := rfl

@[simp]
theorem write_input (s : State) (i : Nat) (v : UInt8) : (s.write i v).input = s.input := rfl

@[simp]
theorem write_output (s : State) (i : Nat) (v : UInt8) : (s.write i v).output = s.output := rfl

@[simp]
theorem write_cell (s : State) (i : Nat) (v : UInt8) (d : Int) :
    (s.write i v).cell d = s.cell d := by
  simp only [cell, write_pointer, write_size]

theorem write_onTape (hs : s.OnTape size) (i : Nat) (v : UInt8) : (s.write i v).OnTape size :=
  ⟨(write_size s i v).trans hs.size_eq, hs.pointer_lt⟩

theorem write_moved (s : State) (d : Int) (i : Nat) (v : UInt8) :
    (s.moved d).write i v = (s.write i v).moved d := by
  simp only [moved, write_cell]
  rfl

theorem read_write (hs : s.OnTape size) {i : Nat} (hi : i < size) (v : UInt8) (j : Nat) :
    (s.write i v).read j = if j = i then v else s.read j := by
  have bound : i < s.tape.size := hs.size_eq ▸ hi
  simp only [read, write, Array.getD_eq_getD_getElem?, Array.getElem?_setIfInBounds, bound]
  by_cases h : i = j
  · simp [h]
  · simp [h, Ne.symm h]

theorem write_write (s : State) (i : Nat) (v w : UInt8) :
    (s.write i v).write i w = s.write i w := by
  simp only [write, Array.setIfInBounds_setIfInBounds]

/-- States are equal when every cell reads the same. -/
theorem ext_read (hs : s.OnTape size) (ht : t.OnTape size)
    (cells : ∀ i, i < size → s.read i = t.read i) (pointer : s.pointer = t.pointer)
    (input : s.input = t.input) (output : s.output = t.output) : s = t := by
  have tapes : s.tape = t.tape := by
    apply Array.ext (hs.size_eq.trans ht.size_eq.symm)
    intro i hi hi'
    have same := cells i (hs.size_eq ▸ hi)
    simpa only [read, Array.getD_eq_getD_getElem?, Array.getElem?_eq_getElem hi,
      Array.getElem?_eq_getElem hi', Option.getD_some] using same
  cases s
  cases t
  simp_all only

theorem receive_onTape (hs : s.OnTape size) (eof : EofPolicy) (i : Nat) :
    (s.receive eof i).OnTape size := by
  unfold receive
  split
  · exact ⟨(write_size _ _ _).trans hs.size_eq, hs.pointer_lt⟩
  · split
    · exact write_onTape hs _ _
    · exact hs

theorem receive_moved (eof : EofPolicy) (s : State) (d : Int) (i : Nat) :
    (s.moved d).receive eof i = (s.receive eof i).moved d := by
  simp only [receive, moved_input]
  cases s.input with
  | cons byte rest => exact write_moved { s with input := rest } d i byte
  | nil =>
    cases eof.fill? with
    | none => rfl
    | some fill => exact write_moved s d i fill

end State

namespace Op

variable {size : Nat} {s : State}

theorem apply_onTape (hs : s.OnTape size) (eof : EofPolicy) (o : Op) :
    (o.apply eof s).OnTape size := by
  cases o with
  | right count =>
    simp only [apply, State.right_eq_moved]
    exact State.moved_onTape hs _
  | left count =>
    simp only [apply, State.left_eq_moved hs]
    exact State.moved_onTape hs _
  | add | sub | mul | clear => exact State.write_onTape hs _ _
  | output => exact ⟨hs.size_eq, hs.pointer_lt⟩
  | input => exact State.receive_onTape hs eof _

end Op

namespace Program

variable {eof : EofPolicy} {p : Program} {size n : Nat} {s t : State}

theorem Takes.onTape (h : Takes eof p s n t) (hs : s.OnTape size) : t.OnTape size := by
  induction h with
  | nil => exact hs
  | op _ ih => exact ih (Op.apply_onTape hs eof _)
  | leave _ _ ih => exact ih hs
  | again _ _ _ ihBody ihAgain => exact ihAgain (ihBody hs)

theorem Ends.onTape (h : Ends eof p s t) (hs : s.OnTape size) : t.OnTape size := by
  obtain ⟨n, taken⟩ := ends_iff_takes.mp h
  exact taken.onTape hs

end Program
end TapeCompiler
