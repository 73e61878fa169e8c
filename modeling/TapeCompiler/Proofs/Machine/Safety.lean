import TapeCompiler.Proofs.Machine.LockStep
import TapeCompiler.Proofs.Machine.Tape

/-!
Runs never go wrong. `Checked` is the machine with 64-bit words: it looks at every number on the way
to a cell or to a new place of the pointer, and at every index before the tape is accessed, and stops
with a fault where one is out of its range. In a state whose pointer is on the tape no instruction
has a fault (`Checked.apply_eq`), and each leads to such a state again (`Op.apply_onTape`). So in a
whole run there is none, and what is reported in the end is such a state.
-/

namespace TapeCompiler

/-- What a machine can stumble over. -/
inductive Fault where
  /-- A number is out of the range of its word. -/
  | overflow
  | divisionByZero
  /-- There is no such cell. -/
  | outsideTape
deriving DecidableEq, Repr

namespace Checked

/-- The number, as an unsigned word of 64 bits. -/
def unsigned (i : Int) : Except Fault Nat :=
  if 0 ≤ i ∧ i < 18446744073709551616 then .ok i.toNat else .error .overflow

/-- The number, as a signed word of 64 bits. -/
def signed (i : Int) : Except Fault Int :=
  if -9223372036854775808 ≤ i ∧ i < 9223372036854775808 then .ok i else .error .overflow

/-- The remainder of unsigned words. -/
def remainder (a b : Nat) : Except Fault Nat :=
  if b = 0 then .error .divisionByZero else .ok (a % b)

/-- The remainder of signed words that is not negative. -/
def residue (a b : Int) : Except Fault Int :=
  if b = 0 then .error .divisionByZero else signed (a % b)

def right (s : State) (count : UInt32) : Except Fault State := do
  let pointer ← unsigned s.pointer
  let size ← unsigned s.tape.size
  let steps ← remainder count.toNat size
  let sum ← unsigned (pointer + steps)
  let target ← remainder sum size
  return { s with pointer := target }

def left (s : State) (count : UInt32) : Except Fault State := do
  let pointer ← unsigned s.pointer
  let size ← unsigned s.tape.size
  let sum ← unsigned (pointer + size)
  let steps ← remainder count.toNat size
  let difference ← unsigned (sum - steps)
  let target ← remainder difference size
  return { s with pointer := target }

/-- The cell at `offset` from the pointer. -/
def address (s : State) (offset : Int32) : Except Fault Nat := do
  let size ← signed s.tape.size
  let pointer ← signed s.pointer
  let sum ← signed (pointer + offset.toInt)
  let cell ← residue sum size
  unsigned cell

def read (s : State) (i : Nat) : Except Fault UInt8 :=
  match s.tape[i]? with
  | some v => .ok v
  | none => .error .outsideTape

def write (s : State) (i : Nat) (v : UInt8) : Except Fault State :=
  if i < s.tape.size then .ok (s.write i v) else .error .outsideTape

/-- Run one operation. -/
def apply (eof : EofPolicy) (o : Op) (s : State) : Except Fault State :=
  match o with
  | .right count => right s count
  | .left count => left s count
  | .add amount offset => do
    let i ← address s offset
    let v ← read s i
    write s i (v + amount.toUInt8)
  | .sub amount offset => do
    let i ← address s offset
    let v ← read s i
    write s i (v - amount.toUInt8)
  | .mul dest factor source => do
    let v ← read s (← address s source)
    let i ← address s dest
    let w ← read s i
    write s i (w + v * factor.toUInt32.toUInt8)
  | .clear offset => do
    let i ← address s offset
    write s i 0
  | .output offset => do
    let v ← read s (← address s offset)
    return { s with output := s.output.push v }
  | .input offset => do
    let i ← address s offset
    match s.input with
    | byte :: rest => write { s with input := rest } i byte
    | [] =>
      match eof.fill? with
      | some fill => write s i fill
      | none => return s

/-- Where a run of at most `budget` steps stops, if not with a fault. -/
def stop (eof : EofPolicy) : (budget : Nat) → Program → State → Except Fault Stop
  | budget, .nil, s => .ok ⟨.nil, s, budget⟩
  | 0, p, s => .ok ⟨p, s, 0⟩
  | budget + 1, .op o next, s => do
    let s ← apply eof o s
    stop eof budget next s
  | budget + 1, .loop body next, s => do
    let v ← read s s.pointer
    if v = 0 then stop eof budget next s
    else stop eof budget (body ++ .loop body next) s

/-! ### No operation has a fault -/

theorem ok_bind {α β : Type} (a : α) (next : α → Except Fault β) :
    (Except.ok a >>= next) = next a := rfl

theorem unsigned_eq {i : Int} {n : Nat} (value : i = n) (fits : n < 18446744073709551616) :
    unsigned i = .ok n := by
  rw [unsigned, if_pos (by omega), value, Int.toNat_natCast]

theorem signed_eq {i : Int} (low : -9223372036854775808 ≤ i) (high : i < 9223372036854775808) :
    signed i = .ok i :=
  if_pos ⟨low, high⟩

theorem remainder_eq {a b : Nat} (pos : 0 < b) : remainder a b = .ok (a % b) :=
  if_neg (by omega)

variable {size : Nat} {s : State}

theorem right_eq (hs : s.OnTape size) (small : size < 4294967296) (count : UInt32) :
    right s count = .ok (s.right count.toNat) := by
  have below := hs.pointer_lt
  have steps := Nat.mod_lt count.toNat hs.pos
  have sum : unsigned (s.pointer + (count.toNat % size : Nat)) =
      .ok (s.pointer + count.toNat % size) := unsigned_eq rfl (by omega)
  rw [right, hs.size_eq, unsigned_eq rfl (by omega), ok_bind, unsigned_eq rfl (by omega), ok_bind,
    remainder_eq hs.pos, ok_bind, sum, ok_bind, remainder_eq hs.pos, ok_bind, State.right, hs.size_eq]
  rfl

theorem left_eq (hs : s.OnTape size) (small : size < 4294967296) (count : UInt32) :
    left s count = .ok (s.left count.toNat) := by
  have below := hs.pointer_lt
  have steps := Nat.mod_lt count.toNat hs.pos
  have sum : unsigned (s.pointer + size) = .ok (s.pointer + size) := unsigned_eq rfl (by omega)
  have difference : unsigned ((s.pointer + size : Nat) - (count.toNat % size : Nat)) =
      .ok (s.pointer + size - count.toNat % size) := unsigned_eq (by omega) (by omega)
  rw [left, hs.size_eq, unsigned_eq rfl (by omega), ok_bind, unsigned_eq rfl (by omega), ok_bind,
    sum, ok_bind, remainder_eq hs.pos, ok_bind, difference, ok_bind, remainder_eq hs.pos, ok_bind,
    State.left, hs.size_eq]
  rfl

theorem address_eq (hs : s.OnTape size) (small : size < 4294967296) (offset : Int32) :
    address s offset = .ok (s.address offset) := by
  have below := hs.pointer_lt
  have low := offset.le_toInt
  have high := offset.toInt_lt
  have pos : (0 : Int) < size := by omega
  have cell_nonneg := Int.emod_nonneg (s.pointer + offset.toInt) (Int.ne_of_gt pos)
  have cell_lt := Int.emod_lt_of_pos (s.pointer + offset.toInt) pos
  have cell : residue (s.pointer + offset.toInt) size = .ok ((s.pointer + offset.toInt) % size) :=
    (if_neg (Int.ne_of_gt pos)).trans (signed_eq (by omega) (by omega))
  rw [address, hs.size_eq, signed_eq (by omega) (by omega), ok_bind, signed_eq (by omega) (by omega),
    ok_bind, signed_eq (by omega) (by omega), ok_bind, cell, ok_bind, State.address, hs.size_eq]
  exact unsigned_eq (by omega) (by omega)

theorem read_eq (hs : s.OnTape size) {i : Nat} (inside : i < size) : read s i = .ok (s.read i) := by
  have bound : i < s.tape.size := hs.size_eq ▸ inside
  simp only [read, State.read, Array.getD_eq_getD_getElem?, Array.getElem?_eq_getElem bound,
    Option.getD_some]

theorem write_eq (hs : s.OnTape size) {i : Nat} (inside : i < size) (v : UInt8) :
    write s i v = .ok (s.write i v) :=
  if_pos (hs.size_eq ▸ inside)

/-- On the tape no operation has a fault. -/
theorem apply_eq (hs : s.OnTape size) (small : size < 4294967296) (eof : EofPolicy) (o : Op) :
    apply eof o s = .ok (o.apply eof s) := by
  have cell (offset : Int32) := address_eq hs small offset
  have inside (offset : Int32) := State.address_lt hs offset
  cases o with
  | right count => exact right_eq hs small count
  | left count => exact left_eq hs small count
  | add amount offset | sub amount offset =>
    rw [apply, cell, ok_bind, read_eq hs (inside offset), ok_bind, write_eq hs (inside offset)]
    rfl
  | mul dest factor source =>
    rw [apply, cell, ok_bind, read_eq hs (inside source), ok_bind, cell, ok_bind,
      read_eq hs (inside dest), ok_bind, write_eq hs (inside dest)]
    rfl
  | clear offset =>
    rw [apply, cell, ok_bind, write_eq hs (inside offset)]
    rfl
  | output offset =>
    rw [apply, cell, ok_bind, read_eq hs (inside offset)]
    rfl
  | input offset =>
    rw [apply, cell, ok_bind, Op.apply, State.receive]
    cases s.input with
    | cons byte rest =>
      have onTape : State.OnTape size { s with input := rest } := ⟨hs.size_eq, hs.pointer_lt⟩
      exact write_eq onTape (inside offset) byte
    | nil =>
      cases eof.fill? with
      | some fill => exact write_eq hs (inside offset) fill
      | none => rfl

/-! ### No run has a fault -/

theorem stop_eq (hs : s.OnTape size) (small : size < 4294967296) (eof : EofPolicy) (budget : Nat)
    (p : Program) : stop eof budget p s = .ok (p.stop eof budget s) := by
  induction budget generalizing p s with
  | zero => cases p <;> rfl
  | succ budget ih =>
    cases p with
    | nil => rfl
    | op o next =>
      rw [stop, apply_eq hs small, ok_bind]
      exact ih (Op.apply_onTape hs eof o) next
    | loop body next =>
      rw [stop, read_eq hs hs.pointer_lt, ok_bind, Program.stop, State.current]
      split
      · exact ih hs next
      · exact ih hs _

end Checked

namespace Program

variable {size : Nat} {s : State}

theorem stop_onTape (hs : s.OnTape size) (eof : EofPolicy) (budget : Nat) (p : Program) :
    (p.stop eof budget s).state.OnTape size := by
  induction budget generalizing p s with
  | zero => cases p <;> exact hs
  | succ budget ih =>
    cases p with
    | nil => exact hs
    | op o next => exact ih (Op.apply_onTape hs eof o) next
    | loop body next =>
      rw [stop]
      split
      · exact ih hs next
      · exact ih hs _

/-- What the interpreter reports is the state of one of the stops. -/
theorem stop_of_interpret {c : CompilerSettings} {p : Program} {input : List UInt8}
    {limit : Option Nat} {r : Report} (hsize : c.memorySize ≠ 0)
    (h : p.interpret c limit input = .ok r) :
    ∃ n, r = (p.stop c.eof n (.initial c.memorySize.toNat input)).state.report := by
  obtain ⟨n, t, taken, _, rfl⟩ := (interpret_eq_ok_iff hsize).mp h
  have ended := taken.run 0
  rw [run_eq_outcome, Stop.outcome_eq_finished_iff] at ended
  obtain ⟨_, rfl, _⟩ := ended
  exact ⟨n, rfl⟩

/-- The interpreter is safe on every tape. Wherever a run stops, after any number of steps, its pointer
is on the tape, the tape has kept its size, and the machine that checks every index and every number
on the way has come to the same place without a fault. So the pointer and the tape of every report are
such, too. -/
theorem interpret_safe (c : CompilerSettings) (positive : 1 ≤ c.memorySize.toNat) (p : Program)
    (input : List UInt8) :
    let size := c.memorySize.toNat
    let start := State.initial size input
    (∀ n, p.run c.eof n start = (p.stop c.eof n start).outcome ∧
      (p.stop c.eof n start).state.pointer < size ∧
      (p.stop c.eof n start).state.tape.size = size ∧
      Checked.stop c.eof n p start = .ok (p.stop c.eof n start)) ∧
    ∀ limit r, p.interpret c limit input = .ok r →
      (∃ n, r = (p.stop c.eof n start).state.report) ∧ r.pointer < size ∧ r.memory.size = size := by
  intro size start
  have onTape : start.OnTape size := State.initial_onTape positive input
  have small : size < 4294967296 := c.memorySize.toNat_lt
  constructor
  · intro n
    have reached := stop_onTape onTape c.eof n p
    exact ⟨run_eq_outcome c.eof n p start, reached.pointer_lt, reached.size_eq,
      Checked.stop_eq onTape small c.eof n p⟩
  · intro limit r h
    obtain ⟨n, rfl⟩ := stop_of_interpret (CompilerSettings.memorySize_ne_zero positive) h
    have reached := stop_onTape onTape c.eof n p
    exact ⟨⟨n, rfl⟩, reached.pointer_lt, reached.size_eq⟩

/-- The widest moves and offsets, on a tape of one cell and on the longest one. -/
theorem interpret_safe_narrow_and_wide :
    let p := op (.left 4294967295) (op (.add 3 (-2147483648))
      (loop (op (.right 4294967295) (op (.sub 1 2147483647) nil)) nil))
    let narrow : CompilerSettings := { memorySize := 1 }
    let wide : CompilerSettings := { memorySize := 4294967295 }
    1 ≤ narrow.memorySize.toNat ∧ 1 ≤ wide.memorySize.toNat ∧
      (∀ n, (p.stop narrow.eof n (.initial 1 [])).state.pointer = 0) ∧
      (∃ t, Checked.stop narrow.eof 12 p (.initial 1 []) = .ok t ∧ t.state.tape = #[0]) ∧
      ∀ n, Checked.stop wide.eof n p (.initial 4294967295 []) =
        .ok (p.stop wide.eof n (.initial 4294967295 [])) := by
  intro p narrow wide
  have one : 1 ≤ narrow.memorySize.toNat := by decide
  have many : 1 ≤ wide.memorySize.toNat := by decide
  obtain ⟨stops, _⟩ := interpret_safe narrow one p []
  obtain ⟨wideStops, _⟩ := interpret_safe wide many p []
  refine ⟨one, many, ?_, ?_, fun n => (wideStops n).2.2.2⟩
  · intro n
    exact Nat.lt_one_iff.mp (stops n).2.1
  · exact ⟨_, (stops 12).2.2.2, by decide +kernel⟩

end Program
end TapeCompiler
