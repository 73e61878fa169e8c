import TapeCompiler.Proofs.Machine.LockStep
import TapeCompiler.Proofs.Machine.Tape

/-!
The tape has no seam. If the whole ring is turned, and the pointer with it, every operation does
the same to the turned state as before (`Op.apply_rotated`): moves and offsets count from the
pointer, and the turn keeps all distances. So the two runs stay in lock step, and where the tape
begins and ends makes no difference to any of them.
-/

namespace TapeCompiler

theorem turn_eq_iff {size i j : Nat} (hi : i < size) (hj : j < size) (k : Int) :
    turn size k i = j ↔ i = turn size (-k) j := by
  have pos : 0 < size := Nat.zero_lt_of_lt hi
  constructor
  · rintro rfl
    rw [turn_turn pos, Int.add_right_neg, turn_zero hi]
  · rintro rfl
    rw [turn_turn pos, Int.add_left_neg, turn_zero hj]

namespace State

/-- The state with the ring turned by `k`: each cell comes to be `k` places further on, and the
pointer stays on its cell. -/
def rotated (s : State) (k : Int) : State :=
  { s with
    tape := .ofFn fun i : Fin s.tape.size => s.read (turn s.tape.size (-k) i)
    pointer := turn s.tape.size k s.pointer }

variable {size : Nat} {s : State} {i : Nat}

theorem rotated_pointer (hs : s.OnTape size) (k : Int) :
    (s.rotated k).pointer = turn size k s.pointer := by
  rw [← hs.size_eq]
  rfl

theorem rotated_onTape (hs : s.OnTape size) (k : Int) : (s.rotated k).OnTape size where
  size_eq := Array.size_ofFn.trans hs.size_eq
  pointer_lt := by
    rw [rotated_pointer hs]
    exact turn_lt hs.pos k s.pointer

theorem read_rotated (hs : s.OnTape size) (hi : i < size) (k : Int) :
    (s.rotated k).read i = s.read (turn size (-k) i) := by
  simp only [rotated, read, Array.getD_eq_getD_getElem?, Array.getElem?_ofFn, hs.size_eq, hi,
    dite_true, Option.getD_some]

/-- The byte goes with its cell. -/
theorem read_rotated_turn (hs : s.OnTape size) (hi : i < size) (k : Int) :
    (s.rotated k).read (turn size k i) = s.read i := by
  rw [read_rotated hs (turn_lt hs.pos k i), turn_turn hs.pos, Int.add_right_neg, turn_zero hi]

theorem current_rotated (hs : s.OnTape size) (k : Int) : (s.rotated k).current = s.current := by
  rw [current, rotated_pointer hs, read_rotated_turn hs hs.pointer_lt, current]

theorem cell_rotated (hs : s.OnTape size) (k d : Int) :
    (s.rotated k).cell d = turn size k (s.cell d) := by
  rw [cell_eq_turn (rotated_onTape hs k), rotated_pointer hs, cell_eq_turn hs, turn_turn hs.pos,
    turn_turn hs.pos, Int.add_comm]

theorem address_rotated (hs : s.OnTape size) (k : Int) (offset : Int32) :
    (s.rotated k).address offset = turn size k (s.address offset) :=
  cell_rotated hs k offset.toInt

theorem moved_rotated (hs : s.OnTape size) (k d : Int) :
    (s.rotated k).moved d = (s.moved d).rotated k := by
  simp only [moved, cell_rotated hs]
  simp only [rotated, hs.size_eq]
  rfl

theorem write_rotated (hs : s.OnTape size) (hi : i < size) (k : Int) (v : UInt8) :
    (s.rotated k).write (turn size k i) v = (s.write i v).rotated k := by
  have turned := rotated_onTape hs k
  have written := write_onTape hs i v
  apply ext_read (write_onTape turned _ v) (rotated_onTape written k)
  · intro j hj
    rw [read_write turned (turn_lt hs.pos k i), read_rotated hs hj, read_rotated written hj,
      read_write hs hi]
    have same : j = turn size k i ↔ turn size (-k) j = i := by
      rw [eq_comm, turn_eq_iff hi hj, eq_comm]
    simp only [same]
  · rw [write_pointer, rotated_pointer hs, rotated_pointer written, write_pointer]
  · rfl
  · rfl

theorem receive_rotated (hs : s.OnTape size) (hi : i < size) (eof : EofPolicy) (k : Int) :
    (s.rotated k).receive eof (turn size k i) = (s.receive eof i).rotated k := by
  simp only [receive, show (s.rotated k).input = s.input from rfl]
  cases s.input with
  | cons byte rest =>
    have onTape : State.OnTape size { s with input := rest } := ⟨hs.size_eq, hs.pointer_lt⟩
    exact write_rotated onTape hi k byte
  | nil =>
    cases eof.fill? with
    | none => rfl
    | some fill => exact write_rotated hs hi k fill

end State

variable {size : Nat} {s : State}

theorem Op.apply_rotated (hs : s.OnTape size) (eof : EofPolicy) (o : Op) (k : Int) :
    o.apply eof (s.rotated k) = (o.apply eof s).rotated k := by
  have turned := State.rotated_onTape hs k
  have inside (offset : Int32) := State.address_lt hs offset
  cases o with
  | right count =>
    simp only [apply, State.right_eq_moved]
    exact State.moved_rotated hs k _
  | left count =>
    simp only [apply, State.left_eq_moved hs, State.left_eq_moved turned]
    exact State.moved_rotated hs k _
  | add amount offset | sub amount offset =>
    simp only [apply, State.address_rotated hs, State.read_rotated_turn hs (inside offset)]
    exact State.write_rotated hs (inside offset) k _
  | mul dest factor source =>
    simp only [apply, State.address_rotated hs, State.read_rotated_turn hs (inside dest),
      State.read_rotated_turn hs (inside source)]
    exact State.write_rotated hs (inside dest) k _
  | clear offset =>
    simp only [apply, State.address_rotated hs]
    exact State.write_rotated hs (inside offset) k 0
  | output offset =>
    simp only [apply, State.address_rotated hs, State.read_rotated_turn hs (inside offset)]
    rfl
  | input offset =>
    simp only [apply, State.address_rotated hs]
    exact State.receive_rotated hs (inside offset) eof k

theorem rotated_lockStep (size : Nat) (eof : EofPolicy) (k : Int) :
    LockStep eof fun s t => s.OnTape size ∧ t = s.rotated k where
  current := by
    rintro s _ ⟨hs, rfl⟩
    exact (State.current_rotated hs k).symm
  apply := by
    rintro s _ o ⟨hs, rfl⟩
    exact ⟨Op.apply_onTape hs eof o, Op.apply_rotated hs eof o k⟩

/-- The stop with its state changed by `f`. -/
def Stop.map (f : State → State) (x : Stop) : Stop :=
  ⟨x.left, f x.state, x.spare⟩

/-- The outcome with its final state changed by `f`. -/
def Outcome.map (f : State → State) : Outcome → Outcome
  | finished final spare => finished (f final) spare
  | outOfSteps => outOfSteps

theorem Stop.outcome_map (f : State → State) (x : Stop) :
    (x.map f).outcome = x.outcome.map f := by
  obtain ⟨left, state, spare⟩ := x
  cases left <;> rfl

namespace Program

theorem stop_rotated (hs : s.OnTape size) (eof : EofPolicy) (p : Program) (k : Int)
    (budget : Nat) :
    p.stop eof budget (s.rotated k) = (p.stop eof budget s).map (·.rotated k) := by
  obtain ⟨left, spare, _, state⟩ := (rotated_lockStep size eof k).stop budget p ⟨hs, rfl⟩
  rw [Stop.map, left, spare, ← state]

/-- The tape has no seam. From a state whose ring is turned, and the pointer with it, a run takes
the same way: it comes to its end, or is cut short by a limit, after as many steps, in front of the
same rest of the program, with the same output and the same input unread, in the state turned as
much. -/
theorem run_rotated (eof : EofPolicy) (p : Program) (size : Nat) (s : State) (hs : s.OnTape size)
    (k : Int) :
    (∀ budget, p.run eof budget (s.rotated k) = (p.run eof budget s).map (·.rotated k)) ∧
    (∀ budget, p.stop eof budget (s.rotated k) = (p.stop eof budget s).map (·.rotated k)) ∧
    p.runToEnd eof (s.rotated k) = (p.runToEnd eof s).map (·.rotated k) ∧
    ∀ n t, Takes eof p s n t → Takes eof p (s.rotated k) n (t.rotated k) := by
  have together := rotated_lockStep size eof k
  refine ⟨?_, stop_rotated hs eof p k, ?_, ?_⟩
  · intro budget
    rw [run_eq_outcome, run_eq_outcome, stop_rotated hs, Stop.outcome_map]
  · have both := together.runToEnd p ⟨hs, rfl⟩
    generalize p.runToEnd eof s = one at both ⊢
    generalize p.runToEnd eof (s.rotated k) = other at both ⊢
    cases both with
    | some related => exact congrArg some related.2
    | none => rfl
  · intro n t taken
    obtain ⟨_, taken', _, rfl⟩ := together.takes ⟨hs, rfl⟩ taken
    exact taken'

/-- On three cells a turn by seven is a turn by one. The offsets go round the tape in both
directions, and the move goes round it in each of two iterations; ten steps do not last for them. -/
theorem run_rotated_three :
    let s : State := ⟨#[5, 0, 2], 2, [9], #[]⟩
    let body := ofOps [.sub 1 0, .mul (-7) 3 0, .output 4, .right 3]
    let p := loop body (op (.input 4) nil)
    s.OnTape 3 ∧ s.rotated 7 = ⟨#[2, 5, 0], 0, [9], #[]⟩ ∧
      p.run .zero 13 s = .finished ⟨#[9, 3, 0], 2, [], #[5, 5]⟩ 1 ∧
      p.run .zero 13 (s.rotated 7) = .finished ⟨#[0, 9, 3], 0, [], #[5, 5]⟩ 1 ∧
      p.run .zero 10 (s.rotated 7) = .outOfSteps := by
  intro s body p
  have onTape : s.OnTape 3 := ⟨rfl, by decide⟩
  have ran : p.run .zero 13 s = .finished ⟨#[9, 3, 0], 2, [], #[5, 5]⟩ 1 := by decide +kernel
  have cut : p.run .zero 10 s = .outOfSteps := by decide +kernel
  obtain ⟨same, _⟩ := run_rotated .zero p 3 s onTape 7
  refine ⟨onTape, by decide +kernel, ran, ?_, ?_⟩
  · rw [same, ran]
    decide +kernel
  · rw [same, cut]
    rfl

end Program
end TapeCompiler
