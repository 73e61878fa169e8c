import TapeCompiler.Proofs.Optimize.Equivalence
import TapeCompiler.Proofs.Word

/-!
Coalescing keeps what a program does. What is rewritten runs from the pointer as it is, and the
original from the pointer moved by what is pending.
-/

namespace TapeCompiler

namespace Op

variable {size : Nat} {s : State} {o shifted : Op}

theorem distance?_range {d : Int} (h : o.distance? = some d) : d.natAbs < 4294967296 := by
  cases o with
  | right count | left count =>
    have := count.toNat_lt
    cases h
    omega
  | add | sub | mul | clear | output | input => cases h

theorem apply_distance? (hs : s.OnTape size) (eof : EofPolicy) {d : Int}
    (h : o.distance? = some d) : o.apply eof s = s.moved d := by
  cases o with
  | right count =>
    cases h
    exact State.right_eq_moved s _
  | left count =>
    cases h
    exact State.left_eq_moved hs _
  | add | sub | mul | clear | output | input => cases h

theorem apply_motion (hs : s.OnTape size) (eof : EofPolicy) {d : Int}
    (range : d.natAbs < 4294967296) : (motion d).apply eof s = s.moved d := by
  have count : (UInt32.ofNat d.natAbs).toNat = d.natAbs := UInt32.toNat_ofNat_of_lt' range
  unfold motion
  split
  · simp only [apply, State.right_eq_moved, count]
    congr 1
    omega
  · simp only [apply, State.left_eq_moved hs, count]
    congr 1
    omega

/-- The second operation is the first with `d` added to every offset. -/
inductive ShiftedBy (d : Int) : Op → Op → Prop
  | add {amount : UInt32} {a a' : Int32} (h : a'.toInt = a.toInt + d) :
      ShiftedBy d (.add amount a) (.add amount a')
  | sub {amount : UInt32} {a a' : Int32} (h : a'.toInt = a.toInt + d) :
      ShiftedBy d (.sub amount a) (.sub amount a')
  | mul {dest dest' factor source source' : Int32} (hdest : dest'.toInt = dest.toInt + d)
      (hsource : source'.toInt = source.toInt + d) :
      ShiftedBy d (.mul dest factor source) (.mul dest' factor source')
  | clear {a a' : Int32} (h : a'.toInt = a.toInt + d) : ShiftedBy d (.clear a) (.clear a')
  | output {a a' : Int32} (h : a'.toInt = a.toInt + d) : ShiftedBy d (.output a) (.output a')
  | input {a a' : Int32} (h : a'.toInt = a.toInt + d) : ShiftedBy d (.input a) (.input a')

theorem shiftedBy_of_shift? {w : Int32} (stays : o.distance? = none)
    (h : o.shift? w = some shifted) : o.ShiftedBy w.toInt shifted := by
  cases o with
  | right | left => cases stays
  | add amount offset =>
    obtain ⟨_, moves, rfl⟩ := Option.map_eq_some_iff.mp h
    exact .add (Word.narrow?_eq_some_iff.mp moves)
  | sub amount offset =>
    obtain ⟨_, moves, rfl⟩ := Option.map_eq_some_iff.mp h
    exact .sub (Word.narrow?_eq_some_iff.mp moves)
  | mul dest factor source =>
    obtain ⟨_, movesDest, rest⟩ := Option.bind_eq_some_iff.mp h
    obtain ⟨_, movesSource, rest⟩ := Option.bind_eq_some_iff.mp rest
    cases rest
    exact .mul (Word.narrow?_eq_some_iff.mp movesDest) (Word.narrow?_eq_some_iff.mp movesSource)
  | clear offset =>
    obtain ⟨_, moves, rfl⟩ := Option.map_eq_some_iff.mp h
    exact .clear (Word.narrow?_eq_some_iff.mp moves)
  | output offset =>
    obtain ⟨_, moves, rfl⟩ := Option.map_eq_some_iff.mp h
    exact .output (Word.narrow?_eq_some_iff.mp moves)
  | input offset =>
    obtain ⟨_, moves, rfl⟩ := Option.map_eq_some_iff.mp h
    exact .input (Word.narrow?_eq_some_iff.mp moves)

theorem distance?_shift? {w : Int32} (stays : o.distance? = none) (h : o.shift? w = some shifted) :
    shifted.distance? = none := by
  cases shiftedBy_of_shift? stays h <;> rfl

/-- An operation acts before a motion as its shifted form does after it. -/
theorem apply_shift? (hs : s.OnTape size) (eof : EofPolicy) {delta : Int32}
    (stays : o.distance? = none) (h : o.shift? delta = some shifted) :
    (shifted.apply eof s).moved delta.toInt = o.apply eof (s.moved delta.toInt) := by
  have here {offset offset' : Int32} (moves : offset'.toInt = offset.toInt + delta.toInt) :
      s.address offset' = (s.moved delta.toInt).address offset := by
    rw [State.address_eq_cell, State.address_eq_cell, State.cell_moved hs, moves, Int.add_comm]
  cases shiftedBy_of_shift? stays h with
  | add moves | sub moves => simp only [apply, here moves, State.write_moved, State.read_moved]
  | mul movesDest movesSource =>
    simp only [apply, here movesDest, here movesSource, State.write_moved, State.read_moved]
  | clear moves => simp only [apply, here moves, State.write_moved]
  | output moves =>
    simp only [apply, here moves, State.read_moved]
    rfl
  | input moves => simp only [apply, here moves, State.receive_moved]

end Op

namespace Program

variable {size : Nat} {eof : EofPolicy} {s t : State}

theorem ends_flush (hs : s.OnTape size) (pending : Int32) (next : Program) :
    Ends eof (flush pending next) s t ↔ Ends eof next (s.moved pending.toInt) t := by
  unfold flush
  split
  · rename_i none
    rw [none, show (0 : Int32).toInt = 0 from rfl, State.moved_zero hs]
  · have low := pending.le_toInt
    have high := pending.toInt_lt
    rw [ends_op, Op.apply_motion hs eof (by omega)]

theorem joined_same {o : Op} {d : Int} {pending sum : Int32} (moves : o.distance? = some d)
    (total : sum.toInt = pending.toInt + d) (next : Program) :
    Same size (flush sum next) (flush pending (op o next)) := by
  intro eof s t hs
  rw [ends_flush hs, ends_flush hs, ends_op,
    Op.apply_distance? (State.moved_onTape hs _) eof moves, State.moved_moved hs, total]

theorem passed_same {o shifted : Op} {pending : Int32} (stays : o.distance? = none)
    (shifts : o.shift? pending = some shifted) (next : Program) :
    Same size (op shifted (flush pending next)) (flush pending (op o next)) := by
  intro eof s t hs
  rw [ends_op, ends_flush (Op.apply_onTape hs eof shifted), ends_flush hs, ends_op,
    Op.apply_shift? hs eof stays shifts]

theorem coalesce_same (p : Program) : Same size p.coalesce p := by
  have same : Same size (coalesceFrom 0 p) (flush 0 p) :=
    Same.congruence.coalesceFrom joined_same passed_same 0 p
  rwa [flush_zero] at same

end Program
end TapeCompiler
