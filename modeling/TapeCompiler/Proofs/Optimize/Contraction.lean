import TapeCompiler.Proofs.Optimize.Equivalence
import TapeCompiler.Proofs.Word

/-! Contraction keeps what a program does. -/

namespace TapeCompiler

namespace Op

variable {size : Nat} {s : State} {earlier later merged : Op}

/-- What merges, and into what. -/
theorem merge?_cases (h : earlier.merge? later = some merged) :
    (∃ m n sum, earlier = right m ∧ later = right n ∧ merged = right sum ∧
      Word.sum? m n = some sum) ∨
    (∃ m n sum, earlier = left m ∧ later = left n ∧ merged = left sum ∧
      Word.sum? m n = some sum) ∨
    (∃ m n sum a, earlier = add m a ∧ later = add n a ∧ merged = add sum a ∧
      Word.sum? m n = some sum) ∨
    (∃ m n sum a, earlier = sub m a ∧ later = sub n a ∧ merged = sub sum a ∧
      Word.sum? m n = some sum) := by
  unfold merge? at h
  split at h
  · obtain ⟨sum, hsum, rfl⟩ := Option.map_eq_some_iff.mp h
    exact .inl ⟨_, _, sum, rfl, rfl, rfl, hsum⟩
  · obtain ⟨sum, hsum, rfl⟩ := Option.map_eq_some_iff.mp h
    exact .inr (.inl ⟨_, _, sum, rfl, rfl, rfl, hsum⟩)
  · split at h
    · rename_i same
      obtain ⟨sum, hsum, rfl⟩ := Option.map_eq_some_iff.mp h
      exact .inr (.inr (.inl ⟨_, _, sum, _, rfl, by rw [same], rfl, hsum⟩))
    · cases h
  · split at h
    · rename_i same
      obtain ⟨sum, hsum, rfl⟩ := Option.map_eq_some_iff.mp h
      exact .inr (.inr (.inr ⟨_, _, sum, _, rfl, by rw [same], rfl, hsum⟩))
    · cases h
  · cases h

/-- Two updates of one cell are one. -/
theorem write_update_twice (hs : s.OnTape size) (d : Int) (v w : UInt8) :
    (s.write (s.cell d) v).write (s.cell d) ((s.write (s.cell d) v).read (s.cell d) + w) =
      s.write (s.cell d) (v + w) := by
  rw [State.read_write hs (State.cell_lt hs d), if_pos rfl, State.write_write]

theorem apply_merge? (hs : s.OnTape size) (eof : EofPolicy)
    (h : earlier.merge? later = some merged) :
    merged.apply eof s = later.apply eof (earlier.apply eof s) := by
  obtain ⟨m, n, sum, rfl, rfl, rfl, hsum⟩ | ⟨m, n, sum, rfl, rfl, rfl, hsum⟩ |
    ⟨m, n, sum, a, rfl, rfl, rfl, hsum⟩ | ⟨m, n, sum, a, rfl, rfl, rfl, hsum⟩ := merge?_cases h
  · obtain ⟨_, total⟩ := Word.sum?_eq_some hsum
    simp only [apply, State.right_eq_moved, State.moved_moved hs, total, Int.natCast_add]
  · obtain ⟨_, total⟩ := Word.sum?_eq_some hsum
    have onTape := State.moved_onTape hs (-(m.toNat : Int))
    simp only [apply, State.left_eq_moved hs, State.left_eq_moved onTape, State.moved_moved hs,
      total, Int.natCast_add, Int.neg_add]
  · obtain ⟨total, _⟩ := Word.sum?_eq_some hsum
    simp only [apply, State.address_eq_cell, State.write_cell, write_update_twice hs, total,
      UInt32.toUInt8_add, UInt8.add_assoc]
  · obtain ⟨total, _⟩ := Word.sum?_eq_some hsum
    simp only [apply, State.address_eq_cell, State.write_cell, UInt8.sub_eq_add_neg,
      write_update_twice hs, total, UInt32.toUInt8_add, UInt8.neg_add, UInt8.add_assoc]

end Op

namespace Program

variable {size : Nat}

/-- The merged operation acts as the two that it stands for. -/
theorem merged_same {earlier later merged : Op} (merges : earlier.merge? later = some merged)
    (next : Program) : Same size (op merged next) (op earlier (op later next)) := by
  intro eof s t hs
  rw [ends_op, ends_op, ends_op, Op.apply_merge? hs eof merges]

theorem contract_same (p : Program) : Same size p.contract p :=
  Same.congruence.contractFrom merged_same none p

end Program
end TapeCompiler
