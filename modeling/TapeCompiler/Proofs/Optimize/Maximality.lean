import TapeCompiler.Proofs.Optimize.Contraction
import TapeCompiler.Proofs.Program.Blocks

/-!
Contraction leaves nothing to merge. An operation is given up only when the next one does not fit
into it, and the next one can only grow from there, so the two stay apart (`Mergeable.of_merge?`).
Programs without neighbours to merge are exactly those that contraction leaves alone, hence a second
contraction changes nothing.
-/

namespace TapeCompiler

namespace Op

variable {earlier later merged o : Op}

/-- Moves in one direction, or updates of one cell in one direction, whose counts have a sum. -/
inductive Mergeable : Op → Op → Prop
  | right {m n : UInt32} (fits : m.toNat + n.toNat < 4294967296) : Mergeable (.right m) (.right n)
  | left {m n : UInt32} (fits : m.toNat + n.toNat < 4294967296) : Mergeable (.left m) (.left n)
  | add {m n : UInt32} {a : Int32} (fits : m.toNat + n.toNat < 4294967296) :
      Mergeable (.add m a) (.add n a)
  | sub {m n : UInt32} {a : Int32} (fits : m.toNat + n.toNat < 4294967296) :
      Mergeable (.sub m a) (.sub n a)

theorem mergeable_iff : earlier.Mergeable later ↔ ∃ merged, earlier.merge? later = some merged := by
  constructor
  · intro h
    cases h with
    | right fits | left fits | add fits | sub fits =>
      simp only [merge?, Word.sum?, if_pos fits, if_true, Option.map_some]
      exact ⟨_, rfl⟩
  · rintro ⟨merged, merges⟩
    obtain ⟨m, n, sum, rfl, rfl, rfl, hsum⟩ | ⟨m, n, sum, rfl, rfl, rfl, hsum⟩ |
      ⟨m, n, sum, a, rfl, rfl, rfl, hsum⟩ | ⟨m, n, sum, a, rfl, rfl, rfl, hsum⟩ :=
        merge?_cases merges
    · exact .right (Word.sum?_lt hsum)
    · exact .left (Word.sum?_lt hsum)
    · exact .add (Word.sum?_lt hsum)
    · exact .sub (Word.sum?_lt hsum)

theorem merge?_eq_none_iff : earlier.merge? later = none ↔ ¬ earlier.Mergeable later := by
  rw [mergeable_iff, Option.eq_none_iff_forall_ne_some, not_exists]

/-- What fits together with a merged operation fits with the first part of it. -/
theorem Mergeable.of_merge? (h : earlier.Mergeable merged) (merges : o.merge? later = some merged) :
    earlier.Mergeable o := by
  obtain ⟨m, n, sum, rfl, rfl, rfl, hsum⟩ | ⟨m, n, sum, rfl, rfl, rfl, hsum⟩ |
    ⟨m, n, sum, a, rfl, rfl, rfl, hsum⟩ | ⟨m, n, sum, a, rfl, rfl, rfl, hsum⟩ :=
      merge?_cases merges
  all_goals have total := (Word.sum?_eq_some hsum).2
  · cases h with | right fits => exact .right (by omega)
  · cases h with | left fits => exact .left (by omega)
  · cases h with | add fits => exact .add (by omega)
  · cases h with | sub fits => exact .sub (by omega)

end Op

namespace Program

variable {p : Program}

/-- No operation at the front of the program merges into `o`. -/
def Refuses (o : Op) : Program → Prop
  | op later _ => ¬ o.Mergeable later
  | _ => True

/-- Nowhere do two neighbours merge. -/
def Contracted (p : Program) : Prop :=
  p.Along fun o next => next.Refuses o

/-- The operation that is held back may grow, but not into what was given up before it. -/
theorem refuses_contractFrom {earlier held : Op} (apart : ¬ earlier.Mergeable held) (p : Program) :
    (contractFrom (some held) p).Refuses earlier := by
  induction p generalizing held with
  | nil => exact apart
  | op o next ih =>
    simp only [contractFrom]
    cases merges : held.merge? o with
    | none => exact apart
    | some merged => exact ih fun fits => apart (fits.of_merge? merges)
  | loop body next => exact apart

theorem contractFrom_contracted (held : Option Op) (p : Program) :
    (contractFrom held p).Contracted := by
  induction p generalizing held with
  | nil =>
    cases held with
    | none => trivial
    | some held => exact ⟨trivial, trivial⟩
  | op o next ih =>
    cases held with
    | none => exact ih (some o)
    | some held =>
      simp only [contractFrom]
      cases merges : held.merge? o with
      | none =>
        have apart := Op.merge?_eq_none_iff.mp merges
        exact ⟨refuses_contractFrom apart next, ih (some o)⟩
      | some merged => exact ih (some merged)
  | loop body next ihBody ihNext =>
    cases held with
    | none => exact ⟨ihBody none, ihNext none⟩
    | some held => exact ⟨trivial, ihBody none, ihNext none⟩

theorem contractFrom_eq_release {held : Option Op} (h : (release held p).Contracted) :
    contractFrom held p = release held p := by
  induction p generalizing held with
  | nil => cases held <;> rfl
  | op o next ih =>
    have rest : contractFrom (some o) next = op o next := by
      cases held with
      | none => exact ih h
      | some held => exact ih h.2
    cases held with
    | none => exact rest
    | some held =>
      have apart : held.merge? o = none := Op.merge?_eq_none_iff.mpr h.1
      simp only [contractFrom, apart, rest, release]
  | loop body next ihBody ihNext =>
    have parts : body.Contracted ∧ next.Contracted := by
      cases held with
      | none => exact h
      | some held => exact h.2
    have inside : contractFrom none body = release none body := ihBody parts.1
    have behind : contractFrom none next = release none next := ihNext parts.2
    have same : loop (contractFrom none body) (contractFrom none next) = loop body next := by
      rw [inside, behind, release, release]
    cases held with
    | none => exact same
    | some held => exact congrArg (op held) same

/-- The programs that contraction leaves alone. -/
theorem contract_eq_self_iff : p.contract = p ↔ p.Contracted := by
  constructor
  · intro same
    rw [← same]
    exact contractFrom_contracted none p
  · intro h
    exact contractFrom_eq_release h

/-- In no block of a contracted program, at any depth, do neighbours still merge, and contracting it
again changes nothing. -/
theorem contract_maximal (p : Program) :
    (∀ b ∈ p.contract.blocks, ∀ (before after : Program) (earlier later : Op),
      b = before ++ op earlier (op later after) →
        ¬ earlier.Mergeable later ∧ earlier.merge? later = none) ∧
    p.contract.contract = p.contract := by
  have contracted : p.contract.Contracted := contractFrom_contracted none p
  refine ⟨?_, contract_eq_self_iff.mpr contracted⟩
  intro b mem before after earlier later here
  have apart : ¬ earlier.Mergeable later := contracted.split mem here
  exact ⟨apart, Op.merge?_eq_none_iff.mpr apart⟩

/-- The second move is refused, and then grows. -/
theorem contract_maximal_refused :
    let body := op (.right 4294967295) (op (.right 1) (op (.right 2) nil))
    let p := op (.output 0) (loop body nil)
    let contracted := op (.right 4294967295) (op (.right 3) nil)
    contracted ∈ p.contract.blocks ∧ contracted = nil ++ contracted ∧
      ¬ (Op.right 4294967295).Mergeable (.right 3) ∧
      (Op.right 4294967295).merge? (.right 3) = none := by
  intro body p contracted
  have mem : contracted ∈ p.contract.blocks := by decide
  exact ⟨mem, rfl, (contract_maximal p).1 contracted mem nil nil _ _ rfl⟩

end Program
end TapeCompiler
