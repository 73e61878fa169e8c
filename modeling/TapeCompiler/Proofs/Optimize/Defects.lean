import TapeCompiler.Proofs.Optimize.Coalescing
import TapeCompiler.Proofs.Optimize.Contraction
import TapeCompiler.Proofs.Optimize.CountedLoop
import TapeCompiler.Proofs.Program.Defects

/-!
No pass brings a defect into a program that has none, whatever the size of the tape, and the
program of a tree has none to begin with. So no source text, with any choice of passes, makes the
compiler stumble over its own program.
-/

namespace TapeCompiler

/-! ### Contraction -/

namespace Op

variable {earlier later merged : Op}

/-- Counts are merged only where the sum fits, so it does not wrap around to nothing. -/
theorem Sound.merge? (sound : earlier.Sound) (h : earlier.merge? later = some merged) :
    merged.Sound := by
  obtain ⟨m, n, sum, rfl, rfl, rfl, hsum⟩ | ⟨m, n, sum, rfl, rfl, rfl, hsum⟩ |
    ⟨m, n, sum, a, rfl, rfl, rfl, hsum⟩ | ⟨m, n, sum, a, rfl, rfl, rfl, hsum⟩ := merge?_cases h
  · exact sound_right.mpr (Word.sum?_ne_zero hsum (sound_right.mp sound))
  · exact sound_left.mpr (Word.sum?_ne_zero hsum (sound_left.mp sound))
  · exact sound_add.mpr (Word.sum?_ne_zero hsum (sound_add.mp sound))
  · exact sound_sub.mpr (Word.sum?_ne_zero hsum (sound_sub.mp sound))

end Op

namespace Program

theorem sound_congruence :
    Congruence fun p q : Program => q.Every Op.Sound → p.Every Op.Sound where
  refl _ sound := sound
  trans h h' sound := h (h' sound)
  op _ h sound := ⟨sound.1, h sound.2⟩
  loop hbody hnext sound := ⟨hbody sound.1, hnext sound.2⟩

theorem contract_sound {p : Program} (sound : p.Every Op.Sound) : p.contract.Every Op.Sound := by
  refine sound_congruence.contractFrom ?_ none p sound
  intro earlier later merged merges next sound
  exact ⟨sound.1.merge? merges, sound.2.2⟩

end Program

/-! ### Counted loops -/

/-- Neither the counter nor a change that cancels is among the factors. -/
theorem Factors.toOps_sound {l : List (Int × Int)} {f : Factors} (h : ofChanges? l = some f) :
    ∀ o ∈ f.toOps, o.Sound := by
  refine forall_toOps ?_ Op.sound_clear
  intro x listed
  have change : (x.1.toInt, x.2.toInt) ∈ f.changes := List.mem_map.mpr ⟨x, listed, rfl⟩
  obtain ⟨_, offset_ne, factor_ne⟩ := ofChanges?_mem h _ change
  refine Op.sound_mul.mpr ⟨?_, ?_⟩
  · intro zero
    exact factor_ne (congrArg Int32.toInt zero)
  · intro zero
    exact offset_ne (congrArg Int32.toInt zero)

namespace Program

theorem multiplyLoops_sound (size : UInt32) {p : Program} (sound : p.Every Op.Sound) :
    (p.multiplyLoops size).Every Op.Sound := by
  induction p with
  | nil => exact sound
  | op o next ih => exact ⟨sound.1, ih sound.2⟩
  | loop body next ihBody ihNext =>
    obtain ⟨hbody, hnext⟩ := sound
    simp only [multiplyLoops]
    split
    · rename_i f counted
      obtain ⟨e, _, _, factors⟩ := factors?_eq_some counted
      exact every_prepend (Factors.toOps_sound factors) (ihNext hnext)
    · exact ⟨ihBody hbody, ihNext hnext⟩

end Program

/-! ### Coalescing -/

namespace Op

theorem motion_sound {d : Int} (range : d.natAbs < 4294967296) (moves : d ≠ 0) :
    (motion d).Sound := by
  have count : UInt32.ofNat d.natAbs ≠ 0 := by
    intro zero
    have number : (UInt32.ofNat d.natAbs).toNat = d.natAbs := UInt32.toNat_ofNat_of_lt' range
    rw [zero, UInt32.toNat_zero] at number
    omega
  unfold motion
  split
  · exact sound_right.mpr count
  · exact sound_left.mpr count

/-- Offsets that are shifted together stay apart. -/
theorem Sound.shift? {o shifted : Op} {delta : Int32} (sound : o.Sound) (stays : o.distance? = none)
    (h : o.shift? delta = some shifted) : shifted.Sound := by
  cases shiftedBy_of_shift? stays h with
  | add | sub => exact sound
  | mul destNumber sourceNumber =>
    obtain ⟨factor_ne, apart⟩ := sound_mul.mp sound
    refine sound_mul.mpr ⟨factor_ne, ?_⟩
    rintro rfl
    exact apart (Int32.toInt.inj (by omega))
  | clear | output | input => rfl

end Op

namespace Program

theorem flush_sound (pending : Int32) {next : Program} (sound : next.Every Op.Sound) :
    (flush pending next).Every Op.Sound := by
  unfold flush
  split
  · exact sound
  · rename_i moves
    have low := pending.le_toInt
    have high := pending.toInt_lt
    have distance : pending.toInt ≠ 0 := fun zero => moves (Int32.toInt.inj zero)
    exact ⟨Op.motion_sound (by omega) distance, sound⟩

theorem sound_of_flush {pending : Int32} {p : Program} (sound : (flush pending p).Every Op.Sound) :
    p.Every Op.Sound := by
  unfold flush at sound
  split at sound
  · exact sound
  · exact sound.2

theorem coalesce_sound {p : Program} (sound : p.Every Op.Sound) : p.coalesce.Every Op.Sound := by
  refine sound_congruence.coalesceFrom ?_ ?_ 0 p (flush_sound 0 sound)
  · intro o d pending sum _ _ next sound
    exact flush_sound sum (sound_of_flush sound).2
  · intro o shifted pending stays shifts next sound
    obtain ⟨ho, hnext⟩ := sound_of_flush sound
    exact ⟨ho.shift? stays shifts, flush_sound pending hnext⟩

end Program

/-! ### All passes -/

theorem Pass.run_sound (size : UInt32) (pass : Pass) {p : Program} (sound : p.Every Op.Sound) :
    (pass.run size p).Every Op.Sound := by
  cases pass with
  | contract => exact Program.contract_sound sound
  | multiplyLoops => exact Program.multiplyLoops_sound size sound
  | coalesceOffsets => exact Program.coalesce_sound sound

namespace Program

theorem runPasses_sound (size : UInt32) (passes : List Pass) {p : Program}
    (sound : p.Every Op.Sound) : (p.runPasses size passes).Every Op.Sound :=
  runPasses_keeps (fun pass _ _ sound => pass.run_sound size sound) sound

theorem ofTree_sound (t : Tree) : (ofTree t).Every Op.Sound := by
  induction t with
  | nil => trivial
  | command c _ next ih =>
    have sound : (ofTree.ofCommand c).Sound := by cases c <;> decide
    exact ⟨sound, ih⟩
  | loop _ body next ihBody ihNext => exact ⟨ihBody, ihNext⟩

theorem optimize_checkDefects (c : CompilerSettings) (t : Tree) :
    ((ofTree t).optimize c).checkDefects = .ok () :=
  (checkDefects_eq_ok_iff _).mpr (runPasses_sound _ _ (ofTree_sound t))

end Program

/-! ### The compiler -/

/-- What is said of a defect is never said of a module. -/
theorem Finding.message_ne_invalidModule (f : Finding) : Error.internal f.message ≠ invalidModule := by
  intro same
  have heads := congrArg (fun s : String => s.toList.head?) (Error.internal.inj same)
  cases f with
  | mk defect path culprit =>
    cases defect <;> simp [Finding.message, Defect.describe, toString] at heads

/-- A step of a chain fails, or it goes on and the rest fails. -/
theorem Error.of_bind {α β : Type} {e : Error} {first : Except Error α}
    {rest : α → Except Error β} (h : first >>= rest = .error e) :
    first = .error e ∨ ∃ a, first = .ok a ∧ rest a = .error e := by
  cases first with
  | error e' => exact .inl (congrArg Except.error (Except.error.inj h))
  | ok a => exact .inr ⟨a, rfl, h⟩

theorem compile_ne_defect (c : CompilerSettings) (source : String) (f : Finding) :
    compile c source ≠ .error (.internal f.message) := by
  intro failed
  obtain settings | ⟨_, _, failed⟩ := Error.of_bind failed
  · unfold CompilerSettings.checked at settings
    split at settings <;> cases settings
  obtain unread | ⟨tree, _, failed⟩ := Error.of_bind failed
  · unfold Tree.parsed at unread
    split at unread <;> cases unread
  obtain emitted | ⟨emission, _, failed⟩ := Error.of_bind failed
  · unfold Program.emitted at emitted
    split at emitted <;> cases emitted
  obtain defect | ⟨_, _, failed⟩ := Error.of_bind failed
  · rw [Program.optimize_checkDefects] at defect
    cases defect
  obtain invalid | ⟨_, _, failed⟩ := Error.of_bind failed
  · unfold checkModule at invalid
    split at invalid
    · cases invalid
    · exact f.message_ne_invalidModule (Except.error.inj invalid).symm
  · cases failed

namespace Program

/-- Programs without defects stay so under every pass, and the program of every tree is one. With
any passes switched on, what is made from a source text passes the check, and compiling never fails
with a defect. -/
theorem checkDefects_kept :
    (∀ (size : UInt32) (p : Program), p.checkDefects = .ok () →
      p.contract.checkDefects = .ok () ∧ (p.multiplyLoops size).checkDefects = .ok () ∧
        p.coalesce.checkDefects = .ok ()) ∧
    (∀ t : Tree, (ofTree t).checkDefects = .ok ()) ∧
    ∀ (c : CompilerSettings) (source : String),
      (∀ t, Tree.parse source = .ok t → ((ofTree t).optimize c).checkDefects = .ok ()) ∧
        ∀ f : Finding, compile c source ≠ .error (.internal f.message) := by
  refine ⟨?_, ?_, ?_⟩
  · intro size p passed
    have sound := (checkDefects_eq_ok_iff p).mp passed
    have kept (pass : Pass) : (pass.run size p).checkDefects = .ok () :=
      (checkDefects_eq_ok_iff _).mpr (pass.run_sound size sound)
    exact ⟨kept .contract, kept .multiplyLoops, kept .coalesceOffsets⟩
  · intro t
    exact (checkDefects_eq_ok_iff _).mpr (ofTree_sound t)
  · intro c source
    exact ⟨fun t _ => optimize_checkDefects c t, compile_ne_defect c source⟩

/-- Counts and offsets at the ends of their ranges, without a tape: the counts do not merge, the
motion is written out before the offset leaves its range, and the loop is replaced. -/
theorem checkDefects_kept_limits :
    let counted := op (.sub 1 0) (op (.add 4294967295 7) (op (.sub 4294967295 7) nil))
    let p := op (.right 4294967295) (op (.right 1) (op (.mul 2147483647 3 0) (loop counted nil)))
    p.checkDefects = .ok () ∧ p.contract.checkDefects = .ok () ∧
      (p.multiplyLoops 0).checkDefects = .ok () ∧ p.coalesce.checkDefects = .ok () := by
  intro counted p
  have passed : p.checkDefects = .ok () := rfl
  exact ⟨passed, checkDefects_kept.1 0 p passed⟩

end Program
end TapeCompiler
