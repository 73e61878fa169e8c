import TapeCompiler.Compile

/-!
Programs without defects. The search for the first defect finds none exactly if every operation, at
every depth, is sound.
-/

namespace TapeCompiler

/-- Nothing is wrong with the operation. -/
def Op.Sound (o : Op) : Prop := o.defect? = none

instance (o : Op) : Decidable o.Sound := inferInstanceAs (Decidable (o.defect? = none))

namespace Op

variable {count amount : UInt32} {offset dest factor source : Int32}

@[simp]
theorem sound_right : (right count).Sound ↔ count ≠ 0 := by simp [Sound, defect?]

@[simp]
theorem sound_left : (left count).Sound ↔ count ≠ 0 := by simp [Sound, defect?]

@[simp]
theorem sound_add : (add amount offset).Sound ↔ amount ≠ 0 := by simp [Sound, defect?]

@[simp]
theorem sound_sub : (sub amount offset).Sound ↔ amount ≠ 0 := by simp [Sound, defect?]

@[simp]
theorem sound_mul : (mul dest factor source).Sound ↔ factor ≠ 0 ∧ dest ≠ source := by
  unfold Sound defect?
  by_cases zero : factor = 0
  · simp [zero]
  · simp [zero]

@[simp]
theorem sound_clear : (clear offset).Sound := rfl

end Op

namespace Program

/-- All operations of a program, inside its loops too, have the property. -/
def Every (P : Op → Prop) : Program → Prop
  | nil => True
  | op o next => P o ∧ next.Every P
  | loop body next => body.Every P ∧ next.Every P

variable {P : Op → Prop}

theorem every_prepend {ops : List Op} {p : Program} (hops : ∀ o ∈ ops, P o) (hp : p.Every P) :
    (prepend ops p).Every P := by
  induction ops with
  | nil => exact hp
  | cons o rest ih =>
    have first : P o := hops o List.mem_cons_self
    have others : ∀ o ∈ rest, P o := fun o mem => hops o (List.mem_cons_of_mem _ mem)
    exact ⟨first, ih others⟩

theorem firstDefectFrom?_eq_none_iff (index : Nat) (p : Program) :
    p.firstDefectFrom? index = none ↔ p.Every Op.Sound := by
  induction p generalizing index with
  | nil => exact iff_of_true rfl trivial
  | op o next ih =>
    simp only [firstDefectFrom?, Every, Op.Sound]
    cases o.defect? with
    | none => simpa using ih (index + 1)
    | some d => simp
  | loop body next ihBody ihNext =>
    simp only [firstDefectFrom?, Every]
    rw [← ihBody 0, ← ihNext (index + 1)]
    cases body.firstDefectFrom? 0 with
    | none => simp
    | some f => simp

theorem firstDefect?_eq_none_iff (p : Program) : p.firstDefect? = none ↔ p.Every Op.Sound :=
  firstDefectFrom?_eq_none_iff 0 p

theorem checkDefects_eq_ok_iff (p : Program) : p.checkDefects = .ok () ↔ p.Every Op.Sound := by
  rw [← firstDefect?_eq_none_iff, checkDefects]
  cases p.firstDefect? with
  | none => simp
  | some f => simp

end Program
end TapeCompiler
