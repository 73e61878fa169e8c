import TapeCompiler.Proofs.Machine.Ending

/-!
Step limits. `Tally` counts what a run without a limit does until it ends: the instructions that it
executes and the iterations that it completes. Together they are the steps that a limit counts
(`Tally.takes`, `Takes.tally`), so a limit cuts a run short exactly if it is below their sum, and
does nothing else to it (`step_limit_exact`).
-/

namespace TapeCompiler.Program

/-- Without a limit the program ends in `t`. On the way from `s` it executes as many instructions as
the first number says and completes as many iterations of loops as the second one says. A loop is
one instruction each time it is reached, however often its body is run; it is counted when it is
left. -/
inductive Tally (eof : EofPolicy) : Program → State → Nat → Nat → State → Prop
  | nil (s : State) : Tally eof .nil s 0 0 s
  | op {o : Op} {next : Program} {s t : State} {executed completed : Nat} :
      Tally eof next (o.apply eof s) executed completed t →
      Tally eof (.op o next) s (executed + 1) completed t
  | leave {body next : Program} {s t : State} {executed completed : Nat} :
      s.current = 0 → Tally eof next s executed completed t →
      Tally eof (.loop body next) s (executed + 1) completed t
  | again {body next : Program} {s u t : State} {executed completed executed' completed' : Nat} :
      s.current ≠ 0 → Tally eof body s executed completed u →
      Tally eof (.loop body next) u executed' completed' t →
      Tally eof (.loop body next) s (executed + executed') (completed + completed' + 1) t

variable {eof : EofPolicy} {p : Program} {s t : State} {n : Nat}

theorem Tally.takes {executed completed : Nat} (h : Tally eof p s executed completed t) :
    Takes eof p s (executed + completed) t := by
  induction h with
  | nil s => exact .nil s
  | @op _ _ _ _ executed completed _ ih =>
    rw [Nat.add_right_comm]
    exact .op ih
  | @leave _ _ _ _ executed completed zero _ ih =>
    rw [Nat.add_right_comm]
    exact .leave zero ih
  | @again _ _ _ _ _ executed completed executed' completed' nonzero _ _ ihBody ihAgain =>
    rw [show executed + executed' + (completed + completed' + 1) =
      executed + completed + (executed' + completed') + 1 by omega]
    exact .again nonzero ihBody ihAgain

theorem Takes.tally (h : Takes eof p s n t) :
    ∃ executed completed, Tally eof p s executed completed t ∧ n = executed + completed := by
  induction h with
  | nil s => exact ⟨0, 0, .nil s, rfl⟩
  | op _ ih =>
    obtain ⟨executed, completed, rest, rfl⟩ := ih
    exact ⟨executed + 1, completed, .op rest, by omega⟩
  | leave zero _ ih =>
    obtain ⟨executed, completed, rest, rfl⟩ := ih
    exact ⟨executed + 1, completed, .leave zero rest, by omega⟩
  | again nonzero _ _ ihBody ihAgain =>
    obtain ⟨executed, completed, once, rfl⟩ := ihBody
    obtain ⟨executed', completed', rest, rfl⟩ := ihAgain
    exact ⟨executed + executed', completed + completed' + 1, .again nonzero once rest, by omega⟩

/-! ### The interpreter -/

section Interpreter

variable {c : CompilerSettings} {input : List UInt8} {limit : Option Nat} {r : Report}

/-- Under a limit the interpreter always answers. -/
theorem interpret_limited (hsize : c.memorySize ≠ 0) (p : Program) (input : List UInt8) (n : Nat) :
    (∃ r, p.interpret c (some n) input = .ok r) ∨
      p.interpret c (some n) input = .error (.exhausted s!"step limit of {n} exceeded") := by
  simp only [interpret, if_neg hsize]
  split
  · exact .inl ⟨_, rfl⟩
  · exact .inr rfl

/-- Whatever the limit, only a program that ends is reported. -/
theorem exists_tally_of_interpret (hsize : c.memorySize ≠ 0)
    (h : p.interpret c limit input = .ok r) :
    ∃ executed completed t,
      Tally c.eof p (.initial c.memorySize.toNat input) executed completed t := by
  obtain ⟨n, t, taken, _⟩ := (interpret_eq_ok_iff hsize).mp h
  obtain ⟨executed, completed, tally, _⟩ := taken.tally
  exact ⟨executed, completed, t, tally⟩

theorem Tally.interpret_eq_ok_iff {executed completed : Nat} (hsize : c.memorySize ≠ 0)
    (tally : Tally c.eof p (.initial c.memorySize.toNat input) executed completed t) :
    p.interpret c limit input = .ok r ↔
      (∀ m, limit = some m → executed + completed ≤ m) ∧ r = t.report :=
  tally.takes.interpret_eq_ok_iff hsize

end Interpreter

/-- A step limit is an exact threshold. Under any limit the interpreter answers, with a report or
with the error that the limit is exceeded. A program that ends without a limit is reported exactly
under the limits from the number of its instructions and iterations on, and the report is the same
as without a limit. A program that never ends exceeds every limit. -/
theorem step_limit_exact (c : CompilerSettings) (positive : 1 ≤ c.memorySize.toNat) (p : Program)
    (input : List UInt8) :
    let start := State.initial c.memorySize.toNat input
    (∀ n, (∃ r, p.interpret c (some n) input = .ok r) ∨
      p.interpret c (some n) input = .error (.exhausted s!"step limit of {n} exceeded")) ∧
    ((∃ r, p.interpret c none input = .ok r) ↔
      ∃ executed completed t, Tally c.eof p start executed completed t) ∧
    (∀ executed completed t, Tally c.eof p start executed completed t →
      p.interpret c none input = .ok t.report ∧
      ∀ n r, p.interpret c (some n) input = .ok r ↔ executed + completed ≤ n ∧ r = t.report) ∧
    ((¬ ∃ executed completed t, Tally c.eof p start executed completed t) →
      ∀ n, p.interpret c (some n) input = .error (.exhausted s!"step limit of {n} exceeded")) := by
  intro start
  have hsize := CompilerSettings.memorySize_ne_zero positive
  have unlimited {executed completed : Nat} {t : State}
      (tally : Tally c.eof p start executed completed t) :
      p.interpret c none input = .ok t.report := by
    refine (tally.interpret_eq_ok_iff hsize).mpr ⟨?_, rfl⟩
    rintro m ⟨⟩
  refine ⟨interpret_limited hsize p input, ⟨?_, ?_⟩, ?_, ?_⟩
  · rintro ⟨r, h⟩
    exact exists_tally_of_interpret hsize h
  · rintro ⟨executed, completed, t, tally⟩
    exact ⟨t.report, unlimited tally⟩
  · intro executed completed t tally
    refine ⟨unlimited tally, ?_⟩
    intro n r
    rw [tally.interpret_eq_ok_iff hsize]
    simp only [Option.some.injEq, forall_eq']
  · intro never n
    rcases interpret_limited hsize p input n with ⟨r, h⟩ | exceeded
    · exact absurd (exists_tally_of_interpret hsize h) never
    · exact exceeded

/-- A loop without a body never leaves a cell that is not zero. -/
theorem not_tally_empty_loop {eof : EofPolicy} {next : Program} {s t : State}
    {executed completed : Nat} (nonzero : s.current ≠ 0) :
    ¬ Tally eof (loop nil next) s executed completed t := by
  intro h
  generalize whole : loop nil next = p at h
  induction h with
  | nil | op => cases whole
  | leave zero =>
    cases whole
    exact nonzero zero
  | again _ inner _ _ ih =>
    cases whole
    cases inner
    exact ih nonzero rfl

/-- Two iterations of a loop take seven steps with what stands before it, and not six. An empty loop
takes more than any number. -/
theorem step_limit_exact_seven :
    let c : CompilerSettings := { memorySize := 3 }
    let start := State.initial 3 []
    let counted := op (.add 2 1) (op (.right 1) (loop (op (.sub 1 0) nil) nil))
    let spinning := op (.add 1 0) (loop nil nil)
    1 ≤ c.memorySize.toNat ∧
    (∃ t, Tally c.eof counted start 5 2 t ∧ counted.interpret c none [] = .ok t.report ∧
      counted.interpret c (some 7) [] = .ok t.report ∧
      ∀ r, counted.interpret c (some 6) [] ≠ .ok r) ∧
    (¬ ∃ executed completed t, Tally c.eof spinning start executed completed t) ∧
    ∀ n, spinning.interpret c (some n) [] =
      .error (.exhausted s!"step limit of {n} exceeded") := by
  intro c start counted spinning
  have positive : 1 ≤ c.memorySize.toNat := by decide
  obtain ⟨t, tally⟩ : ∃ t, Tally c.eof counted start 5 2 t :=
    ⟨_, .op (.op (.again (by decide) (.op (.nil _)) (.again (by decide) (.op (.nil _))
      (.leave (by decide) (.nil _)))))⟩
  have never : ¬ ∃ executed completed t, Tally c.eof spinning start executed completed t := by
    rintro ⟨executed, completed, t, h⟩
    change Tally c.eof (op (.add 1 0) (loop nil nil)) start executed completed t at h
    cases h with
    | op rest => exact not_tally_empty_loop (by decide) rest
  obtain ⟨_, _, ends, _⟩ := step_limit_exact c positive counted []
  obtain ⟨_, _, _, exceeds⟩ := step_limit_exact c positive spinning []
  obtain ⟨unlimited, limited⟩ := ends 5 2 t tally
  refine ⟨positive, ⟨t, tally, unlimited, (limited 7 _).mpr ⟨by decide, rfl⟩, ?_⟩, never,
    exceeds never⟩
  intro r h
  exact absurd ((limited 6 r).mp h).1 (by decide)

end TapeCompiler.Program
