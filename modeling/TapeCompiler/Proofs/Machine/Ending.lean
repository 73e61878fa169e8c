import TapeCompiler.Machine.Interpret
import TapeCompiler.Proofs.Program.Blocks

/-!
Runs that come to an end. `Ends` is about runs without a step limit: some budget is large enough.
`Takes` says the same by the shape of the program and counts the steps, so that facts about whole
runs go by induction on it. `takes_iff_run` ties the two together, and `interpret_eq_ok_iff` ties
them to the interpreter, with a limit or without one.
-/

namespace TapeCompiler

/-- Two ways of running agree: one comes to an end exactly when the other does, and then in the same
state, which is the tape, the pointer, the unread input and the output. -/
def Agree (one other : State → Prop) : Prop :=
  ((∃ t, one t) ↔ ∃ t, other t) ∧ ∀ t u, one t → other u → t = u

theorem agree_of_iff {one other : State → Prop} (unique : ∀ t u, one t → one u → t = u)
    (h : ∀ t, one t ↔ other t) : Agree one other := by
  refine ⟨exists_congr h, ?_⟩
  intro t u ht hu
  exact unique t u ht ((h u).mpr hu)

theorem CompilerSettings.memorySize_ne_zero {c : CompilerSettings}
    (low : 1 ≤ c.memorySize.toNat) : c.memorySize ≠ 0 := by
  intro zero
  rw [zero] at low
  cases low

namespace Program

/-- Started in `s` without a step limit, the program ends in `t`. -/
def Ends (eof : EofPolicy) (p : Program) (s t : State) : Prop :=
  ∃ budget spare, p.run eof budget s = .finished t spare

/-- The program takes exactly `n` steps from `s` to its end in `t`. -/
inductive Takes (eof : EofPolicy) : Program → State → Nat → State → Prop
  | nil (s : State) : Takes eof .nil s 0 s
  | op {o : Op} {next : Program} {s t : State} {n : Nat} :
      Takes eof next (o.apply eof s) n t → Takes eof (.op o next) s (n + 1) t
  | leave {body next : Program} {s t : State} {n : Nat} :
      s.current = 0 → Takes eof next s n t → Takes eof (.loop body next) s (n + 1) t
  | again {body next : Program} {s u t : State} {n m : Nat} :
      s.current ≠ 0 → Takes eof body s n u → Takes eof (.loop body next) u m t →
      Takes eof (.loop body next) s (n + m + 1) t

variable {eof : EofPolicy} {p q : Program} {s t u : State} {n m : Nat}

/-- What stands behind a program runs on what the program leaves of the budget. -/
theorem Takes.run_append (h : Takes eof p s n u) (q : Program) (k : Nat) :
    (p ++ q).run eof (n + k) s = q.run eof k u := by
  induction h generalizing q k with
  | nil s => rw [nil_append, Nat.zero_add]
  | @op o next s t n _ ih =>
    rw [op_append, show n + 1 + k = n + k + 1 by omega, run]
    exact ih q k
  | @leave body next s t n zero _ ih =>
    rw [loop_append, show n + 1 + k = n + k + 1 by omega, run, if_pos zero]
    exact ih q k
  | @again body next s u t n m nonzero _ _ ihBody ihAgain =>
    rw [loop_append, show n + m + 1 + k = n + (m + k) + 1 by omega, run, if_neg nonzero]
    rw [ihBody, ← loop_append]
    exact ihAgain q k

theorem Takes.run (h : Takes eof p s n t) (k : Nat) : p.run eof (n + k) s = .finished t k := by
  have tail := h.run_append .nil k
  rw [append_nil] at tail
  rw [tail]
  cases k <;> rfl

/-- A run of two programs in a row splits where the first one ends. -/
theorem Takes.split (h : Takes eof (p ++ q) s n t) :
    ∃ i j u, Takes eof p s i u ∧ Takes eof q u j t ∧ n = i + j := by
  generalize hr : p ++ q = r at h
  induction h generalizing p with
  | nil s =>
    cases p with
    | nil =>
      obtain rfl : q = .nil := hr
      exact ⟨0, 0, s, .nil s, .nil s, rfl⟩
    | op | loop => cases hr
  | @op o next s t n rest ih =>
    cases p with
    | nil =>
      obtain rfl : q = .op o next := hr
      exact ⟨0, n + 1, s, .nil s, .op rest, by omega⟩
    | op o' next' =>
      cases hr
      obtain ⟨i, j, u, first, second, rfl⟩ := ih rfl
      exact ⟨i + 1, j, u, .op first, second, by omega⟩
    | loop => cases hr
  | @leave body next s t n zero rest ih =>
    cases p with
    | nil =>
      obtain rfl : q = .loop body next := hr
      exact ⟨0, n + 1, s, .nil s, .leave zero rest, by omega⟩
    | op => cases hr
    | loop body' next' =>
      cases hr
      obtain ⟨i, j, u, first, second, rfl⟩ := ih rfl
      exact ⟨i + 1, j, u, .leave zero first, second, by omega⟩
  | @again body next s v t n m nonzero inner rest _ ih =>
    cases p with
    | nil =>
      obtain rfl : q = .loop body next := hr
      exact ⟨0, n + m + 1, s, .nil s, .again nonzero inner rest, by omega⟩
    | op => cases hr
    | loop body' next' =>
      cases hr
      obtain ⟨i, j, u, first, second, rfl⟩ := ih (p := loop body next') rfl
      exact ⟨n + i + 1, j, u, .again nonzero inner first, second, by omega⟩

theorem takes_of_run {budget spare : Nat} (h : p.run eof budget s = .finished t spare) :
    ∃ n, budget = n + spare ∧ Takes eof p s n t := by
  induction budget generalizing p s with
  | zero =>
    cases p with
    | nil =>
      cases h
      exact ⟨0, by omega, .nil _⟩
    | op | loop => cases h
  | succ budget ih =>
    cases p with
    | nil =>
      cases h
      exact ⟨0, by omega, .nil _⟩
    | op o next =>
      obtain ⟨n, hn, rest⟩ := ih h
      exact ⟨n + 1, by omega, .op rest⟩
    | loop body next =>
      rw [Program.run] at h
      split at h
      · rename_i zero
        obtain ⟨n, hn, rest⟩ := ih h
        exact ⟨n + 1, by omega, .leave zero rest⟩
      · rename_i nonzero
        obtain ⟨n, hn, rest⟩ := ih h
        obtain ⟨i, j, u, inner, outer, rfl⟩ := rest.split
        exact ⟨i + j + 1, by omega, .again nonzero inner outer⟩

/-- A budget is enough exactly from the number of steps on, and what is over is left. -/
theorem takes_iff_run : Takes eof p s n t ↔ ∀ k, p.run eof (n + k) s = .finished t k := by
  constructor
  · exact fun h => h.run
  · intro h
    obtain ⟨m, hm, taken⟩ := takes_of_run (h 0)
    rwa [show n = m by omega]

theorem ends_iff_takes : Ends eof p s t ↔ ∃ n, Takes eof p s n t := by
  constructor
  · rintro ⟨budget, spare, h⟩
    obtain ⟨n, _, taken⟩ := takes_of_run h
    exact ⟨n, taken⟩
  · rintro ⟨n, taken⟩
    exact ⟨n, 0, taken.run 0⟩

theorem Takes.ends (h : Takes eof p s n t) : Ends eof p s t :=
  ends_iff_takes.mpr ⟨n, h⟩

theorem Takes.deterministic (h : Takes eof p s n t) (h' : Takes eof p s m u) : n = m ∧ t = u := by
  have first := h.run m
  have second := h'.run n
  rw [Nat.add_comm, second] at first
  injection first with final spare
  exact ⟨spare, final.symm⟩

theorem Ends.deterministic (h : Ends eof p s t) (h' : Ends eof p s u) : t = u := by
  obtain ⟨n, taken⟩ := ends_iff_takes.mp h
  obtain ⟨m, taken'⟩ := ends_iff_takes.mp h'
  exact (taken.deterministic taken').2

/-! The cases of a run, one for each form of a program. -/

@[simp]
theorem ends_nil : Ends eof .nil s t ↔ t = s := by
  constructor
  · intro h
    obtain ⟨n, taken⟩ := ends_iff_takes.mp h
    cases taken
    rfl
  · rintro rfl
    exact (Takes.nil t).ends

@[simp]
theorem ends_op {o : Op} {next : Program} :
    Ends eof (.op o next) s t ↔ Ends eof next (o.apply eof s) t := by
  simp only [ends_iff_takes]
  constructor
  · rintro ⟨_, taken⟩
    cases taken with
    | op rest => exact ⟨_, rest⟩
  · rintro ⟨n, rest⟩
    exact ⟨n + 1, .op rest⟩

theorem ends_loop_zero {body next : Program} (zero : s.current = 0) :
    Ends eof (.loop body next) s t ↔ Ends eof next s t := by
  simp only [ends_iff_takes]
  constructor
  · rintro ⟨_, taken⟩
    cases taken with
    | leave _ rest => exact ⟨_, rest⟩
    | again nonzero => exact absurd zero nonzero
  · rintro ⟨n, rest⟩
    exact ⟨n + 1, .leave zero rest⟩

theorem ends_loop_nonzero {body next : Program} (nonzero : s.current ≠ 0) :
    Ends eof (.loop body next) s t ↔
      ∃ u, Ends eof body s u ∧ Ends eof (.loop body next) u t := by
  simp only [ends_iff_takes]
  constructor
  · rintro ⟨_, taken⟩
    cases taken with
    | leave zero => exact absurd zero nonzero
    | again _ inner rest => exact ⟨_, ⟨_, inner⟩, ⟨_, rest⟩⟩
  · rintro ⟨u, ⟨n, inner⟩, ⟨m, rest⟩⟩
    exact ⟨n + m + 1, .again nonzero inner rest⟩

/-- Running straight-line operations one after another. -/
def applyAll (eof : EofPolicy) (ops : List Op) (s : State) : State :=
  ops.foldl (fun s o => o.apply eof s) s

theorem applyAll_nil (eof : EofPolicy) (s : State) : applyAll eof [] s = s := rfl

theorem applyAll_cons (eof : EofPolicy) (o : Op) (ops : List Op) (s : State) :
    applyAll eof (o :: ops) s = applyAll eof ops (o.apply eof s) := rfl

theorem applyAll_append (eof : EofPolicy) (first second : List Op) (s : State) :
    applyAll eof (first ++ second) s = applyAll eof second (applyAll eof first s) :=
  List.foldl_append

@[simp]
theorem ends_prepend {ops : List Op} {next : Program} :
    Ends eof (prepend ops next) s t ↔ Ends eof next (applyAll eof ops s) t := by
  induction ops generalizing s with
  | nil => exact Iff.rfl
  | cons o rest ih => exact ends_op.trans ih

/-! ### Runs without a limit -/

theorem Takes.runToEnd_append (h : Takes eof p s n u) (q : Program) :
    (p ++ q).runToEnd eof s = q.runToEnd eof u := by
  induction h generalizing q with
  | nil s => rw [nil_append]
  | op _ ih =>
    rw [op_append, runToEnd]
    exact ih q
  | leave zero _ ih =>
    rw [loop_append, runToEnd, if_pos zero]
    exact ih q
  | again nonzero _ _ ihBody ihAgain =>
    rw [loop_append, runToEnd, if_neg nonzero, ihBody, ← loop_append]
    exact ihAgain q

theorem ends_of_runToEnd (h : p.runToEnd eof s = some t) : Ends eof p s t := by
  -- Each approximation of the run that has a result ends within some budget.
  apply runToEnd.partial_correctness eof (fun p s t => Ends eof p s t) ?_ p s t h
  intro approx ih p s t h
  cases p with
  | nil =>
    cases h
    exact ends_nil.mpr rfl
  | op o next => exact ends_op.mpr (ih _ _ _ h)
  | loop body next =>
    dsimp only at h
    by_cases zero : s.current = 0
    · rw [if_pos zero] at h
      exact (ends_loop_zero zero).mpr (ih _ _ _ h)
    · rw [if_neg zero] at h
      obtain ⟨budget, spare, finished⟩ := ih _ _ _ h
      refine ⟨budget + 1, spare, ?_⟩
      rw [run, if_neg zero]
      exact finished

/-- A run without a limit has a result exactly when it ends. -/
theorem runToEnd_eq_some_iff : p.runToEnd eof s = some t ↔ Ends eof p s t := by
  constructor
  · exact ends_of_runToEnd
  · intro h
    obtain ⟨n, taken⟩ := ends_iff_takes.mp h
    have result := taken.runToEnd_append .nil
    rwa [append_nil, runToEnd] at result

/-! ### The interpreter -/

/-- Without a limit the interpreter reports the state in which the run ends. -/
theorem interpret_none_eq_ok_iff {c : CompilerSettings} (hsize : c.memorySize ≠ 0)
    {input : List UInt8} {r : Report} :
    p.interpret c none input = .ok r ↔
      ∃ t, Ends c.eof p (.initial c.memorySize.toNat input) t ∧ r = t.report := by
  simp only [interpret, if_neg hsize]
  constructor
  · intro h
    split at h
    · rename_i t result
      cases h
      exact ⟨t, ends_of_runToEnd result, rfl⟩
    · cases h
  · rintro ⟨t, ends, rfl⟩
    simp only [runToEnd_eq_some_iff.mpr ends]

/-- The interpreter reports the state in which the run ends, if that takes no more steps than the
limit allows. -/
theorem interpret_eq_ok_iff {c : CompilerSettings} (hsize : c.memorySize ≠ 0) {limit : Option Nat}
    {input : List UInt8} {r : Report} :
    p.interpret c limit input = .ok r ↔
      ∃ n t, Takes c.eof p (.initial c.memorySize.toNat input) n t ∧
        (∀ m, limit = some m → n ≤ m) ∧ r = t.report := by
  cases limit with
  | some limit =>
    simp only [interpret, if_neg hsize]
    constructor
    · intro h
      split at h
      · rename_i t spare finished
        cases h
        obtain ⟨n, spent, taken⟩ := takes_of_run finished
        refine ⟨n, t, taken, ?_, rfl⟩
        rintro m ⟨⟩
        omega
      · cases h
    · rintro ⟨n, t, taken, within, rfl⟩
      obtain ⟨spare, rfl⟩ := Nat.exists_eq_add_of_le (within limit rfl)
      simp only [taken.run spare]
  | none =>
    rw [interpret_none_eq_ok_iff hsize]
    constructor
    · rintro ⟨t, ends, rfl⟩
      obtain ⟨n, taken⟩ := ends_iff_takes.mp ends
      exact ⟨n, t, taken, nofun, rfl⟩
    · rintro ⟨n, t, taken, _, rfl⟩
      exact ⟨t, taken.ends, rfl⟩

/-- The limit decides whether a program is reported, and not what is reported. -/
theorem Takes.interpret_eq_ok_iff {c : CompilerSettings} {input : List UInt8} {limit : Option Nat}
    {r : Report} (hsize : c.memorySize ≠ 0)
    (h : Takes c.eof p (.initial c.memorySize.toNat input) n t) :
    p.interpret c limit input = .ok r ↔ (∀ m, limit = some m → n ≤ m) ∧ r = t.report := by
  rw [Program.interpret_eq_ok_iff hsize]
  constructor
  · rintro ⟨m, u, taken, within, rfl⟩
    obtain ⟨rfl, rfl⟩ := h.deterministic taken
    exact ⟨within, rfl⟩
  · rintro ⟨within, rfl⟩
    exact ⟨n, t, h, within, rfl⟩

/-- The error of a program that is not reported depends on the limit only. -/
theorem interpret_congr {c c' : CompilerSettings} (hsize : c.memorySize ≠ 0)
    (hsize' : c'.memorySize ≠ 0) {input input' : List UInt8} {limit : Option Nat}
    (same : ∀ r, p.interpret c limit input = .ok r ↔ q.interpret c' limit input' = .ok r) :
    p.interpret c limit input = q.interpret c' limit input' := by
  cases one : p.interpret c limit input with
  | ok r => exact ((same r).mp one).symm
  | error e =>
    cases other : q.interpret c' limit input' with
    | ok r =>
      rw [(same r).mpr other] at one
      cases one
    | error e' =>
      cases limit with
      | some | none =>
        simp only [interpret, if_neg hsize, if_neg hsize'] at one other
        split at one
        · cases one
        · split at other
          · cases other
          · rw [← one, ← other]

end Program
end TapeCompiler
