import TapeCompiler.Proofs.Optimize.CountedLoop

/-!
Counted loops count down exactly. `Repeats` counts the iterations of a loop; every loop that ends
has one such count (`ends_loop_iff_repeats`, `Repeats.unique`). For a recognised loop it is the value
of the counter on entry, whatever the body does to the counter and to other cells on the way, and
what the loop leaves behind is told by its factors alone (`counts_down_exactly`).
-/

namespace TapeCompiler

namespace Program

/-- From `s` a loop around `body` runs it exactly `n` times, each time on a counter that is not
zero, and is left in `t`. -/
inductive Repeats (eof : EofPolicy) (body : Program) : Nat → State → State → Prop
  | leave {s : State} : s.current = 0 → Repeats eof body 0 s s
  | again {n : Nat} {s u t : State} : s.current ≠ 0 → Ends eof body s u →
      Repeats eof body n u t → Repeats eof body (n + 1) s t

variable {eof : EofPolicy} {body : Program} {s t u : State} {n m : Nat}

theorem Repeats.unique (h : Repeats eof body n s t) (h' : Repeats eof body m s u) :
    n = m ∧ t = u := by
  induction h generalizing m with
  | leave zero =>
    cases h' with
    | leave => exact ⟨rfl, rfl⟩
    | again nonzero => exact absurd zero nonzero
  | again nonzero once _ ih =>
    cases h' with
    | leave zero => exact absurd zero nonzero
    | again _ once' rest' =>
      obtain rfl := once.deterministic once'
      obtain ⟨rfl, rfl⟩ := ih rest'
      exact ⟨rfl, rfl⟩

theorem Repeats.current_zero (h : Repeats eof body n s t) : t.current = 0 := by
  induction h with
  | leave zero => exact zero
  | again _ _ _ ih => exact ih

theorem Repeats.ends (h : Repeats eof body n s t) : Ends eof (loop body nil) s t := by
  induction h with
  | leave zero => exact (ends_loop_zero zero).mpr (ends_nil.mpr rfl)
  | again nonzero once _ ih => exact (ends_loop_nonzero nonzero).mpr ⟨_, once, ih⟩

theorem repeats_of_takes {steps : Nat} (h : Takes eof (loop body nil) s steps t) :
    ∃ n, Repeats eof body n s t := by
  -- The count of steps bounds the iterations that are left.
  induction steps using Nat.strongRecOn generalizing s with
  | ind steps ih =>
    cases h with
    | leave zero rest =>
      cases rest
      exact ⟨0, .leave zero⟩
    | again nonzero inner rest =>
      obtain ⟨n, repeats⟩ := ih _ (by omega) rest
      exact ⟨n + 1, .again nonzero inner.ends repeats⟩

/-- A loop ends after some number of iterations or not at all. -/
theorem ends_loop_iff_repeats : Ends eof (loop body nil) s t ↔ ∃ n, Repeats eof body n s t := by
  constructor
  · intro h
    obtain ⟨steps, taken⟩ := ends_iff_takes.mp h
    exact repeats_of_takes taken
  · rintro ⟨n, repeats⟩
    exact repeats.ends

/-- If the body always takes `cost` steps, so does every iteration, and one more for its test. -/
theorem Repeats.takes {cost : Nat} (h : Repeats eof body n s t)
    (fixed : ∀ {u v : State} {k : Nat}, Takes eof body u k v → k = cost) :
    Takes eof (loop body nil) s (n * (cost + 1) + 1) t := by
  induction h with
  | @leave s zero =>
    rw [Nat.zero_mul]
    exact .leave zero (.nil s)
  | @again n s u t nonzero once _ ih =>
    obtain ⟨k, taken⟩ := ends_iff_takes.mp once
    obtain rfl := fixed taken
    have around := Takes.again nonzero taken ih
    rwa [show k + (n * (k + 1) + 1) + 1 = (n + 1) * (k + 1) + 1 by rw [Nat.succ_mul]; omega]
      at around

theorem takes_effect? {e e' : Effect} (h : body.effect? e = some e')
    (taken : Takes eof body s n t) : n = body.length := by
  induction body generalizing e s n with
  | nil =>
    cases taken
    rfl
  | op o next ih =>
    obtain ⟨middle, _, rest⟩ := Option.bind_eq_some_iff.mp h
    cases taken with
    | op later => rw [length, ih rest later]
  | loop => cases h

/-- A loop that counts down runs as often as its counter says. -/
theorem repeats_counted {size : UInt32} {e : Effect} (hs : s.OnTape size.toNat)
    (h : body.effect? .start = some e) (down : e.CountsDown size) :
    Repeats eof body s.current.toNat s (s.gained e.changes s.current.toNat) := by
  have ascending : Effect.Ascending e.changes := effect?_ascending h List.Pairwise.nil
  induction hn : s.current.toNat generalizing s with
  | zero =>
    rw [State.gained_zero hs]
    exact .leave (UInt8.toNat.inj hn)
  | succ n ih =>
    have nonzero : s.current ≠ 0 := by
      intro zero
      rw [zero] at hn
      cases hn
    have once : Ends eof body s (s.gained e.changes 1) := (ends_counted_body hs h down).mpr rfl
    have rest := ih (State.gained_onTape hs e.changes 1) (down.current_gained ascending hs hn)
    rw [State.gained_gained hs, Nat.add_comm] at rest
    exact .again nonzero once rest

end Program

namespace Factors

/-- The sum of the factors whose offset from `pointer` is congruent to `c` modulo `size`. -/
def sumAt (size pointer c : Nat) : Factors → Int
  | [] => 0
  | x :: rest =>
    (if ((pointer : Int) + x.1.toInt - c) % (size : Int) = 0 then x.2.toInt else 0) +
      sumAt size pointer c rest

variable {size c : Nat} {s : State}

/-- What a cell gains from factors is the sum of those that lead to it. -/
theorem gain_eq_sumAt (hs : s.OnTape size) (hc : c < size) (f : Factors) :
    s.gain f.changes c = f.sumAt size s.pointer c := by
  induction f with
  | nil => rfl
  | cons x rest ih =>
    rw [changes, List.map_cons, State.gain_cons, ← changes, ih]
    simp only [sumAt, State.cell_eq_iff hs hc]

end Factors

namespace Program

variable {size : UInt32} {body : Program} {f : Factors} {eof : EofPolicy} {s : State}

/-- A recognised loop counts down exactly. From any state on the tape it runs its body as often as
the counter says and ends; the pointer, the input and the output stay, the counter is zero, and
every other cell has gained the counter times the factors that lead to it, modulo 256. What replaces
the loop ends in that same state. -/
theorem counts_down_exactly (recognised : body.factors? size = some f) (eof : EofPolicy)
    (hs : s.OnTape size.toNat) :
    ∃ t : State,
      (∀ n u, Repeats eof body n s u ↔ n = s.current.toNat ∧ u = t) ∧
      (∀ u, Ends eof (loop body nil) s u ↔ u = t) ∧
      Takes eof (loop body nil) s (s.current.toNat * (body.length + 1) + 1) t ∧
      t.OnTape size.toNat ∧ t.pointer = s.pointer ∧ t.input = s.input ∧ t.output = s.output ∧
      t.current = 0 ∧
      (∀ c, c < size.toNat → c ≠ s.pointer → ((t.read c).toNat : Int) =
        ((s.read c).toNat + s.current.toNat * f.sumAt size.toNat s.pointer c) % 256) ∧
      ∀ u, Ends eof (ofOps f.toOps) s u ↔ u = t := by
  obtain ⟨e, known, down, factors⟩ := factors?_eq_some recognised
  have ascending : Effect.Ascending e.changes := effect?_ascending known List.Pairwise.nil
  have repeats : Repeats eof body _ s _ := repeats_counted hs known down
  refine ⟨s.gained e.changes s.current.toNat, ?_, ?_, ?_, State.gained_onTape hs _ _, rfl, rfl,
    rfl, ?_, ?_, ?_⟩
  · intro n u
    constructor
    · intro other
      exact other.unique repeats
    · rintro ⟨rfl, rfl⟩
      exact repeats
  · intro u
    rw [ends_counted hs known down, ends_nil]
  · exact repeats.takes (takes_effect? known)
  · exact repeats.current_zero
  · intro c hc other
    rw [State.read_gained hs hc, Word.toNat_add_byte, ← Factors.gain_ofChanges? hs factors other,
      Factors.gain_eq_sumAt hs hc]
  · intro u
    rw [ofOps, ends_prepend, ends_nil, applyAll_toOps hs eof ascending down factors]

/-- On three cells two offsets lead to the same cell, which wraps around; the body takes three from
its counter before it gives two back. -/
theorem counts_down_exactly_shared :
    let body := ofOps [.sub 3 0, .add 1 1, .right 4, .add 1 0, .left 4, .add 2 0]
    let s : State := ⟨#[7, 250, 3], 1, [9], #[]⟩
    body.factors? 3 = some [(1, 1), (4, 1)] ∧ s.OnTape (3 : UInt32).toNat ∧
      ∃ t : State, Repeats .zero body 250 s t ∧ Ends .zero (loop body nil) s t ∧ t.current = 0 ∧
        ((t.read 2).toNat : Int) = 247 ∧
        Ends .zero (ofOps [.mul 1 1 0, .mul 4 1 0, .clear 0]) s t := by
  intro body s
  have recognised : body.factors? 3 = some [(1, 1), (4, 1)] := by decide
  have hs : s.OnTape (3 : UInt32).toNat := ⟨rfl, by decide⟩
  obtain ⟨t, repeats, ends, _, _, _, _, _, zero, cells, replaced⟩ :=
    counts_down_exactly recognised .zero hs
  refine ⟨recognised, hs, t, (repeats _ _).mpr ⟨rfl, rfl⟩, (ends t).mpr rfl, zero, ?_,
    (replaced t).mpr rfl⟩
  exact (cells 2 (by decide) (by decide)).trans (by decide)

end Program
end TapeCompiler
