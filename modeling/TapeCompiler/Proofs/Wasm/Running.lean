import TapeCompiler.Wasm.Machine

/-!
Runs of code, point by point. `Leads` says how much fuel the way from one point to another takes,
so that longer ways are composed from shorter ones. Since more fuel never takes an answer away, it
works backwards too: a run that gets an answer has come along every way that leads on from its
start (`Leads.back`).
-/

namespace TapeCompiler.Wasm

/-- All that decides how a run goes on. -/
structure Point where
  code : Code
  labels : List Label
  stack : Stack
  store : Store

variable {hosts : List Host}

namespace Point

def run (hosts : List Host) (fuel : Nat) (a : Point) : Completion :=
  a.code.run hosts fuel a.labels a.stack a.store

/-- From `a` the run comes to `b` with `n` units of fuel. -/
def Leads (hosts : List Host) (n : Nat) (a b : Point) : Prop :=
  ∀ fuel, a.run hosts (fuel + n) = b.run hosts fuel

variable {a b c : Point} {n m : Nat}

theorem Leads.refl (a : Point) : Leads hosts 0 a a := fun _ => rfl

theorem Leads.trans (h : Leads hosts n a b) (h' : Leads hosts m b c) :
    Leads hosts (n + m) a c := by
  intro fuel
  rw [show fuel + (n + m) = fuel + m + n by omega, h, h']

theorem run_zero (hosts : List Host) (a : Point) : a.run hosts 0 = .outOfFuel := by
  unfold run Code.run
  rfl

/-- Where the run goes on from here, or how it stops. -/
def next (hosts : List Host) (a : Point) : Code.Next :=
  a.code.step hosts a.labels a.stack a.store

theorem run_succ (hosts : List Host) (fuel : Nat) (a : Point) :
    a.run hosts (fuel + 1) =
      match a.next hosts with
      | .on code labels vs s => run hosts fuel ⟨code, labels, vs, s⟩
      | .finished vs s => .finished vs s fuel
      | .trapped t => .trapped t := rfl

theorem leads_of_next {code : Code} {labels : List Label} {vs : Stack} {s : Store}
    (next : a.next hosts = .on code labels vs s) : Leads hosts 1 a ⟨code, labels, vs, s⟩ := by
  intro fuel
  rw [run_succ, next]

/-- A run with one more unit of fuel goes on, unless it stops at once. -/
theorem run_succ_cases (hosts : List Host) (a : Point) :
    (∃ b, Leads hosts 1 a b) ∨ (∃ t, ∀ fuel, a.run hosts (fuel + 1) = .trapped t) ∨
      ∃ vs s, ∀ fuel, a.run hosts (fuel + 1) = .finished vs s fuel := by
  cases next : a.next hosts with
  | on code labels vs s => exact .inl ⟨_, leads_of_next next⟩
  | trapped t =>
    refine .inr (.inl ⟨t, fun fuel => ?_⟩)
    rw [run_succ, next]
  | finished vs s =>
    refine .inr (.inr ⟨vs, s, fun fuel => ?_⟩)
    rw [run_succ, next]

theorem run_more_fuel {fuel : Nat} (h : a.run hosts fuel ≠ .outOfFuel) (k : Nat) :
    a.run hosts (fuel + k) ≠ .outOfFuel := by
  induction fuel generalizing a with
  | zero => exact absurd (run_zero hosts a) h
  | succ fuel ih =>
    rw [show fuel + 1 + k = fuel + k + 1 by omega]
    obtain ⟨b, on⟩ | ⟨t, stops⟩ | ⟨vs, s, stops⟩ := run_succ_cases hosts a
    · rw [on] at h ⊢
      exact ih h
    · rw [stops]
      exact nofun
    · rw [stops]
      exact nofun

/-- A run with an answer has gone along every way from its start. -/
theorem Leads.back {fuel : Nat} (h : Leads hosts n a b) (answered : a.run hosts fuel ≠ .outOfFuel) :
    n ≤ fuel ∧ a.run hosts fuel = b.run hosts (fuel - n) := by
  have enough : n ≤ fuel := by
    apply Nat.le_of_not_lt
    intro short
    apply run_more_fuel answered (n - fuel)
    rw [show fuel + (n - fuel) = 0 + n by omega, h]
    exact run_zero hosts b
  refine ⟨enough, ?_⟩
  rw [← h, Nat.sub_add_cancel enough]

theorem Leads.answered {fuel : Nat} (h : Leads hosts n a b)
    (answered : a.run hosts fuel ≠ .outOfFuel) :
    n ≤ fuel ∧ b.run hosts (fuel - n) ≠ .outOfFuel := by
  obtain ⟨enough, same⟩ := h.back answered
  exact ⟨enough, same ▸ answered⟩

end Point

namespace Instr

/-- Run straight-line instructions one after another. -/
def performAll (hosts : List Host) : List Instr → Stack → Store → Effects
  | [], vs, s => .ok (vs, s)
  | i :: rest, vs, s =>
    match i.perform hosts vs s with
    | .ok (vs, s) => performAll hosts rest vs s
    | .error t => .error t

theorem performAll_cons {i : Instr} {rest : List Instr} {vs vs' : Stack} {s s' : Store}
    (h : i.perform hosts vs s = .ok (vs', s')) :
    performAll hosts (i :: rest) vs s = performAll hosts rest vs' s' := by
  simp only [performAll, h]

theorem performAll_append {first second : List Instr} {vs vs' : Stack} {s s' : Store}
    (h : performAll hosts first vs s = .ok (vs', s')) :
    performAll hosts (first ++ second) vs s = performAll hosts second vs' s' := by
  induction first generalizing vs s with
  | nil =>
    cases h
    rfl
  | cons i rest ih =>
    cases performed : i.perform hosts vs s with
    | ok effects =>
      rw [performAll_cons performed] at h
      rw [List.cons_append, performAll_cons performed]
      exact ih h
    | error t =>
      simp only [performAll, performed] at h
      cases h

end Instr

namespace Code

open Point (Leads)

variable {is : List Instr} {body yes no next : Code} {labels : List Label} {vs vs' : Stack}
  {s s' : Store} {v : UInt32}

theorem leads_prepend (h : Instr.performAll hosts is vs s = .ok (vs', s')) :
    Leads hosts is.length ⟨prepend is next, labels, vs, s⟩ ⟨next, labels, vs', s'⟩ := by
  induction is generalizing vs s with
  | nil =>
    cases h
    exact Leads.refl _
  | cons i rest ih =>
    cases performed : i.perform hosts vs s with
    | ok effects =>
      rw [Instr.performAll_cons performed] at h
      intro fuel
      rw [← ih h fuel]
      simp only [Point.run, prepend, List.foldr_cons, List.length_cons, ← Nat.add_assoc, Code.run,
        Code.step, performed]
    | error t =>
      simp only [Instr.performAll, performed] at h
      cases h

/-- Straight-line code in a body, up to the code behind the construct. -/
theorem leads_body (l : Label) (h : Instr.performAll hosts is vs s = .ok (vs', s')) :
    Leads hosts (is.length + 1) ⟨prepend is done, l :: labels, vs, s⟩
      ⟨l.follow, labels, vs', s'⟩ :=
  (leads_prepend h).trans fun _ => rfl

theorem leads_ifThen_zero :
    Leads hosts 1 ⟨ifThen body next, labels, 0 :: vs, s⟩ ⟨next, labels, vs, s⟩ :=
  fun _ => rfl

theorem leads_ifThen (nonzero : v ≠ 0) :
    Leads hosts 1 ⟨ifThen body next, labels, v :: vs, s⟩
      ⟨body, ⟨next, next, vs⟩ :: labels, vs, s⟩ := by
  intro fuel
  simp only [Point.run, run, step, if_neg nonzero]

theorem leads_ifElse_zero :
    Leads hosts 1 ⟨ifElse yes no next, labels, 0 :: vs, s⟩
      ⟨no, ⟨next, next, vs⟩ :: labels, vs, s⟩ :=
  fun _ => rfl

theorem leads_ifElse (nonzero : v ≠ 0) :
    Leads hosts 1 ⟨ifElse yes no next, labels, v :: vs, s⟩
      ⟨yes, ⟨next, next, vs⟩ :: labels, vs, s⟩ := by
  intro fuel
  simp only [Point.run, run, step, if_neg nonzero]

end Code
end TapeCompiler.Wasm
