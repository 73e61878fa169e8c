import TapeCompiler.Proofs.Wasm.Running

/-!
Runs to the end, with a meter or without one. A meter decides only how far a run gets. It is asked
about the code at one point after another (`visited`), and a call whose fuel does not last for them
is stopped (`call_of_exhausts`). Any other call goes as if nothing was counted: it comes to the end
that some number of steps comes to (`call_of_finished`), and if no number of steps comes to one, it
has no answer (`call_of_endless`).
-/

namespace TapeCompiler.Wasm

variable {hosts : List Host} {meter : Option Meter} {m : Meter}

/-- What is left of the fuel when all this has been paid, one after the other. -/
def Meter.settle (m : Meter) : (left : Nat) → List Code → Option Nat
  | left, [] => some left
  | left, code :: rest =>
    match m.charge code left with
    | none => none
    | some left => m.settle left rest

namespace Point

/-- The code at the first `n` points of the run, or at all of them if it stops before. -/
def visited (hosts : List Host) : (n : Nat) → Point → List Code
  | 0, _ => []
  | n + 1, a =>
    a.code ::
      match a.next hosts with
      | .on code labels vs s => visited hosts n ⟨code, labels, vs, s⟩
      | _ => []

/-- There is a meter, and the fuel does not last for the first points of the run. -/
def Stopped (hosts : List Host) (meter : Option Meter) (left : Nat) (a : Point) : Prop :=
  ∃ m n, meter = some m ∧ m.settle left (a.visited hosts n) = none

variable {a : Point} {left left' : Nat}

theorem stopped_here (stop : Meter.charging meter a.code left = none) :
    Stopped hosts meter left a := by
  cases meter with
  | none => cases stop
  | some m =>
    have charged : m.charge a.code left = none := stop
    refine ⟨m, 1, rfl, ?_⟩
    rw [visited, Meter.settle, charged]

theorem stopped_later {code : Code} {labels : List Label} {vs : Stack} {s : Store}
    (paid : Meter.charging meter a.code left = some left')
    (next : a.next hosts = .on code labels vs s)
    (later : Stopped hosts meter left' ⟨code, labels, vs, s⟩) : Stopped hosts meter left a := by
  obtain ⟨m, n, rfl, out⟩ := later
  have charged : m.charge a.code left = some left' := paid
  refine ⟨m, n + 1, rfl, ?_⟩
  rw [visited, Meter.settle, charged, next]
  exact out

def runToEnd (hosts : List Host) (meter : Option Meter) (left : Nat) (a : Point) :
    Option Completion :=
  a.code.runToEnd hosts meter left a.labels a.stack a.store

theorem runToEnd_of_none (stop : Meter.charging meter a.code left = none) :
    a.runToEnd hosts meter left = some .outOfFuel := by
  rw [runToEnd, Code.runToEnd, stop]

theorem runToEnd_of_some (paid : Meter.charging meter a.code left = some left') :
    a.runToEnd hosts meter left =
      match a.next hosts with
      | .on code labels vs s => runToEnd hosts meter left' ⟨code, labels, vs, s⟩
      | .finished vs s => some (.finished vs s left')
      | .trapped t => some (.trapped t) := by
  rw [runToEnd, Code.runToEnd, paid]
  rfl

theorem runToEnd_of_stopped (h : Stopped hosts meter left a) :
    a.runToEnd hosts meter left = some .outOfFuel := by
  obtain ⟨m, n, rfl, out⟩ := h
  induction n generalizing a left with
  | zero => cases out
  | succ n ih =>
    rw [visited, Meter.settle] at out
    cases charged : m.charge a.code left with
    | none => exact runToEnd_of_none charged
    | some left' =>
      have paid : Meter.charging (some m) a.code left = some left' := charged
      rw [charged] at out
      rw [runToEnd_of_some paid]
      cases next : a.next hosts with
      | on code labels vs s =>
        rw [next] at out
        exact ih out
      | finished | trapped =>
        rw [next] at out
        cases out

theorem runToEnd_of_finished {n spare : Nat} {vs : Stack} {s : Store}
    (finished : a.run hosts n = .finished vs s spare) (lasts : ¬ Stopped hosts meter left a) :
    ∃ spare', a.runToEnd hosts meter left = some (.finished vs s spare') := by
  induction n generalizing a left with
  | zero => cases finished
  | succ n ih =>
    cases price : Meter.charging meter a.code left with
    | none => exact absurd (stopped_here price) lasts
    | some left' =>
      rw [run_succ] at finished
      rw [runToEnd_of_some price]
      cases next : a.next hosts with
      | on code labels vs' s' =>
        rw [next] at finished
        exact ih finished fun later => lasts (stopped_later price next later)
      | finished vs' s' =>
        rw [next] at finished
        cases finished
        exact ⟨left', rfl⟩
      | trapped t =>
        rw [next] at finished
        cases finished

/-- A run with an answer was stopped by its meter, or some number of steps comes to an answer. -/
theorem stops_of_runToEnd {c : Completion} (answer : a.runToEnd hosts meter left = some c) :
    Stopped hosts meter left a ∨ ∃ n, a.run hosts n ≠ .outOfFuel := by
  -- Each approximation of the run that has an answer has it after finitely many steps.
  apply Code.runToEnd.partial_correctness hosts meter
    (fun left code labels vs s _ => Stopped hosts meter left ⟨code, labels, vs, s⟩ ∨
      ∃ n, run hosts n ⟨code, labels, vs, s⟩ ≠ .outOfFuel) ?_ _ _ _ _ _ c answer
  intro approx ih left code labels vs s c answer
  cases price : Meter.charging meter code left with
  | none => exact .inl (stopped_here price)
  | some left' =>
    simp only [price] at answer
    cases next : code.step hosts labels vs s with
    | on code' labels' vs' s' =>
      rw [next] at answer
      obtain later | ⟨n, answered⟩ := ih _ _ _ _ _ _ answer
      · exact .inl (stopped_later price next later)
      · refine .inr ⟨n + 1, ?_⟩
        rw [leads_of_next (a := ⟨code, labels, vs, s⟩) next]
        exact answered
    | finished | trapped =>
      refine .inr ⟨1, ?_⟩
      rw [run_succ, Point.next, next]
      exact Completion.noConfusion

end Point

namespace Body

variable {fuel : Nat} {b : Body} {s : Store}

/-- Where a call of the function starts. -/
def start (b : Body) (s : Store) : Point := ⟨b.code, [], [], s⟩

/-- The fuel does not last for entering the function and for the first points of its run. -/
def Exhausts (hosts : List Host) (m : Meter) (fuel : Nat) (b : Body) (s : Store) : Prop :=
  ∃ n, (m.enter fuel).bind (fun left => m.settle left ((b.start s).visited hosts n)) = none

theorem call_of_entered {left : Nat} (entered : Meter.entering meter fuel = some left) :
    b.call hosts meter fuel s = (b.start s).runToEnd hosts meter left := by
  rw [call, entered]
  rfl

theorem call_of_exhausts (h : b.Exhausts hosts m fuel s) :
    b.call hosts (some m) fuel s = some .outOfFuel := by
  obtain ⟨n, out⟩ := h
  cases entered : m.enter fuel with
  | none =>
    have refused : Meter.entering (some m) fuel = none := entered
    rw [call, refused]
  | some left =>
    have paid : Meter.entering (some m) fuel = some left := entered
    rw [entered] at out
    rw [call_of_entered paid]
    exact Point.runToEnd_of_stopped ⟨m, n, rfl, out⟩

/-- A fuel that lasts has paid for entering the function. -/
theorem entered_of_lasts (lasts : ∀ m, meter = some m → ¬ b.Exhausts hosts m fuel s) :
    ∃ left, Meter.entering meter fuel = some left ∧ ¬ (b.start s).Stopped hosts meter left := by
  cases meter with
  | none => exact ⟨fuel, rfl, nofun⟩
  | some m =>
    cases entered : m.enter fuel with
    | none =>
      refine absurd ⟨0, ?_⟩ (lasts m rfl)
      rw [entered]
      rfl
    | some left =>
      refine ⟨left, entered, ?_⟩
      rintro ⟨m', n, ⟨⟩, out⟩
      apply lasts m rfl
      refine ⟨n, ?_⟩
      rw [entered]
      exact out

theorem call_of_finished {n spare : Nat} {vs : Stack} {s' : Store}
    (finished : (b.start s).run hosts n = .finished vs s' spare)
    (lasts : ∀ m, meter = some m → ¬ b.Exhausts hosts m fuel s) :
    ∃ spare', b.call hosts meter fuel s = some (.finished vs s' spare') := by
  obtain ⟨left, entered, onward⟩ := entered_of_lasts lasts
  rw [call_of_entered entered]
  exact Point.runToEnd_of_finished finished onward

theorem call_of_endless (endless : ∀ n, (b.start s).run hosts n = .outOfFuel)
    (lasts : ∀ m, meter = some m → ¬ b.Exhausts hosts m fuel s) :
    b.call hosts meter fuel s = none := by
  obtain ⟨left, entered, onward⟩ := entered_of_lasts lasts
  rw [call_of_entered entered]
  cases answer : (b.start s).runToEnd hosts meter left with
  | none => rfl
  | some c =>
    obtain stopped | ⟨n, answered⟩ := Point.stops_of_runToEnd answer
    · exact absurd stopped onward
    · exact absurd (endless n) answered

end Body

/-! ### Straight-line code under the standard meter -/

theorem Point.visited_prepend {is : List Instr} {vs : Stack} {s : Store} {n : Nat} {code : Code}
    (h : code ∈ visited hosts n ⟨.prepend is .done, [], vs, s⟩) :
    ∃ rest, code = .prepend rest .done := by
  induction n generalizing is vs s with
  | zero => cases h
  | succ n ih =>
    cases h with
    | head => exact ⟨is, rfl⟩
    | tail _ later =>
      cases is with
      | nil => cases later
      | cons i rest =>
        simp only [Point.next, Code.prepend, List.foldr_cons, Code.step] at later
        cases performed : i.perform hosts vs s with
        | ok effects =>
          rw [performed] at later
          exact ih later
        | error t =>
          rw [performed] at later
          cases later

namespace Meter

theorem standard_charge {code : Code} (straight : ∃ is, code = .prepend is .done) (left : Nat) :
    ∃ left', standard.charge code left = some left' := by
  obtain ⟨is, rfl⟩ := straight
  cases is with
  | nil => exact ⟨left, rfl⟩
  | cons i rest => cases i <;> exact ⟨_, rfl⟩

theorem standard_settle {codes : List Code}
    (straight : ∀ code ∈ codes, ∃ is, code = .prepend is .done) (left : Nat) :
    ∃ left', standard.settle left codes = some left' := by
  induction codes generalizing left with
  | nil => exact ⟨left, rfl⟩
  | cons code rest ih =>
    obtain ⟨left', charged⟩ := standard_charge (straight code (.head _)) left
    rw [settle, charged]
    exact ih (fun code later => straight code (.tail _ later)) left'

end Meter

/-- Without a loop only entering the function can be too expensive. -/
theorem Body.standard_lasts {b : Body} {is : List Instr} (straight : b.code = .prepend is .done)
    {fuel : Nat} (entered : 1 < fuel) (s : Store) : ¬ b.Exhausts hosts .standard fuel s := by
  rintro ⟨n, out⟩
  have enter : Meter.standard.enter fuel = some (fuel - 1) := if_neg (Nat.not_le.mpr entered)
  have passed : ∀ code ∈ (b.start s).visited hosts n, ∃ is, code = .prepend is .done := by
    rw [Body.start, straight]
    exact fun _ => Point.visited_prepend
  obtain ⟨left, settled⟩ := Meter.standard_settle passed (fuel - 1)
  rw [enter, Option.bind_some, settled] at out
  cases out

end TapeCompiler.Wasm
