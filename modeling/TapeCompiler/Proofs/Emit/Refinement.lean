import TapeCompiler.Execute
import TapeCompiler.Proofs.Emit.Operations

/-!
Generated code does what its program does. Forwards, the code of a program that ends comes to what
follows it (`leads_code`). Backwards, a run of the code that gets any answer at all is a run of a
program that ends (`ends_of_answer`). So the code never traps, and it runs forever exactly when its
program does.
-/

namespace TapeCompiler

open Emit Wasm.Point
open Wasm (Code Stack Label)
open Wasm.Instr (performAll performAll_append performAll_cons)

namespace Program

variable {size : UInt32} {eof : EofPolicy} {s t : State} {behind : Array UInt8} {x y : UInt32}
  {vs : Stack} {labels : List Label} {body rest next : Code}

/-- The code of a loop around `body`, which goes back to the test at its end. -/
def loopCode (size : UInt32) (body next : Code) : Code :=
  .loop (.block (.prepend (loadCell size 0 ++ [.eqz]) (.brIf 0 body)) .done) next

theorem code_loop (p q : Program) (next : Code) :
    (loop p q).code size eof next =
      loopCode size (p.code size eof (.br 1 .done)) (q.code size eof next) := rfl

theorem performAll_test (hs : s.OnTape size.toNat) (hsize : size.toNat ≤ 2147483648) :
    performAll hosts (loadCell size 0 ++ [.eqz]) vs (image behind x y s) =
      .ok (Wasm.Instr.truth (s.current = 0) :: vs, image behind x y s) := by
  have here : s.address 0 = s.pointer := State.cell_zero hs
  have zero : (s.current.toUInt32 = 0) ↔ (s.current = 0) := by
    rw [← UInt32.toNat_inj, ← UInt8.toNat_inj, UInt8.toNat_toUInt32]
    rfl
  have test : Wasm.Instr.eqz.perform hosts (s.current.toUInt32 :: vs) (image behind x y s) =
      .ok (Wasm.Instr.truth (s.current = 0) :: vs, image behind x y s) := by
    simp only [Wasm.Instr.perform, zero]
  rw [performAll_append (performAll_loadCell hs hsize 0), here]
  exact performAll_cons test

/-- The labels inside the code of a loop: the block that the test leaves, and the loop. -/
def loopLabels (size : UInt32) (body next : Code) (vs : Stack) (labels : List Label) : List Label :=
  ⟨.done, .done, vs⟩ :: ⟨loopCode size body next, next, vs⟩ :: labels

/-- The test of a loop, up to the branch that looks at its outcome. -/
theorem leads_loop_test (hs : s.OnTape size.toNat) (hsize : size.toNat ≤ 2147483648) :
    ∃ n, Leads hosts n ⟨loopCode size body next, labels, vs, image behind x y s⟩
      ⟨.brIf 0 body, loopLabels size body next vs labels,
        Wasm.Instr.truth (s.current = 0) :: vs, image behind x y s⟩ := by
  have entered : Leads hosts 2 ⟨loopCode size body next, labels, vs, image behind x y s⟩
      ⟨.prepend (loadCell size 0 ++ [.eqz]) (.brIf 0 body), loopLabels size body next vs labels, vs,
        image behind x y s⟩ := fun _ => rfl
  exact ⟨_, entered.trans (Code.leads_prepend (performAll_test hs hsize))⟩

theorem leads_loop_zero (hs : s.OnTape size.toNat) (hsize : size.toNat ≤ 2147483648)
    (zero : s.current = 0) :
    ∃ n, Leads hosts (n + 1) ⟨loopCode size body next, labels, vs, image behind x y s⟩
      ⟨next, labels, vs, image behind x y s⟩ := by
  obtain ⟨n, tested⟩ := leads_loop_test hs hsize
  have left : Leads hosts 2
      ⟨.brIf 0 body, loopLabels size body next vs labels, Wasm.Instr.truth (s.current = 0) :: vs,
        image behind x y s⟩
      ⟨next, labels, vs, image behind x y s⟩ := by
    rw [zero]
    exact fun _ => rfl
  exact ⟨n + 1, tested.trans left⟩

theorem leads_loop_nonzero (hs : s.OnTape size.toNat) (hsize : size.toNat ≤ 2147483648)
    (nonzero : s.current ≠ 0) :
    ∃ n, Leads hosts (n + 1) ⟨loopCode size body next, labels, vs, image behind x y s⟩
      ⟨body, loopLabels size body next vs labels, vs, image behind x y s⟩ := by
  obtain ⟨n, tested⟩ := leads_loop_test hs hsize
  have stayed : Leads hosts 1
      ⟨.brIf 0 body, loopLabels size body next vs labels, Wasm.Instr.truth (s.current = 0) :: vs,
        image behind x y s⟩
      ⟨body, loopLabels size body next vs labels, vs, image behind x y s⟩ := by
    rw [decide_eq_false nonzero]
    exact fun _ => rfl
  exact ⟨n, tested.trans stayed⟩

theorem leads_loop_again (st : Wasm.Store) :
    Leads hosts 1 ⟨.br 1 .done, loopLabels size body next vs labels, vs, st⟩
      ⟨loopCode size body next, labels, vs, st⟩ := fun _ => rfl

/-- The code of a program that ends comes to what follows it. -/
theorem leads_code {p : Program} {n : Nat} (h : Takes eof p s n t) (hs : s.OnTape size.toNat)
    (hsize : size.toNat ≤ 2147483648) (next : Code) (labels : List Label) (vs : Stack)
    (behind : Array UInt8) (x y : UInt32) :
    ∃ k x' y', Leads hosts k ⟨p.code size eof next, labels, vs, image behind x y s⟩
      ⟨next, labels, vs, image behind x' y' t⟩ := by
  induction h generalizing next labels vs x y with
  | nil s => exact ⟨0, x, y, Leads.refl _⟩
  | op _ ih =>
    obtain ⟨k, x', y', first⟩ := Op.leads_code hs hsize eof _
    obtain ⟨m, x'', y'', others⟩ := ih (Op.apply_onTape hs eof _) next labels vs x' y'
    exact ⟨k + m, x'', y'', first.trans others⟩
  | leave zero _ ih =>
    obtain ⟨k, left⟩ := leads_loop_zero hs hsize zero
    obtain ⟨m, x', y', others⟩ := ih hs next labels vs x y
    exact ⟨k + 1 + m, x', y', left.trans others⟩
  | again nonzero inner _ ihBody ihAgain =>
    obtain ⟨k, entered⟩ := leads_loop_nonzero hs hsize nonzero
    obtain ⟨m, x', y', once⟩ := ihBody hs (.br 1 .done) _ vs x y
    obtain ⟨i, x'', y'', others⟩ := ihAgain (inner.onTape hs) next labels vs x' y'
    exact ⟨_, x'', y'', ((entered.trans once).trans (leads_loop_again _)).trans others⟩

/-- A run of the code with any answer is a run of a program that ends. -/
theorem ends_of_answer (hsize : size.toNat ≤ 2147483648) {limit fuel : Nat} (hfuel : fuel ≤ limit)
    {p : Program} (hs : s.OnTape size.toNat)
    (answered : Wasm.Point.run hosts fuel
      ⟨p.code size eof next, labels, vs, image behind x y s⟩ ≠ .outOfFuel) :
    ∃ t, Ends eof p s t := by
  -- A loop takes fuel, any other step goes to a smaller program.
  induction limit generalizing fuel p s next labels vs x y with
  | zero =>
    obtain rfl : fuel = 0 := by omega
    exact absurd (run_zero _ _) answered
  | succ limit ih =>
    induction p generalizing fuel s next labels vs x y with
    | nil => exact ⟨s, ends_nil.mpr rfl⟩
    | op o rest ihRest =>
      obtain ⟨k, x', y', first⟩ := Op.leads_code hs hsize eof o
      obtain ⟨_, later⟩ := first.answered answered
      obtain ⟨t, ends⟩ := ihRest (by omega) (Op.apply_onTape hs eof o) later
      exact ⟨t, ends_op.mpr ends⟩
    | loop body rest =>
      by_cases zero : s.current = 0
      · obtain ⟨k, left⟩ := leads_loop_zero hs hsize zero
        obtain ⟨_, later⟩ := left.answered answered
        obtain ⟨t, ends⟩ := ih (by omega) hs later
        exact ⟨t, (ends_loop_zero zero).mpr ends⟩
      · obtain ⟨k, entered⟩ := leads_loop_nonzero hs hsize zero
        obtain ⟨_, inside⟩ := entered.answered answered
        obtain ⟨u, once⟩ := ih (by omega) hs inside
        obtain ⟨n, taken⟩ := ends_iff_takes.mp once
        obtain ⟨m, x', y', around⟩ := leads_code taken hs hsize (.br 1 .done) _ vs _ x y
        obtain ⟨_, later⟩ := (around.trans (leads_loop_again _)).answered inside
        rw [← code_loop] at later
        obtain ⟨t, ends⟩ := ih (by omega) (once.onTape hs) later
        exact ⟨t, (ends_loop_nonzero zero).mpr ⟨u, once, ends⟩⟩

/-! ### The entry function on a fresh instance -/

/-- The store of a fresh instance: scratch locals and pointer 0, a blank memory of whole pages. -/
def freshStore (c : CompilerSettings) (p : Program) (input : List UInt8) : Wasm.Store :=
  Loaded.store (p.body c) ((p.toModule c).globals.map (·.value))
    (.replicate (c.pages * Wasm.pageSize) 0) (.ofInput input)

/-- Run the entry function of the module for a program, for at most `fuel` steps. -/
def execution (c : CompilerSettings) (p : Program) (fuel : Nat) (input : List UInt8) :
    Wasm.Completion :=
  (p.body c).code.run hosts fuel [] [] (p.freshStore c input)

/-- The imports of the module resolve to the two functions in their order. -/
theorem resolve_toModule (c : CompilerSettings) (p : Program) :
    (p.toModule c).imports.mapM (p.toModule c).host? = some hosts := rfl

/-- Loading the module leads to this store and to this function. -/
theorem instantiate_toModule {l : Loaded} {c : CompilerSettings} {p : Program}
    (hl : l.code = p.toModule c) (meter : Option Wasm.Meter) (fuel : Nat) (input : List UInt8) :
    l.entry? = some (p.body c) ∧ ∃ s, l.instantiate meter fuel input = some (.ok (s, fuel)) ∧
      Loaded.store (p.body c) s.globals s.memory s.streams = p.freshStore c input := by
  obtain ⟨code, linked, memorySize, settings⟩ := l
  obtain rfl : code = p.toModule c := hl
  exact ⟨rfl, _, rfl, rfl⟩

/-- The memory behind the tape: the rest of its last page. -/
def behindTape (c : CompilerSettings) : Array UInt8 :=
  .replicate (c.pages * Wasm.pageSize - c.memorySize.toNat) 0

theorem memorySize_le_pages (c : CompilerSettings) :
    c.memorySize.toNat ≤ c.pages * Wasm.pageSize := by
  simp only [CompilerSettings.pages, Wasm.pageSize]
  omega

theorem freshStore_eq_image (c : CompilerSettings) (p : Program) (input : List UInt8) :
    p.freshStore c input = image (behindTape c) 0 0 (.initial c.memorySize.toNat input) := by
  have pages : Array.replicate (c.pages * Wasm.pageSize) (0 : UInt8) =
      .replicate c.memorySize.toNat 0 ++ behindTape c := by
    rw [behindTape, Array.replicate_append_replicate, Nat.add_sub_cancel' (memorySize_le_pages c)]
  simp only [freshStore, Loaded.store, pages]
  rfl

variable {c : CompilerSettings} {p : Program} {input : List UInt8}

/-- If the program ends, its entry function comes to the pointer, in the image of the last state. -/
theorem leads_execution (low : 1 ≤ c.memorySize.toNat) (high : c.memorySize.toNat ≤ 2147483648)
    (h : p.Ends c.eof (.initial c.memorySize.toNat input) t) :
    ∃ k x y, Leads hosts k ⟨(p.body c).code, [], [], p.freshStore c input⟩
      ⟨.done, [], [.ofNat t.pointer], image (behindTape c) x y t⟩ := by
  obtain ⟨n, taken⟩ := ends_iff_takes.mp h
  obtain ⟨k, x, y, through⟩ := leads_code taken (State.initial_onTape low input) high
    (.plain (.globalGet pointerGlobal) .done) [] [] (behindTape c) 0 0
  have returned : Leads hosts 1
      ⟨.plain (.globalGet pointerGlobal) .done, [], [], image (behindTape c) x y t⟩
      ⟨.done, [], [.ofNat t.pointer], image (behindTape c) x y t⟩ := fun _ => rfl
  rw [freshStore_eq_image]
  exact ⟨k + 1, x, y, through.trans returned⟩

theorem execution_of_ends (low : 1 ≤ c.memorySize.toNat) (high : c.memorySize.toNat ≤ 2147483648)
    (h : p.Ends c.eof (.initial c.memorySize.toNat input) t) :
    ∃ fuel vs st spare, p.execution c fuel input = .finished vs st spare := by
  obtain ⟨k, x, y, way⟩ := leads_execution low high h
  exact ⟨1 + k, _, _, 0, way 1⟩

/-- The entry function runs on, or it has come to the image of the state its program ends in. -/
theorem execution_cases (p : Program) (input : List UInt8) (low : 1 ≤ c.memorySize.toNat)
    (high : c.memorySize.toNat ≤ 2147483648) (fuel : Nat) :
    p.execution c fuel input = .outOfFuel ∨
      ∃ t x y spare, p.Ends c.eof (.initial c.memorySize.toNat input) t ∧
        p.execution c fuel input =
          .finished [.ofNat t.pointer] (image (behindTape c) x y t) spare := by
  by_cases answered : p.execution c fuel input = .outOfFuel
  · exact .inl answered
  · have start : Wasm.Point.run hosts fuel ⟨(p.body c).code, [], [],
        image (behindTape c) 0 0 (.initial c.memorySize.toNat input)⟩ ≠ .outOfFuel := by
      rw [← freshStore_eq_image c p input]
      exact answered
    have onTape := State.initial_onTape low input
    obtain ⟨t, ends⟩ := ends_of_answer high (Nat.le_refl fuel) onTape start
    obtain ⟨k, x, y, way⟩ := leads_execution low high ends
    obtain ⟨_, came⟩ := way.back answered
    refine .inr ⟨t, x, y, fuel - k - 1, ends, ?_⟩
    -- The end of the code takes the last unit of fuel.
    cases left : fuel - k with
    | zero =>
      rw [left, run_zero] at came
      exact absurd came answered
    | succ spare =>
      rw [left] at came
      exact came

/-- An entry function that has come to its end is in the image of the state its program ends in. -/
theorem ends_of_execution (low : 1 ≤ c.memorySize.toNat) (high : c.memorySize.toNat ≤ 2147483648)
    {fuel spare : Nat} {st : Wasm.Store}
    (finished : p.execution c fuel input = .finished vs st spare) :
    ∃ t x y, p.Ends c.eof (.initial c.memorySize.toNat input) t ∧ vs = [.ofNat t.pointer] ∧
      st = image (behindTape c) x y t := by
  obtain out | ⟨t, x, y, _, ends, came⟩ := execution_cases p input low high fuel
  · rw [out] at finished
    contradiction
  · rw [came] at finished
    obtain ⟨rfl, rfl, _⟩ := finished
    exact ⟨t, x, y, ends, rfl, rfl⟩

/-- The generated code refines the program: it never traps, it comes to an end exactly when the
program does, and then with the same pointer, tape, output and unread input. -/
theorem execution_refines (c : CompilerSettings) (low : 1 ≤ c.memorySize.toNat)
    (high : c.memorySize.toNat ≤ 2147483648) (p : Program) (input : List UInt8) :
    (∀ fuel trap, p.execution c fuel input ≠ .trapped trap) ∧
    ((∃ fuel vs st spare, p.execution c fuel input = .finished vs st spare) ↔
      ∃ t, p.Ends c.eof (.initial c.memorySize.toNat input) t) ∧
    ∀ fuel vs st spare t, p.execution c fuel input = .finished vs st spare →
      p.Ends c.eof (.initial c.memorySize.toNat input) t →
        vs.map UInt32.toNat = [t.pointer] ∧ st.memory.extract 0 c.memorySize.toNat = t.tape ∧
        st.streams.output = t.output ∧ st.streams.input = t.input := by
  refine ⟨?_, ⟨?_, fun ⟨t, ends⟩ => execution_of_ends low high ends⟩, ?_⟩
  · intro fuel trap trapped
    obtain out | ⟨t, x, y, spare, _, finished⟩ := execution_cases p input low high fuel
    · rw [out] at trapped
      contradiction
    · rw [finished] at trapped
      contradiction
  · rintro ⟨fuel, vs, st, spare, finished⟩
    obtain ⟨t, _, _, ends, _⟩ := ends_of_execution low high finished
    exact ⟨t, ends⟩
  · intro fuel vs st spare t finished ends
    obtain ⟨u, x, y, ends', rfl, rfl⟩ := ends_of_execution low high finished
    obtain rfl := ends.deterministic ends'
    obtain ⟨size_eq, pointer_lt⟩ := ends.onTape (State.initial_onTape low input)
    simp [image, toNat_small high pointer_lt, size_eq]

/-- On the widest tape, stepping back from its first cell and copying the input. -/
theorem execution_refines_widest :
    let c : CompilerSettings := { memorySize := 2147483648, eof := .zero }
    let p := op (.left 1) (op (.input 0) (loop (op (.output 0) (op (.input 0) nil)) nil))
    1 ≤ c.memorySize.toNat ∧ c.memorySize.toNat ≤ 2147483648 ∧
      (∀ fuel trap, p.execution c fuel [7] ≠ .trapped trap) ∧
      ((∃ fuel vs st spare, p.execution c fuel [7] = .finished vs st spare) ↔
        ∃ t, p.Ends .zero (.initial 2147483648 [7]) t) :=
  have refines := execution_refines { memorySize := 2147483648, eof := .zero } (by decide)
    (by decide) (op (.left 1) (op (.input 0) (loop (op (.output 0) (op (.input 0) nil)) nil))) [7]
  ⟨by decide, by decide, refines.1, refines.2.1⟩

end Program
end TapeCompiler
