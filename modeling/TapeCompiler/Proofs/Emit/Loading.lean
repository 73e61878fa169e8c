import TapeCompiler.Proofs.Emit.Encoding
import TapeCompiler.Proofs.Emit.Refinement
import TapeCompiler.Proofs.Wasm.Metering

/-!
Compiled code stays inside the tape it was compiled for. A module may be loaded for another number
of cells than its code wraps at. If its memory is too small for them, nothing is run. Otherwise the
report shows the tape of the program and behind it the rest of the memory, which no access has
reached (`Program.execute_within_tape`). That a run has no report is left to the program, which may
never end, and to a fuel limit, which may be too low for whatever meter counts the fuel.
-/

namespace TapeCompiler

open Emit

theorem CompilerSettings.check_eq_ok {c : CompilerSettings} (low : 1 ≤ c.memorySize.toNat)
    (high : c.memorySize.toNat ≤ 2147483648) : c.check = .ok () := by
  have bounded : ¬ c.memorySize.toNat > maxMemorySize := Nat.not_lt.mpr high
  rw [check, if_neg (memorySize_ne_zero low), if_neg bounded]

/-! ### Loading the module of a program -/

theorem load_of_accept? {m : Wasm.Module} {bytes : List UInt8} {linked : List Wasm.Host}
    (accepted : Wasm.Module.accept? bytes = some m)
    (resolved : m.imports.mapM m.host? = some linked) (r : RuntimeSettings) (size : UInt32) :
    load r size bytes = .ok ⟨m, linked, size, r⟩ := by
  rw [load, accepted]
  simp only [resolved]

theorem load_of_refused {bytes : List UInt8} (refused : Wasm.Module.accept? bytes = none)
    (r : RuntimeSettings) (size : UInt32) : load r size bytes = .error .malformed := by
  rw [load, refused]

namespace Program

theorem accept?_toModule (c : CompilerSettings) (p : Program) :
    Wasm.Module.accept? (p.toModule c).encode =
      if (p.codeSection c).length < 4294967296 then some (p.toModule c) else none := by
  rw [Wasm.Module.accept?, decode?_toModule]
  split
  · simp [isValid_toModule]
  · rfl

theorem load_toModule (c : CompilerSettings) (p : Program) (r : RuntimeSettings) (size : UInt32) :
    load r size (p.toModule c).encode =
      if (p.codeSection c).length < 4294967296 then .ok ⟨p.toModule c, hosts, size, r⟩
      else .error .malformed := by
  have accepted := accept?_toModule c p
  split
  · rename_i counted
    rw [if_pos counted] at accepted
    exact load_of_accept? accepted (resolve_toModule c p) r size
  · rename_i long
    rw [if_neg long] at accepted
    exact load_of_refused accepted r size

variable {l : Loaded} {c : CompilerSettings} {p : Program}

theorem loaded_toModule {r : RuntimeSettings} {size : UInt32}
    (loaded : load r size (p.toModule c).encode = .ok l) :
    l.code = p.toModule c ∧ l.hosts = hosts ∧ l.memorySize = size ∧ l.settings = r := by
  rw [load_toModule] at loaded
  split at loaded
  · cases loaded
    exact ⟨rfl, rfl, rfl, rfl⟩
  · cases loaded

theorem ready_toModule (hl : l.code = p.toModule c) (memory : Nat) :
    l.ready memory = if memory < l.memorySize.toNat then
      .error (.smallMemory memory l.memorySize.toNat) else .ok (p.body c) := by
  have entry := (instantiate_toModule hl none 0 []).1
  have exported : l.exportsMemory = true := by
    rw [Loaded.exportsMemory, hl]
    rfl
  simp only [Loaded.ready, entry, exported, Bool.not_true, Bool.false_eq_true, if_false]

theorem instantiate_memory (hl : l.code = p.toModule c) (meter : Option Wasm.Meter) (fuel : Nat)
    (input : List UInt8) :
    ∃ s, l.instantiate meter fuel input = some (.ok (s, fuel)) ∧
      s.memory.size = c.pages * Wasm.pageSize ∧
      Loaded.store (p.body c) s.globals s.memory s.streams = p.freshStore c input := by
  obtain ⟨_, s, made, store⟩ := instantiate_toModule hl meter fuel input
  have blank : s.memory = .replicate (c.pages * Wasm.pageSize) 0 :=
    congrArg Wasm.Store.memory store
  refine ⟨s, made, ?_, store⟩
  rw [blank, Array.size_replicate]

/-- Too small a memory is noticed before anything runs, whatever the fuel. -/
theorem execute_small (hl : l.code = p.toModule c)
    (short : c.pages * Wasm.pageSize < l.memorySize.toNat) (meter : Wasm.Meter)
    (input : List UInt8) :
    l.execute meter input = some ⟨.error (.wasm (LoadError.smallMemory (c.pages * Wasm.pageSize)
      l.memorySize.toNat).message), []⟩ := by
  obtain ⟨s, made, memory, _⟩ :=
    instantiate_memory hl (l.metering meter).1 (l.metering meter).2 input
  simp only [Loaded.execute, made, Option.bind_eq_bind, Option.bind_some, ready_toModule hl, memory,
    if_pos short]
  rfl

/-- A run is a call of the entry function on a fresh instance. -/
theorem execute_call (hl : l.code = p.toModule c) (linked : l.hosts = hosts)
    (enough : l.memorySize.toNat ≤ c.pages * Wasm.pageSize) (meter : Wasm.Meter)
    (input : List UInt8) :
    l.execute meter input =
      ((p.body c).call hosts (l.metering meter).1 (l.metering meter).2 (p.freshStore c input)).map
        (l.conclude input) := by
  obtain ⟨s, made, memory, store⟩ :=
    instantiate_memory hl (l.metering meter).1 (l.metering meter).2 input
  simp only [Loaded.execute, made, Option.bind_eq_bind, Option.bind_some, ready_toModule hl, memory,
    if_neg (Nat.not_lt.mpr enough), store, linked]

end Program

/-! ### What the report shows -/

/-- The report of a run that shows `size` bytes of the memory, beside that of the interpreter on a
tape of `cells` cells. -/
structure Report.Shows (report : Report) (cells size : Nat) (reference : Report) : Prop where
  length : report.memory.size = size
  tape : ∀ i, i < min size cells → report.memory[i]? = reference.memory[i]?
  behind : ∀ i, cells ≤ i → i < size → report.memory[i]? = some 0
  pointer : report.pointer = reference.pointer
  inside : report.pointer < cells
  output : report.output = reference.output

namespace Program

variable {l : Loaded} {c : CompilerSettings} {p : Program} {t : State}

theorem shows_image (onTape : t.OnTape c.memorySize.toNat)
    (high : c.memorySize.toNat ≤ 2147483648) {size : Nat}
    (enough : size ≤ c.pages * Wasm.pageSize) (timed : Bool) :
    Report.Shows
      ⟨(UInt32.ofNat t.pointer).toNat, (t.tape ++ behindTape c).extract 0 size, t.output, timed⟩
      c.memorySize.toNat size
      { pointer := t.pointer, memory := t.tape, output := t.output } := by
  have held := memorySize_le_pages c
  have pointer := toNat_small high onTape.pointer_lt
  have whole : (t.tape ++ behindTape c).size = c.pages * Wasm.pageSize := by
    rw [Array.size_append, onTape.size_eq, behindTape, Array.size_replicate]
    omega
  have shown (i : Nat) (hi : i < size) :
      ((t.tape ++ behindTape c).extract 0 size)[i]? = (t.tape ++ behindTape c)[i]? := by
    rw [Array.getElem?_extract, if_pos (by omega), Nat.zero_add]
  constructor
  · rw [Array.size_extract, whole]
    omega
  · intro i hi
    rw [shown i (by omega), Array.getElem?_append_left]
    rw [onTape.size_eq]
    omega
  · intro i low hi
    rw [shown i hi, Array.getElem?_append_right (by rw [onTape.size_eq]; exact low), behindTape,
      Array.getElem?_replicate, if_pos (by rw [onTape.size_eq]; omega)]
  · exact pointer
  · rw [pointer]
    exact onTape.pointer_lt
  · rfl

/-- The fuel is limited, and to this meter the limit is too low for the entry function. -/
def OutOfFuel (c : CompilerSettings) (p : Program) (r : RuntimeSettings) (meter : Wasm.Meter)
    (input : List UInt8) : Prop :=
  ∃ fuel, r.maxFuel = some fuel ∧
    (p.body c).Exhausts hosts meter fuel.toNat (p.freshStore c input)

variable {meter : Wasm.Meter} {input : List UInt8}

theorem lasts_of_not_outOfFuel (lasts : ¬ p.OutOfFuel c l.settings meter input) :
    ∀ m, (l.metering meter).1 = some m →
      ¬ (p.body c).Exhausts hosts m (l.metering meter).2 (p.freshStore c input) := by
  intro m metered exhausts
  cases limit : l.settings.maxFuel with
  | none =>
    simp only [Loaded.metering, Loaded.fuel, limit, Option.map_none] at metered
    cases metered
  | some fuel =>
    simp only [Loaded.metering, Loaded.fuel, limit, Option.map_some] at metered exhausts
    cases metered
    exact lasts ⟨fuel, limit, exhausts⟩

section

variable (hl : l.code = p.toModule c) (linked : l.hosts = hosts)
  (low : 1 ≤ c.memorySize.toNat) (high : c.memorySize.toNat ≤ 2147483648)
  (enough : l.memorySize.toNat ≤ c.pages * Wasm.pageSize)

include hl linked enough

theorem execute_of_outOfFuel (out : p.OutOfFuel c l.settings meter input) :
    (l.execute meter input).map (·.result) = some (.error (.exhausted "Out of fuel")) := by
  obtain ⟨fuel, limit, exhausts⟩ := out
  have metered : l.metering meter = (some meter, fuel.toNat) := by
    simp only [Loaded.metering, Loaded.fuel, limit, Option.map_some]
  rw [execute_call hl linked enough, metered, Wasm.Body.call_of_exhausts exhausts]
  rfl

include low high

/-- A run whose fuel lasts shows the state in which the program ends. -/
theorem execute_of_ends (lasts : ¬ p.OutOfFuel c l.settings meter input)
    (ends : p.Ends c.eof (.initial c.memorySize.toNat input) t) :
    ∃ report, (l.execute meter input).map (·.result) = some (.ok report) ∧
      report.Shows c.memorySize.toNat l.memorySize.toNat t.report := by
  obtain ⟨k, x, y, way⟩ := leads_execution low high ends
  obtain ⟨spare, called⟩ := Wasm.Body.call_of_finished (way 1) (lasts_of_not_outOfFuel lasts)
  rw [execute_call hl linked enough, called]
  have onTape := ends.onTape (State.initial_onTape low input)
  exact ⟨_, rfl, shows_image onTape high enough _⟩

theorem execute_of_endless (lasts : ¬ p.OutOfFuel c l.settings meter input)
    (endless : ∀ t, ¬ p.Ends c.eof (.initial c.memorySize.toNat input) t) :
    l.execute meter input = none := by
  have runsOn (n : Nat) : ((p.body c).start (p.freshStore c input)).run hosts n = .outOfFuel := by
    obtain out | ⟨t, _, _, _, ends, _⟩ := execution_cases p input low high n
    · exact out
    · exact absurd ends (endless t)
  rw [execute_call hl linked enough,
    Wasm.Body.call_of_endless runsOn (lasts_of_not_outOfFuel lasts)]
  rfl

/-- The run exhausts its fuel, or it shows what the interpreter reports, or both go on forever. -/
theorem execute_cases (meter : Wasm.Meter) (input : List UInt8) :
    let outcome := (l.execute meter input).map (·.result)
    p.OutOfFuel c l.settings meter input ∧
        outcome = some (.error (.exhausted "Out of fuel")) ∨
      ¬ p.OutOfFuel c l.settings meter input ∧
        ((∃ reference report, p.interpret c none input = .ok reference ∧
            outcome = some (.ok report) ∧
            report.Shows c.memorySize.toNat l.memorySize.toNat reference) ∨
          (∀ reference, p.interpret c none input ≠ .ok reference) ∧ outcome = none) := by
  have positive := CompilerSettings.memorySize_ne_zero low
  by_cases out : p.OutOfFuel c l.settings meter input
  · exact .inl ⟨out, execute_of_outOfFuel hl linked enough out⟩
  · refine .inr ⟨out, ?_⟩
    by_cases ends : ∃ t, p.Ends c.eof (.initial c.memorySize.toNat input) t
    · obtain ⟨t, ends⟩ := ends
      obtain ⟨report, finished, shown⟩ := execute_of_ends hl linked low high enough out ends
      have interpreted := (interpret_none_eq_ok_iff positive).mpr ⟨t, ends, rfl⟩
      exact .inl ⟨_, report, interpreted, finished, shown⟩
    · have endless := not_exists.mp ends
      refine .inr ⟨?_, ?_⟩
      · intro reference interpreted
        obtain ⟨t, ends, _⟩ := (interpret_none_eq_ok_iff positive).mp interpreted
        exact endless t ends
      · rw [execute_of_endless hl linked low high enough out endless]
        rfl

end

/-- Code compiled for a tape of `c.memorySize` cells never leaves it, whatever number of cells it
is loaded for. If the whole pages of its memory cannot hold that number, nothing is run. Otherwise
the run has a report exactly when the interpreter has one and the fuel lasts, if there is a limit,
by whatever meter. The report shows the tape of the interpreter, and behind it only zeros. -/
theorem execute_within_tape (c : CompilerSettings) (low : 1 ≤ c.memorySize.toNat)
    (high : c.memorySize.toNat ≤ 2147483648) (p : Program) :
    let held := 65536 * ((c.memorySize.toNat + 65535) / 65536)
    ∃ e, p.emit c = .ok e ∧
      (∀ r size, (∃ l, load r size e.bytes = .ok l) ↔ (p.codeSection c).length < 4294967296) ∧
      ∀ r size l meter input, load r size e.bytes = .ok l →
        let outcome := (l.execute meter input).map (·.result)
        (held < size.toNat → l.execute meter input = some ⟨.error (.wasm
          s!"Module memory holds {held} bytes, tape needs {size.toNat}"), []⟩) ∧
        (size.toNat ≤ held →
          (outcome = some (.error (.exhausted "Out of fuel")) ↔ p.OutOfFuel c r meter input) ∧
          ((∃ report, outcome = some (.ok report)) ↔
            ¬ p.OutOfFuel c r meter input ∧
              ∃ reference, p.interpret c none input = .ok reference) ∧
          (∀ report reference, outcome = some (.ok report) →
            p.interpret c none input = .ok reference →
              report.Shows c.memorySize.toNat size.toNat reference) ∧
          (outcome = none ↔
            ¬ p.OutOfFuel c r meter input ∧
              ∀ reference, p.interpret c none input ≠ .ok reference)) := by
  intro held
  have pages : held = c.pages * Wasm.pageSize := Nat.mul_comm _ _
  obtain ⟨e, emitted, bytes⟩ := emit_bytes (CompilerSettings.check_eq_ok low high) p
  rw [pages]
  refine ⟨e, emitted, ?_, ?_⟩
  · intro r size
    rw [bytes, load_toModule]
    split
    · rename_i counted
      exact ⟨fun _ => counted, fun _ => ⟨_, rfl⟩⟩
    · rename_i long
      refine ⟨?_, fun counted => absurd counted long⟩
      rintro ⟨l, loaded⟩
      cases loaded
  · intro r size l meter input loaded outcome
    rw [bytes] at loaded
    obtain ⟨hl, linked, rfl, rfl⟩ := loaded_toModule loaded
    refine ⟨fun short => execute_small hl short meter input, fun enough => ?_⟩
    obtain ⟨out, stopped⟩ | ⟨lasts, goesOn⟩ :=
      execute_cases hl linked low high enough meter input
    · simp [outcome, stopped, out]
    · obtain ⟨reference, report, interpreted, finished, shown⟩ | ⟨never, unanswered⟩ := goesOn
      · simp [outcome, finished, lasts, interpreted, shown]
      · simp [outcome, unanswered, lasts, never]

/-- Code for three cells that steps back from the first and then reaches over the last. Its memory
is too small for 70000 cells. Loaded for five, it leaves the two behind the tape zero, without a
limit or with fuel enough; without any fuel there is no report. -/
theorem execute_within_tape_three :
    let c : CompilerSettings := { memorySize := 3 }
    let p := op (.left 1) (op (.add 7 2) nil)
    1 ≤ c.memorySize.toNat ∧ c.memorySize.toNat ≤ 2147483648 ∧ ∃ e, p.emit c = .ok e ∧
      (∃ l, load {} 70000 e.bytes = .ok l ∧ l.execute .standard [] =
        some ⟨.error (.wasm "Module memory holds 65536 bytes, tape needs 70000"), []⟩) ∧
      (∀ limit, limit = none ∨ limit = some 1000 →
        ∃ l report, load { maxFuel := limit } 5 e.bytes = .ok l ∧
          (l.execute .standard []).map (·.result) = some (.ok report) ∧
          report.pointer = 2 ∧ report.memory = #[0, 7, 0, 0, 0] ∧ report.output = #[]) ∧
      ∃ l, load { maxFuel := some 0 } 5 e.bytes = .ok l ∧
        (l.execute .standard []).map (·.result) = some (.error (.exhausted "Out of fuel")) := by
  intro c p
  obtain ⟨e, emitted, loads, within⟩ :=
    execute_within_tape { memorySize := 3 } (by decide) (by decide)
      (op (.left 1) (op (.add 7 2) nil))
  have counted : (p.codeSection c).length < 4294967296 := by decide +kernel
  refine ⟨by decide, by decide, e, emitted, ?_, ?_, ?_⟩
  · obtain ⟨l, loaded⟩ := (loads {} 70000).mpr counted
    exact ⟨l, loaded, (within {} 70000 l .standard [] loaded).1 (by decide)⟩
  · intro limit given
    obtain ⟨l, loaded⟩ := (loads { maxFuel := limit } 5).mpr counted
    obtain ⟨_, reports, shows, _⟩ := (within _ 5 l .standard [] loaded).2 (by decide)
    have straight : (p.body c).code = .prepend (movePointer 3 2 ++
        (openCell 3 2 ++ [.const 7, .add, .store8 0]) ++ [.globalGet pointerGlobal]) .done := by
      decide +kernel
    have lasts : ¬ p.OutOfFuel c { maxFuel := limit } .standard [] := by
      rintro ⟨fuel, rfl, exhausts⟩
      obtain ⟨⟨⟩⟩ | ⟨⟨⟩⟩ := given
      exact Wasm.Body.standard_lasts straight (by decide) _ exhausts
    have interpreted : p.interpret c none [] =
        .ok { pointer := 2, memory := #[0, 7, 0], output := #[] } :=
      (interpret_none_eq_ok_iff (by decide)).mpr ⟨_, ⟨2, 0, rfl⟩, by decide +kernel⟩
    obtain ⟨report, finished⟩ := reports.mpr ⟨lasts, _, interpreted⟩
    have shown := shows report _ finished interpreted
    refine ⟨l, report, loaded, finished, shown.pointer, ?_, shown.output⟩
    apply Array.ext_getElem?
    intro i
    match i with
    | 0 | 1 | 2 => exact shown.tape _ (by decide)
    | 3 | 4 => exact shown.behind _ (by decide) (by decide)
    | i + 5 =>
      rw [Array.getElem?_eq_none (Nat.le_trans (Nat.le_of_eq shown.length) (Nat.le_add_left 5 i))]
      rfl
  · obtain ⟨l, loaded⟩ := (loads { maxFuel := some 0 } 5).mpr counted
    obtain ⟨exhausted, _⟩ := (within _ 5 l .standard [] loaded).2 (by decide)
    exact ⟨l, loaded, exhausted.mpr ⟨0, rfl, 0, rfl⟩⟩

end Program
end TapeCompiler
