import TapeCompiler.Proofs.Emit.Validity
import TapeCompiler.Proofs.Program.Paths
import TapeCompiler.Proofs.Word

/-!
What is counted while code is produced agrees with the program. `Tally.At` says how many loops the
counters have seen and how deep they are inside; each step moves these numbers as it should, and a
whole program leaves the depth where it was (`Tally.At.tally`). The counters have 32 bits, and with
fewer than 2^32 loops none of them wraps around: no program is nested deeper than it has loops.
-/

namespace TapeCompiler

/-! ### The loops of a program -/

namespace Program

/-- Loops at every depth. -/
def loopCount : Program → Nat
  | nil => 0
  | op _ next => next.loopCount
  | loop body next => 1 + body.loopCount + next.loopCount

/-- The bodies of all loops with the paths to the loops, in the order in which the loops open. -/
def openingsFrom (index : Nat) (p : Program) : List (List Nat × Program) :=
  p.pickFrom Instr.body? index

def openings (p : Program) : List (List Nat × Program) :=
  p.openingsFrom 0

variable {p body : Program} {path : List Nat}

theorem openingsFrom_op (index : Nat) (o : Op) (next : Program) :
    (op o next).openingsFrom index = next.openingsFrom (index + 1) :=
  pickFrom_op Instr.body? index o next

theorem openingsFrom_loop (index : Nat) (body next : Program) :
    (loop body next).openingsFrom index = ([index], body) ::
      ((body.openingsFrom 0).map (fun x => (index :: x.1, x.2)) ++ next.openingsFrom (index + 1)) :=
  pickFrom_loop Instr.body? index body next

theorem mem_openings_iff : (path, body) ∈ p.openings ↔ p.follow? path = some (.loop body) := by
  rw [openings, openingsFrom, mem_pickFrom_zero_iff]
  simp only [Instr.body?_eq_some_iff, exists_eq_right]

theorem openings_ascending (p : Program) : p.openings.Pairwise fun x y => Precedes x.1 y.1 :=
  pickFrom_ascending Instr.body? 0 p

theorem length_openingsFrom (index : Nat) (p : Program) :
    (p.openingsFrom index).length = p.loopCount := by
  induction p generalizing index with
  | nil => rfl
  | op o next ih => rw [openingsFrom_op, ih, loopCount]
  | loop body next ihBody ihNext =>
    rw [openingsFrom_loop, List.length_cons, List.length_append, List.length_map, ihBody, ihNext,
      loopCount]
    omega

theorem depth_le_loopCount (p : Program) : p.depth ≤ p.loopCount := by
  induction p with
  | nil => exact Nat.le_refl _
  | op o next ih => exact ih
  | loop body next ihBody ihNext =>
    rw [depth, loopCount]
    omega

end Program

/-! ### The counters -/

namespace Tally

variable {t : Tally} {n d : Nat} {p : Program}

/-- So far `n` loops were met, and `d` of them were not left. -/
structure At (t : Tally) (n d : Nat) : Prop where
  loops : t.stats.loops = .ofNat n
  nextId : t.nextId = .ofNat n
  depth : t.depth = .ofNat d

theorem At.instruction (h : t.At n d) : t.instruction.At n d :=
  ⟨h.loops, h.nextId, h.depth⟩

theorem At.enter (h : t.At n d) (length : Nat) : (t.enter length).At (n + 1) (d + 1) := by
  have next (k : Nat) : UInt32.ofNat k + 1 = .ofNat (k + 1) := (UInt32.ofNat_add k 1).symm
  constructor
  · rw [← next, ← h.loops]
    rfl
  · rw [← next, ← h.nextId]
    rfl
  · rw [← next, ← h.depth]
    rfl

theorem At.leave (h : t.At n (d + 1)) : t.leave.At n d := by
  refine ⟨h.loops, h.nextId, ?_⟩
  change t.depth - 1 = .ofNat d
  rw [h.depth, UInt32.ofNat_add]
  exact UInt32.add_sub_cancel _ 1

/-- A program leaves the depth where it was. -/
theorem At.tally (h : t.At n d) (p : Program) : (p.tally t).At (n + p.loopCount) d := by
  induction p generalizing t n d with
  | nil => exact h
  | op o next ih => exact ih h.instruction
  | loop body next ihBody ihNext =>
    have left : (body.tally (t.instruction.enter body.length)).leave.At
        (n + 1 + body.loopCount) d := (ihBody (h.instruction.enter body.length)).leave
    have behind := ihNext left
    have number : n + (Program.loop body next).loopCount =
        n + 1 + body.loopCount + next.loopCount := by
      rw [Program.loopCount]
      omega
    rw [number]
    exact behind

theorem instructions_tally (t : Tally) (p : Program) :
    (p.tally t).stats.instructions = t.stats.instructions + p.count := by
  induction p generalizing t with
  | nil => rfl
  | op o next ih =>
    rw [Program.tally, ih, Program.count, ← Nat.add_assoc]
    rfl
  | loop body next ihBody ihNext =>
    have inside : (body.tally (t.instruction.enter body.length)).leave.stats.instructions =
        t.stats.instructions + 1 + body.count := ihBody (t.instruction.enter body.length)
    rw [Program.tally, ihNext, inside, Program.count]
    omega

theorem At.maxLoopDepth_enter (h : t.At n d) (fits : d + 1 < 4294967296) (length : Nat) :
    (t.enter length).stats.maxLoopDepth.toNat = max t.stats.maxLoopDepth.toNat (d + 1) := by
  have deeper : (t.enter length).depth.toNat = d + 1 := by
    rw [(h.enter length).depth]
    exact UInt32.toNat_ofNat_of_lt' fits
  rw [← deeper]
  exact Word.toNat_max t.stats.maxLoopDepth (t.depth + 1)

/-- The greatest depth, once it is as great as the depth at which the program stands. -/
theorem At.maxLoopDepth_tally (h : t.At n d) (reached : d ≤ t.stats.maxLoopDepth.toNat)
    (fits : d + p.depth < 4294967296) :
    (p.tally t).stats.maxLoopDepth.toNat = max t.stats.maxLoopDepth.toNat (d + p.depth) := by
  induction p generalizing t n d with
  | nil => exact (Nat.max_eq_left reached).symm
  | op o next ih => exact ih h.instruction reached fits
  | loop body next ihBody ihNext =>
    rw [Program.depth] at fits ⊢
    have inner := h.instruction.enter body.length
    have entered : (t.instruction.enter body.length).stats.maxLoopDepth.toNat =
        max t.stats.maxLoopDepth.toNat (d + 1) :=
      h.instruction.maxLoopDepth_enter (by omega) body.length
    have inside := ihBody inner (by omega) (by omega)
    have left : (body.tally (t.instruction.enter body.length)).leave.stats.maxLoopDepth.toNat =
        max t.stats.maxLoopDepth.toNat (d + 1 + body.depth) := by
      refine inside.trans ?_
      rw [entered]
      omega
    -- What follows the loop starts at depth `d` again, with the depth of the body still remembered.
    have behind := ihNext (inner.tally body).leave (by rw [left]; omega) (by omega)
    rw [Program.tally, behind, left]
    omega

/-- The note for an opening and its number, where the program stands at depth `d`. -/
def noteAt (d : Nat) (x : (List Nat × Program) × Nat) : LoopNote :=
  ⟨.ofNat x.2, .ofNat (d + x.1.1.length), x.1.2.length⟩

/-- Inside a loop the paths are shorter and the depth is greater by one. -/
theorem map_noteAt_succ (d index n : Nat) (loops : List (List Nat × Program)) :
    (loops.zipIdx n).map (noteAt (d + 1)) =
      ((loops.map fun x => (index :: x.1, x.2)).zipIdx n).map (noteAt d) := by
  rw [List.zipIdx_map, List.map_map]
  apply List.map_congr_left
  rintro ⟨⟨path, body⟩, i⟩ _
  simp only [noteAt, Function.comp_apply, Prod.map_apply, List.length_cons, id_eq]
  rw [Nat.add_right_comm, Nat.add_assoc]

/-- Every loop is noted with the next number and with its depth, in the order of the openings. -/
theorem At.notes_tally (h : t.At n d) (index : Nat) :
    (p.tally t).notes.reverse =
      t.notes.reverse ++ ((p.openingsFrom index).zipIdx n).map (noteAt d) := by
  induction p generalizing t n d index with
  | nil => exact (List.append_nil _).symm
  | op o next ih =>
    rw [Program.openingsFrom_op]
    exact ih h.instruction (index + 1)
  | loop body next ihBody ihNext =>
    have inner := h.instruction.enter body.length
    have entered : (t.instruction.enter body.length).notes.reverse =
        t.notes.reverse ++ [noteAt d (([index], body), n)] := by
      rw [← List.reverse_cons]
      change (LoopNote.mk t.nextId (t.instruction.enter body.length).depth _ :: _).reverse = _
      rw [inner.depth, h.nextId]
      rfl
    have inside : (body.tally (t.instruction.enter body.length)).leave.notes.reverse =
        t.notes.reverse ++ [noteAt d (([index], body), n)] ++
          (((body.openingsFrom 0).map fun x => (index :: x.1, x.2)).zipIdx (n + 1)).map
            (noteAt d) := by
      rw [← map_noteAt_succ, ← entered]
      exact ihBody inner 0
    rw [Program.tally, ihNext (inner.tally body).leave (index + 1), inside,
      Program.openingsFrom_loop, List.zipIdx_cons, List.zipIdx_append, List.length_map,
      Program.length_openingsFrom, List.map_cons, List.map_append]
    simp only [List.append_assoc, List.cons_append, List.nil_append]

theorem at_start : ({} : Tally).At 0 0 := ⟨rfl, rfl, rfl⟩

/-- No number of a note wraps around if the loops can be counted. -/
theorem noteAt_openings (few : p.loopCount < 4294967296) {x : (List Nat × Program) × Nat}
    (numbered : x ∈ p.openings.zipIdx) :
    (noteAt 0 x).id.toNat = x.2 ∧ (noteAt 0 x).depth.toNat = x.1.1.length := by
  obtain ⟨⟨path, body⟩, i⟩ := x
  have listed : (path, body) ∈ p.openings := List.fst_mem_of_mem_zipIdx numbered
  have number : i < p.openings.length := List.snd_lt_of_mem_zipIdx numbered
  rw [Program.openings, Program.length_openingsFrom] at number
  have level := Program.length_path_le_depth (Program.mem_openings_iff.mp listed)
  have depth := p.depth_le_loopCount
  simp only [noteAt, Nat.zero_add]
  constructor
  · exact UInt32.toNat_ofNat_of_lt' (Nat.lt_trans number few)
  · exact UInt32.toNat_ofNat_of_lt' (Nat.lt_of_le_of_lt (Nat.le_trans level depth) few)

end Tally

namespace Program

/-- What emission counts agrees with the program: its instructions, its loops and its deepest
nesting. The openings are exactly the loops that paths lead to, in the order of these paths, and
while code is produced they are reported in this order with the numbers 0, 1, 2 and so on, each with
the length of its path for its depth. In the end no loop is open. -/
theorem emit_counts_loops (c : CompilerSettings) (checked : c.check = .ok ()) (p : Program)
    (few : p.loopCount < 4294967296) :
    ∃ e, p.emit c = .ok e ∧
      e.stats.instructions = p.count ∧ e.stats.loops.toNat = p.loopCount ∧
      e.stats.maxLoopDepth.toNat = p.depth ∧
      (∀ path body, (path, body) ∈ p.openings ↔ p.follow? path = some (.loop body)) ∧
      (p.openings.Pairwise fun x y => Precedes x.1 y.1) ∧ p.openings.length = p.loopCount ∧
      e.events c = p.openings.zipIdx.map (fun x => .emittingLoop x.2 x.1.1.length x.1.2.length) ++
        [.emitted e.bytes.length p.loopCount p.depth c.pages] ∧
      (p.tally {}).depth = 0 := by
  have depth := p.depth_le_loopCount
  have ended := Tally.at_start.tally p
  have loops : (p.tally {}).stats.loops.toNat = p.loopCount := by
    rw [ended.loops, Nat.zero_add]
    exact UInt32.toNat_ofNat_of_lt' few
  have deepest : (p.tally {}).stats.maxLoopDepth.toNat = p.depth := by
    rw [Tally.at_start.maxLoopDepth_tally (Nat.le_refl 0) (by omega), Nat.zero_add]
    exact Nat.max_eq_right (Nat.zero_le _)
  have notes : (p.tally {}).notes.reverse = p.openings.zipIdx.map (Tally.noteAt 0) :=
    Tally.at_start.notes_tally 0
  refine ⟨⟨(p.toModule c).encode, (p.tally {}).stats, (p.tally {}).notes.reverse⟩, ?_, ?_, loops,
    deepest, fun _ _ => mem_openings_iff, p.openings_ascending, length_openingsFrom 0 p, ?_,
    ended.depth⟩
  · rw [emit, checked]
  · exact (Tally.instructions_tally {} p).trans (Nat.zero_add _)
  · rw [Emission.events, loops, deepest, notes, List.map_map]
    congr 1
    apply List.map_congr_left
    intro x numbered
    obtain ⟨id, level⟩ := Tally.noteAt_openings few numbered
    rw [Function.comp_apply, id, level]
    rfl

/-- A loop behind a nest of three starts at the first depth again. -/
theorem emit_counts_loops_nested :
    let c : CompilerSettings := { memorySize := 3 }
    let p := loop (op (.add 1 0) (loop (loop nil nil) nil)) (op (.left 1) (loop (loop nil nil) nil))
    c.check = .ok () ∧ p.loopCount < 4294967296 ∧ ∃ e, p.emit c = .ok e ∧
      e.stats.instructions = 7 ∧ e.stats.loops.toNat = 5 ∧ e.stats.maxLoopDepth.toNat = 3 ∧
      e.events c = [.emittingLoop 0 1 2, .emittingLoop 1 2 1, .emittingLoop 2 3 0,
        .emittingLoop 3 1 1, .emittingLoop 4 2 0, .emitted e.bytes.length 5 3 1] := by
  intro c p
  have few : p.loopCount < 4294967296 := by decide
  obtain ⟨e, emitted, instructions, loops, depth, _, _, _, events, _⟩ :=
    emit_counts_loops c rfl p few
  have openings : p.openings.zipIdx.map (fun x => Event.emittingLoop x.2 x.1.1.length x.1.2.length) =
      [.emittingLoop 0 1 2, .emittingLoop 1 2 1, .emittingLoop 2 3 0, .emittingLoop 3 1 1,
        .emittingLoop 4 2 0] := by decide
  have pages : c.pages = 1 := by decide
  rw [openings, pages] at events
  exact ⟨rfl, few, e, emitted, instructions, loops, depth, events⟩

end Program
end TapeCompiler
