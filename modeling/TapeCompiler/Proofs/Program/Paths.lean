import TapeCompiler.Program.Basic

/-!
Paths into programs. A path is a list of indices that leads from block to block to one instruction.
`instrsFrom` lists the instructions at every depth with their paths as they stand in the source, a
loop before what is inside it. The list holds exactly the instructions that paths lead to
(`mem_instrsFrom_iff`), and its paths ascend (`instrsFrom_ascending`). So do the lists of what is
picked from it, such as all operations or all loops.
-/

namespace TapeCompiler
namespace Program

/-- The instruction at an index of the top level. -/
def instr? : Program → Nat → Option Instr
  | nil, _ => none
  | op o _, 0 => some (.op o)
  | loop body _, 0 => some (.loop body)
  | op _ next, i + 1 => next.instr? i
  | loop _ next, i + 1 => next.instr? i

/-- The instruction that a path leads to. Each index but the last one leads into the body of the
loop that stands there. -/
def follow? (p : Program) : List Nat → Option Instr
  | [] => none
  | [i] => p.instr? i
  | i :: j :: path =>
    match p.instr? i with
    | some (.loop body) => body.follow? (j :: path)
    | some (.op _) | none => none

/-- The first path comes before the second one in the source: where they part, its index is lower. -/
def Precedes (path path' : List Nat) : Prop :=
  List.Lex (fun i j : Nat => i < j) path path'

variable {p body next : Program} {o : Op} {i : Nat} {path : List Nat} {x : Instr}

theorem follow?_nil (path : List Nat) : nil.follow? path = none := by
  match path with
  | [] | [_] | _ :: _ :: _ => rfl

theorem follow?_op_zero : (op o next).follow? (0 :: path) = some x ↔ path = [] ∧ x = .op o := by
  cases path with
  | nil => simp [follow?, instr?, eq_comm]
  | cons j path => simp [follow?, instr?]

theorem follow?_op_succ : (op o next).follow? ((i + 1) :: path) = next.follow? (i :: path) := by
  cases path <;> rfl

theorem follow?_loop_zero : (loop body next).follow? (0 :: path) = some x ↔
    path = [] ∧ x = .loop body ∨ body.follow? path = some x := by
  cases path with
  | nil => simp [follow?, instr?, eq_comm]
  | cons j path => simp [follow?, instr?]

theorem follow?_loop_succ : (loop body next).follow? ((i + 1) :: path) = next.follow? (i :: path) := by
  cases path <;> rfl

/-- No loop stands deeper than the deepest one. -/
theorem length_path_le_depth (leads : p.follow? path = some (.loop body)) : path.length ≤ p.depth := by
  induction p generalizing path with
  | nil => cases (follow?_nil path).symm.trans leads
  | op o next ih =>
    match path with
    | [] => exact Nat.zero_le _
    | 0 :: rest => cases (follow?_op_zero.mp leads).2
    | (i + 1) :: rest =>
      rw [follow?_op_succ] at leads
      have later := ih leads
      rwa [List.length_cons] at later ⊢
  | loop inner next ihInner ihNext =>
    rw [depth]
    match path with
    | [] => exact Nat.zero_le _
    | 0 :: rest =>
      rcases follow?_loop_zero.mp leads with ⟨rfl, _⟩ | inside
      · simp only [List.length_cons, List.length_nil]
        omega
      · have deeper := ihInner inside
        rw [List.length_cons]
        omega
    | (i + 1) :: rest =>
      rw [follow?_loop_succ] at leads
      have later := ihNext leads
      rw [List.length_cons] at later ⊢
      omega

/-! ### All instructions in source order -/

/-- The instructions at every depth with their paths, where the sequence starts at `index` of its
block. -/
def instrsFrom (index : Nat) : Program → List (List Nat × Instr)
  | nil => []
  | op o next => ([index], .op o) :: instrsFrom (index + 1) next
  | loop body next =>
    ([index], .loop body) ::
      ((instrsFrom 0 body).map (fun x => (index :: x.1, x.2)) ++ instrsFrom (index + 1) next)

theorem mem_instrsFrom_iff (index : Nat) :
    (path, x) ∈ p.instrsFrom index ↔
      ∃ i rest, path = (index + i) :: rest ∧ p.follow? (i :: rest) = some x := by
  induction p generalizing index path with
  | nil => simp [instrsFrom, follow?_nil]
  | op o next ih =>
    rw [instrsFrom, List.mem_cons, ih]
    constructor
    · rintro (here | ⟨i, rest, rfl, leads⟩)
      · obtain ⟨rfl, rfl⟩ := Prod.mk.inj here
        exact ⟨0, [], rfl, rfl⟩
      · exact ⟨i + 1, rest, by rw [Nat.succ_add_eq_add_succ], follow?_op_succ.trans leads⟩
    · rintro ⟨i, rest, rfl, leads⟩
      cases i with
      | zero =>
        obtain ⟨rfl, rfl⟩ := follow?_op_zero.mp leads
        exact .inl rfl
      | succ i =>
        rw [follow?_op_succ] at leads
        exact .inr ⟨i, rest, by rw [Nat.succ_add_eq_add_succ], leads⟩
  | loop body next ihBody ihNext =>
    rw [instrsFrom, List.mem_cons, List.mem_append, List.mem_map, ihNext]
    constructor
    · rintro (here | ⟨⟨inner, y⟩, listed, here⟩ | ⟨i, rest, rfl, leads⟩)
      · obtain ⟨rfl, rfl⟩ := Prod.mk.inj here
        exact ⟨0, [], rfl, rfl⟩
      · obtain ⟨rfl, rfl⟩ := Prod.mk.inj here
        obtain ⟨j, rest, rfl, leads⟩ := (ihBody 0).mp listed
        rw [Nat.zero_add]
        exact ⟨0, j :: rest, rfl, follow?_loop_zero.mpr (.inr leads)⟩
      · exact ⟨i + 1, rest, by rw [Nat.succ_add_eq_add_succ], follow?_loop_succ.trans leads⟩
    · rintro ⟨i, rest, rfl, leads⟩
      cases i with
      | zero =>
        rcases follow?_loop_zero.mp leads with ⟨rfl, rfl⟩ | inside
        · exact .inl rfl
        · cases rest with
          | nil => cases inside
          | cons j rest =>
            have listed := (ihBody 0).mpr ⟨j, rest, by rw [Nat.zero_add], inside⟩
            exact .inr (.inl ⟨(j :: rest, x), listed, rfl⟩)
      | succ i =>
        rw [follow?_loop_succ] at leads
        exact .inr (.inr ⟨i, rest, by rw [Nat.succ_add_eq_add_succ], leads⟩)

theorem instrsFrom_ascending (index : Nat) (p : Program) :
    (p.instrsFrom index).Pairwise fun x y => Precedes x.1 y.1 := by
  induction p generalizing index with
  | nil => exact .nil
  | op o next ih =>
    refine List.pairwise_cons.mpr ⟨?_, ih (index + 1)⟩
    rintro ⟨path, y⟩ later
    obtain ⟨i, rest, rfl, _⟩ := (mem_instrsFrom_iff _).mp later
    exact .rel (by omega)
  | loop body next ihBody ihNext =>
    have inside : ((body.instrsFrom 0).map fun x => (index :: x.1, x.2)).Pairwise
        fun x y => Precedes x.1 y.1 :=
      List.pairwise_map.mpr ((ihBody 0).imp .cons)
    refine List.pairwise_cons.mpr ⟨?_, List.pairwise_append.mpr ⟨inside, ihNext (index + 1), ?_⟩⟩
    · -- The path of the loop itself is cut short where those of its body go on.
      intro y later
      rcases List.mem_append.mp later with inner | behind
      · obtain ⟨⟨path, y⟩, listed, rfl⟩ := List.mem_map.mp inner
        obtain ⟨j, rest, rfl, _⟩ := (mem_instrsFrom_iff _).mp listed
        exact .cons .nil
      · obtain ⟨i, rest, same, _⟩ := (mem_instrsFrom_iff _).mp behind
        rw [same]
        exact .rel (by omega)
    · intro x inner y behind
      obtain ⟨_, _, rfl⟩ := List.mem_map.mp inner
      obtain ⟨i, rest, same, _⟩ := (mem_instrsFrom_iff _).mp behind
      rw [same]
      exact .rel (by omega)

/-! ### What is picked from them -/

variable {α : Type} {pick : Instr → Option α} {a : α}

/-- What `pick` takes from the instructions, with the paths to them. -/
def pickFrom (pick : Instr → Option α) (index : Nat) (p : Program) : List (List Nat × α) :=
  (p.instrsFrom index).filterMap fun x => (pick x.2).map (Prod.mk x.1)

theorem pickFrom_op (pick : Instr → Option α) (index : Nat) (o : Op) (next : Program) :
    (op o next).pickFrom pick index =
      ((pick (.op o)).map (Prod.mk [index])).toList ++ next.pickFrom pick (index + 1) := by
  rw [pickFrom, instrsFrom, List.filterMap_cons]
  cases pick (.op o) <;> rfl

theorem pickFrom_loop (pick : Instr → Option α) (index : Nat) (body next : Program) :
    (loop body next).pickFrom pick index =
      ((pick (.loop body)).map (Prod.mk [index])).toList ++
        ((body.pickFrom pick 0).map (fun x => (index :: x.1, x.2)) ++
          next.pickFrom pick (index + 1)) := by
  have inside : ((body.instrsFrom 0).map fun x => (index :: x.1, x.2)).filterMap
      (fun x => (pick x.2).map (Prod.mk x.1)) =
        (body.pickFrom pick 0).map fun x => (index :: x.1, x.2) := by
    rw [pickFrom, List.filterMap_map, List.map_filterMap]
    congr 1
    funext x
    simp only [Function.comp_apply, Option.map_map]
    rfl
  rw [pickFrom, instrsFrom, List.filterMap_cons, List.filterMap_append, inside]
  cases pick (.loop body) <;> rfl

theorem mem_pickFrom_zero_iff :
    (path, a) ∈ p.pickFrom pick 0 ↔ ∃ x, p.follow? path = some x ∧ pick x = some a := by
  rw [pickFrom, List.mem_filterMap]
  constructor
  · rintro ⟨⟨path', x⟩, listed, picked⟩
    obtain ⟨b, taken, same⟩ := Option.map_eq_some_iff.mp picked
    obtain ⟨rfl, rfl⟩ := Prod.mk.inj same
    obtain ⟨i, rest, rfl, leads⟩ := (mem_instrsFrom_iff 0).mp listed
    rw [Nat.zero_add]
    exact ⟨x, leads, taken⟩
  · rintro ⟨x, leads, picked⟩
    refine ⟨(path, x), ?_, by rw [picked]; rfl⟩
    cases path with
    | nil => cases leads
    | cons i rest => exact (mem_instrsFrom_iff 0).mpr ⟨i, rest, by rw [Nat.zero_add], leads⟩

theorem pickFrom_ascending (pick : Instr → Option α) (index : Nat) (p : Program) :
    (p.pickFrom pick index).Pairwise fun x y => Precedes x.1 y.1 := by
  refine (instrsFrom_ascending index p).filterMap _ ?_
  intro x y earlier a picked b picked'
  obtain ⟨_, _, rfl⟩ := Option.map_eq_some_iff.mp picked
  obtain ⟨_, _, rfl⟩ := Option.map_eq_some_iff.mp picked'
  exact earlier

end Program

namespace Instr

def body? : Instr → Option Program
  | loop body => some body
  | op _ => none

variable {x : Instr}

theorem body?_eq_some_iff {body : Program} : x.body? = some body ↔ x = .loop body := by
  cases x <;> simp [body?]

end Instr
end TapeCompiler
