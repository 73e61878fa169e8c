import Mathlib.Data.List.Forall2
import TapeCompiler.Program.Listing

/-!
A listing belongs to one program only. A text is taken apart into lines and each line into words
(`phrases`); from a listing this gives back the words of its instructions, since no word holds a
blank or a line break (`phrases_listing`). An instruction stands in a line of two words at least and
is determined by them (`Op.words_inj`). A closing brace is alone in its line, so it is seen where
the body of a loop ends (`wording_append_inj`).
-/

namespace TapeCompiler

/-- The words of a line, whatever blanks are around them. -/
def words (line : List Char) : List String :=
  ((line.splitOn ' ').filter fun w => !w.isEmpty).map String.ofList

/-- The words of each line of a text. -/
def phrases (text : String) : List (List String) :=
  (text.toList.splitOn '\n').map words

/-- Something that is written without a blank or a line break. -/
def IsWord (w : String) : Prop :=
  w ≠ "" ∧ ∀ c ∈ w.toList, c ≠ ' ' ∧ c ≠ '\n'

theorem IsWord.append {s t : String} (first : IsWord s) (second : IsWord t) : IsWord (s ++ t) := by
  refine ⟨by simp [first.1], ?_⟩
  rw [String.toList_append]
  exact List.forall_mem_append.mpr ⟨first.2, second.2⟩

theorem words_replicate_append (n : Nat) (line : List Char) :
    words (List.replicate n ' ' ++ line) = words line := by
  induction n with
  | zero => rfl
  | succ n ih =>
    rw [← ih, List.replicate_succ, List.cons_append]
    simp only [words, List.splitOn_cons_eq_if_modifyHead, beq_self_eq_true, if_true]
    rfl

theorem words_intercalate {ws : List String} (nonempty : ws ≠ []) (each : ∀ w ∈ ws, IsWord w) :
    words (" ".intercalate ws).toList = ws := by
  have apart : ∀ l ∈ ws.map String.toList, ' ' ∉ l := by
    intro l mem blank
    obtain ⟨w, listed, rfl⟩ := List.mem_map.mp mem
    exact ((each w listed).2 ' ' blank).1 rfl
  have filled : ∀ l ∈ ws.map String.toList, (!l.isEmpty) = true := by
    intro l mem
    obtain ⟨w, listed, rfl⟩ := List.mem_map.mp mem
    simpa using (each w listed).1
  rw [words, String.toList_intercalate, show " ".toList = [' '] from rfl,
    List.splitOn_intercalate ' ' apart (by simpa using nonempty), List.filter_eq_self.mpr filled]
  simp

theorem newline_not_mem_intercalate {ws : List String} (each : ∀ w ∈ ws, IsWord w) :
    '\n' ∉ (" ".intercalate ws).toList := by
  induction ws with
  | nil => simp
  | cons w ws ih =>
    obtain ⟨first, others⟩ := List.forall_mem_cons.mp each
    have here : '\n' ∉ w.toList := fun mem => (first.2 '\n' mem).2 rfl
    by_cases last : ws = []
    · simpa [last] using here
    · have behind := ih others
      rw [String.intercalate_cons_of_ne_nil last]
      simp only [String.toList_append, List.mem_append, not_or]
      exact ⟨⟨here, by decide⟩, behind⟩

/-- The line reads as these words and is one line. -/
structure ReadsAs (line : String) (ws : List String) : Prop where
  words_eq : words line.toList = ws
  unbroken : '\n' ∉ line.toList

theorem readsAs_blanks (n : Nat) {line : String} {ws : List String}
    (text : line = " ".intercalate ws) (nonempty : ws ≠ []) (each : ∀ w ∈ ws, IsWord w) :
    ReadsAs (String.ofList (List.replicate n ' ') ++ line) ws := by
  subst text
  constructor
  · rw [String.toList_append, String.toList_ofList, words_replicate_append,
      words_intercalate nonempty each]
  · rw [String.toList_append, String.toList_ofList, List.mem_append, not_or]
    exact ⟨by simp, newline_not_mem_intercalate each⟩

theorem phrases_join {lines : List String} {wss : List (List String)}
    (each : List.Forall₂ ReadsAs lines wss) :
    phrases (String.join (lines.map (· ++ "\n"))) = wss ++ [[]] := by
  rw [phrases, String.toList_join]
  induction each with
  | nil => rfl
  | @cons l ws lines wss first others ih =>
    have ends : (l ++ "\n").toList = l.toList ++ ['\n'] := String.toList_append
    rw [List.map_cons, List.flatMap_cons, ends, List.append_assoc, List.singleton_append,
      List.splitOn_append_cons_self_of_not_mem first.unbroken, List.map_cons, ih, first.words_eq]
    rfl

/-! ### Numbers -/

theorem toList_repr (n : Nat) : n.repr.toList = Nat.toDigits 10 n := by
  rw [Nat.repr_eq_ofList_toDigits, String.toList_ofList]

theorem isDigit_of_mem_repr {n : Nat} {c : Char} (mem : c ∈ n.repr.toList) : c.isDigit = true := by
  rw [toList_repr] at mem
  exact Nat.isDigit_of_mem_toDigits (by decide) (by decide) mem

theorem isWord_number (n : Nat) : IsWord n.repr := by
  refine ⟨Nat.repr_ne_empty, ?_⟩
  intro c mem
  have digit := isDigit_of_mem_repr mem
  constructor
  · rintro rfl
    cases digit
  · rintro rfl
    cases digit

/-- The digits are read back. -/
@[simp]
theorem number_inj {n m : Nat} : n.repr = m.repr ↔ n = m := by
  refine ⟨fun same => ?_, congrArg Nat.repr⟩
  have digits := congrArg String.toList same
  rw [toList_repr, toList_repr] at digits
  rw [← Nat.ofDigitChars_ten_toDigits (n := n), digits, Nat.ofDigitChars_ten_toDigits]

theorem isWord_integer (i : Int) : IsWord i.repr := by
  have minus : IsWord "-" := by simp [IsWord]
  rw [Int.repr_eq_if]
  split
  · exact isWord_number i.toNat
  · exact minus.append (isWord_number (-i).toNat)

theorem repr_of_nonneg {i : Int} (nonneg : 0 ≤ i) : i.repr = i.toNat.repr := by
  rw [Int.repr_eq_if, if_pos nonneg]

theorem toList_repr_of_neg {i : Int} (negative : i < 0) :
    i.repr.toList = '-' :: (-i).toNat.repr.toList := by
  rw [Int.repr_eq_if, if_neg (by omega), String.toList_append]
  rfl

theorem repr_ne_of_neg {i : Int} (negative : i < 0) (n : Nat) : n.repr ≠ i.repr := by
  intro same
  have minus : '-' ∈ n.repr.toList := by
    rw [same, toList_repr_of_neg negative]
    exact .head _
  cases isDigit_of_mem_repr minus

/-- Only a negative integer starts with a sign. -/
@[simp]
theorem integer_inj {i j : Int} : i.repr = j.repr ↔ i = j := by
  refine ⟨fun same => ?_, congrArg Int.repr⟩
  by_cases hi : 0 ≤ i
  · rw [repr_of_nonneg hi] at same
    by_cases hj : 0 ≤ j
    · rw [repr_of_nonneg hj, number_inj] at same
      omega
    · exact absurd same (repr_ne_of_neg (by omega) _)
  · by_cases hj : 0 ≤ j
    · rw [repr_of_nonneg hj] at same
      exact absurd same.symm (repr_ne_of_neg (by omega) _)
    · have texts := congrArg String.toList same
      rw [toList_repr_of_neg (by omega), toList_repr_of_neg (by omega), List.cons_inj_right,
        String.toList_inj, number_inj] at texts
      omega

namespace Op

theorem isWord_cell (o : Int32) : IsWord (cell o) := by
  have brackets : IsWord "[p" ∧ IsWord "[p+" ∧ IsWord "]" := by simp [IsWord]
  have number := isWord_integer o.toInt
  unfold cell
  split
  · exact (brackets.1.append number).append brackets.2.2
  · exact (brackets.2.1.append number).append brackets.2.2

/-- The sign of an offset is always written, so it is not taken for another one. -/
theorem cell_inj {a b : Int32} : cell a = cell b ↔ a = b := by
  refine ⟨fun same => Int32.toInt.inj ?_, congrArg cell⟩
  have texts := congrArg String.toList same
  unfold cell at texts
  split at texts
  · rename_i negative
    split at texts
    · simpa [toString, String.toList_inj] using texts
    · simp [toString, toList_repr_of_neg negative] at texts
  · split at texts
    · rename_i negative
      simp [toString, toList_repr_of_neg negative] at texts
    · simpa [toString, String.toList_inj] using texts

/-- The words of the line in which an operation stands. -/
def words : Op → List String
  | right count => ["right", count.toNat.repr]
  | left count => ["left", count.toNat.repr]
  | add amount o => ["add", cell o, amount.toNat.repr]
  | sub amount o => ["sub", cell o, amount.toNat.repr]
  | mul dest factor source => ["mul", cell dest, cell source, "*", factor.toInt.repr]
  | clear o => ["clear", cell o]
  | output o => ["output", cell o]
  | input o => ["input", cell o]

theorem render_eq_intercalate (o : Op) : o.render = " ".intercalate o.words := by
  apply String.toList_inj.mp
  cases o <;> simp [render, words, toString]

theorem isWord_of_mem_words (o : Op) : ∀ w ∈ o.words, IsWord w := by
  have names : IsWord "right" ∧ IsWord "left" ∧ IsWord "add" ∧ IsWord "sub" ∧ IsWord "mul" ∧
      IsWord "*" ∧ IsWord "clear" ∧ IsWord "output" ∧ IsWord "input" := by
    simp [IsWord]
  cases o <;> simp [words, names, isWord_number, isWord_integer, isWord_cell]

theorem two_le_length_words (o : Op) : 2 ≤ o.words.length := by
  cases o <;> simp [words]

theorem words_ne_loop (o : Op) : o.words ≠ ["loop", "\x7b"] := by
  cases o <;> simp [words]

theorem words_inj {o o' : Op} (same : o.words = o'.words) : o = o' := by
  cases o <;> cases o' <;>
    simp [words, cell_inj, UInt32.toNat_inj, Int32.toInt_inj] at same <;> simp [same]

end Op

/-! ### Programs -/

namespace Program

/-- The words of the lines of a listing. -/
def wording : Program → List (List String)
  | nil => []
  | op o next => o.words :: next.wording
  | loop body next => ["loop", "\x7b"] :: (body.wording ++ ["\x7d"] :: next.wording)

theorem lines_readsAs (level : Nat) (p : Program) :
    List.Forall₂ ReadsAs (p.lines level) p.wording := by
  induction p generalizing level with
  | nil => exact .nil
  | op o next ih =>
    have two := o.two_le_length_words
    have nonempty : o.words ≠ [] := List.ne_nil_of_length_pos (by omega)
    exact .cons (readsAs_blanks _ o.render_eq_intercalate nonempty o.isWord_of_mem_words) (ih level)
  | loop body next ihBody ihNext =>
    have opening : ReadsAs (indent level ++ "loop \x7b") ["loop", "\x7b"] :=
      readsAs_blanks _ (by decide) (by simp) (by simp [IsWord])
    have closing : ReadsAs (indent level ++ "\x7d") ["\x7d"] :=
      readsAs_blanks _ (by decide) (by simp) (by simp [IsWord])
    exact .cons opening (List.rel_append (ihBody (level + 1)) (.cons closing (ihNext level)))

theorem phrases_listing (p : Program) : phrases p.listing = p.wording ++ [[]] :=
  phrases_join (lines_readsAs 0 p)

/-- A block ends here: what follows does not start with an instruction, whose line would have two
words at least. -/
def Ended (rest : List (List String)) : Prop :=
  ∀ ws ∈ rest.head?, ws.length < 2

theorem eq_nil_of_ended {p : Program} {rest : List (List String)}
    (ended : Ended (p.wording ++ rest)) : p = nil := by
  cases p with
  | nil => rfl
  | op o next =>
    have short : o.words.length < 2 := ended o.words rfl
    have long := o.two_le_length_words
    omega
  | loop body next => exact absurd (ended ["loop", "\x7b"] rfl) (by decide)

theorem ended_close (rest : List (List String)) : Ended (["\x7d"] :: rest) := by
  rintro ws ⟨⟩
  decide

/-- Where blocks with the same words end, they are the same. -/
theorem wording_append_inj {p q : Program} {r r' : List (List String)} (ended : Ended r)
    (ended' : Ended r') (same : p.wording ++ r = q.wording ++ r') : p = q ∧ r = r' := by
  induction p generalizing q r r' with
  | nil =>
    rw [wording, List.nil_append] at same
    subst same
    obtain rfl := eq_nil_of_ended ended
    exact ⟨rfl, rfl⟩
  | op o next ih =>
    cases q with
    | nil => cases eq_nil_of_ended (same ▸ ended' : Ended ((op o next).wording ++ r))
    | op o' next' =>
      obtain ⟨first, others⟩ := List.cons.inj same
      obtain rfl := Op.words_inj first
      obtain ⟨rfl, rfl⟩ := ih ended ended' others
      exact ⟨rfl, rfl⟩
    | loop body next' => exact absurd (List.cons.inj same).1 o.words_ne_loop
  | loop body next ihBody ihNext =>
    cases q with
    | nil => cases eq_nil_of_ended (same ▸ ended' : Ended ((loop body next).wording ++ r))
    | op o next' => exact absurd (List.cons.inj same).1.symm o.words_ne_loop
    | loop body' next' =>
      simp only [wording, List.cons_append, List.append_assoc] at same
      have inner := (List.cons.inj same).2
      -- The bodies end at their braces, and what is behind the braces is compared next.
      obtain ⟨rfl, outer⟩ := ihBody (ended_close _) (ended_close _) inner
      obtain ⟨rfl, rfl⟩ := ihNext ended ended' (List.cons.inj outer).2
      exact ⟨rfl, rfl⟩

/-- Two programs with the same listing are the same program. -/
theorem listing_unambiguous (p q : Program) : p.listing = q.listing ↔ p = q := by
  refine ⟨?_, congrArg listing⟩
  intro same
  have read := congrArg phrases same
  rw [phrases_listing, phrases_listing] at read
  have ended : Ended [[]] := by simp [Ended]
  exact (wording_append_inj ended ended read).1

end Program
end TapeCompiler
