import TapeCompiler.Proofs.Machine.Tape
import TapeCompiler.Proofs.Source.Spelling

/-!
The machine that runs a source text as it stands: a counter walks over the characters, a bracket
sends it to the one that matches, and the machine halts behind the last character. The program of
the tree that a text spells ends exactly when this machine halts, in the same state.
-/

namespace TapeCompiler

/-- What a command does, one cell or one unit at a time. -/
def Command.act (eof : EofPolicy) : Command → State → State
  | right, s => { s with pointer := (s.pointer + 1) % s.tape.size }
  | left, s => { s with pointer := (s.pointer + s.tape.size - 1) % s.tape.size }
  | increment, s => s.write s.pointer (s.current + 1)
  | decrement, s => s.write s.pointer (s.current - 1)
  | output, s => { s with output := s.output.push s.current }
  | input, s => s.receive eof s.pointer

namespace TextMachine

structure Config where
  counter : Nat
  state : State

/-- One move over the text `cs`. -/
inductive Step (eof : EofPolicy) (cs : List Char) : Config → Config → Prop where
  | command {i : Nat} {s : State} {c : Char} {symbol : Command} (here : cs[i]? = some c)
      (read : Command.ofChar? c = some symbol) : Step eof cs ⟨i, s⟩ ⟨i + 1, symbol.act eof s⟩
  | comment {i : Nat} {s : State} {c : Char} (here : cs[i]? = some c) (hopen : c ≠ '[')
      (hclose : c ≠ ']') (skipped : Command.ofChar? c = none) : Step eof cs ⟨i, s⟩ ⟨i + 1, s⟩
  | enter {i : Nat} {s : State} (here : cs[i]? = some '[') (nonzero : s.current ≠ 0) :
      Step eof cs ⟨i, s⟩ ⟨i + 1, s⟩
  | skip {i j : Nat} {s : State} (closed : Matching cs i j) (zero : s.current = 0) :
      Step eof cs ⟨i, s⟩ ⟨j + 1, s⟩
  | leave {j : Nat} {s : State} (here : cs[j]? = some ']') (zero : s.current = 0) :
      Step eof cs ⟨j, s⟩ ⟨j + 1, s⟩
  | again {i j : Nat} {s : State} (opened : Matching cs i j) (nonzero : s.current ≠ 0) :
      Step eof cs ⟨j, s⟩ ⟨i, s⟩

/-- So many moves one after another. -/
inductive Walk (eof : EofPolicy) (cs : List Char) : Nat → Config → Config → Prop where
  | nil (a : Config) : Walk eof cs 0 a a
  | cons {a b c : Config} {n : Nat} (first : Step eof cs a b) (others : Walk eof cs n b c) :
      Walk eof cs (n + 1) a c

/-- The machine started on the text in `s` halts in `t`. -/
def Halts (eof : EofPolicy) (cs : List Char) (s t : State) : Prop :=
  ∃ n, Walk eof cs n ⟨0, s⟩ ⟨cs.length, t⟩

variable {eof : EofPolicy} {cs : List Char} {a b c : Config} {n m : Nat} {s t : State}

theorem Step.deterministic (h : Step eof cs a b) (h' : Step eof cs a c) : b = c := by
  have opening : Command.ofChar? '[' = none := rfl
  have closing : Command.ofChar? ']' = none := rfl
  -- Two moves of different kinds read different characters or find different cells.
  cases h <;> cases h' <;>
    grind [Matching.get_open, Matching.get_close, Matching.close_unique, Matching.open_unique]

/-- Behind the last character there is no move. -/
theorem not_step_end : ¬ Step eof cs ⟨cs.length, t⟩ b := by
  intro h
  have past : cs[cs.length]? = none := List.getElem?_eq_none (Nat.le_refl _)
  cases h <;> grind [Matching.get_open, Matching.get_close]

theorem Walk.append (h : Walk eof cs n a b) (h' : Walk eof cs m b c) : Walk eof cs (n + m) a c := by
  induction h with
  | nil => simpa using h'
  | cons first _ ih =>
    rw [Nat.add_right_comm]
    exact .cons first (ih h')

theorem Step.back (h : Step eof cs a b) (halts : Walk eof cs m a ⟨cs.length, t⟩) :
    0 < m ∧ Walk eof cs (m - 1) b ⟨cs.length, t⟩ := by
  cases halts with
  | nil => exact absurd h not_step_end
  | cons first others =>
    obtain rfl := h.deterministic first
    exact ⟨Nat.succ_pos _, others⟩

/-- A walk to the end goes along every other walk from its start. -/
theorem Walk.back (h : Walk eof cs n a b) (halts : Walk eof cs m a ⟨cs.length, t⟩) :
    n ≤ m ∧ Walk eof cs (m - n) b ⟨cs.length, t⟩ := by
  induction h generalizing m with
  | nil => exact ⟨Nat.zero_le m, halts⟩
  | @cons _ _ _ k first _ ih =>
    obtain ⟨positive, later⟩ := first.back halts
    obtain ⟨le, rest⟩ := ih later
    refine ⟨by omega, ?_⟩
    rw [show m - (k + 1) = m - 1 - k by omega]
    exact rest

theorem Halts.deterministic {u : State} (h : Halts eof cs s t) (h' : Halts eof cs s u) : t = u := by
  obtain ⟨n, walk⟩ := h
  obtain ⟨m, walk'⟩ := h'
  obtain ⟨_, rest⟩ := walk.back walk'
  generalize m - n = left at rest
  cases rest with
  | nil => rfl
  | cons first _ => exact absurd first not_step_end

/-! ### Parts of the text -/

/-- The text has the part `part` at the place `i`. -/
def Segment (cs : List Char) (i : Nat) (part : List Char) : Prop :=
  ∃ before after, cs = before ++ (part ++ after) ∧ before.length = i

namespace Segment

variable {i : Nat} {c : Char} {part front back inside : List Char}

theorem whole (cs : List Char) : Segment cs 0 cs :=
  ⟨[], [], by simp, rfl⟩

theorem head (h : Segment cs i (c :: part)) : cs[i]? = some c := by
  obtain ⟨before, after, rfl, rfl⟩ := h
  simp

theorem drop (h : Segment cs i (front ++ back)) : Segment cs (i + front.length) back := by
  obtain ⟨before, after, rfl, rfl⟩ := h
  exact ⟨before ++ front, after, by simp, by simp⟩

theorem tail (h : Segment cs i (c :: part)) : Segment cs (i + 1) part :=
  (show Segment cs i ([c] ++ part) from h).drop

theorem take (h : Segment cs i (front ++ back)) : Segment cs i front := by
  obtain ⟨before, after, rfl, rfl⟩ := h
  exact ⟨before, back ++ after, by simp, rfl⟩

theorem matching (h : Segment cs i ('[' :: (inside ++ ']' :: part))) (balanced : Balanced inside) :
    Matching cs i (i + 1 + inside.length) := by
  obtain ⟨before, after, rfl, rfl⟩ := h
  exact ⟨before, inside, part ++ after, by simp, balanced, rfl, rfl⟩

end Segment

/-! ### The two machines -/

theorem act_eq_apply {size : Nat} (hs : s.OnTape size) (eof : EofPolicy) (symbol : Command) :
    symbol.act eof s = (Program.ofTree.ofCommand symbol).apply eof s := by
  have here : s.address 0 = s.pointer := State.cell_zero hs
  cases symbol with
  | right =>
    show _ = s.right 1
    rw [State.right, Nat.add_mod_mod, Command.act]
  | left =>
    show _ = s.left 1
    have pointer_lt := hs.pointer_lt
    rw [← hs.size_eq] at pointer_lt
    by_cases single : s.tape.size = 1
    · simp [State.left, Command.act, single, Nat.mod_one]
    · rw [State.left, Nat.mod_eq_of_lt (show 1 < s.tape.size by omega), Command.act]
  | increment => simp [Command.act, Program.ofTree.ofCommand, Op.apply, here, State.current]
  | decrement => simp [Command.act, Program.ofTree.ofCommand, Op.apply, here, State.current]
  | output => simp [Command.act, Program.ofTree.ofCommand, Op.apply, here, State.current]
  | input => simp [Command.act, Program.ofTree.ofCommand, Op.apply, here]

/-- The walk through a loop, given the walks through its body. -/
theorem walk_loop {size i j : Nat} {body next p : Program} (matching : Matching cs i j)
    (through : ∀ s t, s.OnTape size → body.Ends eof s t → ∃ k, Walk eof cs k ⟨i + 1, s⟩ ⟨j, t⟩)
    (h : p.Takes eof s n t) (hp : p = .loop body next) (hs : s.OnTape size) :
    ∃ k v, Walk eof cs k ⟨i, s⟩ ⟨j + 1, v⟩ ∧ v.OnTape size ∧ next.Ends eof v t := by
  induction h with
  | nil => contradiction
  | op => contradiction
  | leave zero rest =>
    obtain ⟨rfl, rfl⟩ := Program.loop.inj hp
    exact ⟨1, _, .cons (.skip matching zero) (.nil _), hs, rest.ends⟩
  | @again _ _ _ u _ _ _ nonzero inner rest _ ih =>
    obtain ⟨rfl, rfl⟩ := Program.loop.inj hp
    obtain ⟨m, once⟩ := through _ _ hs inner.ends
    have entered := Walk.cons (.enter matching.get_open nonzero) once
    by_cases zero : u.current = 0
    · exact ⟨_, u, entered.append (.cons (.leave matching.get_close zero) (.nil _)),
        inner.onTape hs, (Program.ends_loop_zero zero).mp rest.ends⟩
    · obtain ⟨k, v, others, hv, ends⟩ := ih rfl (inner.onTape hs)
      exact ⟨_, v, entered.append (.cons (.again matching zero) others), hv, ends⟩

/-- The machine follows a program that ends. -/
theorem walk_of_ends {size i : Nat} {part : List Char} {tree : Tree} (spells : tree.Spells part)
    (h : (Program.ofTree tree).Ends eof s t) (segment : Segment cs i part) (hs : s.OnTape size) :
    ∃ k, Walk eof cs k ⟨i, s⟩ ⟨i + part.length, t⟩ := by
  induction spells generalizing i s t with
  | nil =>
    obtain rfl := Program.ends_nil.mp h
    exact ⟨0, .nil _⟩
  | comment hopen hclose skipped _ ih =>
    obtain ⟨k, others⟩ := ih h segment.tail hs
    rw [Nat.add_right_comm] at others
    exact ⟨k + 1, .cons (.comment segment.head hopen hclose skipped) others⟩
  | @command c symbol _ _ _ read _ ih =>
    have acted := act_eq_apply hs eof symbol
    obtain ⟨k, others⟩ := ih (Program.ends_op.mp h) segment.tail (Op.apply_onTape hs eof _)
    rw [← acted, Nat.add_right_comm] at others
    exact ⟨k + 1, .cons (.command segment.head read) others⟩
  | @loop _ inside rest _ _ inner _ ihInner ihRest =>
    obtain ⟨n, taken⟩ := Program.ends_iff_takes.mp h
    obtain ⟨k, u, looped, hu, ends⟩ := walk_loop (segment.matching inner.balanced)
      (fun _ _ hs ends => ihInner ends segment.tail.take hs) taken rfl hs
    obtain ⟨m, others⟩ := ihRest ends segment.tail.drop.tail hu
    have length : i + ('[' :: (inside ++ ']' :: rest)).length =
        i + 1 + inside.length + 1 + rest.length := by
      simp only [List.length_cons, List.length_append]
      omega
    rw [length]
    exact ⟨k + m, looped.append others⟩

/-- A program ends if the machine halts from where its text begins. -/
theorem ends_of_walk {size i : Nat} {part : List Char} {tree : Tree} (spells : tree.Spells part)
    (segment : Segment cs i part) (hs : s.OnTape size)
    (halts : Walk eof cs n ⟨i, s⟩ ⟨cs.length, t⟩) :
    ∃ u, (Program.ofTree tree).Ends eof s u := by
  induction n using Nat.strongRecOn generalizing i part tree s with
  | ind n ih =>
    cases spells with
    | nil => exact ⟨s, Program.ends_nil.mpr rfl⟩
    | comment hopen hclose skipped rest =>
      obtain ⟨positive, later⟩ := Step.back (.comment segment.head hopen hclose skipped) halts
      exact ih _ (by omega) rest segment.tail hs later
    | @command _ symbol _ _ _ read rest =>
      obtain ⟨positive, later⟩ := Step.back (.command segment.head read) halts
      rw [act_eq_apply hs eof symbol] at later
      obtain ⟨u, ends⟩ := ih _ (by omega) rest segment.tail (Op.apply_onTape hs eof _) later
      exact ⟨u, Program.ends_op.mpr ends⟩
    | @loop place _ _ _ _ inner rest =>
      have whole : Tree.Spells _ (.loop place _ _) := .loop inner rest
      have matching := segment.matching inner.balanced
      by_cases zero : s.current = 0
      · obtain ⟨positive, later⟩ := Step.back (.skip matching zero) halts
        obtain ⟨u, ends⟩ := ih _ (by omega) rest segment.tail.drop.tail hs later
        exact ⟨u, (Program.ends_loop_zero zero).mpr ends⟩
      · obtain ⟨positive, inside⟩ := Step.back (.enter matching.get_open zero) halts
        obtain ⟨v, once⟩ := ih _ (by omega) inner segment.tail.take hs inside
        obtain ⟨k, around⟩ := walk_of_ends inner once segment.tail.take hs
        obtain ⟨_, closing⟩ := around.back inside
        have hv := once.onTape hs
        by_cases zero' : v.current = 0
        · obtain ⟨_, later⟩ := Step.back (.leave matching.get_close zero') closing
          obtain ⟨u, ends⟩ := ih _ (by omega) rest segment.tail.drop.tail hv later
          exact ⟨u, (Program.ends_loop_nonzero zero).mpr
            ⟨v, once, (Program.ends_loop_zero zero').mpr ends⟩⟩
        · obtain ⟨_, later⟩ := Step.back (.again matching zero') closing
          obtain ⟨u, ends⟩ := ih _ (by omega) whole segment hv later
          exact ⟨u, (Program.ends_loop_nonzero zero).mpr ⟨v, once, ends⟩⟩

theorem halts_of_ends {size : Nat} {tree : Tree} (spells : tree.Spells cs) (hs : s.OnTape size)
    (h : (Program.ofTree tree).Ends eof s t) : Halts eof cs s t := by
  obtain ⟨k, walk⟩ := walk_of_ends spells h (.whole cs) hs
  rw [Nat.zero_add] at walk
  exact ⟨k, walk⟩

/-- To read a text and run its program is to run the text. -/
theorem ofTree_agree_halts (source : String) (tree : Tree) (parsed : Tree.parse source = .ok tree)
    (size : UInt32) (hsize : 1 ≤ size.toNat) (eof : EofPolicy) (input : List UInt8) :
    Agree ((Program.ofTree tree).Ends eof (.initial size.toNat input))
      (Halts eof source.toList (.initial size.toNat input)) := by
  have spells := Tree.parse_spells parsed
  have hs := State.initial_onTape hsize input
  refine ⟨⟨?_, ?_⟩, ?_⟩
  · rintro ⟨t, ends⟩
    exact ⟨t, halts_of_ends spells hs ends⟩
  · rintro ⟨t, n, walk⟩
    exact ends_of_walk spells (.whole _) hs walk
  · intro t u ends halts
    exact (halts_of_ends spells hs ends).deterministic halts

/-- A loop inside a loop, with comments around them, on a tape of one cell. -/
theorem ofTree_agree_halts_nested :
    ∃ tree, Tree.parse "read ,[ . [-] > , ] end" = .ok tree ∧ 1 ≤ (1 : UInt32).toNat ∧
      Agree ((Program.ofTree tree).Ends .zero (.initial 1 [7, 3]))
        (Halts .zero "read ,[ . [-] > , ] end".toList (.initial 1 [7, 3])) :=
  ⟨_, rfl, by decide, ofTree_agree_halts _ _ rfl 1 (by decide) .zero [7, 3]⟩

end TextMachine
end TapeCompiler
