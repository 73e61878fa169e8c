import TapeCompiler.Source.Parser
import TapeCompiler.Proofs.Source.Brackets

/-!
Which texts spell a tree: the grammar of the source, without stacks and places. Reading a text
succeeds only with a tree that the text spells.
-/

namespace TapeCompiler.Tree

/-- The text spells the tree, with comments anywhere. -/
inductive Spells : List Char → Tree → Prop where
  | nil : Spells [] nil
  | comment {c : Char} {cs : List Char} {t : Tree} (hopen : c ≠ '[') (hclose : c ≠ ']')
      (skipped : Command.ofChar? c = none) (rest : Spells cs t) : Spells (c :: cs) t
  | command {c : Char} {symbol : Command} {place : Position} {cs : List Char} {t : Tree}
      (read : Command.ofChar? c = some symbol) (rest : Spells cs t) :
      Spells (c :: cs) (command symbol place t)
  | loop {place : Position} {inside cs : List Char} {body t : Tree} (inner : Spells inside body)
      (rest : Spells cs t) : Spells ('[' :: (inside ++ ']' :: cs)) (loop place body t)

theorem not_bracket_of_ofChar? {c : Char} {symbol : Command}
    (read : Command.ofChar? c = some symbol) : c ≠ '[' ∧ c ≠ ']' := by
  constructor
  · rintro rfl
    contradiction
  · rintro rfl
    contradiction

theorem Spells.balanced {cs : List Char} {t : Tree} (h : Spells cs t) : Balanced cs := by
  induction h with
  | nil => exact .nil
  | comment hopen hclose _ _ ih => exact ih.cons hopen hclose
  | command read _ ih =>
    obtain ⟨hopen, hclose⟩ := not_bracket_of_ofChar? read
    exact ih.cons hopen hclose
  | loop _ _ ihInner ihRest => exact ihInner.wrap ihRest

/-- Somewhere in the text as many brackets are open as the tree nests deep. -/
theorem Spells.exists_level_eq_depth {cs : List Char} {t : Tree} (h : Spells cs t) :
    ∃ front back, cs = front ++ back ∧ level front = t.depth := by
  induction h with
  | nil => exact ⟨[], [], rfl, rfl⟩
  | @comment c cs t hopen hclose _ _ ih =>
    obtain ⟨front, back, rfl, reached⟩ := ih
    exact ⟨c :: front, back, rfl, by rw [level_cons_other hopen hclose, reached]⟩
  | @command c symbol place cs t read _ ih =>
    obtain ⟨front, back, rfl, reached⟩ := ih
    obtain ⟨hopen, hclose⟩ := not_bracket_of_ofChar? read
    exact ⟨c :: front, back, rfl, by rw [level_cons_other hopen hclose, reached, depth]⟩
  | @loop place inside cs body t inner _ ihInner ihRest =>
    have opening (cs : List Char) : level ('[' :: cs) = 1 + level cs := level_append ['['] cs
    have closing (cs : List Char) : level (']' :: cs) = -1 + level cs := level_append [']'] cs
    rw [depth]
    -- The deeper of the two parts decides where to look.
    by_cases deeper : t.depth ≤ body.depth + 1
    · obtain ⟨front, back, rfl, reached⟩ := ihInner
      refine ⟨'[' :: front, back ++ ']' :: cs, by simp, ?_⟩
      rw [opening, reached]
      omega
    · obtain ⟨front, back, rfl, reached⟩ := ihRest
      refine ⟨'[' :: (inside ++ ']' :: front), back, by simp, ?_⟩
      rw [opening, level_append, closing, inner.balanced.level_eq, reached]
      omega

variable {cs : List Char} {p : Position} {frames : List OpenLoop} {current : List Node} {t : Tree}

/-- What the first character does to a reading that succeeds. -/
theorem parseFrom_cons {c : Char} (h : parseFrom (c :: cs) p frames current = .ok t) :
    (c = '[' ∧ parseFrom cs (p.advance c) (⟨p, current⟩ :: frames) [] = .ok t) ∨
    (c = ']' ∧ ∃ o outer, frames = o :: outer ∧ parseFrom cs (p.advance c) outer
      (.loop o.place (Node.assemble current .nil) :: o.before) = .ok t) ∨
    (c ≠ '[' ∧ c ≠ ']' ∧ Command.ofChar? c = none ∧
      parseFrom cs (p.advance c) frames current = .ok t) ∨
    ∃ symbol, Command.ofChar? c = some symbol ∧
      parseFrom cs (p.advance c) frames (.command symbol p :: current) = .ok t := by
  unfold parseFrom at h
  by_cases hopen : c = '['
  · by_cases deep : frames.length = nestingLimit
    · simp [hopen, deep] at h
    · simp only [if_pos hopen, if_neg deep] at h
      exact .inl ⟨hopen, h⟩
  · by_cases hclose : c = ']'
    · cases frames with
      | nil => simp [hclose] at h
      | cons o outer =>
        simp only [if_neg hopen, if_pos hclose] at h
        exact .inr (.inl ⟨hclose, o, outer, rfl, h⟩)
    · simp only [if_neg hopen, if_neg hclose] at h
      cases read : Command.ofChar? c with
      | none =>
        rw [read] at h
        exact .inr (.inr (.inl ⟨hopen, hclose, rfl, h⟩))
      | some symbol =>
        rw [read] at h
        exact .inr (.inr (.inr ⟨symbol, rfl, h⟩))

/-- Reading with an open loop comes to the bracket that closes it. -/
theorem parseFrom_open {n : Nat} (hn : cs.length ≤ n) {o : OpenLoop} {outer : List OpenLoop}
    (h : parseFrom cs p (o :: outer) current = .ok t) :
    ∃ inside rest body q, cs = inside ++ ']' :: rest ∧ Spells inside body ∧
      parseFrom rest q outer (.loop o.place (Node.assemble current body) :: o.before) = .ok t := by
  induction n generalizing cs p o outer current with
  | zero =>
    obtain rfl := List.eq_nil_of_length_eq_zero (Nat.le_zero.mp hn)
    contradiction
  | succ n ih =>
    cases cs with
    | nil => contradiction
    | cons c cs =>
      simp only [List.length_cons] at hn
      obtain ⟨rfl, deeper⟩ | ⟨rfl, o', outer', same, closed⟩ | ⟨hopen, hclose, skipped, on⟩ |
        ⟨symbol, read, on⟩ := parseFrom_cons h
      · -- The loop that starts here is closed first.
        obtain ⟨inner, cs, b, q, rfl, spells, on⟩ := ih (by omega) deeper
        simp only [List.length_append, List.length_cons] at hn
        obtain ⟨inside, rest, body, q, rfl, spells', on⟩ := ih (by omega) on
        exact ⟨_, rest, _, q, by simp, .loop spells spells', on⟩
      · obtain ⟨rfl, rfl⟩ := List.cons.inj same
        exact ⟨[], cs, .nil, _, rfl, .nil, closed⟩
      · obtain ⟨inside, rest, body, q, rfl, spells, on⟩ := ih (by omega) on
        exact ⟨c :: inside, rest, body, q, rfl, .comment hopen hclose skipped spells, on⟩
      · obtain ⟨inside, rest, body, q, rfl, spells, on⟩ := ih (by omega) on
        exact ⟨c :: inside, rest, _, q, rfl, .command read spells, on⟩

theorem parseFrom_spells {n : Nat} (hn : cs.length ≤ n) (h : parseFrom cs p [] current = .ok t) :
    ∃ rest, Spells cs rest ∧ t = Node.assemble current rest := by
  induction n generalizing cs p current with
  | zero =>
    obtain rfl := List.eq_nil_of_length_eq_zero (Nat.le_zero.mp hn)
    obtain rfl := Except.ok.inj h
    exact ⟨.nil, .nil, rfl⟩
  | succ n ih =>
    cases cs with
    | nil =>
      obtain rfl := Except.ok.inj h
      exact ⟨.nil, .nil, rfl⟩
    | cons c cs =>
      simp only [List.length_cons] at hn
      obtain ⟨rfl, deeper⟩ | ⟨_, o, outer, empty, _⟩ | ⟨hopen, hclose, skipped, on⟩ |
        ⟨symbol, read, on⟩ := parseFrom_cons h
      · obtain ⟨inside, cs, body, q, rfl, spells, on⟩ := parseFrom_open (Nat.le_refl _) deeper
        simp only [List.length_append, List.length_cons] at hn
        obtain ⟨rest, spells', rfl⟩ := ih (by omega) on
        exact ⟨_, .loop spells spells', rfl⟩
      · contradiction
      · obtain ⟨rest, spells, rfl⟩ := ih (by omega) on
        exact ⟨rest, .comment hopen hclose skipped spells, rfl⟩
      · obtain ⟨rest, spells, rfl⟩ := ih (by omega) on
        exact ⟨_, .command read spells, rfl⟩

theorem parse_spells {source : String} (h : parse source = .ok t) :
    Spells source.toList t := by
  obtain ⟨rest, spells, rfl⟩ := parseFrom_spells (Nat.le_refl _) h
  exact spells

end TapeCompiler.Tree
