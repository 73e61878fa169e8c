import TapeCompiler.Proofs.Source.Brackets
import TapeCompiler.Proofs.Source.Scanning

/-!
Which texts are refused, and with which error, said of the text alone. A text is read from left to
right, and the first bracket that cannot be read there is reported whatever follows; if there is
none, the last bracket that is left open. `Opened` is what the stack of open loops knows of the text
behind it, `Scanned` what a reading without a fault knows, step by step, and `parseFrom_verdict` what
follows for the whole text.
-/

namespace TapeCompiler

/-- The bracket at `i` cannot be read: 512 loops are open already, or none is. -/
inductive Misplaced (cs : List Char) (i : Nat) : Prop where
  | deep (here : cs[i]? = some '[') (full : level (cs.take i) = 512)
  | stray (here : cs[i]? = some ']') (empty : level (cs.take i) = 0)

/-- The bracket at `i` is never closed. -/
def LeftOpen (cs : List Char) (i : Nat) : Prop :=
  cs[i]? = some '[' ∧ ∀ j, ¬ Matching cs i j

/-- The error that a text calls for. -/
inductive Refused (cs : List Char) : BracketError → Prop where
  | tooDeep {i : Nat} (first : ∀ j < i, ¬ Misplaced cs j) (here : cs[i]? = some '[')
      (full : level (cs.take i) = 512) : Refused cs (.tooDeep (.behind (cs.take i)) 512)
  | unopened {i : Nat} (first : ∀ j < i, ¬ Misplaced cs j) (here : cs[i]? = some ']')
      (empty : level (cs.take i) = 0) : Refused cs (.unopened (.behind (cs.take i)))
  | unclosed {i : Nat} (placed : ∀ j, ¬ Misplaced cs j) (unfinished : 0 < level cs)
      (here : LeftOpen cs i) (last : ∀ j, LeftOpen cs j → j ≤ i) :
      Refused cs (.unclosed (.behind (cs.take i)))

/-- The open loops behind a text: each was opened at its place, and the rest is balanced. -/
inductive Opened : List Char → List OpenLoop → Prop where
  | none {inner : List Char} (balanced : Balanced inner) : Opened inner []
  | loop {outer inner : List Char} {frames : List OpenLoop} {before : List Node}
      (enclosing : Opened outer frames) (balanced : Balanced inner) :
      Opened (outer ++ '[' :: inner) (⟨.behind outer, before⟩ :: frames)

variable {cs before rest : List Char} {c : Char} {i : Nat} {frames : List OpenLoop}
  {current : List Node}

namespace Misplaced

theorem lt_length (h : Misplaced cs i) : i < cs.length := by
  cases h with
  | deep here | stray here => exact (List.getElem?_eq_some_iff.mp here).1

theorem behind_iff : Misplaced (before ++ c :: rest) before.length ↔
    (c = '[' ∧ level before = 512) ∨ (c = ']' ∧ level before = 0) := by
  have here : (before ++ c :: rest)[before.length]? = some c := by simp
  have read : (before ++ c :: rest).take before.length = before := List.take_left
  constructor
  · intro h
    cases h with
    | deep opens full =>
      rw [here] at opens
      rw [read] at full
      exact .inl ⟨Option.some.inj opens, full⟩
    | stray closes empty =>
      rw [here] at closes
      rw [read] at empty
      exact .inr ⟨Option.some.inj closes, empty⟩
  · rintro (⟨rfl, full⟩ | ⟨rfl, empty⟩)
    · exact .deep here (by rwa [read])
    · exact .stray here (by rwa [read])

/-- Two first misplaced brackets are one. -/
theorem first_unique {j : Nat} (hi : Misplaced cs i) (firstI : ∀ k < i, ¬ Misplaced cs k)
    (hj : Misplaced cs j) (firstJ : ∀ k < j, ¬ Misplaced cs k) : i = j := by
  by_cases less : i < j
  · exact absurd hi (firstJ i less)
  · by_cases more : j < i
    · exact absurd hj (firstI j more)
    · omega

end Misplaced

namespace Refused

/-- A text calls for one error only. -/
theorem unique {e e' : BracketError} (h : Refused cs e) (h' : Refused cs e') : e = e' := by
  cases h with
  | tooDeep first here full =>
    have misplaced := Misplaced.deep here full
    cases h' with
    | tooDeep first' here' full' =>
      rw [misplaced.first_unique first (.deep here' full') first']
    | unopened first' here' empty' =>
      obtain rfl := misplaced.first_unique first (.stray here' empty') first'
      rw [here] at here'
      cases here'
    | unclosed placed => exact absurd misplaced (placed _)
  | unopened first here empty =>
    have misplaced := Misplaced.stray here empty
    cases h' with
    | tooDeep first' here' full' =>
      obtain rfl := misplaced.first_unique first (.deep here' full') first'
      rw [here] at here'
      cases here'
    | unopened first' here' empty' =>
      rw [misplaced.first_unique first (.stray here' empty') first']
    | unclosed placed => exact absurd misplaced (placed _)
  | unclosed placed unfinished here last =>
    cases h' with
    | tooDeep _ here' full' => exact absurd (.deep here' full') (placed _)
    | unopened _ here' empty' => exact absurd (.stray here' empty') (placed _)
    | unclosed _ _ here' last' => rw [Nat.le_antisymm (last' _ here) (last _ here')]

/-- A text without misplaced brackets is refused only if loops stay open. -/
theorem level_pos {e : BracketError} (h : Refused cs e) (placed : ∀ j, ¬ Misplaced cs j) :
    0 < level cs := by
  cases h with
  | tooDeep _ here full => exact absurd (.deep here full) (placed _)
  | unopened _ here empty => exact absurd (.stray here empty) (placed _)
  | unclosed _ unfinished => exact unfinished

end Refused

namespace Opened

theorem level_eq (h : Opened before frames) : level before = frames.length := by
  induction h with
  | none balanced => exact balanced.level_eq
  | @loop outer inner frames _ _ balanced ih =>
    have split : outer ++ '[' :: inner = (outer ++ ['[']) ++ inner := by simp
    rw [split, level_append, level_open, ih, balanced.level_eq, List.length_cons]
    omega

theorem enter (h : Opened before frames) :
    Opened (before ++ ['[']) (⟨.behind before, current⟩ :: frames) :=
  .loop h .nil

theorem extend {back : List Char} (h : Opened before frames) (balanced : Balanced back) :
    Opened (before ++ back) frames := by
  cases h with
  | none inner => exact .none (inner.append balanced)
  | loop enclosing inner =>
    rw [List.append_assoc, List.cons_append]
    exact .loop enclosing (inner.append balanced)

/-- With its bracket closed, a loop is balanced text inside the one around it. -/
theorem leave {o : OpenLoop} (h : Opened before (o :: frames)) : Opened (before ++ [']']) frames := by
  cases h with
  | @loop outer inner _ _ enclosing balanced =>
    have closed : (outer ++ '[' :: inner) ++ [']'] = outer ++ '[' :: (inner ++ ']' :: []) := by simp
    rw [closed]
    exact enclosing.extend (balanced.wrap .nil)

end Opened

namespace LeftOpen

variable {outer inner : List Char}

theorem of_balanced (balanced : Balanced inner) : LeftOpen (outer ++ '[' :: inner) outer.length := by
  refine ⟨by simp, ?_⟩
  rintro j ⟨outer', inside, after, split, closed, same, _⟩
  obtain ⟨rfl, rests⟩ := List.append_inj split same.symm
  obtain rfl := (List.cons.inj rests).2
  exact closed.not_append_close balanced

/-- Behind the bracket of the innermost open loop all others are closed. -/
theorem le_of_balanced (balanced : Balanced inner) (h : LeftOpen (outer ++ '[' :: inner) i) :
    i ≤ outer.length := by
  obtain ⟨here, never⟩ := h
  by_cases earlier : i ≤ outer.length
  · exact earlier
  · obtain ⟨k, rfl⟩ : ∃ k, i = outer.length + (k + 1) := ⟨i - outer.length - 1, by omega⟩
    rw [List.getElem?_append_right (by omega), Nat.add_sub_cancel_left,
      List.getElem?_cons_succ] at here
    obtain ⟨bound, value⟩ := List.getElem?_eq_some_iff.mp here
    have split : inner = inner.take k ++ '[' :: inner.drop (k + 1) := by
      rw [← value, List.getElem_cons_drop, List.take_append_drop]
    rw [split] at balanced
    obtain ⟨inside, after, rests, closed⟩ := balanced.exists_close
    refine absurd ⟨outer ++ '[' :: inner.take k, inside, after, ?_, closed, ?_, rfl⟩ (never _)
    · rw [← rests, List.append_assoc, List.cons_append, ← split]
    · simp
      omega

end LeftOpen

/-- Balanced text has no misplaced bracket exactly if it is nowhere deeper than the limit. -/
theorem Balanced.placed_iff_level_le (balanced : Balanced cs) :
    (∀ i, ¬ Misplaced cs i) ↔ ∀ i, level (cs.take i) ≤ 512 := by
  constructor
  · intro placed i
    induction i with
    | zero => simp
    | succ i ih =>
      rw [List.take_add_one]
      cases here : cs[i]? with
      | none => simpa using ih
      | some c =>
        rw [Option.toList_some]
        by_cases hopen : c = '['
        · subst hopen
          have room : level (cs.take i) ≠ 512 := fun full => placed i (.deep here full)
          rw [level_open]
          omega
        · by_cases hclose : c = ']'
          · subst hclose
            rw [level_close]
            omega
          · rwa [level_other hopen hclose]
  · intro shallow i misplaced
    have behind : cs.take (i + 1) = cs.take i ++ cs[i]?.toList := List.take_add_one
    cases misplaced with
    | deep here full =>
      have le := shallow (i + 1)
      rw [behind, here, Option.toList_some, level_open] at le
      omega
    | stray here empty =>
      have le := balanced.level_take (i + 1)
      rw [behind, here, Option.toList_some, level_close] at le
      omega

/-! ### Reading -/

/-- What is known when `before` was read without a fault, `rest` is to come and `frames` are open. -/
structure Scanned (before rest : List Char) (frames : List OpenLoop) : Prop where
  opened : Opened before frames
  room : frames.length ≤ nestingLimit
  placed : ∀ i < before.length, ¬ Misplaced (before ++ rest) i

namespace Scanned

theorem start (cs : List Char) : Scanned [] cs [] where
  opened := .none .nil
  room := Nat.zero_le _
  placed i bound := absurd bound (Nat.not_lt_zero i)

/-- Reading goes on behind a character that is not misplaced. -/
theorem next {frames' : List OpenLoop} (h : Scanned before (c :: rest) frames)
    (fits : ¬ Misplaced (before ++ c :: rest) before.length) (opened : Opened (before ++ [c]) frames')
    (room : frames'.length ≤ nestingLimit) : Scanned (before ++ [c]) rest frames' := by
  refine ⟨opened, room, ?_⟩
  intro i bound
  have regrouped : (before ++ [c]) ++ rest = before ++ c :: rest := by simp
  rw [regrouped]
  by_cases last : i = before.length
  · rwa [last]
  · rw [List.length_append, List.length_singleton] at bound
    exact h.placed i (by omega)

theorem enter (h : Scanned before ('[' :: rest) frames) (free : frames.length ≠ nestingLimit) :
    Scanned (before ++ ['[']) rest (⟨.behind before, current⟩ :: frames) := by
  have room := h.room
  refine h.next ?_ h.opened.enter (by rw [List.length_cons]; omega)
  rw [Misplaced.behind_iff]
  rintro (⟨_, full⟩ | ⟨other, _⟩)
  · rw [h.opened.level_eq] at full
    exact free (Int.ofNat.inj full)
  · cases other

theorem leave {o : OpenLoop} (h : Scanned before (']' :: rest) (o :: frames)) :
    Scanned (before ++ [']']) rest frames := by
  have room := h.room
  rw [List.length_cons] at room
  refine h.next ?_ h.opened.leave (by omega)
  rw [Misplaced.behind_iff]
  rintro (⟨other, _⟩ | ⟨_, empty⟩)
  · cases other
  · rw [h.opened.level_eq, List.length_cons] at empty
    omega

theorem skip (h : Scanned before (c :: rest) frames) (hopen : c ≠ '[') (hclose : c ≠ ']') :
    Scanned (before ++ [c]) rest frames := by
  refine h.next ?_ (h.opened.extend (Balanced.nil.cons hopen hclose)) h.room
  rw [Misplaced.behind_iff]
  rintro (⟨same, _⟩ | ⟨same, _⟩)
  · exact hopen same
  · exact hclose same

theorem tooDeep (h : Scanned before ('[' :: rest) frames) (full : frames.length = nestingLimit) :
    Refused (before ++ '[' :: rest) (.tooDeep (.behind before) nestingLimit) := by
  have read : (before ++ '[' :: rest).take before.length = before := List.take_left
  have deep : level ((before ++ '[' :: rest).take before.length) = 512 := by
    rw [read, h.opened.level_eq, full]
    rfl
  have refused := Refused.tooDeep h.placed (by simp) deep
  rwa [read] at refused

theorem unopened (h : Scanned before (']' :: rest) []) :
    Refused (before ++ ']' :: rest) (.unopened (.behind before)) := by
  have read : (before ++ ']' :: rest).take before.length = before := List.take_left
  have empty : level ((before ++ ']' :: rest).take before.length) = 0 := by
    rw [read, h.opened.level_eq]
    rfl
  have refused := Refused.unopened h.placed (by simp) empty
  rwa [read] at refused

theorem all_placed (h : Scanned before [] frames) : ∀ i, ¬ Misplaced before i := by
  intro i misplaced
  have placed := h.placed i misplaced.lt_length
  rw [List.append_nil] at placed
  exact placed misplaced

theorem unclosed {o : OpenLoop} (h : Scanned before [] (o :: frames)) :
    Refused before (.unclosed o.place) := by
  have unfinished : 0 < level before := by
    rw [h.opened.level_eq, List.length_cons]
    omega
  have placed := h.all_placed
  cases h.opened with
  | loop enclosing balanced =>
    have refused := Refused.unclosed placed unfinished (LeftOpen.of_balanced balanced)
      (fun _ => LeftOpen.le_of_balanced balanced)
    rwa [List.take_left] at refused

theorem balanced (h : Scanned before [] []) : Balanced before := by
  cases h.opened with
  | none balanced => exact balanced

end Scanned

namespace Tree

/-- What the text says of the outcome of reading it. -/
def Verdict (cs : List Char) : Except BracketError Tree → Prop
  | .error e => Refused cs e
  | .ok _ => Balanced cs ∧ ∀ i, ¬ Misplaced cs i

theorem parseFrom_verdict (h : Scanned before rest frames) :
    Verdict (before ++ rest) (parseFrom rest (.behind before) frames current) := by
  induction rest generalizing before frames current with
  | nil =>
    rw [List.append_nil]
    cases frames with
    | nil => exact ⟨h.balanced, h.all_placed⟩
    | cons o frames => exact h.unclosed
  | cons c rest ih =>
    have regrouped : before ++ c :: rest = (before ++ [c]) ++ rest := by simp
    by_cases hopen : c = '['
    · subst hopen
      by_cases full : frames.length = nestingLimit
      · rw [parseFrom_open_full full]
        exact h.tooDeep full
      · rw [parseFrom_open_room full, ← Position.behind_concat, regrouped]
        exact ih (h.enter full)
    · by_cases hclose : c = ']'
      · subst hclose
        cases frames with
        | nil =>
          rw [parseFrom_close_stray]
          exact h.unopened
        | cons o frames =>
          rw [parseFrom_close o, ← Position.behind_concat, regrouped]
          exact ih h.leave
      · cases known : Command.ofChar? c with
        | none =>
          rw [parseFrom_comment hopen hclose known, ← Position.behind_concat, regrouped]
          exact ih (h.skip hopen hclose)
        | some symbol =>
          obtain rfl := Command.ofChar?_eq_some_iff.mp known
          rw [parseFrom_command symbol, ← Position.behind_concat, regrouped]
          exact ih (h.skip hopen hclose)

theorem parse_verdict (source : String) : Verdict source.toList (parse source) :=
  parseFrom_verdict (.start source.toList)

theorem placed_of_parse {source : String} {t : Tree} (h : parse source = .ok t) :
    Balanced source.toList ∧ ∀ i, ¬ Misplaced source.toList i := by
  have verdict := parse_verdict source
  rwa [h] at verdict

theorem parse_of_placed {source : String} (placed : ∀ i, ¬ Misplaced source.toList i)
    (finished : level source.toList ≤ 0) : ∃ t, parse source = .ok t := by
  have verdict := parse_verdict source
  cases outcome : parse source with
  | error e =>
    rw [outcome] at verdict
    have unfinished := Refused.level_pos verdict placed
    omega
  | ok t => exact ⟨t, rfl⟩

theorem parse_error_iff (source : String) (e : BracketError) :
    parse source = .error e ↔ Refused source.toList e := by
  have verdict := parse_verdict source
  constructor
  · intro failed
    rwa [failed] at verdict
  · intro refused
    cases outcome : parse source with
    | error e' =>
      rw [outcome] at verdict
      rw [refused.unique verdict]
    | ok t =>
      obtain ⟨balanced, placed⟩ := placed_of_parse outcome
      have unfinished := refused.level_pos placed
      rw [balanced.level_eq] at unfinished
      omega

/-- Reading fails exactly with the error that the text calls for. It succeeds exactly if no bracket is
misplaced and no loop stays open, that is, on the balanced texts of depth at most 512. -/
theorem parse_outcome (source : String) :
    (∀ e, parse source = .error e ↔ Refused source.toList e) ∧
    ((∃ t, parse source = .ok t) ↔
      (∀ i, ¬ Misplaced source.toList i) ∧ level source.toList ≤ 0) ∧
    ((∃ t, parse source = .ok t) ↔
      Balanced source.toList ∧ ∀ i, level (source.toList.take i) ≤ 512) := by
  refine ⟨parse_error_iff source, ⟨?_, ?_⟩, ⟨?_, ?_⟩⟩
  · rintro ⟨t, read⟩
    obtain ⟨balanced, placed⟩ := placed_of_parse read
    exact ⟨placed, Int.le_of_eq balanced.level_eq⟩
  · rintro ⟨placed, finished⟩
    exact parse_of_placed placed finished
  · rintro ⟨t, read⟩
    obtain ⟨balanced, placed⟩ := placed_of_parse read
    exact ⟨balanced, balanced.placed_iff_level_le.mp placed⟩
  · rintro ⟨balanced, shallow⟩
    have placed := balanced.placed_iff_level_le.mpr shallow
    exact parse_of_placed placed (Int.le_of_eq balanced.level_eq)

end Tree
end TapeCompiler
