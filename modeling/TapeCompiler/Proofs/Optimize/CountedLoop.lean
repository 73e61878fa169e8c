import TapeCompiler.Optimize.CountedLoop
import TapeCompiler.Proofs.Optimize.Equivalence
import TapeCompiler.Proofs.Word

/-!
Counted loops do what their replacement does.

`gained` adds a list of changes to a state, each to the cell at its distance, a number of times.
A body whose effect is known adds its changes once (`ends_effect?`). If it counts down, the loop
adds them as often as the counter says (`ends_counted`), and so do the multiplications of the
replacement (`applyAll_multiplications`), whatever cells the offsets share on a narrow tape.
-/

namespace TapeCompiler

namespace State

/-- What a list of changes adds to the cell `i`: several distances may lead to it. -/
def gain (s : State) : List (Int × Int) → Nat → Int
  | [], _ => 0
  | x :: rest, i => (if s.cell x.1 = i then x.2 else 0) + s.gain rest i

/-- The state after adding a list of changes `n` times. -/
def gained (s : State) (changes : List (Int × Int)) (n : Nat) : State :=
  { s with tape := .ofFn fun i : Fin s.tape.size =>
      s.read i + UInt8.ofInt (n * s.gain changes i) }

variable {size : Nat} {s : State}

@[simp]
theorem gain_nil (s : State) (i : Nat) : s.gain [] i = 0 := rfl

@[simp]
theorem gain_cons (s : State) (x : Int × Int) (rest : List (Int × Int)) (i : Nat) :
    s.gain (x :: rest) i = (if s.cell x.1 = i then x.2 else 0) + s.gain rest i := rfl

@[simp]
theorem gain_append (s : State) (a b : List (Int × Int)) (i : Nat) :
    s.gain (a ++ b) i = s.gain a i + s.gain b i := by
  induction a with
  | nil => simp
  | cons x a ih => rw [List.cons_append, gain_cons, gain_cons, ih, Int.add_assoc]

/-- Changes elsewhere add nothing. -/
theorem gain_eq_zero {changes : List (Int × Int)} {i : Nat} (h : ∀ x ∈ changes, s.cell x.1 ≠ i) :
    s.gain changes i = 0 := by
  induction changes with
  | nil => rfl
  | cons x rest ih =>
    rw [gain_cons, if_neg (h x List.mem_cons_self), Int.zero_add]
    exact ih fun y hy => h y (List.mem_cons_of_mem x hy)

@[simp]
theorem gained_size (s : State) (changes : List (Int × Int)) (n : Nat) :
    (s.gained changes n).tape.size = s.tape.size := Array.size_ofFn

@[simp]
theorem gained_cell (s : State) (changes : List (Int × Int)) (n : Nat) (d : Int) :
    (s.gained changes n).cell d = s.cell d := by
  simp only [cell, gained_size]
  rfl

@[simp]
theorem gain_gained (s : State) (a b : List (Int × Int)) (n i : Nat) :
    (s.gained a n).gain b i = s.gain b i := by
  induction b with
  | nil => rfl
  | cons x b ih => rw [gain_cons, gain_cons, gained_cell, ih]

theorem gained_onTape (hs : s.OnTape size) (changes : List (Int × Int)) (n : Nat) :
    (s.gained changes n).OnTape size :=
  ⟨(gained_size s changes n).trans hs.size_eq, hs.pointer_lt⟩

theorem read_gained (hs : s.OnTape size) {i : Nat} (hi : i < size) (changes : List (Int × Int))
    (n : Nat) :
    (s.gained changes n).read i = s.read i + UInt8.ofInt (n * s.gain changes i) := by
  have bound : i < s.tape.size := hs.size_eq ▸ hi
  simp only [gained, read, Array.getD_eq_getD_getElem?, Array.getElem?_ofFn, bound, dite_true,
    Option.getD_some]

/-- Only what each cell gains counts. -/
theorem gained_congr (hs : s.OnTape size) {a b : List (Int × Int)} {n m : Nat}
    (h : ∀ i, i < size → UInt8.ofInt (n * s.gain a i) = UInt8.ofInt (m * s.gain b i)) :
    s.gained a n = s.gained b m := by
  apply ext_read (gained_onTape hs a n) (gained_onTape hs b m) ?_ rfl rfl rfl
  intro i hi
  rw [read_gained hs hi, read_gained hs hi, h i hi]

theorem gained_zero (hs : s.OnTape size) (changes : List (Int × Int)) : s.gained changes 0 = s := by
  apply ext_read (gained_onTape hs changes 0) hs ?_ rfl rfl rfl
  intro i hi
  rw [read_gained hs hi, Int.natCast_zero, Int.zero_mul]
  exact UInt8.add_zero _

theorem gained_nil (hs : s.OnTape size) (n : Nat) : s.gained [] n = s := by
  apply ext_read (gained_onTape hs [] n) hs ?_ rfl rfl rfl
  intro i hi
  rw [read_gained hs hi, gain_nil, Int.mul_zero]
  exact UInt8.add_zero _

theorem gained_gained (hs : s.OnTape size) (changes : List (Int × Int)) (n m : Nat) :
    (s.gained changes n).gained changes m = s.gained changes (n + m) := by
  have onTape := gained_onTape hs changes n
  apply ext_read (gained_onTape onTape changes m) (gained_onTape hs changes _) ?_ rfl rfl rfl
  intro i hi
  rw [read_gained onTape hi, read_gained hs hi, read_gained hs hi, gain_gained, Int.natCast_add,
    Int.add_mul, UInt8.ofInt_add, UInt8.add_assoc]

theorem gained_append (hs : s.OnTape size) (a b : List (Int × Int)) (n : Nat) :
    (s.gained a n).gained b n = s.gained (a ++ b) n := by
  have onTape := gained_onTape hs a n
  apply ext_read (gained_onTape onTape b n) (gained_onTape hs _ n) ?_ rfl rfl rfl
  intro i hi
  rw [read_gained onTape hi, read_gained hs hi, read_gained hs hi, gain_gained, gain_append,
    Int.mul_add, UInt8.ofInt_add, UInt8.add_assoc]

/-- Adding to one cell is a list of one change. -/
theorem write_eq_gained (hs : s.OnTape size) (d amount : Int) (n : Nat) :
    s.write (s.cell d) (s.read (s.cell d) + UInt8.ofInt (n * amount)) =
      s.gained [(d, amount)] n := by
  apply ext_read (write_onTape hs _ _) (gained_onTape hs _ n) ?_ rfl rfl rfl
  intro i hi
  rw [read_write hs (cell_lt hs d), read_gained hs hi, gain_cons, gain_nil, Int.add_zero]
  by_cases here : i = s.cell d
  · rw [if_pos here, if_pos here.symm, here]
  · rw [if_neg here, if_neg (Ne.symm here), Int.mul_zero]
    exact (UInt8.add_zero _).symm

end State

namespace Effect

variable {size : Nat} {s : State}

/-- No cell is listed twice. -/
def Ascending (changes : List (Int × Int)) : Prop :=
  changes.Pairwise fun x y => x.1 < y.1

theorem gain_bump (s : State) (d amount : Int) (changes : List (Int × Int)) (i : Nat) :
    s.gain (bump d amount changes) i = s.gain (changes ++ [(d, amount)]) i := by
  induction changes with
  | nil => rfl
  | cons x rest ih =>
    obtain ⟨k, change⟩ := x
    simp only [State.gain_append, State.gain_cons, State.gain_nil] at ih ⊢
    unfold bump
    by_cases before : d < k
    · simp only [if_pos before, State.gain_cons]
      omega
    · rw [if_neg before]
      by_cases same : d = k
      · subst same
        simp only [if_true, State.gain_cons]
        split <;> omega
      · rw [if_neg same, State.gain_cons, ih, Int.add_assoc]

theorem mem_bump {d amount : Int} {changes : List (Int × Int)} {x : Int × Int}
    (h : x ∈ bump d amount changes) : x.1 = d ∨ ∃ y ∈ changes, x.1 = y.1 := by
  induction changes with
  | nil => exact .inl (by rw [List.mem_singleton.mp h])
  | cons y rest ih =>
    obtain ⟨k, change⟩ := y
    unfold bump at h
    split at h
    · rcases List.mem_cons.mp h with rfl | old
      · exact .inl rfl
      · exact .inr ⟨x, old, rfl⟩
    · split at h
      · rename_i same
        rcases List.mem_cons.mp h with rfl | old
        · exact .inl same.symm
        · exact .inr ⟨x, List.mem_cons_of_mem _ old, rfl⟩
      · rcases List.mem_cons.mp h with rfl | later
        · exact .inr ⟨_, List.mem_cons_self, rfl⟩
        · rcases ih later with new | ⟨y, old, same⟩
          · exact .inl new
          · exact .inr ⟨y, List.mem_cons_of_mem _ old, same⟩

theorem bump_ascending {changes : List (Int × Int)} (h : Ascending changes) (d amount : Int) :
    Ascending (bump d amount changes) := by
  induction changes with
  | nil => exact List.pairwise_singleton _ _
  | cons x rest ih =>
    obtain ⟨k, change⟩ := x
    obtain ⟨first, tail⟩ := List.pairwise_cons.mp h
    unfold bump
    split
    · rename_i before
      refine List.pairwise_cons.mpr ⟨?_, h⟩
      intro y hy
      rcases List.mem_cons.mp hy with rfl | later
      · exact before
      · exact Int.lt_trans before (first y later)
    · rename_i notBefore
      split
      · exact List.pairwise_cons.mpr ⟨first, tail⟩
      · rename_i different
        refine List.pairwise_cons.mpr ⟨?_, ih tail⟩
        intro y hy
        rcases mem_bump hy with new | ⟨z, old, same⟩
        · simp only [new]
          omega
        · simp only [same]
          exact first z old

/-- With every distance listed once, the counter gains what is listed for it, unless another
distance leads there too. -/
theorem gain_eq_lookup {changes : List (Int × Int)} (h : Ascending changes) {size : Nat}
    (hs : s.OnTape size) (apart : ∀ x ∈ changes, x.1 ≠ 0 → s.cell x.1 ≠ s.pointer) :
    s.gain changes s.pointer = (changes.lookup 0).getD 0 := by
  induction changes with
  | nil => rfl
  | cons x rest ih =>
    obtain ⟨d, change⟩ := x
    obtain ⟨first, tail⟩ := List.pairwise_cons.mp h
    have elsewhere : ∀ y ∈ rest, y.1 ≠ 0 → s.cell y.1 ≠ s.pointer :=
      fun y hy => apart y (List.mem_cons_of_mem _ hy)
    by_cases counter : d = 0
    · subst counter
      have others : s.gain rest s.pointer = 0 := by
        apply State.gain_eq_zero
        intro y hy
        have later := first y hy
        exact elsewhere y hy (by simp only at later; omega)
      simp [others, State.cell_zero hs]
    · have skips : ((0 : Int) == d) = false := by simpa using Ne.symm counter
      rw [State.gain_cons, if_neg (apart _ List.mem_cons_self counter), Int.zero_add,
        ih tail elsewhere, List.lookup_cons, skips]

/-- A body that counts down reaches its counter at the distance 0 only. -/
theorem CountsDown.apart {e : Effect} {size : UInt32} (h : e.CountsDown size)
    (hs : s.OnTape size.toNat) : ∀ x ∈ e.changes, x.1 ≠ 0 → s.cell x.1 ≠ s.pointer := by
  have nonzero : size ≠ 0 := by
    rintro rfl
    exact Nat.not_lt_zero _ hs.pointer_lt
  intro x hx other
  rw [Ne, State.cell_eq_pointer_iff hs]
  exact h.2.2 x hx other nonzero

/-- A body that counts down takes one from the counter. -/
theorem CountsDown.gain_counter {e : Effect} {size : UInt32} (h : e.CountsDown size)
    (ascending : Ascending e.changes) (hs : s.OnTape size.toNat) :
    s.gain e.changes s.pointer = -1 := by
  rw [← h.2.1, change]
  exact gain_eq_lookup ascending hs (h.apart hs)

theorem CountsDown.current_gained {e : Effect} {size : UInt32} (h : e.CountsDown size)
    (ascending : Ascending e.changes) (hs : s.OnTape size.toNat) {n : Nat}
    (counter : s.current.toNat = n + 1) : (s.gained e.changes 1).current.toNat = n := by
  have read : (s.gained e.changes 1).current = s.current + UInt8.ofInt ((1 : Nat) * -1) := by
    rw [← h.gain_counter ascending hs]
    exact State.read_gained hs hs.pointer_lt e.changes 1
  have high := s.current.toNat_lt
  rw [read, show UInt8.ofInt ((1 : Nat) * -1) = 255 from rfl, UInt8.toNat_add,
    show (255 : UInt8).toNat = 255 from rfl]
  omega

end Effect

namespace Op

variable {size : Nat} {s : State}

/-- An operation with an effect extends what was added before it. -/
theorem apply_effect? (hs : s.OnTape size) (eof : EofPolicy) {o : Op} {e e' : Effect}
    (h : o.effect? e = some e') :
    o.apply eof ((s.gained e.changes 1).moved e.position) =
      (s.gained e'.changes 1).moved e'.position := by
  have onTape := State.gained_onTape hs e.changes 1
  have update (offset : Int32) (amount : Int) (v : UInt8) (hv : v = UInt8.ofInt amount) :
      let u := (s.gained e.changes 1).moved e.position
      u.write (u.address offset) (u.read (u.address offset) + v) =
        (s.gained (e.update offset.toInt amount).changes 1).moved e.position := by
    have once : v = UInt8.ofInt ((1 : Nat) * amount) := by rw [hv, Int.natCast_one, Int.one_mul]
    simp only [State.address_eq_cell, State.cell_moved onTape, State.write_moved,
      State.read_moved, once, State.write_eq_gained onTape, State.gained_append hs, Effect.update]
    congr 1
    apply State.gained_congr hs
    intro i _
    rw [Effect.gain_bump]
  cases o with
  | right count =>
    cases h
    simp only [apply, State.right_eq_moved, State.moved_moved onTape, Effect.move]
  | left count =>
    cases h
    simp only [apply, State.left_eq_moved (State.moved_onTape onTape _),
      State.moved_moved onTape, Effect.move]
  | add amount offset =>
    cases h
    exact update offset _ _ (Word.byte_unsigned amount)
  | sub amount offset =>
    cases h
    simp only [apply, UInt8.sub_eq_add_neg]
    apply update offset
    rw [UInt8.ofInt_neg, Word.byte_unsigned]
  | mul | clear | output | input => cases h

theorem effect?_ascending {o : Op} {e e' : Effect} (h : o.effect? e = some e')
    (ascending : Effect.Ascending e.changes) : Effect.Ascending e'.changes := by
  cases o with
  | right | left =>
    cases h
    exact ascending
  | add | sub =>
    cases h
    exact Effect.bump_ascending ascending _ _
  | mul | clear | output | input => cases h

end Op

namespace Program

variable {eof : EofPolicy} {body next : Program} {e e' : Effect} {s t : State}

theorem effect?_ascending (h : body.effect? e = some e') (ascending : Effect.Ascending e.changes) :
    Effect.Ascending e'.changes := by
  induction body generalizing e with
  | nil =>
    cases h
    exact ascending
  | op o next ih =>
    obtain ⟨middle, first, rest⟩ := Option.bind_eq_some_iff.mp h
    exact ih rest (Op.effect?_ascending first ascending)
  | loop => cases h

/-- A body with an effect always ends, with its changes added once. -/
theorem ends_effect?_from {size : Nat} (hs : s.OnTape size) (h : body.effect? e = some e') :
    Ends eof body ((s.gained e.changes 1).moved e.position) t ↔
      t = (s.gained e'.changes 1).moved e'.position := by
  induction body generalizing e with
  | nil =>
    cases h
    exact ends_nil
  | op o next ih =>
    obtain ⟨middle, first, rest⟩ := Option.bind_eq_some_iff.mp h
    rw [ends_op, Op.apply_effect? hs eof first]
    exact ih rest
  | loop => cases h

theorem ends_effect? {size : Nat} (hs : s.OnTape size) (h : body.effect? .start = some e) :
    Ends eof body s t ↔ t = (s.gained e.changes 1).moved e.position := by
  have start : (s.gained Effect.start.changes 1).moved Effect.start.position = s := by
    simp only [Effect.start, State.gained_nil hs, State.moved_zero hs]
  have ends : Ends eof body ((s.gained Effect.start.changes 1).moved Effect.start.position) t ↔
      t = (s.gained e.changes 1).moved e.position := ends_effect?_from hs h
  rwa [start] at ends

theorem ends_counted_body {size : UInt32} (hs : s.OnTape size.toNat)
    (h : body.effect? .start = some e) (down : e.CountsDown size) :
    Ends eof body s t ↔ t = s.gained e.changes 1 := by
  rw [ends_effect? hs h, down.1, State.moved_zero (State.gained_onTape hs e.changes 1)]

/-- A loop that counts down adds the changes of its body as often as its counter says. -/
theorem ends_counted {size : UInt32} (hs : s.OnTape size.toNat)
    (h : body.effect? .start = some e) (down : e.CountsDown size) :
    Ends eof (loop body next) s t ↔ Ends eof next (s.gained e.changes s.current.toNat) t := by
  have ascending : Effect.Ascending e.changes := effect?_ascending h List.Pairwise.nil
  -- The induction is on the counter, which the body takes one from.
  induction hn : s.current.toNat generalizing s with
  | zero =>
    have zero : s.current = 0 := UInt8.toNat.inj hn
    rw [ends_loop_zero zero, State.gained_zero hs]
  | succ n ih =>
    have nonzero : s.current ≠ 0 := by
      intro zero
      rw [zero] at hn
      cases hn
    have onTape := State.gained_onTape hs e.changes 1
    have counter := down.current_gained ascending hs hn
    rw [ends_loop_nonzero nonzero]
    simp only [ends_counted_body hs h down, exists_eq_left]
    refine (ih onTape counter).trans ?_
    rw [State.gained_gained hs, Nat.add_comm]

end Program

namespace Factors

/-- Factors as changes, by their numbers. -/
def changes (f : Factors) : List (Int × Int) :=
  f.map fun x => (x.1.toInt, x.2.toInt)

variable {size : Nat} {s : State} {f : Factors}

theorem forall_toOps {P : Op → Prop} (products : ∀ x ∈ f, P (.mul x.1 x.2 0))
    (last : P (.clear 0)) : ∀ o ∈ f.toOps, P o := by
  intro o mem
  rcases List.mem_append.mp mem with product | cleared
  · obtain ⟨x, listed, rfl⟩ := List.mem_map.mp product
    exact products x listed
  · rw [List.mem_singleton.mp cleared]
    exact last

/-- A change that is kept fits the words of a multiplication. -/
theorem ofChanges?_cons {k change : Int} {rest : List (Int × Int)} (kept : ¬(k = 0 ∨ change = 0))
    (h : ofChanges? ((k, change) :: rest) = some f) :
    ∃ others, ofChanges? rest = some others ∧ f.changes = (k, change) :: others.changes := by
  rw [ofChanges?, if_neg kept] at h
  obtain ⟨offset, fitsOffset, h⟩ := Option.bind_eq_some_iff.mp h
  obtain ⟨factor, fitsFactor, h⟩ := Option.bind_eq_some_iff.mp h
  obtain ⟨others, hothers, h⟩ := Option.bind_eq_some_iff.mp h
  cases h
  refine ⟨others, hothers, ?_⟩
  rw [changes, List.map_cons, Word.narrow?_eq_some_iff.mp fitsOffset,
    Word.narrow?_eq_some_iff.mp fitsFactor]
  rfl

/-- The factors are the changes, without the counter and what cancels. -/
theorem changes_ofChanges? {l : List (Int × Int)} (h : ofChanges? l = some f) :
    f.changes = l.filter fun x => x.1 ≠ 0 ∧ x.2 ≠ 0 := by
  induction l generalizing f with
  | nil =>
    cases h
    rfl
  | cons y rest ih =>
    obtain ⟨k, change⟩ := y
    by_cases dropped : k = 0 ∨ change = 0
    · rw [ofChanges?, if_pos dropped] at h
      rw [ih h, List.filter_cons_of_neg (by simpa [← not_or] using dropped)]
    · obtain ⟨others, hothers, split⟩ := ofChanges?_cons dropped h
      rw [split, ih hothers, List.filter_cons_of_pos (by simpa using not_or.mp dropped)]

theorem ofChanges?_mem {l : List (Int × Int)} (h : ofChanges? l = some f) :
    ∀ x ∈ f.changes, x ∈ l ∧ x.1 ≠ 0 ∧ x.2 ≠ 0 := by
  intro x listed
  rw [changes_ofChanges? h] at listed
  simpa using List.mem_filter.mp listed

/-- Leaving out the counter and what cancels changes no other cell. -/
theorem gain_ofChanges? (hs : s.OnTape size) {l : List (Int × Int)} (h : ofChanges? l = some f)
    {i : Nat} (other : i ≠ s.pointer) : s.gain f.changes i = s.gain l i := by
  induction l generalizing f with
  | nil =>
    cases h
    rfl
  | cons y rest ih =>
    obtain ⟨k, change⟩ := y
    by_cases dropped : k = 0 ∨ change = 0
    · rw [ofChanges?, if_pos dropped] at h
      rw [ih h, State.gain_cons]
      rcases dropped with rfl | rfl
      · rw [State.cell_zero hs, if_neg (Ne.symm other), Int.zero_add]
      · rw [ite_self, Int.zero_add]
    · obtain ⟨others, hothers, split⟩ := ofChanges?_cons dropped h
      rw [split, State.gain_cons, State.gain_cons, ih hothers]

/-- Multiplications that leave the counter alone all read the same counter. -/
theorem applyAll_multiplications (hs : s.OnTape size) (eof : EofPolicy)
    (apart : ∀ x ∈ f.changes, s.cell x.1 ≠ s.pointer) :
    Program.applyAll eof (f.map fun x => .mul x.1 x.2 0) s =
      s.gained f.changes s.current.toNat := by
  induction f generalizing s with
  | nil => exact (State.gained_nil hs _).symm
  | cons x rest ih =>
    obtain ⟨offset, factor⟩ := x
    have counter : s.address 0 = s.pointer := State.cell_zero hs
    have product : s.current * factor.toUInt32.toUInt8 =
        UInt8.ofInt (s.current.toNat * factor.toInt) := by
      rw [UInt8.ofInt_mul, Word.byte_toNat, Word.byte_signed]
    have first : (Op.mul offset factor 0).apply eof s =
        s.gained [(offset.toInt, factor.toInt)] s.current.toNat := by
      rw [← State.write_eq_gained hs, ← product]
      simp only [Op.apply, counter]
      rfl
    have onTape := State.gained_onTape hs [(offset.toInt, factor.toInt)] s.current.toNat
    have kept : (s.gained [(offset.toInt, factor.toInt)] s.current.toNat).current = s.current := by
      have read := State.read_gained hs hs.pointer_lt [(offset.toInt, factor.toInt)] s.current.toNat
      rw [State.gain_cons, if_neg (apart _ List.mem_cons_self), State.gain_nil, Int.add_zero,
        Int.mul_zero] at read
      exact read.trans (UInt8.add_zero _)
    have others := ih onTape (fun y hy => by
      rw [State.gained_cell]
      exact apart y (List.mem_cons_of_mem _ hy))
    rw [kept, State.gained_append hs] at others
    rw [List.map_cons, Program.applyAll_cons, first]
    exact others

end Factors

namespace Program

variable {size : UInt32} {body : Program} {f : Factors} {s : State}

theorem factors?_eq_some (h : body.factors? size = some f) :
    ∃ e, body.effect? .start = some e ∧ e.CountsDown size ∧
      Factors.ofChanges? e.changes = some f := by
  unfold factors? at h
  split at h
  · cases h
  · rename_i e known
    split at h
    · rename_i down
      exact ⟨e, known, down, h⟩
    · cases h

/-- The replacement of a counted loop adds what the loop adds and clears the counter. -/
theorem applyAll_toOps (hs : s.OnTape size.toNat) (eof : EofPolicy) {e : Effect}
    (ascending : Effect.Ascending e.changes) (down : e.CountsDown size)
    (h : Factors.ofChanges? e.changes = some f) :
    applyAll eof f.toOps s = s.gained e.changes s.current.toNat := by
  have apart : ∀ x ∈ f.changes, s.cell x.1 ≠ s.pointer := by
    intro x hx
    obtain ⟨mem, other, _⟩ := Factors.ofChanges?_mem h x hx
    exact down.apart hs x mem other
  have onTape := State.gained_onTape hs f.changes s.current.toNat
  have products := Factors.applyAll_multiplications hs eof apart
  rw [Factors.toOps, applyAll_append, products, applyAll_cons, applyAll_nil]
  apply State.ext_read (State.write_onTape onTape _ _) (State.gained_onTape hs _ _) ?_ rfl rfl rfl
  intro i hi
  have counter : (s.gained f.changes s.current.toNat).address 0 = s.pointer := by
    rw [State.address_eq_cell, State.gained_cell]
    exact State.cell_zero hs
  rw [counter, State.read_write onTape hs.pointer_lt, State.read_gained hs hi,
    State.read_gained hs hi]
  by_cases here : i = s.pointer
  · rw [if_pos here, here, down.gain_counter ascending hs, UInt8.ofInt_mul, Word.byte_toNat,
      UInt8.ofInt_neg_one, UInt8.mul_neg, UInt8.mul_one]
    exact (UInt8.add_right_neg _).symm
  · rw [if_neg here, Factors.gain_ofChanges? hs h here]

theorem multiplyLoops_same (p : Program) : Same size.toNat (p.multiplyLoops size) p := by
  induction p with
  | nil => exact Same.refl _
  | op o next ih => exact ih.op o
  | loop body next ihBody ihNext =>
    simp only [multiplyLoops]
    split
    · rename_i f counted
      obtain ⟨e, known, down, factors⟩ := factors?_eq_some counted
      have ascending : Effect.Ascending e.changes := effect?_ascending known List.Pairwise.nil
      intro eof s t hs
      rw [ends_prepend, applyAll_toOps hs eof ascending down factors, ends_counted hs known down]
      exact ihNext eof _ t (State.gained_onTape hs _ _)
    · exact ihBody.loop ihNext

end Program
end TapeCompiler
