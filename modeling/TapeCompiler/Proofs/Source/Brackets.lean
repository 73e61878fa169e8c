/-!
The brackets of a text. Two brackets match if what lies between them is balanced; a bracket
matches at most one other.
-/

namespace TapeCompiler

/-- As many brackets are closed as opened, and none is closed before it is opened. -/
structure Balanced (cs : List Char) : Prop where
  count_eq : cs.count '[' = cs.count ']'
  count_le : ∀ front back, cs = front ++ back → front.count ']' ≤ front.count '['

/-- Brackets opened less brackets closed. -/
def level (cs : List Char) : Int := cs.count '[' - cs.count ']'

/-- The bracket at `i` is closed by the one at `j`. -/
def Matching (cs : List Char) (i j : Nat) : Prop :=
  ∃ before inside after, cs = before ++ '[' :: (inside ++ ']' :: after) ∧ Balanced inside ∧
    before.length = i ∧ i + 1 + inside.length = j

@[simp]
theorem level_nil : level [] = 0 := rfl

theorem level_append (front back : List Char) : level (front ++ back) = level front + level back := by
  simp only [level, List.count_append]
  omega

theorem level_open (cs : List Char) : level (cs ++ ['[']) = level cs + 1 := level_append cs ['[']

theorem level_close (cs : List Char) : level (cs ++ [']']) = level cs - 1 := level_append cs [']']

theorem level_other {c : Char} (hopen : c ≠ '[') (hclose : c ≠ ']') (cs : List Char) :
    level (cs ++ [c]) = level cs := by
  simp [level, hopen, hclose]

theorem level_cons_other {c : Char} (hopen : c ≠ '[') (hclose : c ≠ ']') (cs : List Char) :
    level (c :: cs) = level cs := by
  simp [level, hopen, hclose]

namespace Balanced

variable {cs front back inside rest : List Char}

theorem level_eq (h : Balanced cs) : level cs = 0 := by
  have equal := h.count_eq
  unfold level
  omega

theorem level_take (h : Balanced cs) (i : Nat) : 0 ≤ level (cs.take i) := by
  have le := h.count_le (cs.take i) (cs.drop i) (List.take_append_drop i cs).symm
  unfold level
  omega

theorem nil : Balanced [] := by
  refine ⟨rfl, fun front back split => ?_⟩
  obtain ⟨rfl, rfl⟩ := List.append_eq_nil_iff.mp split.symm
  exact Nat.le_refl 0

theorem cons {c : Char} (hopen : c ≠ '[') (hclose : c ≠ ']') (h : Balanced cs) :
    Balanced (c :: cs) := by
  constructor
  · simpa [List.count_cons, hopen, hclose] using h.count_eq
  · intro front back split
    cases front with
    | nil => exact Nat.le_refl 0
    | cons first front =>
      obtain ⟨rfl, rfl⟩ := List.cons.inj split
      simpa [List.count_cons, hopen, hclose] using h.count_le front back rfl

theorem wrap (hinside : Balanced inside) (hrest : Balanced rest) :
    Balanced ('[' :: (inside ++ ']' :: rest)) := by
  have inner := hinside.count_eq
  constructor
  · have outer := hrest.count_eq
    simp
    omega
  · intro front back split
    cases front with
    | nil => exact Nat.le_refl 0
    | cons first front =>
      obtain ⟨rfl, later⟩ := List.cons.inj split
      obtain ⟨gap, rfl, tails⟩ | ⟨gap, rfl, _⟩ := List.append_eq_append_iff.mp later
      · -- The front reaches over the inside, so it has closed the bracket or is about to.
        cases gap with
        | nil =>
          simp
          omega
        | cons second gap =>
          obtain ⟨rfl, rfl⟩ := List.cons.inj tails
          have outer := hrest.count_le gap back rfl
          simp
          omega
      · have within := hinside.count_le front gap rfl
        simp
        omega

theorem append (h : Balanced front) (h' : Balanced back) : Balanced (front ++ back) := by
  have equal := h.count_eq
  constructor
  · have equal' := h'.count_eq
    simp
    omega
  · intro before after split
    obtain ⟨gap, rfl, rfl⟩ | ⟨gap, rfl, rfl⟩ := List.append_eq_append_iff.mp split
    · have later := h'.count_le gap after rfl
      simp
      omega
    · exact h.count_le before gap rfl

/-- If more brackets are closed than opened, the first one too many stands behind balanced text. -/
theorem of_excess (within : ∀ before after, front = before ++ after →
      before.count ']' ≤ before.count '[') (excess : level (front ++ rest) < 0) :
    ∃ inside after, front ++ rest = inside ++ ']' :: after ∧ Balanced inside := by
  induction rest generalizing front with
  | nil =>
    have le := within front [] (List.append_nil front).symm
    rw [List.append_nil] at excess
    unfold level at excess
    omega
  | cons c rest ih =>
    have regrouped : front ++ c :: rest = (front ++ [c]) ++ rest := by simp
    by_cases more : (front ++ [c]).count ']' ≤ (front ++ [c]).count '['
    · rw [regrouped] at excess ⊢
      refine ih ?_ excess
      intro before after split
      obtain ⟨gap, rfl, tails⟩ | ⟨gap, rfl, _⟩ := List.append_eq_append_iff.mp split
      · -- The part is the front with the new character or without it.
        cases gap with
        | nil => simpa using within front [] (by simp)
        | cons second gap =>
          obtain ⟨rfl, empty⟩ := List.cons.inj tails
          obtain ⟨rfl, rfl⟩ := List.append_eq_nil_iff.mp empty.symm
          exact more
      · exact within before gap rfl
    · have le := within front [] (List.append_nil front).symm
      simp only [List.count_append, List.count_singleton, beq_iff_eq] at more
      by_cases closes : c = ']'
      · subst closes
        refine ⟨front, rest, rfl, ?_, within⟩
        simp at more
        omega
      · rw [if_neg closes] at more
        omega

/-- Every bracket that is opened in balanced text is closed there. -/
theorem exists_close (h : Balanced (front ++ '[' :: rest)) :
    ∃ inside after, rest = inside ++ ']' :: after ∧ Balanced inside := by
  have total := h.level_eq
  have before := h.count_le front _ rfl
  have excess : level ([] ++ rest) < 0 := by
    have split := level_append front ('[' :: rest)
    have opened := level_append ['['] rest
    simp only [List.singleton_append] at opened
    have one : level ['['] = 1 := rfl
    have nonnegative : 0 ≤ level front := by
      unfold level
      omega
    rw [List.nil_append]
    omega
  refine of_excess ?_ excess
  intro before after split
  obtain ⟨rfl, _⟩ := List.append_eq_nil_iff.mp split.symm
  exact Nat.le_refl 0

/-- A closing bracket right behind balanced text is one too many. -/
theorem not_append_close (h : Balanced inside) : ¬ Balanced (inside ++ ']' :: rest) := by
  intro longer
  have excess := longer.count_le (inside ++ [']']) rest (by simp)
  have equal := h.count_eq
  simp at excess
  omega

/-- An opening bracket right before balanced text stays open. -/
theorem not_append_open (h : Balanced inside) : ¬ Balanced (rest ++ '[' :: inside) := by
  intro longer
  have excess := longer.count_le rest _ rfl
  have equal := h.count_eq
  have total := longer.count_eq
  simp at total
  omega

end Balanced

namespace Matching

variable {cs : List Char} {i i' j j' : Nat}

theorem get_open (h : Matching cs i j) : cs[i]? = some '[' := by
  obtain ⟨before, inside, after, rfl, _, rfl, _⟩ := h
  simp

theorem get_close (h : Matching cs i j) : cs[j]? = some ']' := by
  obtain ⟨before, inside, after, rfl, _, rfl, rfl⟩ := h
  have behind : before.length + 1 + inside.length - before.length = inside.length + 1 := by omega
  rw [List.getElem?_append_right (by omega), behind, List.getElem?_cons_succ,
    List.getElem?_append_right (by omega)]
  simp

/-- A bracket is closed once. -/
theorem close_unique (h : Matching cs i j) (h' : Matching cs i j') : j = j' := by
  obtain ⟨before, inside, after, rfl, balanced, rfl, rfl⟩ := h
  obtain ⟨before', inside', after', split, balanced', same, rfl⟩ := h'
  obtain ⟨rfl, rests⟩ := List.append_inj split same.symm
  have insides := (List.cons.inj rests).2
  obtain ⟨gap, rfl, tails⟩ | ⟨gap, rfl, tails⟩ := List.append_eq_append_iff.mp insides
  · cases gap with
    | nil => simp
    | cons first gap =>
      obtain rfl := (List.cons.inj tails).1
      exact absurd balanced' balanced.not_append_close
  · cases gap with
    | nil => simp
    | cons first gap =>
      obtain rfl := (List.cons.inj tails).1
      exact absurd balanced balanced'.not_append_close

/-- A bracket closes only one. -/
theorem open_unique (h : Matching cs i j) (h' : Matching cs i' j) : i = i' := by
  obtain ⟨before, inside, after, rfl, balanced, rfl, rfl⟩ := h
  obtain ⟨before', inside', after', split, balanced', rfl, same⟩ := h'
  have regrouped : (before ++ '[' :: inside) ++ ']' :: after =
      (before' ++ '[' :: inside') ++ ']' :: after' := by simpa using split
  have fronts := (List.append_inj regrouped (by simp; omega)).1
  obtain ⟨gap, rfl, tails⟩ | ⟨gap, rfl, tails⟩ := List.append_eq_append_iff.mp fronts
  · cases gap with
    | nil => simp
    | cons first gap =>
      obtain rfl := (List.cons.inj tails).2
      exact absurd balanced balanced'.not_append_open
  · cases gap with
    | nil => simp
    | cons first gap =>
      obtain rfl := (List.cons.inj tails).2
      exact absurd balanced' balanced.not_append_open

end Matching
end TapeCompiler
