import TapeCompiler.Proofs.Machine.LockStep

/-!
What a run depends on in its input. Only reading looks at the input, and it looks no further than
the next byte.

A policy that stores a byte at the end of the input is the same as an input that goes on with that
byte for ever: the two runs read the same bytes, one from its input and one from the policy, and
stay in lock step (`padded_lockStep`). A run that leaves a byte unread has never come to the end of
its input, so neither what is behind the bytes that it has read nor the policy matters
(`Takes.reads`).
-/

namespace TapeCompiler

/-- The state with another input. -/
def State.withInput (s : State) (input : List UInt8) : State := { s with input := input }

namespace Op

variable {s : State}

theorem apply_input_cons (eof : EofPolicy) (offset : Int32) {byte : UInt8} {rest : List UInt8}
    (next : s.input = byte :: rest) :
    (input offset).apply eof s = (s.write (s.address offset) byte).withInput rest := by
  simp only [apply, State.receive, next]
  rfl

theorem apply_input_nil {eof : EofPolicy} {fill : UInt8} (fills : eof.fill? = some fill)
    (offset : Int32) (none : s.input = []) :
    (input offset).apply eof s = s.write (s.address offset) fill := by
  simp only [apply, State.receive, none, fills]

/-- What an operation reads it takes from the front. If a byte is left behind that, the operation
does not depend on what is left, nor on the policy. -/
theorem apply_reads (eof : EofPolicy) (o : Op) (s : State) :
    ∃ front, s.input = front ++ (o.apply eof s).input ∧
      ((o.apply eof s).input ≠ [] → ∀ eof' rest,
        o.apply eof' (s.withInput (front ++ rest)) = (o.apply eof s).withInput rest) := by
  cases o with
  | right | left | add | sub | mul | clear | output => exact ⟨[], rfl, fun _ _ _ => rfl⟩
  | input offset =>
    cases next : s.input with
    | nil =>
      have empty : ((input offset).apply eof s).input = [] := by
        simp only [apply, State.receive, next]
        split <;> exact next
      exact ⟨[], empty.symm, fun left => absurd empty left⟩
    | cons byte behind =>
      refine ⟨[byte], by rw [apply_input_cons eof offset next]; rfl, ?_⟩
      intro _ eof' rest
      rw [apply_input_cons eof offset next]
      exact apply_input_cons eof' offset rfl

end Op

/-! ### Padded input -/

/-- The second state has some more of the byte `fill` behind the same input. -/
def State.Padded (fill : UInt8) (s t : State) : Prop :=
  ∃ k, t = s.withInput (s.input ++ List.replicate k fill)

theorem padded_lockStep {eof : EofPolicy} {fill : UInt8} (fills : eof.fill? = some fill) :
    LockStep eof (State.Padded fill) where
  current := by
    rintro s _ ⟨k, rfl⟩
    rfl
  apply := by
    rintro s _ o ⟨k, rfl⟩
    cases o with
    | right | left | add | sub | mul | clear | output => exact ⟨k, rfl⟩
    | input offset =>
      cases next : s.input with
      | cons byte rest =>
        refine ⟨k, ?_⟩
        rw [Op.apply_input_cons eof offset next]
        exact Op.apply_input_cons eof offset rfl
      | nil =>
        have empty : (s.write (s.address offset) fill).input = [] := next
        rw [Op.apply_input_nil fills offset next]
        cases k with
        | zero =>
          refine ⟨0, ?_⟩
          rw [empty]
          exact Op.apply_input_nil fills offset rfl
        | succ k =>
          -- One run takes from its input what the other has from the policy.
          refine ⟨k, ?_⟩
          rw [empty]
          exact Op.apply_input_cons eof offset rfl

namespace Program

/-- To store a byte at the end of the input is to read an input that goes on with that byte: under
either policy that stores one, any number of such bytes behind the input makes no difference to what
the interpreter answers, with a step limit or without one. -/
theorem interpret_padded (c : CompilerSettings) (limit : Option Nat) (p : Program)
    (input : List UInt8) (k : Nat) :
    p.interpret { c with eof := .zero } limit (input ++ .replicate k 0) =
      p.interpret { c with eof := .zero } limit input ∧
    p.interpret { c with eof := .allOnes } limit (input ++ .replicate k 255) =
      p.interpret { c with eof := .allOnes } limit input := by
  have answered {eof : EofPolicy} {fill : UInt8} (fills : eof.fill? = some fill) :
      p.interpret { c with eof } limit input =
        p.interpret { c with eof } limit (input ++ .replicate k fill) := by
    apply (padded_lockStep fills).interpret
    · rintro s _ ⟨k, rfl⟩
      rfl
    · exact ⟨k, rfl⟩
  exact ⟨(answered rfl).symm, (answered rfl).symm⟩

/-! ### Unread input -/

variable {eof : EofPolicy} {p : Program} {s t : State} {n : Nat}

/-- What a run reads it takes from the front. If a byte is left behind that, the run takes the same
steps whatever is left, and whatever the policy. -/
theorem Takes.reads (h : Takes eof p s n t) :
    ∃ front, s.input = front ++ t.input ∧
      (t.input ≠ [] → ∀ eof' rest,
        Takes eof' p (s.withInput (front ++ rest)) n (t.withInput rest)) := by
  induction h with
  | nil s => exact ⟨[], rfl, fun _ _ rest => .nil _⟩
  | @op o next s t n _ ih =>
    obtain ⟨front, here, same⟩ := o.apply_reads eof s
    obtain ⟨front', later, taken⟩ := ih
    refine ⟨front ++ front', by rw [here, later, List.append_assoc], ?_⟩
    intro left eof' rest
    have unfinished : (o.apply eof s).input ≠ [] := by
      rw [later]
      exact List.append_ne_nil_of_right_ne_nil _ left
    rw [List.append_assoc]
    refine .op ?_
    rw [same unfinished]
    exact taken left eof' rest
  | leave zero _ ih =>
    obtain ⟨front, later, taken⟩ := ih
    exact ⟨front, later, fun left eof' rest => .leave zero (taken left eof' rest)⟩
  | @again body next s u t n m nonzero _ _ ihBody ihAgain =>
    obtain ⟨front, here, once⟩ := ihBody
    obtain ⟨front', later, taken⟩ := ihAgain
    refine ⟨front ++ front', by rw [here, later, List.append_assoc], ?_⟩
    intro left eof' rest
    have unfinished : u.input ≠ [] := by
      rw [later]
      exact List.append_ne_nil_of_right_ne_nil _ left
    rw [List.append_assoc]
    exact .again nonzero (once unfinished eof' _) (taken left eof' rest)

/-- A run that leaves part of its input unread depends on nothing but what it has read. With
anything else behind that, or nothing, and under any policy for the end of the input, the run ends in the
same state, and again it has read no more and no less. So whatever the step limit, the interpreter
answers the same. -/
theorem unread_input_inert (c : CompilerSettings) (p : Program) (input : List UInt8) (t : State)
    (finished : p.runToEnd c.eof (.initial c.memorySize.toNat input) = some t)
    (unread : t.input ≠ []) :
    ∃ front, input = front ++ t.input ∧ ∀ (eof : EofPolicy) (rest : List UInt8),
      p.runToEnd eof (.initial c.memorySize.toNat (front ++ rest)) = some { t with input := rest } ∧
      ∀ limit, p.interpret { c with eof } limit (front ++ rest) = p.interpret c limit input := by
  obtain ⟨n, taken⟩ := ends_iff_takes.mp (ends_of_runToEnd finished)
  obtain ⟨front, whole, same⟩ := taken.reads
  refine ⟨front, whole, ?_⟩
  intro eof rest
  have taken' : Takes eof p (.initial c.memorySize.toNat (front ++ rest)) n (t.withInput rest) :=
    same unread eof rest
  refine ⟨runToEnd_eq_some_iff.mpr taken'.ends, ?_⟩
  intro limit
  by_cases zero : c.memorySize = 0
  · rw [interpret, interpret, if_pos zero, if_pos zero]
  · apply interpret_congr (c := { c with eof }) zero zero
    intro r
    rw [taken.interpret_eq_ok_iff zero, Takes.interpret_eq_ok_iff (c := { c with eof }) zero taken']
    rfl

/-- The loop reads up to the first zero, and anything may stand behind it. At the end of an input
without a zero it would depend on the policy whether the loop is ever left. -/
theorem unread_input_inert_zero :
    let c : CompilerSettings := { memorySize := 2 }
    let p := op (.input 0) (loop (op (.output 0) (op (.input 0) nil)) nil)
    let t : State := ⟨#[0, 0], 0, [9], #[7]⟩
    p.runToEnd c.eof (.initial 2 [7, 0, 9]) = some t ∧ t.input ≠ [] ∧
      ∀ (eof : EofPolicy) (rest : List UInt8),
        p.runToEnd eof (.initial 2 ([7, 0] ++ rest)) = some { t with input := rest } ∧
        ∀ limit, p.interpret { c with eof } limit ([7, 0] ++ rest) =
          p.interpret c limit [7, 0, 9] := by
  intro c p t
  have finished : p.runToEnd c.eof (.initial 2 [7, 0, 9]) = some t :=
    runToEnd_eq_some_iff.mpr ⟨5, 0, by decide +kernel⟩
  have unread : t.input ≠ [] := List.cons_ne_nil 9 []
  obtain ⟨front, whole, same⟩ := unread_input_inert c p [7, 0, 9] t finished unread
  obtain rfl : [7, 0] = front := List.append_cancel_right whole
  exact ⟨finished, unread, same⟩

end Program
end TapeCompiler
