import Mathlib.Data.List.ReduceOption
import TapeCompiler.Proofs.Optimize.Contraction
import TapeCompiler.Proofs.Optimize.CountedLoop
import TapeCompiler.Proofs.Optimize.Settling

/-!
Recognition of counted loops does not depend on the other passes. A body is judged by its effect
alone: where it leaves the pointer and what it adds to which cells. Merged operations have the
effect of their parts (`effect?_contract`). An offset counts from wherever the pointer stands, so it
does not matter whether a motion is stored in a move or in the offsets behind it
(`effect?_coalesce`).

What replaces a loop merges with nothing on either side. So contraction finds the same operations to
merge before and after the loops are replaced (`contractFrom_multiplyLoops`).
-/

namespace TapeCompiler

namespace Effect

variable (e : Effect)

theorem bump_bump (cell a b : Int) (changes : List (Int × Int)) :
    bump cell b (bump cell a changes) = bump cell (a + b) changes := by
  induction changes with
  | nil => simp [bump]
  | cons x rest ih =>
    obtain ⟨k, d⟩ := x
    by_cases before : cell < k
    · simp [bump, before]
    · by_cases here : cell = k
      · simp [bump, here, Int.add_assoc]
      · simp only [bump, if_neg before, if_neg here, ih]

theorem move_zero : e.move 0 = e := by
  simp only [move, Int.add_zero]

theorem move_move (a b : Int) : (e.move a).move b = e.move (a + b) := by
  simp only [move, Int.add_assoc]

theorem update_update (offset a b : Int) :
    (e.update offset a).update offset b = e.update offset (a + b) := by
  simp only [update, bump_bump]

/-- An update behind a motion is the update with the motion in its offset. -/
theorem update_move (offset amount d : Int) :
    (e.update (offset + d) amount).move d = (e.move d).update offset amount := by
  simp only [update, move, Int.add_comm offset d, Int.add_assoc]

end Effect

namespace Op

variable {o earlier later merged shifted : Op}

theorem merge?_mul (earlier : Op) (dest factor source : Int32) :
    earlier.merge? (mul dest factor source) = none := by
  cases earlier <;> rfl

theorem merge?_clear (earlier : Op) (offset : Int32) : earlier.merge? (clear offset) = none := by
  cases earlier <;> rfl

theorem effect?_of_distance? {d : Int} (moves : o.distance? = some d) (e : Effect) :
    o.effect? e = some (e.move d) := by
  cases o with
  | right | left =>
    cases moves
    rfl
  | add | sub | mul | clear | output | input => cases moves

theorem effect?_merge? (merges : earlier.merge? later = some merged) (e : Effect) :
    merged.effect? e = (earlier.effect? e).bind later.effect? := by
  obtain ⟨m, n, sum, rfl, rfl, rfl, hsum⟩ | ⟨m, n, sum, rfl, rfl, rfl, hsum⟩ |
    ⟨m, n, sum, a, rfl, rfl, rfl, hsum⟩ | ⟨m, n, sum, a, rfl, rfl, rfl, hsum⟩ :=
      merge?_cases merges
  all_goals
    have total := (Word.sum?_eq_some hsum).2
    simp only [effect?, Option.bind_some, total, Int.natCast_add, Int.neg_add, Effect.move_move,
      Effect.update_update]

theorem effect?_shift? {w : Int32} (stays : o.distance? = none) (shifts : o.shift? w = some shifted)
    (e : Effect) : (shifted.effect? e).map (·.move w.toInt) = o.effect? (e.move w.toInt) := by
  cases shiftedBy_of_shift? stays shifts with
  | add moves | sub moves => simp only [effect?, Option.map_some, moves, Effect.update_move]
  | mul | clear | output | input => rfl

end Op

namespace Program

variable {size : UInt32}

theorem effect?_congruence : Congruence fun p q : Program => ∀ e, p.effect? e = q.effect? e where
  refl _ _ := rfl
  trans h h' e := (h e).trans (h' e)
  op o h e := by
    simp only [effect?]
    cases o.effect? e with
    | none => rfl
    | some e' => exact h e'
  loop _ _ _ := rfl

/-! ### Contraction -/

theorem effect?_contract (p : Program) (e : Effect) : p.contract.effect? e = p.effect? e := by
  refine effect?_congruence.contractFrom ?_ none p e
  intro earlier later merged merges next e
  simp only [effect?, Op.effect?_merge? merges, Option.bind_assoc]

theorem factors?_contract (size : UInt32) (body : Program) :
    body.contract.factors? size = body.factors? size := by
  simp only [factors?, effect?_contract]

theorem bodies_contractFrom (held : Option Op) (p : Program) :
    (contractFrom held p).bodies = p.bodies.map contract := by
  induction p generalizing held with
  | nil => cases held <;> rfl
  | op o next ih =>
    cases held with
    | none => exact ih (some o)
    | some held =>
      simp only [contractFrom]
      cases held.merge? o with
      | none => exact ih (some o)
      | some merged => exact ih (some merged)
  | loop body next ihBody ihNext =>
    have inside : (loop (contractFrom none body) (contractFrom none next)).bodies =
        (loop body next).bodies.map contract := by
      rw [bodies_loop, bodies_loop, blocks, blocks, ihBody, ihNext, List.map_append, List.map_cons]
      rfl
    cases held with
    | none => exact inside
    | some held => exact inside

/-! ### Coalescing -/

theorem effect?_flush (pending : Int32) (next : Program) (e : Effect) :
    (flush pending next).effect? e = next.effect? (e.move pending.toInt) := by
  by_cases zero : pending = 0
  · subst zero
    rw [flush_zero]
    exact congrArg next.effect? e.move_zero.symm
  · rw [flush_of_ne_zero zero, effect?,
      Op.effect?_of_distance? (Op.distance?_motion_word pending), Option.bind_some]

theorem effect?_coalesce (p : Program) (e : Effect) : p.coalesce.effect? e = p.effect? e := by
  have same : (coalesceFrom 0 p).effect? e = (flush 0 p).effect? e := by
    apply effect?_congruence.coalesceFrom
    · intro o d pending sum moves total next e
      rw [effect?_flush, effect?_flush, effect?, Op.effect?_of_distance? moves, Option.bind_some,
        Effect.move_move, total]
    · intro o shifted pending stays shifts next e
      rw [effect?_flush, effect?, effect?, ← Op.effect?_shift? stays shifts]
      cases shifted.effect? e with
      | none => rfl
      | some e' => exact effect?_flush pending next e'
  rwa [flush_zero] at same

theorem factors?_coalesce (size : UInt32) (body : Program) :
    body.coalesce.factors? size = body.factors? size := by
  simp only [factors?, effect?_coalesce]

/-! ### The loops of a program -/

/-- A body with an effect has no loops in it. -/
theorem bodies_of_effect? {body : Program} {e e' : Effect} (h : body.effect? e = some e') :
    body.bodies = [] := by
  induction body generalizing e with
  | nil => rfl
  | op o next ih =>
    obtain ⟨middle, _, rest⟩ := Option.bind_eq_some_iff.mp h
    exact ih rest
  | loop => cases h

/-- What recognition says of each loop, at every depth and in source order. -/
def verdicts (size : UInt32) (p : Program) : List (Option Factors) :=
  p.bodies.map (factors? size)

/-- A pass that rewrites every body to one with the same verdict keeps all verdicts. -/
theorem verdicts_congr {p q : Program} {rewrite : Program → Program}
    (bodies : q.bodies = p.bodies.map rewrite)
    (kept : ∀ body : Program, (rewrite body).factors? size = body.factors? size) :
    q.verdicts size = p.verdicts size := by
  have same : factors? size ∘ rewrite = factors? size := funext kept
  rw [verdicts, verdicts, bodies, List.map_map, same]

/-- The loops that are replaced are all that are recognised: none is hidden in another. -/
theorem countedLoops_eq_reduceOption (size : UInt32) (p : Program) :
    p.countedLoops size = (p.verdicts size).reduceOption := by
  induction p with
  | nil => rfl
  | op o next ih => exact ih
  | loop body next ihBody ihNext =>
    have parts : (loop body next).verdicts size =
        body.factors? size :: (body.verdicts size ++ next.verdicts size) := by
      rw [verdicts, bodies_loop, blocks, List.cons_append, List.map_cons, List.map_append]
      rfl
    rw [parts, countedLoops]
    split
    · rename_i f recognised
      obtain ⟨e, known, _⟩ := factors?_eq_some recognised
      have inside : body.verdicts size = [] := by
        rw [verdicts, bodies_of_effect? known, List.map_nil]
      rw [recognised, inside, List.reduceOption_cons_of_some, List.nil_append, ihNext]
    · rename_i rejected
      rw [rejected, List.reduceOption_cons_of_none, List.reduceOption_append, ihBody, ihNext]

/-- Where motion is stored does not matter to recognition. A coalesced body has the effect of the
body as it was, hence the same verdict with the same factors, and so have the loops inside it. -/
theorem coalesce_keeps_recognition (size : UInt32) (body : Program) :
    body.coalesce.factors? size = body.factors? size ∧
    body.coalesce.effect? .start = body.effect? .start ∧
    body.coalesce.verdicts size = body.verdicts size := by
  refine ⟨factors?_coalesce size body, effect?_coalesce body .start, ?_⟩
  exact verdicts_congr (bodies_coalesceFrom 0 body) (factors?_coalesce size)

/-! ### Contraction before and after -/

/-- An operation that merges with nothing stays, and what is held back before it is given up. -/
theorem contractFrom_inert {o : Op} (before : ∀ earlier : Op, earlier.merge? o = none)
    (behind : ∀ later : Op, o.merge? later = none) (held : Option Op) (next : Program) :
    contractFrom held (op o next) = release held (op o next.contract) := by
  have given : contractFrom (some o) next = op o next.contract := by
    cases next with
    | nil => rfl
    | op later rest =>
      rw [contractFrom, behind later]
      rfl
    | loop body rest => rfl
  cases held with
  | none => exact given
  | some held =>
    rw [contractFrom, before held]
    exact congrArg (op held) given

theorem contractFrom_toOps (f : Factors) (held : Option Op) (next : Program) :
    contractFrom held (prepend f.toOps next) = release held (prepend f.toOps next.contract) := by
  induction f generalizing held with
  | nil => exact contractFrom_inert (Op.merge?_clear · 0) (fun _ => rfl) held next
  | cons x rest ih =>
    have first := contractFrom_inert (Op.merge?_mul · x.1 x.2 0) (fun _ => rfl) held
      (prepend (Factors.toOps rest) next)
    have others : (prepend (Factors.toOps rest) next).contract =
        prepend (Factors.toOps rest) next.contract := ih none
    rw [others] at first
    exact first

theorem contractFrom_loop (held : Option Op) (body next : Program) :
    contractFrom held (loop body next) = release held (loop body.contract next.contract) := by
  cases held <;> rfl

theorem multiplyLoops_release (held : Option Op) (p : Program) :
    (release held p).multiplyLoops size = release held (p.multiplyLoops size) := by
  cases held <;> rfl

theorem contractFrom_multiplyLoops (held : Option Op) (p : Program) :
    contractFrom held (p.multiplyLoops size) = (contractFrom held p).multiplyLoops size := by
  induction p generalizing held with
  | nil => cases held <;> rfl
  | op o next ih =>
    cases held with
    | none => exact ih (some o)
    | some held =>
      simp only [multiplyLoops, contractFrom]
      cases held.merge? o with
      | none => exact congrArg (op held) (ih (some o))
      | some merged => exact ih (some merged)
  | loop body next ihBody ihNext =>
    have inside : (body.multiplyLoops size).contract = body.contract.multiplyLoops size :=
      ihBody none
    have behind : (next.multiplyLoops size).contract = next.contract.multiplyLoops size :=
      ihNext none
    rw [contractFrom_loop, multiplyLoops_release, multiplyLoops, multiplyLoops, factors?_contract]
    cases body.factors? size with
    | some f => simp only [contractFrom_toOps, behind]
    | none => simp only [contractFrom_loop, inside, behind]

/-- Contraction and the replacement of counted loops commute. With or without contraction, each loop
has the same verdict with the same factors, and the same loops are replaced. -/
theorem contract_multiplyLoops_comm (size : UInt32) (p : Program) :
    (p.multiplyLoops size).contract = p.contract.multiplyLoops size ∧
    p.contract.verdicts size = p.verdicts size ∧
    p.contract.countedLoops size = p.countedLoops size := by
  have kept : p.contract.verdicts size = p.verdicts size :=
    verdicts_congr (bodies_contractFrom none p) (factors?_contract size)
  refine ⟨contractFrom_multiplyLoops none p, kept, ?_⟩
  rw [countedLoops_eq_reduceOption, countedLoops_eq_reduceOption, kept]

end Program
end TapeCompiler
