import TapeCompiler.Wasm.Validate

/-!
The typing rules that validation decides. With 32-bit integers as the only values a type is a
number of operands, so code takes the stack from one height to another; behind an instruction that
never goes on, the height is free. Validation accepts exactly the code that these rules type.
-/

namespace TapeCompiler.Wasm

/-- The instruction takes `a` operands and leaves `b`. -/
inductive Instr.Typed (c : Context) : Instr → (a b : Nat) → Prop where
  | unreachable {a b : Nat} : Typed c unreachable a b
  | call {function : Nat} {t : FuncType} (found : c.callee? function = some t) :
      Typed c (call function) t.params t.results
  | localGet {index : Nat} (bound : index < c.locals) : Typed c (localGet index) 0 1
  | localSet {index : Nat} (bound : index < c.locals) : Typed c (localSet index) 1 0
  | localTee {index : Nat} (bound : index < c.locals) : Typed c (localTee index) 1 1
  | globalGet {index : Nat} {g : Global} (found : c.within.globals[index]? = some g) :
      Typed c (globalGet index) 0 1
  | globalSet {index : Nat} {g : Global} (found : c.within.globals[index]? = some g)
      (free : g.isMutable = true) : Typed c (globalSet index) 1 0
  | load8 {offset : UInt32} (memory : c.hasMemory = true) : Typed c (load8 offset) 1 1
  | store8 {offset : UInt32} (memory : c.hasMemory = true) : Typed c (store8 offset) 2 0
  | const {value : UInt32} : Typed c (const value) 0 1
  | eqz : Typed c eqz 1 1
  | geS : Typed c geS 2 1
  | add : Typed c add 2 1
  | sub : Typed c sub 2 1
  | mul : Typed c mul 2 1
  | remU : Typed c remU 2 1

/-- The code takes the stack from height `n` to height `m`, where a branch to each of `labels`,
innermost first, takes along so many operands. -/
inductive Code.Typed (c : Context) : List Nat → Nat → Code → Nat → Prop where
  | done {labels : List Nat} {n : Nat} : Typed c labels n done n
  | plain {labels : List Nat} {i : Instr} {next : Code} {a b n m : Nat} (first : i.Typed c a b)
      (rest : Typed c labels (n + b) next m) : Typed c labels (n + a) (plain i next) m
  | br {labels : List Nat} {label : Nat} {next : Code} {k n l m : Nat}
      (target : labels[label]? = some k) (rest : Typed c labels l next m) :
      Typed c labels (n + k) (br label next) m
  | brIf {labels : List Nat} {label : Nat} {next : Code} {k n m : Nat}
      (target : labels[label]? = some k) (rest : Typed c labels (n + k) next m) :
      Typed c labels (n + k + 1) (brIf label next) m
  | block {labels : List Nat} {body next : Code} {n m : Nat}
      (inner : Typed c (0 :: labels) 0 body 0) (rest : Typed c labels n next m) :
      Typed c labels n (block body next) m
  | loop {labels : List Nat} {body next : Code} {n m : Nat} (inner : Typed c (0 :: labels) 0 body 0)
      (rest : Typed c labels n next m) : Typed c labels n (loop body next) m
  | ifThen {labels : List Nat} {body next : Code} {n m : Nat}
      (inner : Typed c (0 :: labels) 0 body 0) (rest : Typed c labels n next m) :
      Typed c labels (n + 1) (ifThen body next) m
  | ifElse {labels : List Nat} {yes no next : Code} {n m : Nat}
      (inner : Typed c (0 :: labels) 0 yes 0) (other : Typed c (0 :: labels) 0 no 0)
      (rest : Typed c labels n next m) : Typed c labels (n + 1) (ifElse yes no next) m

namespace Operands

variable {o : Operands} {a b k m : Nat}

theorem exactly_is {n : Nat} : (exactly n).is m = true ↔ m = n := by
  simp only [is, beq_iff_eq]
  exact eq_comm

theorem atLeast_zero_is (n : Nat) : (atLeast 0).is n = true :=
  decide_eq_true (Nat.zero_le n)

theorem exists_exactly_is {n : Nat} {P : Nat → Prop} :
    (∃ k, (exactly n).is k = true ∧ P k) ↔ P n := by
  simp [exactly_is]

theorem pop?_is : (∃ e, o.pop? a = some e ∧ e.is m = true) ↔ o.is (m + a) = true := by
  cases o with
  | exactly n =>
    by_cases enough : a ≤ n
    · simp [pop?, enough, is]
      omega
    · simp [pop?, enough, is]
      omega
  | atLeast n =>
    simp [pop?, is]

theorem push_is : (o.push b).is m = true ↔ ∃ k, o.is k = true ∧ m = k + b := by
  cases o with
  | exactly n =>
    simp [push, is]
    omega
  | atLeast n =>
    simp only [push, is, decide_eq_true_eq]
    constructor
    · intro le
      exact ⟨m - b, by omega, by omega⟩
    · rintro ⟨k, le, rfl⟩
      omega

/-- Every stack has a height. -/
theorem exists_is (o : Operands) : ∃ n, o.is n = true := by
  cases o with
  | exactly n => exact ⟨n, by simp [is]⟩
  | atLeast n => exact ⟨n, by simp [is]⟩

theorem step?_is : (∃ e, o.step? a b = some e ∧ e.is m = true) ↔
    ∃ k, o.is (k + a) = true ∧ m = k + b := by
  constructor
  · rintro ⟨e, stepped, he⟩
    obtain ⟨e', popped, rfl⟩ := Option.map_eq_some_iff.mp stepped
    obtain ⟨k, hk, rfl⟩ := push_is.mp he
    exact ⟨k, pop?_is.mp ⟨e', popped, hk⟩, rfl⟩
  · rintro ⟨k, hk, rfl⟩
    obtain ⟨e, popped, he⟩ := pop?_is.mpr hk
    exact ⟨e.push b, by simp [step?, popped], push_is.mpr ⟨k, he, rfl⟩⟩

end Operands

variable {c : Context} {o e : Operands} {m : Nat}

namespace Instr

variable {i : Instr} {a b : Nat}

theorem Typed.check?_eq (h : i.Typed c a b) (goes : i ≠ .unreachable) (o : Operands) :
    i.check? c o = o.step? a b := by
  cases h <;> simp_all [check?]

theorem typed_of_check? (h : i.check? c o = some e) : ∃ a b, i.Typed c a b := by
  cases i with
  | unreachable => exact ⟨0, 0, .unreachable⟩
  | call function =>
    obtain ⟨t, found, _⟩ := Option.bind_eq_some_iff.mp h
    exact ⟨_, _, .call found⟩
  | localGet index => exact ⟨_, _, .localGet (Option.ite_none_right_eq_some.mp h).1⟩
  | localSet index => exact ⟨_, _, .localSet (Option.ite_none_right_eq_some.mp h).1⟩
  | localTee index => exact ⟨_, _, .localTee (Option.ite_none_right_eq_some.mp h).1⟩
  | globalGet index =>
    obtain ⟨g, found, _⟩ := Option.bind_eq_some_iff.mp h
    exact ⟨_, _, .globalGet found⟩
  | globalSet index =>
    obtain ⟨g, found, stepped⟩ := Option.bind_eq_some_iff.mp h
    exact ⟨_, _, .globalSet found (Option.ite_none_right_eq_some.mp stepped).1⟩
  | load8 offset => exact ⟨_, _, .load8 (Option.ite_none_right_eq_some.mp h).1⟩
  | store8 offset => exact ⟨_, _, .store8 (Option.ite_none_right_eq_some.mp h).1⟩
  | const value => exact ⟨_, _, .const⟩
  | eqz => exact ⟨_, _, .eqz⟩
  | geS => exact ⟨_, _, .geS⟩
  | add => exact ⟨_, _, .add⟩
  | sub => exact ⟨_, _, .sub⟩
  | mul => exact ⟨_, _, .mul⟩
  | remU => exact ⟨_, _, .remU⟩

/-- An instruction passes exactly if it has a type that the stack allows. -/
theorem check?_is : (∃ e, i.check? c o = some e ∧ e.is m = true) ↔
    ∃ a b k, i.Typed c a b ∧ o.is (k + a) = true ∧ m = k + b := by
  by_cases stops : i = .unreachable
  · subst stops
    obtain ⟨n, hn⟩ := o.exists_is
    constructor
    · intro _
      exact ⟨n, m, 0, .unreachable, by simpa using hn, by simp⟩
    · intro _
      exact ⟨.atLeast 0, rfl, Operands.atLeast_zero_is m⟩
  · constructor
    · rintro ⟨e, checked, he⟩
      obtain ⟨a, b, typed⟩ := typed_of_check? checked
      rw [typed.check?_eq stops] at checked
      obtain ⟨k, hk, rfl⟩ := Operands.step?_is.mp ⟨e, checked, he⟩
      exact ⟨a, b, k, typed, hk, rfl⟩
    · rintro ⟨a, b, k, typed, hk, rfl⟩
      rw [typed.check?_eq stops]
      exact Operands.step?_is.mpr ⟨k, hk, rfl⟩

end Instr

namespace Code

variable {labels : List Nat} {label : Nat} {i : Instr} {body yes no next code : Code}

/-- The code passes, and behind it the stack may be taken for one of `m` operands. -/
def Passes (c : Context) (labels : List Nat) (o : Operands) (code : Code) (m : Nat) : Prop :=
  ∃ e, code.check? c labels o = some e ∧ e.is m = true

/-- The body passes on the empty stack and leaves it empty. -/
def PassesInside (c : Context) (labels : List Nat) (body : Code) : Prop :=
  body.Passes c (0 :: labels) (.exactly 0) 0

/-! ### What each construct asks of its parts -/

theorem passes_plain : (plain i next).Passes c labels o m ↔
    ∃ o', i.check? c o = some o' ∧ next.Passes c labels o' m := by
  cases first : i.check? c o <;> simp [Passes, check?, first]

theorem passes_br : (br label next).Passes c labels o m ↔
    (∃ k o', labels[label]? = some k ∧ o.pop? k = some o') ∧
      next.Passes c labels (.atLeast 0) m := by
  cases target : labels[label]? with
  | none => simp [Passes, check?, target]
  | some k => cases popped : o.pop? k <;> simp [Passes, check?, target, popped]

theorem passes_brIf : (brIf label next).Passes c labels o m ↔
    ∃ o' k o'', o.pop? 1 = some o' ∧ labels[label]? = some k ∧ o'.step? k k = some o'' ∧
      next.Passes c labels o'' m := by
  cases popped : o.pop? 1 with
  | none => simp [Passes, check?, popped]
  | some o' =>
    cases target : labels[label]? with
    | none => simp [Passes, check?, popped, target]
    | some k => cases stepped : o'.step? k k <;> simp [Passes, check?, popped, target, stepped]

theorem passes_block : (block body next).Passes c labels o m ↔
    body.PassesInside c labels ∧ next.Passes c labels o m := by
  cases inner : body.check? c (0 :: labels) (.exactly 0) with
  | none => simp [PassesInside, Passes, check?, inner]
  | some e => cases empty : e.is 0 <;> simp [PassesInside, Passes, check?, inner, empty]

theorem passes_loop : (loop body next).Passes c labels o m ↔
    body.PassesInside c labels ∧ next.Passes c labels o m :=
  passes_block

theorem passes_ifThen : (ifThen body next).Passes c labels o m ↔
    ∃ o', o.pop? 1 = some o' ∧ body.PassesInside c labels ∧ next.Passes c labels o' m := by
  cases popped : o.pop? 1 with
  | none => simp [Passes, check?, popped]
  | some o' =>
    have same : (ifThen body next).check? c labels o = (block body next).check? c labels o' := by
      simp only [check?, popped]
      cases body.check? c (0 :: labels) (.exactly 0) <;> rfl
    simp only [Passes, same, Option.some.injEq, exists_eq_left']
    exact passes_block

theorem passes_ifElse : (ifElse yes no next).Passes c labels o m ↔
    ∃ o', o.pop? 1 = some o' ∧ yes.PassesInside c labels ∧ no.PassesInside c labels ∧
      next.Passes c labels o' m := by
  cases popped : o.pop? 1 with
  | none => simp [Passes, check?, popped]
  | some o' =>
    cases inner : yes.check? c (0 :: labels) (.exactly 0) with
    | none => simp [PassesInside, Passes, check?, popped, inner]
    | some e =>
      cases other : no.check? c (0 :: labels) (.exactly 0) with
      | none => simp [PassesInside, Passes, check?, popped, inner, other]
      | some f =>
        cases emptyYes : e.is 0 <;> cases emptyNo : f.is 0 <;>
          simp [PassesInside, Passes, check?, popped, inner, other, emptyYes, emptyNo]

/-! ### Passing and having a type -/

theorem Typed.passes {n : Nat} (h : code.Typed c labels n m) (hn : o.is n = true) :
    code.Passes c labels o m := by
  induction h generalizing o with
  | done => exact ⟨o, rfl, hn⟩
  | plain first _ ih =>
    obtain ⟨o', checked, ho'⟩ := Instr.check?_is.mpr ⟨_, _, _, first, hn, rfl⟩
    exact passes_plain.mpr ⟨o', checked, ih ho'⟩
  | br target _ ih =>
    obtain ⟨o', popped, _⟩ := Operands.pop?_is.mpr hn
    exact passes_br.mpr ⟨⟨_, o', target, popped⟩, ih (Operands.atLeast_zero_is _)⟩
  | brIf target _ ih =>
    obtain ⟨o', popped, ho'⟩ := Operands.pop?_is.mpr hn
    obtain ⟨o'', stepped, ho''⟩ := Operands.step?_is.mpr ⟨_, ho', rfl⟩
    exact passes_brIf.mpr ⟨o', _, o'', popped, target, stepped, ih ho''⟩
  | block _ _ ihInner ih => exact passes_block.mpr ⟨ihInner rfl, ih hn⟩
  | loop _ _ ihInner ih => exact passes_loop.mpr ⟨ihInner rfl, ih hn⟩
  | ifThen _ _ ihInner ih =>
    obtain ⟨o', popped, ho'⟩ := Operands.pop?_is.mpr hn
    exact passes_ifThen.mpr ⟨o', popped, ihInner rfl, ih ho'⟩
  | ifElse _ _ _ ihInner ihOther ih =>
    obtain ⟨o', popped, ho'⟩ := Operands.pop?_is.mpr hn
    exact passes_ifElse.mpr ⟨o', popped, ihInner rfl, ihOther rfl, ih ho'⟩

theorem Passes.typed (h : code.Passes c labels o m) :
    ∃ n, o.is n = true ∧ code.Typed c labels n m := by
  induction code generalizing labels o m with
  | done =>
    obtain ⟨e, ⟨⟩, he⟩ := h
    exact ⟨m, he, .done⟩
  | plain i next ih =>
    obtain ⟨o', checked, rest⟩ := passes_plain.mp h
    obtain ⟨n, hn, rest⟩ := ih rest
    obtain ⟨a, b, k, first, hk, rfl⟩ := Instr.check?_is.mp ⟨o', checked, hn⟩
    exact ⟨k + a, hk, .plain first rest⟩
  | br label next ih =>
    obtain ⟨⟨k, o', target, popped⟩, rest⟩ := passes_br.mp h
    obtain ⟨n, hn⟩ := o'.exists_is
    obtain ⟨l, _, rest⟩ := ih rest
    exact ⟨n + k, Operands.pop?_is.mp ⟨o', popped, hn⟩, .br target rest⟩
  | brIf label next ih =>
    obtain ⟨o', k, o'', popped, target, stepped, rest⟩ := passes_brIf.mp h
    obtain ⟨n, hn, rest⟩ := ih rest
    obtain ⟨l, hl, rfl⟩ := Operands.step?_is.mp ⟨o'', stepped, hn⟩
    exact ⟨l + k + 1, Operands.pop?_is.mp ⟨o', popped, hl⟩, .brIf target rest⟩
  | block body next ihBody ih =>
    obtain ⟨inner, rest⟩ := passes_block.mp h
    obtain ⟨n, hn, rest⟩ := ih rest
    have inner := Operands.exists_exactly_is.mp (ihBody inner)
    exact ⟨n, hn, .block inner rest⟩
  | loop body next ihBody ih =>
    obtain ⟨inner, rest⟩ := passes_loop.mp h
    obtain ⟨n, hn, rest⟩ := ih rest
    have inner := Operands.exists_exactly_is.mp (ihBody inner)
    exact ⟨n, hn, .loop inner rest⟩
  | ifThen body next ihBody ih =>
    obtain ⟨o', popped, inner, rest⟩ := passes_ifThen.mp h
    obtain ⟨n, hn, rest⟩ := ih rest
    have inner := Operands.exists_exactly_is.mp (ihBody inner)
    exact ⟨n + 1, Operands.pop?_is.mp ⟨o', popped, hn⟩, .ifThen inner rest⟩
  | ifElse yes no next ihYes ihNo ih =>
    obtain ⟨o', popped, inner, other, rest⟩ := passes_ifElse.mp h
    obtain ⟨n, hn, rest⟩ := ih rest
    have inner := Operands.exists_exactly_is.mp (ihYes inner)
    have other := Operands.exists_exactly_is.mp (ihNo other)
    exact ⟨n + 1, Operands.pop?_is.mp ⟨o', popped, hn⟩, .ifElse inner other rest⟩

theorem typed_iff_check? {n : Nat} : code.Typed c labels n m ↔
    ∃ e, code.check? c labels (.exactly n) = some e ∧ e.is m = true := by
  constructor
  · intro typed
    exact typed.passes (Operands.exactly_is.mpr rfl)
  · intro passes
    obtain ⟨k, hk, typed⟩ := Passes.typed passes
    rwa [Operands.exactly_is.mp hk] at typed

end Code

/-- A body is valid exactly if it takes the empty stack to its results. -/
theorem Body.isValid_iff {within : Module} {t : FuncType} {b : Body} : b.isValid within t = true ↔
    b.code.Typed ⟨within, t.params + b.locals⟩ [t.results] 0 t.results := by
  rw [Code.typed_iff_check?]
  unfold isValid
  cases b.code.check? ⟨within, t.params + b.locals⟩ [t.results] (.exactly 0) with
  | none => simp
  | some o => simp

end TapeCompiler.Wasm
