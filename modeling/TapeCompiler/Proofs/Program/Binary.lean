import TapeCompiler.Program.Binary

/-!
The binary form of programs is canonical. Every reader of it is exact: it takes `x` from the front
of the bytes precisely where the bytes start with what is written for `x`, and leaves what follows.
Exact readers follow one another, so a whole program is read precisely where its binary form stands
(`leaves_iff`), whatever the declared lengths are and whatever comes behind.

Lengths are written in eight bytes. A program with a longer sequence has no binary form of its own,
so `LengthsFit` asks for shorter ones.
-/

namespace TapeCompiler

namespace Binary

variable {α β : Type} {width n : Nat} {bytes rest : List UInt8}

theorem bind_eq_ok {first : Except DecodeError (α × List UInt8)}
    {next : α × List UInt8 → Except DecodeError β} {y : β} :
    first >>= next = .ok y ↔ ∃ x rest, first = .ok (x, rest) ∧ next (x, rest) = .ok y := by
  constructor
  · intro h
    cases first with
    | error e => cases h
    | ok a => exact ⟨a.1, a.2, rfl, h⟩
  · rintro ⟨x, rest, rfl, h⟩
    exact h

theorem pure_eq_ok {x y : α} :
    (pure (x, rest) : Except DecodeError (α × List UInt8)) = .ok (y, bytes) ↔
      y = x ∧ bytes = rest := by
  constructor
  · intro h
    cases h
    exact ⟨rfl, rfl⟩
  · rintro ⟨rfl, rfl⟩
    rfl

/-- How many numbers `width` bytes can tell apart. -/
def capacity : (width : Nat) → Nat
  | 0 => 1
  | width + 1 => 256 * capacity width

theorem length_encodeNat (width n : Nat) : (encodeNat width n).length = width := by
  induction width generalizing n with
  | zero => rfl
  | succ width ih => rw [encodeNat, List.length_cons, ih]

theorem decodeNat_eq_ok_iff :
    decodeNat width bytes = .ok (n, rest) ↔
      n < capacity width ∧ bytes = encodeNat width n ++ rest := by
  induction width generalizing n bytes with
  | zero =>
    constructor
    · intro h
      cases h
      exact ⟨Nat.zero_lt_one, rfl⟩
    · rintro ⟨small, rfl⟩
      obtain rfl : n = 0 := Nat.lt_one_iff.mp small
      rfl
  | succ width ih =>
    rw [capacity]
    cases bytes with
    | nil =>
      constructor
      · intro h
        cases h
      · rintro ⟨_, split⟩
        cases split
    | cons b bytes =>
      have low := b.toNat_lt
      constructor
      · intro h
        obtain ⟨high, rest', read, made⟩ := bind_eq_ok.mp h
        obtain ⟨rfl, rfl⟩ := pure_eq_ok.mp made
        obtain ⟨small, rfl⟩ := ih.mp read
        have remainder : (b.toNat + 256 * high) % 256 = b.toNat := by omega
        have quotient : (b.toNat + 256 * high) / 256 = high := by omega
        refine ⟨by omega, ?_⟩
        rw [encodeNat, remainder, quotient, UInt8.ofNat_toNat]
        rfl
      · rintro ⟨small, split⟩
        obtain ⟨rfl, rfl⟩ := List.cons.inj split
        have high : decodeNat width (encodeNat width (n / 256) ++ rest) = .ok (n / 256, rest) :=
          ih.mpr ⟨by omega, rfl⟩
        have digit : (UInt8.ofNat (n % 256)).toNat = n % 256 :=
          UInt8.toNat_ofNat_of_lt' (Nat.mod_lt n (by decide))
        refine bind_eq_ok.mpr ⟨_, _, high, pure_eq_ok.mpr ⟨?_, rfl⟩⟩
        rw [digit, Nat.mod_add_div]

theorem decodeUnsigned_eq_ok_iff {w : UInt32} :
    decodeUnsigned bytes = .ok (w, rest) ↔ bytes = encodeUnsigned w ++ rest := by
  unfold decodeUnsigned
  simp only [bind_eq_ok, pure_eq_ok, decodeNat_eq_ok_iff]
  constructor
  · rintro ⟨n, _, ⟨small, rfl⟩, rfl, rfl⟩
    rw [encodeUnsigned, UInt32.toNat_ofNat_of_lt' small]
  · rintro rfl
    exact ⟨w.toNat, rest, ⟨w.toNat_lt, rfl⟩, UInt32.ofNat_toNat.symm, rfl⟩

theorem decodeSigned_eq_ok_iff {i : Int32} :
    decodeSigned bytes = .ok (i, rest) ↔ bytes = encodeSigned i ++ rest := by
  unfold decodeSigned
  simp only [bind_eq_ok, pure_eq_ok, decodeUnsigned_eq_ok_iff]
  constructor
  · rintro ⟨w, _, rfl, rfl, rfl⟩
    rfl
  · rintro rfl
    exact ⟨i.toUInt32, rest, rfl, rfl, rfl⟩

end Binary

open Binary

namespace Op

/-- The index of an operation among the kinds of instructions. -/
def kind : Op → Nat
  | right _ => 0
  | left _ => 1
  | add _ _ => 2
  | sub _ _ => 3
  | mul _ _ _ => 4
  | clear _ => 5
  | output _ => 6
  | input _ => 7

/-- What is written behind the kind. -/
def fields : Op → List UInt8
  | right count => encodeUnsigned count
  | left count => encodeUnsigned count
  | add amount o => encodeUnsigned amount ++ encodeSigned o
  | sub amount o => encodeUnsigned amount ++ encodeSigned o
  | mul dest factor source => encodeSigned dest ++ (encodeSigned factor ++ encodeSigned source)
  | clear o => encodeSigned o
  | output o => encodeSigned o
  | input o => encodeSigned o

theorem encode_eq (o : Op) : o.encode = encodeNat 4 o.kind ++ o.fields := by
  cases o <;> simp only [encode, kind, fields, List.append_assoc]

theorem kind_lt (o : Op) : o.kind < Program.loopKind := by
  cases o <;> simp only [kind, Program.loopKind, Nat.reduceLT]

variable {index : Nat} {o : Op} {bytes rest : List UInt8}

/-- The fields of an operation are read behind its own kind only. -/
theorem decodeFields_eq_ok_iff :
    decodeFields index bytes = .ok (o, rest) ↔ index = o.kind ∧ bytes = o.fields ++ rest := by
  constructor
  · intro h
    unfold decodeFields at h
    split at h <;> simp only [bind_eq_ok, pure_eq_ok, decodeUnsigned_eq_ok_iff,
      decodeSigned_eq_ok_iff, reduceCtorEq] at h
    · obtain ⟨count, _, rfl, rfl, rfl⟩ := h
      exact ⟨rfl, rfl⟩
    · obtain ⟨count, _, rfl, rfl, rfl⟩ := h
      exact ⟨rfl, rfl⟩
    · obtain ⟨amount, _, rfl, offset, _, rfl, rfl, rfl⟩ := h
      exact ⟨rfl, (List.append_assoc _ _ _).symm⟩
    · obtain ⟨amount, _, rfl, offset, _, rfl, rfl, rfl⟩ := h
      exact ⟨rfl, (List.append_assoc _ _ _).symm⟩
    · obtain ⟨dest, _, rfl, factor, _, rfl, source, _, rfl, rfl, rfl⟩ := h
      exact ⟨rfl, by simp only [fields, List.append_assoc]⟩
    · obtain ⟨offset, _, rfl, rfl, rfl⟩ := h
      exact ⟨rfl, rfl⟩
    · obtain ⟨offset, _, rfl, rfl, rfl⟩ := h
      exact ⟨rfl, rfl⟩
    · obtain ⟨offset, _, rfl, rfl, rfl⟩ := h
      exact ⟨rfl, rfl⟩
  · rintro ⟨rfl, rfl⟩
    cases o <;> simp only [decodeFields, kind, fields, bind_eq_ok, pure_eq_ok,
      decodeUnsigned_eq_ok_iff, decodeSigned_eq_ok_iff, List.append_assoc]
    · exact ⟨_, _, rfl, rfl, rfl⟩
    · exact ⟨_, _, rfl, rfl, rfl⟩
    · exact ⟨_, _, rfl, _, _, rfl, rfl, rfl⟩
    · exact ⟨_, _, rfl, _, _, rfl, rfl, rfl⟩
    · exact ⟨_, _, rfl, _, _, rfl, _, _, rfl, rfl, rfl⟩
    · exact ⟨_, _, rfl, rfl, rfl⟩
    · exact ⟨_, _, rfl, rfl, rfl⟩
    · exact ⟨_, _, rfl, rfl, rfl⟩

end Op

namespace Program

/-- The bodies of all loops have lengths that eight bytes can hold. -/
def BodiesFit : Program → Prop
  | nil => True
  | op _ next => next.BodiesFit
  | loop body next => body.length < 18446744073709551616 ∧ body.BodiesFit ∧ next.BodiesFit

/-- Every sequence, at the top level and in the loops, has a length that eight bytes can hold. -/
def LengthsFit (p : Program) : Prop :=
  p.length < 18446744073709551616 ∧ p.BodiesFit

variable {p : Program} {fuel n : Nat} {bytes rest : List UInt8}

theorem length_le_count (p : Program) : p.length ≤ p.count := by
  induction p with
  | nil => exact Nat.le_refl 0
  | op o next ih =>
    simp only [length, count]
    omega
  | loop body next _ ih =>
    simp only [length, count]
    omega

/-- A sequence is no longer than the program has instructions. -/
theorem lengthsFit_of_count_lt (small : p.count < 18446744073709551616) : p.LengthsFit := by
  have bodies : p.BodiesFit := by
    induction p with
    | nil => trivial
    | op o next ih =>
      simp only [count] at small
      exact ih (by omega)
    | loop body next ihBody ihNext =>
      simp only [count] at small
      have inner := length_le_count body
      exact ⟨by omega, ihBody (by omega), ihNext (by omega)⟩
  exact ⟨Nat.lt_of_le_of_lt (length_le_count p) small, bodies⟩

theorem decodeItems_zero : decodeItems fuel 0 bytes = .ok (nil, bytes) := by
  cases fuel <;> rfl

/-- What is read was written for the program that was made of it. -/
theorem decodeItems_sound (h : decodeItems fuel n bytes = .ok (p, rest)) :
    p.length = n ∧ p.BodiesFit ∧ bytes = p.encodeItems ++ rest := by
  induction fuel generalizing n bytes p rest with
  | zero =>
    cases n with
    | zero =>
      cases h
      exact ⟨rfl, trivial, rfl⟩
    | succ n => cases h
  | succ fuel ih =>
    cases n with
    | zero =>
      cases h
      exact ⟨rfl, trivial, rfl⟩
    | succ n =>
      obtain ⟨index, _, readKind, item⟩ := bind_eq_ok.mp h
      obtain ⟨_, rfl⟩ := decodeNat_eq_ok_iff.mp readKind
      dsimp only at item
      split at item
      · rename_i isLoop
        obtain ⟨inner, _, readLength, item⟩ := bind_eq_ok.mp item
        obtain ⟨body, _, readBody, item⟩ := bind_eq_ok.mp item
        obtain ⟨next, _, readNext, made⟩ := bind_eq_ok.mp item
        obtain ⟨rfl, rfl⟩ := pure_eq_ok.mp made
        obtain ⟨small, rfl⟩ := decodeNat_eq_ok_iff.mp readLength
        obtain ⟨rfl, bodyFits, rfl⟩ := ih readBody
        obtain ⟨rfl, nextFits, rfl⟩ := ih readNext
        refine ⟨rfl, ⟨small, bodyFits, nextFits⟩, ?_⟩
        simp only [encodeItems, isLoop, List.append_assoc]
      · obtain ⟨o, _, readFields, item⟩ := bind_eq_ok.mp item
        obtain ⟨next, _, readNext, made⟩ := bind_eq_ok.mp item
        obtain ⟨rfl, rfl⟩ := pure_eq_ok.mp made
        obtain ⟨rfl, rfl⟩ := Op.decodeFields_eq_ok_iff.mp readFields
        obtain ⟨rfl, nextFits, rfl⟩ := ih readNext
        refine ⟨rfl, nextFits, ?_⟩
        simp only [encodeItems, Op.encode_eq, List.append_assoc]

/-- What was written for a program is read as that program, with fuel for its instructions. -/
theorem decodeItems_encodeItems (fits : p.BodiesFit) (enough : p.count ≤ fuel)
    (rest : List UInt8) : decodeItems fuel p.length (p.encodeItems ++ rest) = .ok (p, rest) := by
  induction p generalizing fuel rest with
  | nil => exact decodeItems_zero
  | op o next ih =>
    simp only [count] at enough
    obtain ⟨fuel, rfl⟩ : ∃ k, fuel = k + 1 := ⟨fuel - 1, by omega⟩
    have below := o.kind_lt
    have readKind : decodeNat 4 ((op o next).encodeItems ++ rest) =
        .ok (o.kind, o.fields ++ (next.encodeItems ++ rest)) := by
      refine decodeNat_eq_ok_iff.mpr ⟨Nat.lt_trans below (by decide), ?_⟩
      simp only [encodeItems, Op.encode_eq, List.append_assoc]
    have others := ih fits (show next.count ≤ fuel by omega) rest
    refine bind_eq_ok.mpr ⟨_, _, readKind, ?_⟩
    dsimp only
    rw [if_neg (Nat.ne_of_lt below)]
    refine bind_eq_ok.mpr ⟨_, _, Op.decodeFields_eq_ok_iff.mpr ⟨rfl, rfl⟩, ?_⟩
    exact bind_eq_ok.mpr ⟨_, _, others, rfl⟩
  | loop body next ihBody ihNext =>
    obtain ⟨small, bodyFits, nextFits⟩ := fits
    simp only [count] at enough
    obtain ⟨fuel, rfl⟩ : ∃ k, fuel = k + 1 := ⟨fuel - 1, by omega⟩
    have readKind : decodeNat 4 ((loop body next).encodeItems ++ rest) =
        .ok (loopKind, encodeNat 8 body.length ++
          (body.encodeItems ++ (next.encodeItems ++ rest))) := by
      refine decodeNat_eq_ok_iff.mpr ⟨by decide, ?_⟩
      simp only [encodeItems, List.append_assoc]
    have inner := ihBody bodyFits (show body.count ≤ fuel by omega) (next.encodeItems ++ rest)
    have others := ihNext nextFits (show next.count ≤ fuel by omega) rest
    refine bind_eq_ok.mpr ⟨_, _, readKind, ?_⟩
    dsimp only
    rw [if_pos rfl]
    refine bind_eq_ok.mpr ⟨_, _, decodeNat_eq_ok_iff.mpr ⟨small, rfl⟩, ?_⟩
    refine bind_eq_ok.mpr ⟨_, _, inner, ?_⟩
    exact bind_eq_ok.mpr ⟨_, _, others, rfl⟩

/-- Every instruction takes a byte at least, so the bytes are fuel enough. -/
theorem count_le_length_encodeItems (p : Program) : p.count ≤ p.encodeItems.length := by
  induction p with
  | nil => exact Nat.le_refl 0
  | op o next ih =>
    simp only [count, encodeItems, Op.encode_eq, List.length_append, length_encodeNat]
    omega
  | loop body next ihBody ihNext =>
    simp only [count, encodeItems, List.length_append, length_encodeNat]
    omega

/-- Reading takes `p` from the front of `bytes` and leaves `rest`. -/
def Leaves (bytes : List UInt8) (p : Program) (rest : List UInt8) : Prop :=
  ∃ n items, decodeNat 8 bytes = .ok (n, items) ∧
    decodeItems bytes.length n items = .ok (p, rest)

theorem decode_eq_ok_iff_leaves : decode bytes = .ok p ↔ ∃ rest, Leaves bytes p rest := by
  unfold decode
  simp only [bind_eq_ok]
  constructor
  · rintro ⟨n, items, readLength, q, rest, readItems, made⟩
    cases made
    exact ⟨rest, n, items, readLength, readItems⟩
  · rintro ⟨rest, n, items, readLength, readItems⟩
    exact ⟨n, items, readLength, p, rest, readItems, rfl⟩

/-- A program is taken precisely where its binary form stands. -/
theorem leaves_iff : Leaves bytes p rest ↔ p.LengthsFit ∧ bytes = p.encode ++ rest := by
  constructor
  · rintro ⟨n, items, readLength, readItems⟩
    obtain ⟨small, rfl⟩ := decodeNat_eq_ok_iff.mp readLength
    obtain ⟨rfl, bodies, rfl⟩ := decodeItems_sound readItems
    refine ⟨⟨small, bodies⟩, ?_⟩
    rw [encode, List.append_assoc]
  · rintro ⟨⟨small, bodies⟩, rfl⟩
    have enough : p.count ≤ (p.encode ++ rest).length := by
      have items := count_le_length_encodeItems p
      simp only [encode, List.length_append]
      omega
    refine ⟨p.length, p.encodeItems ++ rest, ?_, decodeItems_encodeItems bodies enough rest⟩
    exact decodeNat_eq_ok_iff.mpr ⟨small, by rw [encode, List.append_assoc]⟩

theorem decode_eq_ok_iff : decode bytes = .ok p ↔ p.LengthsFit ∧ p.encode <+: bytes := by
  rw [decode_eq_ok_iff_leaves]
  constructor
  · rintro ⟨rest, leaves⟩
    obtain ⟨fits, rfl⟩ := leaves_iff.mp leaves
    exact ⟨fits, List.prefix_append _ _⟩
  · rintro ⟨fits, rest, rfl⟩
    exact ⟨rest, leaves_iff.mpr ⟨fits, rfl⟩⟩

/-- The binary form is canonical and says itself where it ends. A program is read from bytes exactly
if they start with its binary form, whatever follows. What was read, written again, is what was
taken from the bytes. No binary form starts with that of another program. -/
theorem decode_canonical (bytes : List UInt8) (p : Program) (fits : p.LengthsFit) :
    (decode bytes = .ok p ↔ p.encode <+: bytes) ∧
    (∀ rest, decode (p.encode ++ rest) = .ok p) ∧
    (∀ q, decode bytes = .ok q →
      q.LengthsFit ∧ ∃ rest, Leaves bytes q rest ∧ bytes = q.encode ++ rest) ∧
    ∀ q : Program, q.LengthsFit → q.encode <+: p.encode → q = p := by
  have whole : decode p.encode = .ok p := decode_eq_ok_iff.mpr ⟨fits, List.prefix_refl _⟩
  refine ⟨?_, ?_, ?_, ?_⟩
  · rw [decode_eq_ok_iff]
    exact and_iff_right fits
  · intro rest
    exact decode_eq_ok_iff.mpr ⟨fits, List.prefix_append _ _⟩
  · intro q read
    obtain ⟨rest, leaves⟩ := decode_eq_ok_iff_leaves.mp read
    obtain ⟨qFits, split⟩ := leaves_iff.mp leaves
    exact ⟨qFits, rest, leaves, split⟩
  · intro q qFits starts
    have read : decode p.encode = .ok q := decode_eq_ok_iff.mpr ⟨qFits, starts⟩
    rw [whole] at read
    exact (Except.ok.inj read).symm

/-- Negative fields in a loop within a loop, with bytes behind that would start another program. -/
theorem decode_canonical_nested :
    let p := loop (op (.mul (-2147483648) (-1) 7) (loop (op (.left 4294967295) nil) nil)) nil
    p.LengthsFit ∧ decode (p.encode ++ [1, 0, 0, 0, 0, 0, 0, 0, 9]) = .ok p :=
  have fits := lengthsFit_of_count_lt (by decide)
  ⟨fits, (decode_canonical [] _ fits).2.1 _⟩

example : (loop (op (.sub 1 (-2)) nil) nil).encode =
    [1, 0, 0, 0, 0, 0, 0, 0, 8, 0, 0, 0, 1, 0, 0, 0, 0, 0, 0, 0,
      3, 0, 0, 0, 1, 0, 0, 0, 254, 255, 255, 255] := by decide

end Program
end TapeCompiler
