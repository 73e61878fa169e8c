import TapeCompiler.Wasm.Leb128

/-! Reading a variable-length integer gives back what was written, whatever follows. -/

namespace TapeCompiler.Wasm.Leb128

variable {limit n width : Nat} {bytes rest : List UInt8}

theorem shift_seven (k : Nat) : 1 <<< (k + 7) = 128 * 1 <<< k := by
  rw [Nat.shiftLeft_add, Nat.shiftLeft_eq _ 7, Nat.mul_comm]

/-- A number below 128 is the last byte. -/
theorem groups?_last (small : n < 128) (limit : Nat) (rest : List UInt8) :
    groups? (limit + 1) (UInt8.ofNat n :: rest) = some ((n, 1), rest) := by
  have value : (UInt8.ofNat n).toNat = n := UInt8.toNat_ofNat_of_lt' (show n < 256 by omega)
  have last : UInt8.ofNat n < 128 := by
    rw [UInt8.lt_iff_toNat_lt, value]
    exact small
  simp only [groups?, if_pos last, value]

theorem groups?_more (small : n < 128) {m : Nat}
    (h : groups? limit bytes = some ((m, width), rest)) :
    groups? (limit + 1) (UInt8.ofNat (n + 128) :: bytes) =
      some ((n + 128 * m, width + 1), rest) := by
  have value : (UInt8.ofNat (n + 128)).toNat = n + 128 :=
    UInt8.toNat_ofNat_of_lt' (show n + 128 < 256 by omega)
  have more : ¬ UInt8.ofNat (n + 128) < 128 := by
    rw [UInt8.lt_iff_toNat_lt, value]
    exact Nat.not_lt.mpr (Nat.le_add_left 128 n)
  simp only [groups?, if_neg more, value, h, Option.bind_eq_bind, Option.bind_some, Option.pure_def,
    Nat.add_sub_cancel]

theorem groups?_encodeFrom {fuel : Nat} (enough : n ≤ fuel) (bound : n < 1 <<< (7 * (limit + 1)))
    (rest : List UInt8) :
    ∃ width, groups? (limit + 1) (encodeFrom fuel n ++ rest) = some ((n, width), rest) := by
  induction fuel generalizing n limit with
  | zero => exact ⟨1, groups?_last (by omega) limit rest⟩
  | succ fuel ih =>
    unfold encodeFrom
    by_cases small : n < 128
    · rw [if_pos small]
      exact ⟨1, groups?_last small limit rest⟩
    · rw [if_neg small]
      cases limit with
      | zero => omega
      | succ limit =>
        rw [Nat.mul_succ, shift_seven] at bound
        have smaller : n / 128 < 1 <<< (7 * (limit + 1)) := by omega
        obtain ⟨width, read⟩ := ih (by omega) smaller
        have step := groups?_more (Nat.mod_lt n (by decide)) read
        rw [Nat.mod_add_div] at step
        exact ⟨width + 1, step⟩

theorem decode?_encode (bound : n < 4294967296) (rest : List UInt8) :
    decode? (encode n ++ rest) = some (n, rest) := by
  have fits : n < 1 <<< (7 * (4 + 1)) := Nat.lt_trans bound (by decide)
  obtain ⟨width, read⟩ := groups?_encodeFrom (Nat.le_refl n) fits rest
  simp [decode?, encode, read, bound]

/-- A number of more than `limit` groups is not read. -/
theorem groups?_encodeFrom_none {fuel : Nat} (enough : n ≤ fuel) (large : 1 <<< (7 * limit) ≤ n)
    (rest : List UInt8) : groups? limit (encodeFrom fuel n ++ rest) = none := by
  induction limit generalizing fuel n with
  | zero => rfl
  | succ limit ih =>
    rw [Nat.mul_succ, shift_seven] at large
    have positive : 0 < 1 <<< (7 * limit) := by
      rw [Nat.one_shiftLeft]
      exact Nat.two_pow_pos _
    obtain ⟨fuel, rfl⟩ : ∃ k, fuel = k + 1 := ⟨fuel - 1, by omega⟩
    have higher := ih (show n / 128 ≤ fuel by omega) (by omega)
    have more : ¬ UInt8.ofNat (n % 128 + 128) < 128 := by
      rw [UInt8.lt_iff_toNat_lt, UInt8.toNat_ofNat_of_lt' (show n % 128 + 128 < 256 by omega)]
      exact Nat.not_lt.mpr (Nat.le_add_left 128 _)
    rw [encodeFrom, if_neg (by omega), List.cons_append, groups?, if_neg more, higher]
    rfl

/-- Only 32-bit numbers are read. -/
theorem decode?_encode_none (large : 4294967296 ≤ n) (rest : List UInt8) :
    decode? (encode n ++ rest) = none := by
  by_cases fits : n < 1 <<< (7 * (4 + 1))
  · obtain ⟨width, read⟩ := groups?_encodeFrom (Nat.le_refl n) fits rest
    simp [decode?, encode, read, Nat.not_lt.mpr large]
  · have unread := groups?_encodeFrom_none (Nat.le_refl n) (Nat.not_lt.mp fits) rest
    simp [decode?, encode, unread]

theorem length_encode_le (n : Nat) : (encode n).length ≤ n + 1 := by
  have bound (fuel n : Nat) : (encodeFrom fuel n).length ≤ fuel + 1 := by
    induction fuel generalizing n with
    | zero => exact Nat.le_refl 1
    | succ fuel ih =>
      unfold encodeFrom
      split
      · exact Nat.le_add_left 1 _
      · exact Nat.succ_le_succ (ih _)
  exact bound n n

theorem encode_ne_nil (n : Nat) : encode n ≠ [] := by
  unfold encode
  cases n <;> unfold encodeFrom
  · simp
  · split <;> simp

/-- The bits of a negative number are read as if all higher ones were clear. -/
theorem groups?_encodeSignedFrom {fuel : Nat} {i : Int} (low : -(1 <<< (7 * fuel + 6) : Nat) ≤ i)
    (high : i < (1 <<< (7 * fuel + 6) : Nat)) (rest : List UInt8) :
    ∃ n k : Nat, groups? (fuel + 1) (encodeSignedFrom fuel i ++ rest) = some ((n, k + 1), rest) ∧
      -(1 <<< (7 * k + 6) : Nat) ≤ i ∧ i < (1 <<< (7 * k + 6) : Nat) ∧
      (n : Int) = if 0 ≤ i then i else i + 2 * (1 <<< (7 * k + 6) : Nat) := by
  have below : (i % 128).toNat < 128 := by omega
  have half : 1 <<< (7 * 0 + 6) = 64 := rfl
  induction fuel generalizing i with
  | zero =>
    refine ⟨_, 0, groups?_last below 0 rest, low, high, ?_⟩
    rw [half] at low high ⊢
    split <;> omega
  | succ fuel ih =>
    unfold encodeSignedFrom
    by_cases small : -64 ≤ i ∧ i < 64
    · rw [if_pos small]
      refine ⟨_, 0, groups?_last below _ rest, ?_⟩
      rw [half]
      refine ⟨by omega, by omega, ?_⟩
      split <;> omega
    · rw [if_neg small]
      rw [show 7 * (fuel + 1) + 6 = 7 * fuel + 6 + 7 by omega, shift_seven] at low high
      obtain ⟨n, k, read, low', high', value⟩ := ih (i := i / 128) (by omega) (by omega) (by omega)
      refine ⟨_, k + 1, groups?_more below read, ?_⟩
      rw [show 7 * (k + 1) + 6 = 7 * k + 6 + 7 by omega, shift_seven]
      refine ⟨by omega, by omega, ?_⟩
      split at value
      · rw [if_pos (by omega)]
        omega
      · rw [if_neg (by omega)]
        omega

theorem decodeWord?_encodeWord (w : UInt32) (rest : List UInt8) :
    decodeWord? (encodeWord w ++ rest) = some (w, rest) := by
  have low := w.toInt32.le_toInt
  have high := w.toInt32.toInt_lt
  have wide : -(1 <<< (7 * 4 + 6) : Nat) ≤ w.toInt32.toInt ∧
      w.toInt32.toInt < (1 <<< (7 * 4 + 6) : Nat) := by
    rw [show 1 <<< (7 * 4 + 6) = 17179869184 from rfl]
    omega
  obtain ⟨n, k, read, low', high', value⟩ := groups?_encodeSignedFrom wide.1 wide.2 rest
  have full : 1 <<< (7 * (k + 1)) = 2 * 1 <<< (7 * k + 6) := by
    rw [show 7 * (k + 1) = 7 * k + 6 + 1 by omega, Nat.shiftLeft_succ]
  have signed : (if n < 1 <<< (7 * (k + 1) - 1) then (n : Int)
      else n - (1 <<< (7 * (k + 1)) : Nat)) = w.toInt32.toInt := by
    rw [full, show 7 * (k + 1) - 1 = 7 * k + 6 by omega]
    split at value
    · rw [if_pos (by omega)]
      exact value
    · rw [if_neg (by omega)]
      omega
  simp only [decodeWord?, encodeWord, read, Option.bind_eq_bind, Option.bind_some, signed]
  rw [if_pos ⟨low, high⟩, Int32.ofInt_toInt]
  rfl

end TapeCompiler.Wasm.Leb128
