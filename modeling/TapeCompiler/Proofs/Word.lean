import TapeCompiler.Word

/-! Words by the numbers they stand for, and the bytes that are left of them. -/

namespace TapeCompiler.Word

/-- A number is narrowed to the word that stands for it, and to nothing else. -/
theorem narrow?_eq_some_iff {i : Int} {w : Int32} : narrow? i = some w ↔ w.toInt = i := by
  unfold narrow?
  constructor
  · intro h
    split at h
    · rename_i range
      cases h
      exact Int32.toInt_ofInt_of_le (by omega) (by omega)
    · cases h
  · rintro rfl
    have low := w.le_toInt
    have high := w.toInt_lt
    rw [if_pos (by omega), Int32.ofInt_toInt]

theorem sum?_eq_some {a b c : UInt32} (h : sum? a b = some c) :
    c = a + b ∧ c.toNat = a.toNat + b.toNat := by
  unfold sum? at h
  split at h
  · cases h
    refine ⟨rfl, ?_⟩
    rw [UInt32.toNat_add, Nat.mod_eq_of_lt (by assumption)]
  · cases h

theorem sum?_lt {a b c : UInt32} (h : sum? a b = some c) : a.toNat + b.toNat < 4294967296 := by
  rw [← (sum?_eq_some h).2]
  exact c.toNat_lt

theorem sum?_ne_zero {a b c : UInt32} (h : sum? a b = some c) (ha : a ≠ 0) : c ≠ 0 := by
  rintro rfl
  have total := (sum?_eq_some h).2
  have zero : a.toNat = 0 := by
    rw [UInt32.toNat_zero] at total
    omega
  exact ha (UInt32.toNat.inj zero)

theorem toNat_max (a b : UInt32) : (max a b).toNat = max a.toNat b.toNat := by
  change (if a ≤ b then b else a).toNat = _
  by_cases le : a ≤ b
  · rw [if_pos le]
    exact (Nat.max_eq_right (UInt32.le_iff_toNat_le.mp le)).symm
  · rw [if_neg le]
    have greater := mt UInt32.le_iff_toNat_le.mpr le
    exact (Nat.max_eq_left (Nat.le_of_not_le greater)).symm

/-! The byte of an integer is its remainder modulo 256. -/

theorem byte_natCast (n : Nat) : UInt8.ofInt n = UInt8.ofNat n := by
  apply UInt8.toNat.inj
  simp only [UInt8.ofInt, UInt8.toNat_ofNat']
  omega

theorem byte_toNat (b : UInt8) : UInt8.ofInt b.toNat = b := by
  rw [byte_natCast, UInt8.ofNat_toNat]

theorem byte_unsigned (w : UInt32) : w.toUInt8 = UInt8.ofInt w.toNat := by
  rw [byte_natCast, UInt8.ofNat_uInt32ToNat]

theorem byte_signed (w : Int32) : w.toUInt32.toUInt8 = UInt8.ofInt w.toInt := by
  have low := w.le_toInt
  have high := w.toInt_lt
  have pattern : (w.toUInt32.toNat : Int) = w.toInt % 4294967296 := by
    rw [← Int32.toNat_toBitVec, ← Int32.toInt_toBitVec, BitVec.toInt_eq_toNat_bmod]
    have := w.toBitVec.isLt
    simp only [Int.bmod]
    omega
  apply UInt8.toNat.inj
  rw [byte_unsigned]
  simp only [UInt8.ofInt, UInt8.toNat_ofNat', pattern]
  omega

theorem toNat_add_byte (b : UInt8) (i : Int) :
    ((b + UInt8.ofInt i).toNat : Int) = (b.toNat + i) % 256 := by
  have wraps : (UInt8.ofInt i).toNat = (i % 256).toNat := by
    simp only [UInt8.ofInt, UInt8.toNat_ofNat']
    omega
  rw [UInt8.toNat_add, wraps]
  omega

end TapeCompiler.Word
