import Mathlib.Algebra.Order.Floor.Div
import MemoryManager.Address.Rounding
import MemoryManager.Bits

namespace MemoryManager

theorem isPowerOfTwo_iff {a : UInt64} : isPowerOfTwo a = true ↔ a.toNat.isPowerOfTwo := by
  rw [isPowerOfTwo, Bool.and_eq_true, bne_iff_ne, beq_iff_eq, ← UInt64.toNat_inj, UInt64.toNat_and]
  by_cases hzero : a = 0
  · subst hzero
    simp [Nat.isPowerOfTwo, (Nat.two_pow_pos _).ne]
  · have hpos : a.toNat ≠ 0 := fun h => hzero (UInt64.toNat_inj.mp h)
    have hone : (1 : UInt64) ≤ a := by
      rw [UInt64.le_iff_toNat_le, UInt64.toNat_one]
      exact Nat.one_le_iff_ne_zero.mpr hpos
    rw [UInt64.toNat_sub_of_le _ _ hone, UInt64.toNat_one, UInt64.toNat_zero,
      Nat.and_sub_one_eq_zero_iff_isPowerOfTwo hpos]
    exact and_iff_right hzero

theorem toNat_sub_one_of_two_pow {align : UInt64} {k : Nat} (ha : align.toNat = 2 ^ k) :
    (align - 1).toNat = 2 ^ k - 1 := by
  have hpos : 0 < 2 ^ k := Nat.two_pow_pos k
  rw [UInt64.toNat_sub_of_le, ha, UInt64.toNat_one]
  rw [UInt64.le_iff_toNat_le, ha]
  exact hpos

/-- Without its bits below a power of two, a word is the multiple of the power below it. -/
theorem toNat_and_not {align : UInt64} {k : Nat} (ha : align.toNat = 2 ^ k) (v : UInt64) :
    (v &&& ~~~(align - 1)).toNat = v.toNat / 2 ^ k * 2 ^ k := by
  have hlow := toNat_sub_one_of_two_pow ha
  apply Nat.eq_of_testBit_eq
  intro i
  rw [UInt64.toNat_and, Nat.testBit_and, Nat.testBit_mul_two_pow, Nat.testBit_div_two_pow]
  by_cases hi : i < 64
  · rw [Bits.testBit_not _ _ hi, hlow, Nat.testBit_two_pow_sub_one]
    by_cases low : i < k
    · simp [low, Nat.not_le.mpr low]
    · simp [low, Nat.not_lt.mp low, Nat.sub_add_cancel (Nat.not_lt.mp low)]
  · rw [Bits.testBit_of_lt v.toNat_lt (Nat.not_lt.mp hi), Bool.false_and]
    by_cases low : k ≤ i
    · rw [Nat.sub_add_cancel low, Bits.testBit_of_lt v.toNat_lt (Nat.not_lt.mp hi), Bool.and_false]
    · simp [low]

/-- Rounding up ends with a value if the sum that it takes is a word. -/
theorem alignUp_eq_ok_iff {align : UInt64} {k : Nat} (ha : align.toNat = 2 ^ k) {v w : UInt64} :
    alignUp v align = .ok w ↔
      v.toNat + (2 ^ k - 1) < 2 ^ 64 ∧ w.toNat = (v.toNat + (2 ^ k - 1)) / 2 ^ k * 2 ^ k := by
  have hlow := toNat_sub_one_of_two_pow ha
  rw [alignUp, if_pos (isPowerOfTwo_iff.mpr ⟨k, ha⟩), sum, hlow]
  constructor
  · intro h
    split at h
    · rename_i lt
      refine ⟨lt, ?_⟩
      rw [← Except.ok.inj h, toNat_and_not ha, UInt64.toNat_add, hlow, Nat.mod_eq_of_lt lt]
    · cases h
  · intro hparts
    obtain ⟨lt, hw⟩ := hparts
    rw [if_pos (show v.toNat + (2 ^ k - 1) < UInt64.size from lt)]
    refine congrArg Except.ok (UInt64.toNat_inj.mp ?_)
    rw [toNat_and_not ha, UInt64.toNat_add, hlow, Nat.mod_eq_of_lt lt, hw]

theorem alignUp_of_overflow {align : UInt64} {k : Nat} (ha : align.toNat = 2 ^ k) {v : UInt64}
    (h : 2 ^ 64 ≤ v.toNat + (2 ^ k - 1)) : alignUp v align = .error (.overflow .addition) := by
  rw [← toNat_sub_one_of_two_pow ha] at h
  have hsum : sum v (align - 1) = .error (.overflow .addition) := if_neg (Nat.not_lt.mpr h)
  rw [alignUp, if_pos (isPowerOfTwo_iff.mpr ⟨k, ha⟩), hsum]
  rfl

theorem alignUp_pageSize_eq_ok_iff {v w : UInt64} :
    alignUp v pageSize = .ok w ↔
      v.toNat + 4095 < 2 ^ 64 ∧ w.toNat = (v.toNat + 4095) / 4096 * 4096 :=
  alignUp_eq_ok_iff (k := 12) rfl

theorem alignUp_pageSize_of_overflow {v : UInt64} (h : 2 ^ 64 ≤ v.toNat + 4095) :
    alignUp v pageSize = .error (.overflow .addition) :=
  alignUp_of_overflow (k := 12) rfl h

theorem isGreatest_multiple (d n : Nat) : IsGreatest {m | d ∣ m ∧ m ≤ n} (n / d * d) := by
  constructor
  · exact ⟨Nat.dvd_mul_left .., Nat.div_mul_le_self n d⟩
  · rintro m ⟨hdvd, hle⟩
    rw [← Nat.div_mul_cancel hdvd]
    exact Nat.mul_le_mul_right d (Nat.div_le_div_right hle)

theorem isLeast_multiple {d : Nat} (hd : 0 < d) (n : Nat) :
    IsLeast {m | d ∣ m ∧ n ≤ m} (n ⌈/⌉ d * d) := by
  constructor
  · refine ⟨Nat.dvd_mul_left .., ?_⟩
    rw [Nat.mul_comm]
    exact le_smul_ceilDiv hd
  · rintro m ⟨⟨q, rfl⟩, hle⟩
    rw [Nat.mul_comm]
    exact Nat.mul_le_mul_left d ((ceilDiv_le_iff_le_mul hd).mpr hle)

/-- The number of words is a multiple of every power of two that is one. So no sum below it is rounded
down to it, and the multiple that a word is rounded up to is a word if the sum is one. -/
theorem ceilDiv_mul_lt_iff {k : Nat} (hk : k ≤ 64) (n : Nat) :
    n ⌈/⌉ 2 ^ k * 2 ^ k < 2 ^ 64 ↔ n + (2 ^ k - 1) < 2 ^ 64 := by
  have hpos : 0 < 2 ^ k := Nat.two_pow_pos k
  have hwords : 2 ^ (64 - k) * 2 ^ k = 2 ^ 64 := by rw [← Nat.pow_add, Nat.sub_add_cancel hk]
  rw [← hwords, Nat.mul_lt_mul_right hpos, Nat.ceilDiv_eq_add_pred_div,
    Nat.div_lt_iff_lt_mul hpos, Nat.add_sub_assoc hpos]

theorem alignUp_eq {align : UInt64} {k : Nat} (ha : align.toNat = 2 ^ k) (v : UInt64) :
    alignUp v align = if v.toNat ⌈/⌉ 2 ^ k * 2 ^ k < 2 ^ 64
      then .ok (.ofNat (v.toNat ⌈/⌉ 2 ^ k * 2 ^ k)) else .error (.overflow .addition) := by
  have hk : k < 64 := by
    have hlt := align.toNat_lt
    rwa [ha, Nat.pow_lt_pow_iff_right (by decide)] at hlt
  have hsum := ceilDiv_mul_lt_iff hk.le v.toNat
  split
  · rename_i hlt
    apply (alignUp_eq_ok_iff ha).mpr
    refine ⟨hsum.mp hlt, ?_⟩
    rw [UInt64.toNat_ofNat_of_lt' hlt, Nat.ceilDiv_eq_add_pred_div,
      Nat.add_sub_assoc (Nat.two_pow_pos k)]
  · rename_i hge
    apply alignUp_of_overflow ha
    exact Nat.not_lt.mp fun hlt => hge (hsum.mpr hlt)

theorem pagesFor_eq (bytes : UInt64) :
    pagesFor bytes = if bytes.toNat ≤ 2 ^ 64 - 4096
      then .ok (.ofNat (bytes.toNat ⌈/⌉ 4096)) else .error (.overflow .addition) := by
  have hround : bytes.toNat ⌈/⌉ 2 ^ 12 * 2 ^ 12 < 2 ^ 64 ↔ bytes.toNat ≤ 2 ^ 64 - 4096 := by
    rw [ceilDiv_mul_lt_iff (by decide)]
    omega
  rw [pagesFor, alignUp_eq (k := 12) rfl]
  by_cases hle : bytes.toNat ≤ 2 ^ 64 - 4096
  · have hlt := hround.mpr hle
    have hpages : bytes.toNat ⌈/⌉ 4096 < 2 ^ 64 :=
      Nat.lt_of_le_of_lt (Nat.le_mul_of_pos_right _ (Nat.two_pow_pos 12)) hlt
    rw [if_pos hlt, if_pos hle]
    apply congrArg Except.ok
    apply UInt64.toNat_inj.mp
    rw [toNat_shiftRight_pageShift, UInt64.toNat_ofNat_of_lt' hlt, UInt64.toNat_ofNat_of_lt' hpages]
    exact Nat.mul_div_cancel _ (by decide)
  · rw [if_neg fun hlt => hle (hround.mp hlt), if_neg hle]
    rfl

/-- Rounding is exact up to the last word. For every power of two, a word is rounded down to the
greatest multiple that is not above it; it is rounded up to the least multiple that is not below it if
that is a word, and the addition overflows if it is not. The pages for a number of bytes are a 4096th
of them, rounded up, for all numbers up to `2 ^ 64 - 4096`; for greater ones the addition overflows. -/
theorem rounding_exact {align : UInt64} (halign : align.toNat.isPowerOfTwo) (value bytes : UInt64) :
    (∃ d, alignDown value align = .ok d ∧
      IsGreatest {m | align.toNat ∣ m ∧ m ≤ value.toNat} d.toNat) ∧
    (∃ u, IsLeast {m | align.toNat ∣ m ∧ value.toNat ≤ m} u ∧
      alignUp value align =
        if u < 2 ^ 64 then .ok (.ofNat u) else .error (.overflow .addition)) ∧
    pagesFor bytes =
      if bytes.toNat ≤ 2 ^ 64 - 4096 then .ok (.ofNat (bytes.toNat ⌈/⌉ 4096))
      else .error (.overflow .addition) := by
  have hp := isPowerOfTwo_iff.mpr halign
  obtain ⟨k, hk⟩ := halign
  rw [hk]
  constructor
  · refine ⟨value &&& ~~~(align - 1), if_pos hp, ?_⟩
    rw [toNat_and_not hk]
    exact isGreatest_multiple (2 ^ k) value.toNat
  constructor
  · refine ⟨_, isLeast_multiple (Nat.two_pow_pos k) value.toNat, ?_⟩
    exact alignUp_eq hk value
  · exact pagesFor_eq bytes

/-- The words behind the last multiple of 16 can be rounded down, but not up, and the pages of the bytes
behind the last page boundary cannot be counted. -/
theorem rounding_exact_of_last_words :
    (16 : UInt64).toNat.isPowerOfTwo ∧
      alignDown 0xFFFFFFFFFFFFFFF1 16 = .ok 0xFFFFFFFFFFFFFFF0 ∧
      alignUp 0xFFFFFFFFFFFFFFF1 16 = .error (.overflow .addition) ∧
      pagesFor 0xFFFFFFFFFFFFF001 = .error (.overflow .addition) := by
  have hpower : (16 : UInt64).toNat.isPowerOfTwo := ⟨4, rfl⟩
  obtain ⟨⟨d, hdown, hgreatest⟩, ⟨u, hleast, hup⟩, hpages⟩ :=
    rounding_exact hpower 0xFFFFFFFFFFFFFFF1 0xFFFFFFFFFFFFF001
  have hvalue : (0xFFFFFFFFFFFFFFF1 : UInt64).toNat = 2 ^ 64 - 15 := rfl
  have hsixteen : (16 : UInt64).toNat = 16 := rfl
  rw [hvalue, hsixteen] at hgreatest hleast
  have hd : d = 0xFFFFFFFFFFFFFFF0 := by
    have hle := hgreatest.2 (show 2 ^ 64 - 16 ∈ _ from ⟨by decide, by decide⟩)
    obtain ⟨hdvd, hlast⟩ := hgreatest.1
    apply UInt64.toNat_inj.mp
    rw [show (0xFFFFFFFFFFFFFFF0 : UInt64).toNat = 2 ^ 64 - 16 from rfl]
    omega
  have hu : ¬ u < 2 ^ 64 := by
    obtain ⟨hdvd, hfirst⟩ := hleast.1
    omega
  refine ⟨hpower, ?_, ?_, hpages⟩
  · rw [hdown, hd]
  · rw [hup, if_neg hu]

end MemoryManager
