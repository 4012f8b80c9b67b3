namespace MemoryManager.Bits

theorem eq_of_testBit {a b : UInt64} (h : ∀ i < 64, a.toNat.testBit i = b.toNat.testBit i) :
    a = b := by
  apply UInt64.toNat_inj.mp
  apply Nat.eq_of_testBit_eq
  intro i
  by_cases hi : i < 64
  · exact h i hi
  · have big : 2 ^ 64 ≤ 2 ^ i := Nat.pow_le_pow_right (by decide) (by omega)
    have ha := a.toNat_lt
    have hb := b.toNat_lt
    rw [Nat.testBit_lt_two_pow (by omega), Nat.testBit_lt_two_pow (by omega)]

theorem testBit_not (v : UInt64) (i : Nat) (hi : i < 64) :
    (~~~v).toNat.testBit i = !v.toNat.testBit i := by
  rw [UInt64.toNat_not]
  have : UInt64.size - 1 - v.toNat = 2 ^ 64 - (v.toNat + 1) := by
    have : UInt64.size = 2 ^ 64 := rfl
    omega
  rw [this, Nat.testBit_two_pow_sub_succ v.toNat_lt]
  simp [hi]

theorem testBit_of_lt {n w i : Nat} (h : n < 1 <<< w) (hi : w ≤ i) : n.testBit i = false := by
  rw [Nat.one_shiftLeft] at h
  exact Nat.testBit_lt_two_pow (Nat.lt_of_lt_of_le h (Nat.pow_le_pow_right (by decide) hi))

end MemoryManager.Bits
