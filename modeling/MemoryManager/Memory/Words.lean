import MemoryManager.Bits
import MemoryManager.Memory

namespace MemoryManager.Memory

@[simp] theorem length_bytesOf (w : UInt64) : (bytesOf w).length = 8 := rfl

/-- The byte at an address from the byte's number in a word. -/
theorem testBit_word (m : Memory) (a i : Nat) (hi : i < 64) :
    (m.word a).toNat.testBit i = (m.byte (a + i / 8)).toNat.testBit (i % 8) := by
  have byteBit (v : UInt8) (k : Nat) (hk : k < 8) :
      (v.toUInt64 <<< UInt64.ofNat (8 * k)).toNat.testBit i =
        (decide (8 * k ≤ i) && v.toNat.testBit (i - 8 * k)) := by
    rw [UInt64.toNat_shiftLeft, Nat.testBit_mod_two_pow, Nat.testBit_shiftLeft]
    have : (UInt64.ofNat (8 * k)).toNat % 64 = 8 * k := by
      rw [UInt64.toNat_ofNat']; omega
    rw [this]
    simp [hi]
  have high (v : UInt8) (k : Nat) (hk : 8 ≤ k) : v.toNat.testBit k = false :=
    Bits.testBit_of_lt v.toNat_lt hk
  unfold word
  have b0 (v : UInt8) : v.toUInt64.toNat.testBit i = v.toNat.testBit i := by simp
  have e1 := fun v => byteBit v 1 (by omega)
  have e2 := fun v => byteBit v 2 (by omega)
  have e3 := fun v => byteBit v 3 (by omega)
  have e4 := fun v => byteBit v 4 (by omega)
  have e5 := fun v => byteBit v 5 (by omega)
  have e6 := fun v => byteBit v 6 (by omega)
  have e7 := fun v => byteBit v 7 (by omega)
  simp only [Nat.reduceMul, UInt64.reduceOfNat] at e1 e2 e3 e4 e5 e6 e7
  simp only [UInt64.toNat_or, Nat.testBit_or, e1, e2, e3, e4, e5, e6, e7, b0]
  have cases8 : i / 8 = 0 ∨ i / 8 = 1 ∨ i / 8 = 2 ∨ i / 8 = 3 ∨ i / 8 = 4 ∨ i / 8 = 5 ∨ i / 8 = 6 ∨
      i / 8 = 7 := by omega
  rcases cases8 with h | h | h | h | h | h | h | h <;>
    simp (disch := omega) only [h, high, decide_eq_true, decide_eq_false, Bool.true_and,
      Bool.false_and, Bool.or_false, Bool.false_or, Nat.add_zero] <;>
    congr 1 <;> omega

theorem testBit_bytesOf (w : UInt64) (i : Nat) (hi : i < 64) :
    ((bytesOf w).getD (i / 8) 0).toNat.testBit (i % 8) = w.toNat.testBit i := by
  have cases8 : i / 8 = 0 ∨ i / 8 = 1 ∨ i / 8 = 2 ∨ i / 8 = 3 ∨ i / 8 = 4 ∨ i / 8 = 5 ∨ i / 8 = 6 ∨
      i / 8 = 7 := by omega
  have part (k : Nat) (hk : k < 64) :
      (w >>> UInt64.ofNat k).toUInt8.toNat.testBit (i % 8) = w.toNat.testBit (k + i % 8) := by
    have : (UInt64.ofNat k).toNat % 64 = k := by rw [UInt64.toNat_ofNat']; omega
    rw [UInt64.toNat_toUInt8, UInt64.toNat_shiftRight, this, Nat.testBit_mod_two_pow,
      Nat.testBit_shiftRight]
    have : i % 8 < 8 := by omega
    simp [this]
  have zero : w.toUInt8.toNat.testBit (i % 8) = w.toNat.testBit (i % 8) := by
    rw [UInt64.toNat_toUInt8, Nat.testBit_mod_two_pow]
    have : i % 8 < 8 := by omega
    simp [this]
  have e1 := part 8 (by omega)
  have e2 := part 16 (by omega)
  have e3 := part 24 (by omega)
  have e4 := part 32 (by omega)
  have e5 := part 40 (by omega)
  have e6 := part 48 (by omega)
  have e7 := part 56 (by omega)
  simp only [UInt64.reduceOfNat] at e1 e2 e3 e4 e5 e6 e7
  rcases cases8 with h | h | h | h | h | h | h | h <;>
    simp only [h, bytesOf, List.getD_cons_zero, List.getD_cons_succ, zero, e1, e2, e3, e4, e5, e6,
      e7] <;>
    congr 1 <;> omega

theorem word_setWord (m : Memory) (a : Nat) (w : UInt64) (h : a + 8 ≤ size) :
    (m.setWord a w).word a = w := by
  apply Bits.eq_of_testBit
  intro i hi
  rw [testBit_word _ _ _ hi, setWord, byte_write, length_bytesOf, if_pos (by omega),
    show a + i / 8 - a = i / 8 by omega, testBit_bytesOf _ _ hi]

/-- A word depends on its eight bytes only. -/
theorem word_congr {m n : Memory} (a : Nat) (h : ∀ k < 8, m.byte (a + k) = n.byte (a + k)) :
    m.word a = n.word a := by
  unfold word
  rw [h 1 (by omega), h 2 (by omega), h 3 (by omega), h 4 (by omega), h 5 (by omega),
    h 6 (by omega), h 7 (by omega), show m.byte a = n.byte a from h 0 (by omega)]

theorem byte_setWord_of_disjoint (m : Memory) (a : Nat) (w : UInt64) (b : Nat)
    (h : b < a ∨ a + 8 ≤ b) : (m.setWord a w).byte b = m.byte b := by
  rw [setWord, byte_write, length_bytesOf, if_neg (by omega)]

theorem word_setWord_of_disjoint (m : Memory) (a : Nat) (w : UInt64) (b : Nat)
    (h : b + 8 ≤ a ∨ a + 8 ≤ b) : (m.setWord a w).word b = m.word b :=
  word_congr b fun k hk => byte_setWord_of_disjoint m a w (b + k) (by omega)

theorem word_setByte_of_disjoint (m : Memory) (a : Nat) (v : UInt8) (b : Nat)
    (h : b + 8 ≤ a ∨ a + 1 ≤ b) : (m.setByte a v).word b = m.word b :=
  word_congr b fun k hk => by rw [byte_setByte, if_neg (by omega)]

end MemoryManager.Memory
