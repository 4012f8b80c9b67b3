import MemoryManager.Bits
import MemoryManager.Frames.Bitmap

namespace MemoryManager.FrameBitmap

theorem testBit_mask {k j : Nat} (hk : k < 8) (hj : j < 8) :
    ((1 : UInt8) <<< UInt8.ofNat k).toNat.testBit j = decide (j = k) := by
  have eq : (UInt8.ofNat k).toNat % 8 = k := by
    rw [UInt8.toNat_ofNat']
    omega
  rw [UInt8.toNat_shiftLeft, eq, Nat.testBit_mod_two_pow, Nat.shiftLeft_eq, UInt8.toNat_one,
    Nat.one_mul, Nat.testBit_two_pow]
  simp [hj, eq_comm]

theorem testBit_assignBit (v : UInt8) {k j : Nat} (hk : k < 8) (hj : j < 8) (on : Bool) :
    (assignBit v k on).toNat.testBit j = if j = k then on else v.toNat.testBit j := by
  have others : (~~~((1 : UInt8) <<< UInt8.ofNat k)).toNat.testBit j = !decide (j = k) := by
    have size : UInt8.size - 1 - ((1 : UInt8) <<< UInt8.ofNat k).toNat =
        2 ^ 8 - (((1 : UInt8) <<< UInt8.ofNat k).toNat + 1) := by
      have : UInt8.size = 2 ^ 8 := rfl
      omega
    rw [UInt8.toNat_not, size, Nat.testBit_two_pow_sub_succ (UInt8.toNat_lt _),
      testBit_mask hk hj]
    simp [hj]
  cases on
  · rw [assignBit, if_neg Bool.false_ne_true, UInt8.toNat_and, Nat.testBit_and, others]
    by_cases h : j = k <;> simp [h]
  · rw [assignBit, if_pos rfl, UInt8.toNat_or, Nat.testBit_or, testBit_mask hk hj]
    by_cases h : j = k <;> simp [h]

theorem test_assign (b : FrameBitmap) (on : Bool) (m : Memory) {i : Nat}
    (h : b.position i < Memory.size) (j : Nat) :
    b.test (b.assign on m i) j = if j = i then on else b.test m j := by
  have hi : i % 8 < 8 := Nat.mod_lt _ (by decide)
  have hj : j % 8 < 8 := Nat.mod_lt _ (by decide)
  simp only [test, assign, Memory.byte_setByte]
  by_cases same : j / 8 = i / 8
  · have place : b.position j = b.position i := by rw [position, position, same]
    rw [place, if_pos ⟨rfl, h⟩, testBit_assignBit _ hi hj]
    have : (j % 8 = i % 8) ↔ j = i := by omega
    simp only [this]
  · have place : b.position j ≠ b.position i := by
      simp only [position]
      omega
    rw [if_neg (fun c => place c.1), if_neg]
    intro heq
    obtain rfl := heq
    exact same rfl

theorem byte_assign_of_ne (b : FrameBitmap) (on : Bool) (m : Memory) {i a : Nat}
    (h : a ≠ b.position i) : (b.assign on m i).byte a = m.byte a := by
  rw [assign, Memory.byte_setByte, if_neg (fun c => h c.1)]

theorem test_assignEach (b : FrameBitmap) (on : Bool) (m : Memory) (first n : Nat)
    (h : ∀ i, first ≤ i → i < first + n → b.position i < Memory.size) (j : Nat) :
    b.test (b.assignEach on m first n) j =
      if first ≤ j ∧ j < first + n then on else b.test m j := by
  induction n generalizing m first with
  | zero => rw [assignEach, if_neg (by omega)]
  | succ n ih =>
    rw [assignEach, ih _ _ (fun i hi lt => h i (by omega) (by omega)),
      b.test_assign on m (h first (by omega) (by omega))]
    by_cases e : j = first
    · rw [if_neg (by omega), if_pos e, if_pos (by omega)]
    · by_cases c : first + 1 ≤ j ∧ j < first + 1 + n
      · rw [if_pos c, if_pos (by omega)]
      · rw [if_neg c, if_neg e, if_neg (by omega)]

/-- Overwriting whole bytes assigns the bits that they hold. -/
theorem test_fill (b : FrameBitmap) (on : Bool) (m : Memory) (k n : Nat)
    (h : ∀ i < 8 * (k + n), b.position i < Memory.size) (j : Nat) :
    b.test (m.fill (b.position (8 * k)) n (if on then 0xFF else 0)) j =
      if 8 * k ≤ j ∧ j < 8 * (k + n) then on else b.test m j := by
  have hj : j % 8 < 8 := Nat.mod_lt _ (by decide)
  have ones : (255 : UInt8).toNat.testBit (j % 8) = true := by
    rw [show (255 : UInt8).toNat = 2 ^ 8 - 1 from rfl, Nat.testBit_two_pow_sub_one]
    simpa using hj
  simp only [test, Memory.byte_fill]
  by_cases c : 8 * k ≤ j ∧ j < 8 * (k + n)
  · rw [if_pos c, if_pos]
    · cases on
      · exact Nat.zero_testBit _
      · exact ones
    · have := h j c.2
      simp only [position] at *
      omega
  · rw [if_neg c, if_neg]
    simp only [position]
    omega

/-- Assigning a run changes the bits of the run and no other. -/
theorem test_assignRun (b : FrameBitmap) (on : Bool) (m : Memory) {first stop : Nat}
    (h : ∀ i < stop, b.position i < Memory.size) (j : Nat) :
    b.test (b.assignRun on m first stop) j =
      if first ≤ j ∧ j < stop then on else b.test m j := by
  unfold assignRun
  simp only []
  generalize hlow : min stop (8 * ((first + 7) / 8)) = low
  generalize hhigh : max low (8 * (stop / 8)) = high
  have low_le : low ≤ high := by omega
  have high_le : high ≤ stop := by omega
  rw [test_assignEach _ _ _ _ _ (fun i _ hi => h i (by omega))]
  by_cases c : 8 * ((first + 7) / 8) ≤ stop
  · have e : low = 8 * ((first + 7) / 8) := by omega
    have first_le : first ≤ 8 * ((first + 7) / 8) := by omega
    generalize (first + 7) / 8 = q at *
    subst e
    have n : 8 * (q + (high - 8 * q) / 8) = high := by omega
    rw [b.test_fill on _ _ _ (fun i hi => h i (by omega)), n,
      test_assignEach _ _ _ _ _ (fun i _ hi => h i (by omega))]
    by_cases r : first ≤ j ∧ j < stop
    · rw [if_pos r]
      by_cases r1 : high ≤ j
      · rw [if_pos (by omega)]
      · rw [if_neg (by omega)]
        by_cases r2 : 8 * q ≤ j
        · rw [if_pos (by omega)]
        · rw [if_neg (by omega), if_pos (by omega)]
    · rw [if_neg (by omega), if_neg (by omega), if_neg (by omega), if_neg r]
  · have n : (high - low) / 8 = 0 := by omega
    have same (k : Memory) : b.test (k.fill (b.position low) 0 (if on then 0xFF else 0)) j =
        b.test k j := by
      rw [test, Memory.byte_fill, if_neg (by omega), test]
    rw [n, same, test_assignEach _ _ _ _ _ (fun i _ hi => h i (by omega))]
    by_cases r : first ≤ j ∧ j < stop
    · rw [if_pos r]
      by_cases r1 : high ≤ j
      · rw [if_pos (by omega)]
      · rw [if_neg (by omega), if_pos (by omega)]
    · rw [if_neg (by omega), if_neg (by omega), if_neg r]

theorem byte_assignEach_of_ne (b : FrameBitmap) (on : Bool) (m : Memory) (first n : Nat) {a : Nat}
    (h : ∀ i, first ≤ i → i < first + n → a ≠ b.position i) :
    (b.assignEach on m first n).byte a = m.byte a := by
  induction n generalizing m first with
  | zero => rfl
  | succ n ih =>
    rw [assignEach, ih _ _ (fun i hi lt => h i (by omega) (by omega)),
      b.byte_assign_of_ne on m (h first (by omega) (by omega))]

/-- Assigning a run changes no byte but those that hold its bits. -/
theorem byte_assignRun_of_ne (b : FrameBitmap) (on : Bool) (m : Memory) {first stop a : Nat}
    (h : ∀ i, first ≤ i → i < stop → a ≠ b.position i) :
    (b.assignRun on m first stop).byte a = m.byte a := by
  unfold assignRun
  simp only []
  generalize hlow : min stop (8 * ((first + 7) / 8)) = low
  generalize hhigh : max low (8 * (stop / 8)) = high
  rw [b.byte_assignEach_of_ne _ _ _ _ (fun i hi lt => h i (by omega) (by omega)),
    Memory.byte_fill, if_neg, b.byte_assignEach_of_ne _ _ _ _
      (fun i hi lt => h i (by omega) (by omega))]
  intro hparts
  obtain ⟨ge, lt, -⟩ := hparts
  -- the byte would hold the first bit of a whole byte of the run
  have ne := h (low + 8 * (a - b.position low)) (by omega) (by omega)
  simp only [position] at *
  omega

theorem test_of_byte_eq_ones {b : FrameBitmap} {m : Memory} {i : Nat}
    (h : m.byte (b.position i) = 0xFF) : b.test m i = true := by
  rw [test, h, show (0xFF : UInt8).toNat = 2 ^ 8 - 1 from rfl, Nat.testBit_two_pow_sub_one]
  simpa using Nat.mod_lt i (by decide)

def Outside (b : FrameBitmap) (a : Nat) : Prop :=
  a < b.frame.start ∨ b.frame.start + b.length ≤ a

/-- The bits of a bitmap depend on its bytes only. -/
theorem test_congr {b : FrameBitmap} {m t : Memory}
    (h : ∀ a, ¬ b.Outside a → t.byte a = m.byte a) {i : Nat} (hi : i < b.size) :
    b.test t i = b.test m i := by
  rw [test, test, h]
  simp only [Outside, position, size] at *
  omega

theorem byte_assignRun_of_outside {b : FrameBitmap} {a : Nat} (ha : b.Outside a) (on : Bool)
    (m : Memory) {first stop : Nat} (hstop : stop ≤ b.size) :
    (b.assignRun on m first stop).byte a = m.byte a := by
  apply b.byte_assignRun_of_ne
  intro i _ lt
  simp only [Outside, position, size] at *
  omega

theorem run_assignRange {ε : Type} (b : FrameBitmap) (on : Bool) (first stop : Nat) (m : Machine) :
    (b.assignRange on first stop : Action Machine ε Unit).run m =
      (if first < stop ∧ b.size < stop then .stopped (.index b.length (max first b.size / 8))
        else .done (),
        { m with memory := b.assignRun on m.memory first (min stop b.size) }) := by
  rw [assignRange, Machine.store, Action.run_bind_done (Action.run_modify _ _)]
  split <;> rfl

end MemoryManager.FrameBitmap
