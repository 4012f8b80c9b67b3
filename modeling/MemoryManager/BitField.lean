import MemoryManager.Bits
import MemoryManager.Fault

namespace MemoryManager

/-- A run of `width` bits from bit `shift` on: inside a word, and not a whole word. -/
structure BitField where
  shift : UInt64
  width : UInt64
  width_pos : 0 < width.toNat := by decide
  width_lt : width.toNat < 64 := by decide
  fits : shift.toNat + width.toNat ≤ 64 := by decide

namespace BitField

/-- The field of bit `i` of a word, whose bits are counted modulo 64. -/
def bit (i : UInt64) : BitField where
  shift := i % 64
  width := 1
  fits := by
    rw [UInt64.toNat_mod]
    exact Nat.mod_lt _ (by decide)

def max (f : BitField) : UInt64 :=
  (1 <<< f.width) - 1

def read (f : BitField) (bits : UInt64) : UInt64 :=
  (bits >>> f.shift) &&& f.max

/-- The word with the field's value replaced by one that fits. -/
def write (f : BitField) (bits v : UInt64) : UInt64 :=
  (bits &&& ~~~(f.max <<< f.shift)) ||| (v <<< f.shift)

/-- As `write`, for a value that may be too large. -/
def put (f : BitField) (bits v : UInt64) : Except Fault UInt64 :=
  if v ≤ f.max then .ok (f.write bits v) else .error (.fieldValue f.max)

def test (f : BitField) (bits : UInt64) : Bool :=
  f.read bits != 0

/-- Sets or clears a one-bit field. -/
def assign (f : BitField) (bits : UInt64) (on : Bool) : UInt64 :=
  f.write bits (if on then 1 else 0)

theorem shift_lt (f : BitField) : f.shift.toNat < 64 := by
  have := f.width_pos
  have := f.fits
  omega

theorem toNat_max (f : BitField) : f.max.toNat = (1 <<< f.width.toNat) - 1 := by
  rw [Nat.one_shiftLeft]
  have hw := f.width_lt
  have pos : 0 < 2 ^ f.width.toNat := Nat.two_pow_pos _
  have lt : 2 ^ f.width.toNat < 2 ^ 64 := Nat.pow_lt_pow_right (by decide) hw
  have one : ((1 : UInt64) <<< f.width).toNat = 2 ^ f.width.toNat := by
    rw [UInt64.toNat_shiftLeft, Nat.mod_eq_of_lt hw, Nat.shiftLeft_eq]
    simp only [UInt64.reduceToNat, Nat.one_mul]
    exact Nat.mod_eq_of_lt lt
  rw [max, UInt64.toNat_sub_of_le]
  · rw [one]; rfl
  · rw [UInt64.le_iff_toNat_le, one]; exact pos

theorem lt_of_le_max (f : BitField) {v : UInt64} (hv : v ≤ f.max) :
    v.toNat < 1 <<< f.width.toNat := by
  have le := UInt64.le_iff_toNat_le.mp hv
  have pos : 0 < 2 ^ f.width.toNat := Nat.two_pow_pos _
  rw [f.toNat_max, Nat.one_shiftLeft] at le
  rw [Nat.one_shiftLeft]
  omega

theorem testBit_max (f : BitField) (i : Nat) :
    f.max.toNat.testBit i = decide (i < f.width.toNat) := by
  rw [f.toNat_max, Nat.one_shiftLeft, Nat.testBit_two_pow_sub_one]

theorem testBit_read (f : BitField) (bits : UInt64) (i : Nat) :
    (f.read bits).toNat.testBit i =
      (decide (i < f.width.toNat) && bits.toNat.testBit (f.shift.toNat + i)) := by
  rw [read, UInt64.toNat_and, Nat.testBit_and, f.testBit_max, UInt64.toNat_shiftRight,
    Nat.mod_eq_of_lt f.shift_lt, Nat.testBit_shiftRight, Bool.and_comm]

theorem testBit_shiftLeft (f : BitField) (v : UInt64) (i : Nat) (hi : i < 64) :
    (v <<< f.shift).toNat.testBit i =
      (decide (f.shift.toNat ≤ i) && v.toNat.testBit (i - f.shift.toNat)) := by
  rw [UInt64.toNat_shiftLeft, Nat.mod_eq_of_lt f.shift_lt, Nat.testBit_mod_two_pow,
    Nat.testBit_shiftLeft]
  simp [hi]

/-- Writing a field changes the bits of the field and no other. -/
theorem testBit_write (f : BitField) (bits v : UInt64) (hv : v ≤ f.max) (i : Nat)
    (hi : i < 64) :
    (f.write bits v).toNat.testBit i =
      if f.shift.toNat ≤ i ∧ i < f.shift.toNat + f.width.toNat then
        v.toNat.testBit (i - f.shift.toNat)
      else bits.toNat.testBit i := by
  have small := f.lt_of_le_max hv
  rw [write, UInt64.toNat_or, Nat.testBit_or, UInt64.toNat_and, Nat.testBit_and,
    Bits.testBit_not _ _ hi, f.testBit_shiftLeft _ _ hi, f.testBit_shiftLeft _ _ hi,
    f.testBit_max]
  by_cases low : f.shift.toNat ≤ i
  · by_cases high : i < f.shift.toNat + f.width.toNat
    · have : i - f.shift.toNat < f.width.toNat := by omega
      simp [low, high, this]
    · have zero : v.toNat.testBit (i - f.shift.toNat) = false :=
        Bits.testBit_of_lt small (by omega)
      have : ¬ i - f.shift.toNat < f.width.toNat := by omega
      simp [low, high, this, zero]
  · simp [low]

theorem read_write (f : BitField) (bits v : UInt64) (hv : v ≤ f.max) :
    f.read (f.write bits v) = v := by
  have small := f.lt_of_le_max hv
  apply Bits.eq_of_testBit
  intro i hi
  have fit := f.fits
  rw [f.testBit_read]
  by_cases lt : i < f.width.toNat
  · rw [f.testBit_write _ _ hv _ (by omega), if_pos (by omega)]
    simp [lt]
  · rw [Bits.testBit_of_lt small (Nat.not_lt.mp lt)]
    simp [lt]

def Apart (f g : BitField) : Prop :=
  f.shift.toNat + f.width.toNat ≤ g.shift.toNat ∨ g.shift.toNat + g.width.toNat ≤ f.shift.toNat

instance (f g : BitField) : Decidable (f.Apart g) :=
  inferInstanceAs (Decidable (_ ∨ _))

/-- Writing a field leaves the fields beside it alone. -/
theorem read_write_of_apart {f g : BitField} (apart : f.Apart g) (bits v : UInt64)
    (hv : v ≤ g.max) : f.read (g.write bits v) = f.read bits := by
  apply Bits.eq_of_testBit
  intro i hi
  have fit := f.fits
  unfold Apart at apart
  rw [f.testBit_read, f.testBit_read]
  by_cases lt : i < f.width.toNat
  · rw [g.testBit_write _ _ hv _ (by omega), if_neg (by omega)]
  · simp [lt]

theorem one_le_max (f : BitField) : 1 ≤ f.max := by
  have pos : 2 ^ 1 ≤ 2 ^ f.width.toNat := Nat.pow_le_pow_right (by decide) f.width_pos
  rw [UInt64.le_iff_toNat_le, f.toNat_max, Nat.one_shiftLeft]
  exact Nat.le_sub_of_add_le pos

theorem bit_le_max (f : BitField) (on : Bool) : (if on then 1 else 0) ≤ f.max := by
  cases on
  · exact UInt64.zero_le
  · exact f.one_le_max

@[simp] theorem test_assign (f : BitField) (bits : UInt64) (on : Bool) :
    f.test (f.assign bits on) = on := by
  rw [test, assign, f.read_write _ _ (f.bit_le_max on)]
  cases on <;> rfl

/-- Assigning a bit leaves the fields beside it alone. -/
theorem read_assign_of_apart {f g : BitField} (apart : f.Apart g) (bits : UInt64) (on : Bool) :
    f.read (g.assign bits on) = f.read bits :=
  read_write_of_apart apart _ _ (g.bit_le_max on)

theorem test_assign_of_apart {f g : BitField} (apart : f.Apart g) (bits : UInt64) (on : Bool) :
    f.test (g.assign bits on) = f.test bits := by
  rw [test, read_assign_of_apart apart, test]

end BitField

end MemoryManager
