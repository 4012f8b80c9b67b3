import MemoryManager.Memory.Cells

namespace MemoryManager

/-- The contents of physical memory. -/
structure Memory where
  cells : Cells

namespace Memory

def size : Nat := 0x10000000000000000

def zeroed : Memory :=
  ⟨.uniform 0⟩

/-- The byte at an address; there is nothing but zero past the last one. -/
def byte (m : Memory) (a : Nat) : UInt8 :=
  if a < size then m.cells.get 0x8000000000000000 a else 0

/-- Overwrites `n` bytes from `a` on; what lies past the last address is dropped. -/
def fill (m : Memory) (a n : Nat) (v : UInt8) : Memory :=
  ⟨m.cells.fill v 64 size a (a + n)⟩

theorem byte_fill (m : Memory) (a n : Nat) (v : UInt8) (b : Nat) :
    (m.fill a n v).byte b = if a ≤ b ∧ b < a + n ∧ b < size then v else m.byte b := by
  by_cases h : b < size
  · simp only [byte, h, if_true, and_true]
    exact Cells.get_fill v 64 m.cells a (a + n) b h
  · simp [byte, h]

@[simp] theorem byte_zeroed (a : Nat) : zeroed.byte a = 0 := by
  simp [byte, zeroed, Cells.get]

def setByte (m : Memory) (a : Nat) (v : UInt8) : Memory :=
  m.fill a 1 v

theorem byte_setByte (m : Memory) (a : Nat) (v : UInt8) (b : Nat) :
    (m.setByte a v).byte b = if b = a ∧ b < size then v else m.byte b := by
  have h : (a ≤ b ∧ b < a + 1 ∧ b < size) ↔ (b = a ∧ b < size) := by omega
  rw [setByte, byte_fill]
  simp only [h]

def write (m : Memory) (a : Nat) : List UInt8 → Memory
  | [] => m
  | v :: vs => (m.setByte a v).write (a + 1) vs

theorem byte_write_of_lt (m : Memory) (a : Nat) (vs : List UInt8) (b : Nat) (h : b < a) :
    (m.write a vs).byte b = m.byte b := by
  induction vs generalizing m a with
  | nil => rfl
  | cons v vs ih =>
    rw [write, ih _ _ (by omega), byte_setByte, if_neg (by omega)]

/-- A list of bytes is read back where it was written, and nothing else changes. -/
theorem byte_write (m : Memory) (a : Nat) (vs : List UInt8) (b : Nat) :
    (m.write a vs).byte b =
      if a ≤ b ∧ b < a + vs.length ∧ b < size then vs.getD (b - a) 0 else m.byte b := by
  induction vs generalizing m a with
  | nil =>
    rw [write, List.length_nil, if_neg (by omega)]
  | cons v vs ih =>
    rw [List.length_cons]
    by_cases h : b = a
    · subst h
      rw [write, byte_write_of_lt _ _ _ _ (by omega), byte_setByte]
      by_cases s : b < size <;> simp [s]
    · rw [write, ih, byte_setByte, if_neg (c := b = a ∧ b < size) (by omega)]
      by_cases s : a + 1 ≤ b ∧ b < a + 1 + vs.length ∧ b < size
      · rw [if_pos s, if_pos (by omega)]
        have e : b - a = b - (a + 1) + 1 := by omega
        rw [e, List.getD_cons_succ]
      · rw [if_neg s, if_neg (by omega)]

def bytes (m : Memory) (a n : Nat) : List UInt8 :=
  (List.range n).map fun i => m.byte (a + i)

def word (m : Memory) (a : Nat) : UInt64 :=
  (m.byte a).toUInt64 ||| (m.byte (a + 1)).toUInt64 <<< 8 |||
    (m.byte (a + 2)).toUInt64 <<< 16 ||| (m.byte (a + 3)).toUInt64 <<< 24 |||
    (m.byte (a + 4)).toUInt64 <<< 32 ||| (m.byte (a + 5)).toUInt64 <<< 40 |||
    (m.byte (a + 6)).toUInt64 <<< 48 ||| (m.byte (a + 7)).toUInt64 <<< 56

/-- The bytes of a word, the least significant one first. -/
def bytesOf (w : UInt64) : List UInt8 :=
  [w.toUInt8, (w >>> 8).toUInt8, (w >>> 16).toUInt8, (w >>> 24).toUInt8,
    (w >>> 32).toUInt8, (w >>> 40).toUInt8, (w >>> 48).toUInt8, (w >>> 56).toUInt8]

def setWord (m : Memory) (a : Nat) (w : UInt64) : Memory :=
  m.write a (bytesOf w)

/-- The one value that all of the `n` bytes from `a` on have, if they agree. -/
def uniform? (m : Memory) (a n : Nat) : Option UInt8 :=
  let v := m.byte a
  if (List.range n).all fun i => m.byte (a + i) == v then some v else none

def copy (m : Memory) (source target n : Nat) : Memory :=
  m.write target (m.bytes source n)

end Memory

end MemoryManager
