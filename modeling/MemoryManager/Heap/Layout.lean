import MemoryManager.Address.Rounding

namespace MemoryManager

/-- The largest size that a request may have once it is rounded up to its alignment. -/
def maxLayoutSize : Nat := 0x7FFFFFFFFFFFFFFF

/-- A request for memory: the alignment is a power of two, and rounding the size up to it stays
within bounds. -/
@[ext] structure Layout where
  size : UInt64
  align : UInt64
  isPowerOfTwo_align : isPowerOfTwo align = true
  size_le : size.toNat + (align.toNat - 1) ≤ maxLayoutSize

def Layout.of? (size align : UInt64) : Option Layout :=
  if h : isPowerOfTwo align = true ∧ size.toNat + (align.toNat - 1) ≤ maxLayoutSize then
    some ⟨size, align, h.1, h.2⟩
  else none

end MemoryManager
