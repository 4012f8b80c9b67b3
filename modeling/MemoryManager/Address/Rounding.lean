import MemoryManager.Fault

namespace MemoryManager

def isPowerOfTwo (a : UInt64) : Bool :=
  a != 0 && a &&& (a - 1) == 0

/-- The least multiple of `align` that is not below `value`. -/
def alignUp (value align : UInt64) : Except Fault UInt64 :=
  if isPowerOfTwo align then
    (sum value (align - 1)).map (· &&& ~~~(align - 1))
  else .error .alignment

/-- The greatest multiple of `align` that is not above `value`. -/
def alignDown (value align : UInt64) : Except Fault UInt64 :=
  if isPowerOfTwo align then .ok (value &&& ~~~(align - 1)) else .error .alignment

/-- The number of pages that hold the given bytes. -/
def pagesFor (bytes : UInt64) : Except Fault UInt64 :=
  (alignUp bytes pageSize).map (· >>> pageShift)

def PhysicalAddress.add (a : PhysicalAddress) (n : UInt64) : Except Fault PhysicalAddress :=
  (sum a.value n).map PhysicalAddress.mk

def PhysicalAddress.sub (a b : PhysicalAddress) : Except Fault UInt64 :=
  difference a.value b.value

def VirtualAddress.sub (a b : VirtualAddress) : Except Fault UInt64 :=
  difference a.value b.value

/-- The frame `n` frames on; bits of the distance that leave the word are lost. -/
def PhysicalFrame.forward (f : PhysicalFrame) (n : UInt64) : Except Fault PhysicalFrame :=
  (sum f.base.value (n <<< pageShift)).map fun v => .containing ⟨v⟩

end MemoryManager
