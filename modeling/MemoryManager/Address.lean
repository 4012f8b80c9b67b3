import MemoryManager.Text

namespace MemoryManager

/-- Size of a frame and of a page, in bytes. -/
def pageSize : UInt64 := 4096

/-- Number of address bits inside a page. -/
def pageShift : UInt64 := 12

/-- A byte address in physical memory. -/
@[ext] structure PhysicalAddress where
  value : UInt64
  deriving DecidableEq

/-- A byte address in an address space. -/
@[ext] structure VirtualAddress where
  value : UInt64
  deriving DecidableEq

/-- A 4 KiB frame of physical memory, named by its number. -/
@[ext] structure PhysicalFrame where
  index : Nat
  index_lt : index < 0x10000000000000
  deriving DecidableEq

def pageOffset (v : UInt64) : UInt64 :=
  v &&& (pageSize - 1)

theorem toNat_shiftRight_pageShift (v : UInt64) : (v >>> pageShift).toNat = v.toNat / 4096 := by
  rw [UInt64.toNat_shiftRight, Nat.shiftRight_eq_div_pow]
  rfl

def isPageAligned (v : UInt64) : Bool :=
  pageOffset v == 0

/-- The sum of two words, if it is a word. -/
def checkedSum (a b : UInt64) : Option UInt64 :=
  if a.toNat + b.toNat < UInt64.size then some (a + b) else none

theorem checkedSum_eq_some_iff {a b c : UInt64} :
    checkedSum a b = some c ↔ a.toNat + b.toNat = c.toNat := by
  have hc := c.toNat_lt
  rw [checkedSum, show UInt64.size = 2 ^ 64 from rfl]
  split
  · rename_i lt
    rw [Option.some.injEq, ← UInt64.toNat_inj, UInt64.toNat_add, Nat.mod_eq_of_lt lt]
  · simp only [reduceCtorEq, false_iff]
    omega

theorem checkedSum_eq_none_iff {a b : UInt64} :
    checkedSum a b = none ↔ UInt64.size ≤ a.toNat + b.toNat := by
  rw [checkedSum]
  split
  · rename_i lt
    simp only [reduceCtorEq, false_iff]
    exact Nat.not_le.mpr lt
  · rename_i le
    exact iff_of_true rfl (Nat.not_lt.mp le)

namespace PhysicalFrame

def containing (a : PhysicalAddress) : PhysicalFrame where
  index := a.value.toNat / 4096
  index_lt := by
    have := a.value.toNat_lt
    omega

/-- The frame with the given number; bits that an address has no room for are lost. -/
def ofIndex (i : Nat) : PhysicalFrame where
  index := i % 0x10000000000000
  index_lt := Nat.mod_lt _ (by decide)

def start (f : PhysicalFrame) : Nat :=
  4096 * f.index

def base (f : PhysicalFrame) : PhysicalAddress :=
  ⟨.ofNat f.start⟩

def debug (f : PhysicalFrame) : String :=
  "Frame(#" ++ Text.nat f.index ++ " @ " ++ Text.word f.base.value ++ ")"

def display (f : PhysicalFrame) : String :=
  Text.word f.base.value ++ "/4K"

theorem stop_le (f : PhysicalFrame) : f.start + 4096 ≤ 0x10000000000000000 := by
  have := f.index_lt
  unfold start
  omega

@[simp] theorem toNat_base (f : PhysicalFrame) : f.base.value.toNat = f.start := by
  have := f.stop_le
  simp only [base, UInt64.toNat_ofNat']
  omega

@[simp] theorem containing_base (f : PhysicalFrame) : containing f.base = f := by
  ext
  simp only [containing, toNat_base, start]
  omega

theorem ofIndex_index (f : PhysicalFrame) : ofIndex f.index = f := by
  ext
  simp only [ofIndex, Nat.mod_eq_of_lt f.index_lt]

end PhysicalFrame

namespace PhysicalAddress

def frame (a : PhysicalAddress) : PhysicalFrame :=
  PhysicalFrame.containing a

/-- The sum, if it is an address. -/
def add? (a : PhysicalAddress) (n : UInt64) : Option PhysicalAddress :=
  (checkedSum a.value n).map PhysicalAddress.mk

def debug (a : PhysicalAddress) : String :=
  "PA(" ++ Text.word a.value ++ ")"

def display (a : PhysicalAddress) : String :=
  Text.word a.value

end PhysicalAddress

namespace VirtualAddress

/-- Moves up an address space, which is a circle. -/
def add (a : VirtualAddress) (n : UInt64) : VirtualAddress :=
  ⟨a.value + n⟩

/-- The sum, if it does not run past the top of the address space. -/
def add? (a : VirtualAddress) (n : UInt64) : Option VirtualAddress :=
  (checkedSum a.value n).map VirtualAddress.mk

def debug (a : VirtualAddress) : String :=
  "VA(" ++ Text.word a.value ++ ")"

def display (a : VirtualAddress) : String :=
  Text.word a.value

end VirtualAddress

end MemoryManager
