import MemoryManager.Error

namespace MemoryManager

inductive Arithmetic where
  | addition
  | subtraction
  | multiplication
  deriving DecidableEq

/-- The part of the memory manager that gives up. -/
inductive Subsystem where
  | frames
  | spaces
  | heap
  deriving DecidableEq

def Subsystem.name : Subsystem → String
  | frames => "pmm"
  | spaces => "vmm"
  | heap => "kheap"

/-- Why a subsystem gives up. -/
inductive HaltCause where
  | frames (error : FrameError)
  | paging (error : PagingError)
  | heap (error : HeapError)
  | bootProtocol
  | kernelRoot
  | noKernelRoot
  | initializedTwice (slot : String)
  deriving DecidableEq

def HaltCause.message : HaltCause → String
  | frames error => error.message
  | paging error => error.message
  | heap error => error.message
  | bootProtocol => "bootloader does not support the requested boot protocol"
  | kernelRoot => "refusing to destroy the kernel page table"
  | noKernelRoot => "attempt to fetch the kernel page table before VMM initialization"
  | initializedTwice slot => slot ++ " initialized twice"

/-- What stops an operation. -/
inductive Fault where
  | overflow (op : Arithmetic)
  | alignment
  | tableIndex
  | fieldValue (max : UInt64)
  | index (length index : Nat)
  | slice
  | mapEntry (index count : Nat)
  | unreachable (address : PhysicalAddress)
  | uninitialized (slot : String)
  | halted (subsystem : Subsystem) (cause : HaltCause)
  deriving DecidableEq

def Fault.message : Fault → String
  | overflow .addition => "attempt to add with overflow"
  | overflow .subtraction => "attempt to subtract with overflow"
  | overflow .multiplication => "attempt to multiply with overflow"
  | alignment => "assertion failed: align.is_power_of_two()"
  | tableIndex => "assertion failed: v < 512"
  | fieldValue max => "value out of bounds [0, " ++ Text.nat max.toNat ++ "]"
  | index length i =>
      "index out of bounds: the len is " ++ Text.nat length ++ " but the index is " ++ Text.nat i
  | slice => "slice range out of bounds"
  | mapEntry i count =>
      "memory map index " ++ Text.nat i ++ " out of bounds (" ++ Text.nat count ++ " entries)"
  | unreachable _ => "physical address outside RAM"
  | uninitialized slot => slot ++ " used before initialization"
  | halted subsystem cause => subsystem.name ++ ": " ++ cause.message

def sum (a b : UInt64) : Except Fault UInt64 :=
  if a.toNat + b.toNat < UInt64.size then .ok (a + b) else .error (.overflow .addition)

def difference (a b : UInt64) : Except Fault UInt64 :=
  if b ≤ a then .ok (a - b) else .error (.overflow .subtraction)

def product (a b : UInt64) : Except Fault UInt64 :=
  if a.toNat * b.toNat < UInt64.size then .ok (a * b) else .error (.overflow .multiplication)

theorem sum_eq_ok_iff {a b c : UInt64} : sum a b = .ok c ↔ a.toNat + b.toNat = c.toNat := by
  unfold sum
  have hs : UInt64.size = 2 ^ 64 := rfl
  have ha := a.toNat_lt
  have hb := b.toNat_lt
  have hc := c.toNat_lt
  constructor
  · intro h
    split at h
    · rename_i lt
      rw [← Except.ok.inj h, UInt64.toNat_add]
      omega
    · cases h
  · intro h
    rw [if_pos (by omega)]
    congr 1
    apply UInt64.toNat_inj.mp
    rw [UInt64.toNat_add]
    omega

end MemoryManager
