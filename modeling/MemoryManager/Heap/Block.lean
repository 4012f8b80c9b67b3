import MemoryManager.DirectMap
import MemoryManager.Machine
import MemoryManager.Memory.Words

namespace MemoryManager

def headerSize : UInt64 := 32

/-- Every payload size is a multiple of this. -/
def granule : UInt64 := 16

/-- A block, named by the address of its header, and what the header says: the size of the payload,
whether the block is free, and the addresses of its neighbours in the list, null at the ends. -/
@[ext] structure HeapBlock where
  address : VirtualAddress
  size : UInt64
  free : Bool
  next : VirtualAddress
  prev : VirtualAddress
  deriving DecidableEq

def VirtualAddress.null : VirtualAddress := ⟨0⟩

namespace HeapBlock

/-- Where a field of a header lies in physical memory, given its offset in the header. -/
def field (d : DirectMap) (a : VirtualAddress) (offset : Nat) : Nat :=
  (d.physical a).value.toNat + offset

/-- The block with the given header address. -/
def read (d : DirectMap) (m : Memory) (a : VirtualAddress) : HeapBlock where
  address := a
  size := m.word (field d a 0)
  free := m.byte (field d a 8) != 0
  next := ⟨m.word (field d a 16)⟩
  prev := ⟨m.word (field d a 24)⟩

def setSize (d : DirectMap) (a : VirtualAddress) (size : UInt64) (m : Memory) : Memory :=
  m.setWord (field d a 0) size

def setFree (d : DirectMap) (a : VirtualAddress) (free : Bool) (m : Memory) : Memory :=
  m.setByte (field d a 8) (if free then 1 else 0)

def setNext (d : DirectMap) (a next : VirtualAddress) (m : Memory) : Memory :=
  m.setWord (field d a 16) next.value

def setPrev (d : DirectMap) (a prev : VirtualAddress) (m : Memory) : Memory :=
  m.setWord (field d a 24) prev.value

def write (d : DirectMap) (b : HeapBlock) (m : Memory) : Memory :=
  setPrev d b.address b.prev
    (setNext d b.address b.next (setFree d b.address b.free (setSize d b.address b.size m)))

def payload (b : HeapBlock) : VirtualAddress :=
  b.address.add headerSize

def ofPayload (a : VirtualAddress) : VirtualAddress :=
  ⟨a.value - headerSize⟩

def stop (b : HeapBlock) : Except Fault VirtualAddress :=
  (sum headerSize b.size).map b.address.add

/-- The blocks from `a` on along the `next` addresses, `n` at most. -/
def chain (d : DirectMap) (m : Memory) : (n : Nat) → (a : VirtualAddress) → List HeapBlock
  | 0, _ => []
  | n + 1, a =>
    if a = .null then []
    else
      let b := read d m a
      b :: chain d m n b.next

def InMemory (d : DirectMap) (a : VirtualAddress) : Prop :=
  field d a 32 ≤ Memory.size

theorem byte_write (d : DirectMap) (b : HeapBlock) (m : Memory) {x : Nat}
    (h : x < field d b.address 0 ∨ field d b.address 32 ≤ x) :
    (write d b m).byte x = m.byte x := by
  simp only [field] at h
  rw [write, setPrev, setNext, setFree, setSize,
    Memory.byte_setWord_of_disjoint _ _ _ _ (by simp only [field]; omega),
    Memory.byte_setWord_of_disjoint _ _ _ _ (by simp only [field]; omega), Memory.byte_setByte,
    if_neg (by simp only [field]; omega),
    Memory.byte_setWord_of_disjoint _ _ _ _ (by simp only [field]; omega)]

theorem read_write (d : DirectMap) (b : HeapBlock) (m : Memory) (h : InMemory d b.address) :
    read d (write d b m) b.address = b := by
  simp only [InMemory, field] at h
  ext
  · rfl
  · simp only [read, write, setPrev, setNext, setFree, setSize]
    rw [Memory.word_setWord_of_disjoint _ _ _ _ (by simp only [field]; omega),
      Memory.word_setWord_of_disjoint _ _ _ _ (by simp only [field]; omega),
      Memory.word_setByte_of_disjoint _ _ _ _ (by simp only [field]; omega),
      Memory.word_setWord _ _ _ (by simp only [field]; omega)]
  · simp only [read, write, setPrev, setNext, setFree]
    rw [Memory.byte_setWord_of_disjoint _ _ _ _ (by simp only [field]; omega),
      Memory.byte_setWord_of_disjoint _ _ _ _ (by simp only [field]; omega), Memory.byte_setByte,
      if_pos ⟨rfl, by simp only [field]; omega⟩]
    cases b.free <;> rfl
  · simp only [read, write, setPrev, setNext]
    rw [Memory.word_setWord_of_disjoint _ _ _ _ (by simp only [field]; omega),
      Memory.word_setWord _ _ _ (by simp only [field]; omega)]
  · simp only [read, write, setPrev]
    rw [Memory.word_setWord _ _ _ (by simp only [field]; omega)]

theorem read_congr (d : DirectMap) {m n : Memory} (a : VirtualAddress)
    (h : ∀ x, field d a 0 ≤ x → x < field d a 32 → m.byte x = n.byte x) :
    read d m a = read d n a := by
  simp only [field] at h
  have word (i : Nat) (hi : i + 8 ≤ 32) : m.word (field d a i) = n.word (field d a i) :=
    Memory.word_congr _ fun k hk => h _ (by simp only [field]; omega) (by simp only [field]; omega)
  simp only [read, word 0 (by decide), word 16 (by decide), word 24 (by decide),
    h (field d a 8) (by simp only [field]; omega) (by simp only [field]; omega)]

end HeapBlock

end MemoryManager
