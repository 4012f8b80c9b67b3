import Mathlib.Algebra.GroupWithZero.Nat
import MemoryManager.Heap.Block

namespace MemoryManager.HeapBlock

variable {d : DirectMap} {a b : VirtualAddress} {m t : Memory}

/-- Nothing but the header at `a` changes. -/
def OnlyHeader (d : DirectMap) (a : VirtualAddress) (m t : Memory) : Prop :=
  ∀ x, (x < field d a 0 ∨ field d a 32 ≤ x) → t.byte x = m.byte x

/-- The headers at two addresses share no byte. -/
def Apart (d : DirectMap) (a b : VirtualAddress) : Prop :=
  field d a 32 ≤ field d b 0 ∨ field d b 32 ≤ field d a 0

theorem Apart.symm (h : Apart d a b) : Apart d b a :=
  Or.symm h

theorem Apart.ne (h : Apart d a b) : a ≠ b := by
  intro heq
  obtain rfl := heq
  simp only [Apart, field] at h
  omega

/-- Nothing but the size and the links in the header at `a` changes. -/
def OnlyLinks (d : DirectMap) (a : VirtualAddress) (m t : Memory) : Prop :=
  ∀ x, (x < field d a 0 ∨ field d a 8 ≤ x ∧ x < field d a 16 ∨ field d a 32 ≤ x) →
    t.byte x = m.byte x

theorem OnlyLinks.onlyHeader (h : OnlyLinks d a m t) : OnlyHeader d a m t :=
  fun x hx => h x (hx.imp_right .inr)

theorem OnlyHeader.read_of_apart (h : OnlyHeader d a m t) (hab : Apart d a b) :
    read d t b = read d m b := by
  apply read_congr
  intro x hlow hhigh
  apply h
  simp only [Apart, field] at *
  omega

theorem onlyHeader_write (c : HeapBlock) : OnlyHeader d c.address m (write d c m) :=
  fun _ hx => byte_write d c m hx

theorem onlyLinks_setSize (n : UInt64) : OnlyLinks d a m (setSize d a n m) := by
  intro x hx
  simp only [field] at hx
  exact Memory.byte_setWord_of_disjoint _ _ _ _ (by simp only [field]; omega)

theorem onlyHeader_setSize (n : UInt64) : OnlyHeader d a m (setSize d a n m) :=
  (onlyLinks_setSize n).onlyHeader

theorem onlyHeader_setFree (free : Bool) : OnlyHeader d a m (setFree d a free m) := by
  intro x hx
  simp only [field] at hx
  rw [setFree, Memory.byte_setByte, if_neg (by simp only [field]; omega)]

theorem onlyLinks_setNext (n : VirtualAddress) : OnlyLinks d a m (setNext d a n m) := by
  intro x hx
  simp only [field] at hx
  exact Memory.byte_setWord_of_disjoint _ _ _ _ (by simp only [field]; omega)

theorem onlyHeader_setNext (n : VirtualAddress) : OnlyHeader d a m (setNext d a n m) :=
  (onlyLinks_setNext n).onlyHeader

theorem onlyLinks_setPrev (n : VirtualAddress) : OnlyLinks d a m (setPrev d a n m) := by
  intro x hx
  simp only [field] at hx
  exact Memory.byte_setWord_of_disjoint _ _ _ _ (by simp only [field]; omega)

theorem onlyHeader_setPrev (n : VirtualAddress) : OnlyHeader d a m (setPrev d a n m) :=
  (onlyLinks_setPrev n).onlyHeader

theorem read_setSize (h : InMemory d a) (n : UInt64) :
    read d (setSize d a n m) a = { read d m a with size := n } := by
  simp only [InMemory, field] at h
  simp only [read, setSize]
  rw [Memory.word_setWord _ _ _ (by simp only [field]; omega),
    Memory.byte_setWord_of_disjoint _ _ _ _ (by simp only [field]; omega),
    Memory.word_setWord_of_disjoint _ _ _ _ (by simp only [field]; omega),
    Memory.word_setWord_of_disjoint _ _ _ _ (by simp only [field]; omega)]

theorem read_setFree (h : InMemory d a) (free : Bool) :
    read d (setFree d a free m) a = { read d m a with free := free } := by
  simp only [InMemory, field] at h
  simp only [read, setFree]
  rw [Memory.word_setByte_of_disjoint _ _ _ _ (by simp only [field]; omega),
    Memory.word_setByte_of_disjoint _ _ _ _ (by simp only [field]; omega),
    Memory.word_setByte_of_disjoint _ _ _ _ (by simp only [field]; omega), Memory.byte_setByte,
    if_pos ⟨rfl, by simp only [field]; omega⟩]
  cases free <;> rfl

theorem read_setNext (h : InMemory d a) (n : VirtualAddress) :
    read d (setNext d a n m) a = { read d m a with next := n } := by
  simp only [InMemory, field] at h
  simp only [read, setNext]
  rw [Memory.word_setWord _ _ _ (by simp only [field]; omega),
    Memory.byte_setWord_of_disjoint _ _ _ _ (by simp only [field]; omega),
    Memory.word_setWord_of_disjoint _ _ _ _ (by simp only [field]; omega),
    Memory.word_setWord_of_disjoint _ _ _ _ (by simp only [field]; omega)]

theorem read_setPrev (h : InMemory d a) (n : VirtualAddress) :
    read d (setPrev d a n m) a = { read d m a with prev := n } := by
  simp only [InMemory, field] at h
  simp only [read, setPrev]
  rw [Memory.word_setWord _ _ _ (by simp only [field]; omega),
    Memory.byte_setWord_of_disjoint _ _ _ _ (by simp only [field]; omega),
    Memory.word_setWord_of_disjoint _ _ _ _ (by simp only [field]; omega),
    Memory.word_setWord_of_disjoint _ _ _ _ (by simp only [field]; omega)]

end MemoryManager.HeapBlock
