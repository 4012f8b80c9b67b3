import MemoryManager.Machine
import MemoryManager.Memory.Words
import MemoryManager.Paging.Table

namespace MemoryManager

namespace Memory

/-- Where an entry of the table in a frame lies. -/
def entryStart (table : PhysicalFrame) (i : TableIndex) : Nat :=
  table.start + 8 * i

def entry (m : Memory) (table : PhysicalFrame) (i : TableIndex) : PageEntry :=
  ⟨m.word (entryStart table i)⟩

def setEntry (m : Memory) (table : PhysicalFrame) (i : TableIndex) (e : PageEntry) : Memory :=
  m.setWord (entryStart table i) e.bits

def zeroTable (m : Memory) (table : PhysicalFrame) : Memory :=
  m.fill table.start 4096 0

def table (m : Memory) (table : PhysicalFrame) : PageTable :=
  ⟨Vector.ofFn fun i => m.entry table i⟩

/-- Two entries lie in the same place only if they are one, and share no byte otherwise. -/
theorem entryStart_apart {s t : PhysicalFrame} {i j : TableIndex} (h : ¬(s = t ∧ i = j)) :
    entryStart s i + 8 ≤ entryStart t j ∨ entryStart t j + 8 ≤ entryStart s i := by
  have hi := i.isLt
  have hj := j.isLt
  simp only [PhysicalFrame.ext_iff, Fin.ext_iff] at h
  simp only [entryStart, PhysicalFrame.start]
  omega

theorem entryStart_le (t : PhysicalFrame) (i : TableIndex) : entryStart t i + 8 ≤ size := by
  have := t.stop_le
  have := i.isLt
  simp only [entryStart, size]
  omega

theorem entry_setEntry (m : Memory) (s t : PhysicalFrame) (i j : TableIndex) (e : PageEntry) :
    (m.setEntry s i e).entry t j = if s = t ∧ i = j then e else m.entry t j := by
  by_cases h : s = t ∧ i = j
  · obtain ⟨rfl, rfl⟩ := h
    simp only [entry, setEntry, and_self, if_true]
    rw [word_setWord _ _ _ (entryStart_le s i)]
  · simp only [entry, setEntry, if_neg h]
    rw [word_setWord_of_disjoint _ _ _ _ (entryStart_apart h).symm]

theorem entry_zeroTable (m : Memory) (s t : PhysicalFrame) (j : TableIndex) :
    (m.zeroTable s).entry t j = if s = t then .zero else m.entry t j := by
  have hj := j.isLt
  by_cases h : s = t
  · subst h
    have := entryStart_le s j
    simp only [if_true, entry, PageEntry.zero]
    congr 1
    apply Bits.eq_of_testBit
    intro i hi
    rw [testBit_word _ _ _ hi, zeroTable, byte_fill, if_pos]
    · simp
    · simp only [entryStart] at *
      omega
  · simp only [if_neg h, entry, zeroTable]
    congr 1
    apply word_congr
    intro k hk
    rw [byte_fill, if_neg]
    simp only [PhysicalFrame.ext_iff] at h
    simp only [entryStart, PhysicalFrame.start]
    omega

end Memory

end MemoryManager
