import MemoryManager.Paging.Entry
import MemoryManager.Paging.Level

namespace MemoryManager

def tableEntries : Nat := 512

/-- Number of root entries that belong to the lower half of the address space. -/
def lowerHalfEntries : Nat := 256

/-- A position in a table. -/
abbrev TableIndex := Fin 512

namespace TableIndex

/-- The position that a virtual address selects at a level. -/
def select (a : VirtualAddress) (level : Level) : TableIndex :=
  ⟨((a.value >>> level.shift) &&& 0x1FF).toNat % 512, Nat.mod_lt _ (by decide)⟩

def ofNumber (v : UInt16) : Except Fault TableIndex :=
  if h : v.toNat < 512 then .ok ⟨v.toNat, h⟩ else .error .tableIndex

end TableIndex

@[ext] structure PageTable where
  entries : Vector PageEntry 512

namespace PageTable

def zeroed : PageTable :=
  ⟨Vector.replicate 512 .zero⟩

def get (t : PageTable) (i : TableIndex) : PageEntry :=
  t.entries[i]

def set (t : PageTable) (i : TableIndex) (e : PageEntry) : PageTable :=
  ⟨t.entries.set i e⟩

/-- The present entries at the positions `first ≤ i < stop`, in order. -/
def presentEntries (t : PageTable) (first stop : Nat) : Except Fault (List PageEntry) :=
  if first ≤ stop ∧ stop ≤ tableEntries then
    .ok (((t.entries.toList.take stop).drop first).filter PageEntry.present)
  else .error .slice

end PageTable

end MemoryManager
