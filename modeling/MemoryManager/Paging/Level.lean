namespace MemoryManager

/-- A level of page tables, from the root down. -/
inductive Level where
  | pml4
  | pdpt
  | pd
  | pt
  deriving DecidableEq

namespace Level

/-- Position of the level's nine index bits in a virtual address. -/
def shift : Level → UInt64
  | pml4 => 39
  | pdpt => 30
  | pd => 21
  | pt => 12

def name : Level → String
  | pml4 => "PML4"
  | pdpt => "PDPT"
  | pd => "PD"
  | pt => "PT"

def debug : Level → String
  | pml4 => "Pml4"
  | pdpt => "Pdpt"
  | pd => "Pd"
  | pt => "Pt"

end Level

end MemoryManager
