import MemoryManager.Fault

namespace MemoryManager

/-- A direct map. With a `last` address it covers no frame that starts beyond it. -/
structure DirectMap where
  offset : UInt64
  last : Option UInt64 := none
  deriving DecidableEq

namespace DirectMap

/-- Where a physical address appears. -/
def virtual (d : DirectMap) (a : PhysicalAddress) : VirtualAddress :=
  ⟨a.value + d.offset⟩

/-- The physical address that appears at a virtual one. -/
def physical (d : DirectMap) (a : VirtualAddress) : PhysicalAddress :=
  ⟨a.value - d.offset⟩

/-- Where a physical address appears, if the map covers it. -/
def reach (d : DirectMap) (a : PhysicalAddress) : Except Fault VirtualAddress :=
  match d.last with
  | none => .ok (d.virtual a)
  | some last => if a.value ≤ last then .ok (d.virtual a) else .error (.unreachable a)

def debug (d : DirectMap) : String :=
  Text.fields "HhdmPhysMapper" [("offset", Text.nat d.offset.toNat)]

@[simp] theorem physical_virtual (d : DirectMap) (a : PhysicalAddress) :
    d.physical (d.virtual a) = a := by
  simp [physical, virtual]

end DirectMap

end MemoryManager
