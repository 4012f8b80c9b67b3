import MemoryManager.Address

namespace MemoryManager

/-- A top-level table: the frame that holds it, and where that frame appears. -/
@[ext] structure RootTable where
  frame : PhysicalFrame
  window : VirtualAddress
  deriving DecidableEq

def RootTable.debug (t : RootTable) : String :=
  "RootTable(" ++ t.frame.base.debug ++ " @ " ++ t.window.debug ++ ")"

end MemoryManager
