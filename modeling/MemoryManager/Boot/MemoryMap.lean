import MemoryManager.Fault

namespace MemoryManager

/-- What a stretch of physical addresses holds. -/
inductive RegionKind where
  | unknown
  | usable
  | reserved
  | acpiReclaimable
  | acpiNvs
  | badMemory
  | bootloaderReclaimable
  | kernelAndModules
  | framebuffer
  deriving DecidableEq

namespace RegionKind

def ofNumber : UInt64 → RegionKind
  | 1 => usable
  | 2 => reserved
  | 3 => acpiReclaimable
  | 4 => acpiNvs
  | 5 => badMemory
  | 6 => bootloaderReclaimable
  | 7 => kernelAndModules
  | 8 => framebuffer
  | _ => unknown

def number : RegionKind → UInt64
  | unknown => 0
  | usable => 1
  | reserved => 2
  | acpiReclaimable => 3
  | acpiNvs => 4
  | badMemory => 5
  | bootloaderReclaimable => 6
  | kernelAndModules => 7
  | framebuffer => 8

def name : RegionKind → String
  | unknown => "Unknown"
  | usable => "Usable"
  | reserved => "Reserved"
  | acpiReclaimable => "ACPI Reclaimable"
  | acpiNvs => "ACPI NVS"
  | badMemory => "Bad Memory"
  | bootloaderReclaimable => "Bootloader Reclaimable"
  | kernelAndModules => "Kernel and Modules"
  | framebuffer => "Framebuffer"

def debug : RegionKind → String
  | unknown => "Unknown"
  | usable => "Usable"
  | reserved => "Reserved"
  | acpiReclaimable => "AcpiReclaimable"
  | acpiNvs => "AcpiNvs"
  | badMemory => "BadMemory"
  | bootloaderReclaimable => "BootloaderReclaimable"
  | kernelAndModules => "KernelAndModules"
  | framebuffer => "Framebuffer"

end RegionKind

/-- A stretch of physical addresses. -/
@[ext] structure Region where
  base : PhysicalAddress
  length : UInt64
  kind : RegionKind
  deriving DecidableEq

namespace Region

/-- The first address past the region, or the last address of all. -/
def stop (r : Region) : PhysicalAddress :=
  match checkedSum r.base.value r.length with
  | some e => ⟨e⟩
  | none => ⟨0xFFFFFFFFFFFFFFFF⟩

def isUsable (r : Region) : Bool :=
  r.kind == .usable

def debug (r : Region) : String :=
  Text.fields "MemoryMapEntry"
    [("base", r.base.debug), ("length", Text.nat r.length.toNat), ("kind", r.kind.debug)]

end Region

/-- The memory map, in the boot loader's order. -/
abbrev MemoryMap := List Region

namespace MemoryMap

def region (map : MemoryMap) (i : Nat) : Except Fault Region :=
  match map[i]? with
  | some r => .ok r
  | none => .error (.mapEntry i map.length)

def usable (map : MemoryMap) : MemoryMap :=
  map.filter Region.isUsable

/-- Number of frames up to the last page boundary that a region of free RAM reaches. -/
def frameCount (map : MemoryMap) : Nat :=
  (map.usable.map fun r => r.stop.frame.index).foldl max 0

end MemoryMap

end MemoryManager
