import MemoryManager.Boot.MemoryMap

namespace MemoryManager

/-- The firmware that started the boot loader. -/
inductive Firmware where
  | unknown
  | x86Bios
  | uefi32
  | uefi64
  deriving DecidableEq

namespace Firmware

def ofNumber : UInt64 → Firmware
  | 1 => x86Bios
  | 2 => uefi32
  | 3 => uefi64
  | _ => unknown

def number : Firmware → UInt64
  | unknown => 0
  | x86Bios => 1
  | uefi32 => 2
  | uefi64 => 3

def debug : Firmware → String
  | unknown => "Unknown"
  | x86Bios => "X86Bios"
  | uefi32 => "Uefi32"
  | uefi64 => "Uefi64"

end Firmware

/-- Where the kernel image lies and where it is linked. -/
structure KernelImage where
  physical : PhysicalAddress := ⟨0⟩
  virtual : VirtualAddress := ⟨0⟩
  size : UInt64 := 0
  deriving DecidableEq

structure Bootloader where
  name : String := ""
  version : String := ""
  firmware : Firmware := .unknown
  supported : Bool := true
  deriving DecidableEq

/-- The boot loader's report. `directOffset` is the offset of the direct map. -/
structure BootInfo where
  map : MemoryMap
  directOffset : UInt64
  kernel : KernelImage := {}
  bootloader : Bootloader := {}
  deriving DecidableEq

def BootInfo.debug (b : BootInfo) : String :=
  Text.fields "StaticBootInfo"
    [("entries", Text.listed (b.map.map Region.debug)),
      ("hhdm_offset", Text.nat b.directOffset.toNat),
      ("kernel_physical_base", b.kernel.physical.debug),
      ("kernel_virtual_base", b.kernel.virtual.debug),
      ("kernel_size", Text.nat b.kernel.size.toNat),
      ("bootloader_name", Text.quoted b.bootloader.name),
      ("bootloader_version", Text.quoted b.bootloader.version),
      ("firmware", b.bootloader.firmware.debug),
      ("supported", Text.bool b.bootloader.supported)]

end MemoryManager
