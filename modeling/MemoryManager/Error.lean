import MemoryManager.Address
import MemoryManager.Paging.Level

namespace MemoryManager

/-- Why the frame allocator refuses a request. -/
inductive FrameError where
  | zeroPages
  | outOfMemory (pages : UInt64)
  | noBitmapRegion (bytes : UInt64)
  | emptyMemoryMap
  | notAllocated (frame : PhysicalFrame)
  | outOfRange (frame : PhysicalFrame)
  | reserved (frame : PhysicalFrame)
  deriving DecidableEq

/-- A processor family that an address space can be built for. -/
inductive Architecture where
  | x86_64
  | riscv64
  | aarch64
  deriving DecidableEq

def Architecture.name : Architecture → String
  | x86_64 => "x86_64"
  | riscv64 => "riscv64"
  | aarch64 => "aarch64"

/-- A table that paging needs a frame for: one of a level, or the only one of an architecture
without levels. -/
inductive TableKind where
  | atLevel (level : Level)
  | root
  deriving DecidableEq

def TableKind.name : TableKind → String
  | atLevel level => level.name
  | root => "root"

/-- Why a paging operation is refused. -/
inductive PagingError where
  | outOfMemory (table : TableKind)
  | unsupported (arch : Architecture)
  deriving DecidableEq

/-- Why the kernel heap refuses a request. -/
inductive HeapError where
  | outOfMemory (size : UInt64)
  | frames (error : FrameError)
  deriving DecidableEq

namespace FrameError

def message : FrameError → String
  | zeroPages => "cannot allocate zero pages"
  | outOfMemory pages =>
      "out of physical memory: no run of " ++ Text.nat pages.toNat ++ " free frames"
  | noBitmapRegion bytes =>
      "no usable region can hold the " ++ Text.nat bytes.toNat ++ "-byte frame bitmap"
  | emptyMemoryMap => "memory map contains no usable memory"
  | notAllocated frame => frame.debug ++ " is not allocated"
  | outOfRange frame => frame.debug ++ " lies beyond the tracked frames"
  | reserved frame => frame.debug ++ " is permanently reserved"

def debug : FrameError → String
  | zeroPages => "ZeroPages"
  | outOfMemory pages => Text.fields "OutOfMemory" [("pages", Text.nat pages.toNat)]
  | noBitmapRegion bytes => Text.fields "NoBitmapRegion" [("bytes", Text.nat bytes.toNat)]
  | emptyMemoryMap => "EmptyMemoryMap"
  | notAllocated frame => Text.fields "NotAllocated" [("frame", frame.debug)]
  | outOfRange frame => Text.fields "OutOfRange" [("frame", frame.debug)]
  | reserved frame => Text.fields "Reserved" [("frame", frame.debug)]

end FrameError

namespace PagingError

def message : PagingError → String
  | outOfMemory table =>
      "out of physical memory while allocating a " ++ table.name ++ " table"
  | unsupported arch => "paging is not implemented on " ++ arch.name

def debug : PagingError → String
  | outOfMemory table => Text.fields "OutOfMemory" [("level", Text.quoted table.name)]
  | unsupported arch => Text.fields "Unsupported" [("arch", Text.quoted arch.name)]

end PagingError

namespace HeapError

def message : HeapError → String
  | outOfMemory size =>
      "no heap block of " ++ Text.nat size.toNat ++ " bytes available after growing the heap"
  | frames error => error.message

def debug : HeapError → String
  | outOfMemory size => Text.fields "OutOfMemory" [("size", Text.nat size.toNat)]
  | frames error => "Frames(" ++ error.debug ++ ")"

end HeapError

end MemoryManager
