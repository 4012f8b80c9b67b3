import MemoryManager.Paging.Backend

namespace MemoryManager

/-- The manager of address spaces. The kernel's root table never changes. -/
structure AddressSpaces where
  paging : Paging
  kernelRoot : RootTable
  deriving DecidableEq

namespace AddressSpaces

variable {τ ε α : Type}

/-- A refusal ends everything. -/
def orHalt (x : Action (World τ) PagingError α) : Action (World τ) ε α :=
  x.onRefusal fun e => World.halt .spaces (.paging e)

/-- Maps page number `page` of a range and the following ones up to `page + n`. -/
def mapPages [FrameSource τ] (p : Paging) (root : RootTable) (target : PhysicalAddress)
    (a : VirtualAddress) (flags : PageFlags) (page : Nat) :
    (n : Nat) → Action (World τ) PagingError Unit
  | 0 => pure ()
  | n + 1 => do
    let distance := UInt64.ofNat page * pageSize
    let t ← .value (target.add distance)
    p.map root t (a.add distance) flags
    mapPages p root target a flags (page + 1) n

/-- Maps `size` bytes page by page; a partial last page is mapped whole. -/
def mapRange [FrameSource τ] (p : Paging) (root : RootTable) (target : PhysicalAddress)
    (a : VirtualAddress) (size : UInt64) (flags : PageFlags) :
    Action (World τ) PagingError Unit := do
  let pages ← .value (pagesFor size)
  mapPages p root target a flags 0 pages.toNat

def kernelFlags : PageFlags :=
  PageFlags.present.union .writableExecutable

/-- The part of a region that the direct map shows: all of it, but for a page at address 0. -/
def mappedPart (r : Region) : Region :=
  if r.base.value = 0 then
    { r with base := ⟨pageSize⟩, length := if r.length < pageSize then 0 else r.length - pageSize }
  else r

def mapRegion [FrameSource τ] (p : Paging) (root : RootTable) (offset : UInt64) (r : Region) :
    Action (World τ) PagingError Unit := do
  let r := mappedPart r
  World.report (.mappingRegion r.base r.length r.kind)
  mapRange p root r.base ⟨r.base.value + offset⟩ r.length kernelFlags

/-- Maps all that the kernel's address space shows. -/
def furnish [FrameSource τ] (p : Paging) (boot : BootInfo) (root : RootTable) :
    Action (World τ) PagingError RootTable := do
  World.report .mappingMemory
  boot.map.forM (mapRegion p root boot.directOffset)
  World.report .mappingKernel
  mapRange p root boot.kernel.physical boot.kernel.virtual boot.kernel.size kernelFlags
  pure root

/-- The first part of the start: a new root table, with everything mapped below it. -/
def build [FrameSource τ] (p : Paging) (boot : BootInfo) :
    Action (World τ) PagingError RootTable :=
  p.newRoot >>= furnish p boot

/-- The second part of the start: the root table becomes the active one. -/
def start (p : Paging) (root : RootTable) : Action (World τ) PagingError AddressSpaces := do
  p.activate root
  World.report .spacesReady
  pure ⟨p, root⟩

/-- Builds and activates the kernel's address space. -/
def init [FrameSource τ] (p : Paging) (boot : BootInfo) :
    Action (World τ) PagingError AddressSpaces :=
  build p boot >>= start p

/-- Gives back an address space other than the kernel's own. -/
def destroy [FrameSource τ] (s : AddressSpaces) (root : RootTable) : Action (World τ) ε Unit :=
  if root = s.kernelRoot then World.halt .spaces .kernelRoot
  else s.paging.destroy root

end AddressSpaces

end MemoryManager
