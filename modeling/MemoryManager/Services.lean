import MemoryManager.AddressSpaces
import MemoryManager.Heap.KernelHeap
import MemoryManager.Heap.Layout
import MemoryManager.Sync.Slot

namespace MemoryManager

/-- The machine and the three parts of its memory manager. -/
structure Services where
  machine : Machine
  frames : Slot FrameAllocator := { name := "PMM" }
  spaces : Slot AddressSpaces := { name := "VMM" }
  heap : Slot KernelHeap := { name := "kernel heap" }

/-- A request to the memory manager. Nothing is refused: what fails is a fault. -/
abbrev Request (α : Type) : Type := Action Services Empty α

namespace Services

variable {α ε : Type}

/-- How a stage of the start ended, and how a release ended. -/
inductive Status where
  | ok
  | failed
  deriving DecidableEq

def Status.number : Status → Int
  | ok => 0
  | failed => -1

def onMachine (x : Action Machine ε α) : Action Services ε α :=
  x.within Services.machine fun s m => { s with machine := m }

def frameAllocator : Action Services ε FrameAllocator := do
  let s ← Action.get
  .value s.frames.get

def addressSpaces : Action Services ε AddressSpaces := do
  let s ← Action.get
  .value s.spaces.get

def kernelHeap : Action Services ε KernelHeap := do
  let s ← Action.get
  .value s.heap.get

def withFrames (p : FrameAllocator) (x : Action (World FrameAllocator) ε α) : Action Services ε α :=
  x.within (fun s => ⟨s.machine, p⟩) fun s w => { s with machine := w.machine }

/-- Acts on a heap, which becomes the content of the heap's slot. -/
def withHeap (h : KernelHeap) (x : Action (World KernelHeap) ε α) : Action Services ε α :=
  x.within (fun s => ⟨s.machine, h⟩) fun s w =>
    { s with machine := w.machine, heap := s.heap.put w.part }

/-- Fills a slot; filling it twice ends everything. -/
def install {τ : Type} (subsystem : Subsystem) (slot : Services → Slot τ)
    (put : Services → Slot τ → Services) (v : τ) : Request Unit := do
  let s ← Action.get
  match (slot s).install? v with
  | some filled => Action.modify fun s => put s filled
  | none => onMachine (Machine.halt subsystem (.initializedTwice (slot s).name))

def initFrames (boot : BootInfo) : Request Status := do
  if !boot.bootloader.supported then onMachine (Machine.halt .frames .bootProtocol)
  let p ← onMachine (FrameAllocator.initOrHalt boot)
  install .frames Services.frames (fun s f => { s with frames := f }) p
  pure .ok

/-- Starts the manager of address spaces, with four-level paging. -/
def initSpaces (boot : BootInfo) : Request Status := do
  let p ← frameAllocator
  let paging : Paging := ⟨.x86_64, p.directMap, .cr3⟩
  let v ← withFrames p (AddressSpaces.orHalt (AddressSpaces.init paging boot))
  install .spaces Services.spaces (fun s f => { s with spaces := f }) v
  pure .ok

def initHeap : Request Status := do
  let p ← frameAllocator
  let h ← onMachine (KernelHeap.initOrHalt p)
  install .heap Services.heap (fun s f => { s with heap := f }) h
  pure .ok

def allocFrames (pages : UInt64) : Request FrameRange := do
  let p ← frameAllocator
  onMachine (p.allocOrHalt pages)

def freeFrames (r : FrameRange) : Request Status := do
  let p ← frameAllocator
  match ← onMachine (p.free r).attempt with
  | .ok _ => pure .ok
  | .error _ => pure .failed

def countFreeFrames : Request Nat := do
  let p ← frameAllocator
  pure (p.freeFrames (← Action.get).machine.memory)

def kernelRoot : Request RootTable := do
  let s ← Action.get
  match s.spaces.content with
  | some v => pure v.kernelRoot
  | none => onMachine (Machine.halt .spaces .noKernelRoot)

/-- Acts with the manager of address spaces and the frame allocator. -/
def withSpaces (x : AddressSpaces → Action (World FrameAllocator) Empty α) : Request α := do
  let v ← addressSpaces
  let p ← frameAllocator
  withFrames p (x v)

def newRoot : Request RootTable :=
  withSpaces fun v => AddressSpaces.orHalt v.paging.newRoot

def destroyRoot (root : RootTable) : Request Unit :=
  withSpaces fun v => v.destroy root

def activate (root : RootTable) : Request Unit := do
  let v ← addressSpaces
  (v.paging.activate root).within (fun s => World.mk s.machine ()) fun s w =>
    { s with machine := w.machine }

def map (root : RootTable) (target : PhysicalAddress) (a : VirtualAddress) (flags : PageFlags) :
    Request Unit :=
  withSpaces fun v => AddressSpaces.orHalt (v.paging.map root target a flags)

def unmap (root : RootTable) (a : VirtualAddress) : Request Unit :=
  withSpaces fun v => AddressSpaces.orHalt (v.paging.unmap root a)

def setFlags (root : RootTable) (a : VirtualAddress) (flags : PageFlags) : Request Unit :=
  withSpaces fun v => AddressSpaces.orHalt (v.paging.setFlags root a flags)

def mapRange (root : RootTable) (target : PhysicalAddress) (a : VirtualAddress) (size : UInt64)
    (flags : PageFlags) : Request Unit :=
  withSpaces fun v =>
    AddressSpaces.orHalt (AddressSpaces.mapRange v.paging root target a size flags)

def translate (root : RootTable) (a : VirtualAddress) : Request (Option PhysicalAddress) := do
  let v ← addressSpaces
  let s ← Action.get
  .value (v.paging.translate s.machine.memory root a)

def heapStats : Request HeapStats := do
  let h ← kernelHeap
  pure (h.stats (← Action.get).machine.memory)

def alloc (size : UInt64) : Request VirtualAddress := do
  let h ← kernelHeap
  let p ← frameAllocator
  withHeap h (KernelHeap.allocOrHalt p size)

def free (a : VirtualAddress) : Request Unit := do
  let h ← kernelHeap
  withHeap h (KernelHeap.release a)

/-- Memory for a layout, or null: the alignment is beyond the heap's, there is no heap yet, or the
heap refuses. -/
def allocLayout (l : Layout) : Request VirtualAddress := do
  if granule < l.align then pure .null
  else
    match (← Action.get).heap.content with
    | none => pure .null
    | some h =>
      let p ← frameAllocator
      match ← (withHeap h (KernelHeap.alloc p l.size)).attempt with
      | .ok a => pure a
      | .error _ => pure .null

/-- As `allocLayout`; the bytes that the layout asks for are all zero. -/
def allocZeroed (l : Layout) : Request VirtualAddress := do
  let a ← allocLayout l
  if a ≠ .null then
    let h ← kernelHeap
    onMachine (Machine.store fun m => m.fill (h.directMap.physical a).value.toNat l.size.toNat 0)
  pure a

/-- Gives memory back; without a heap there is nothing to give back. -/
def freeLayout (a : VirtualAddress) : Request Unit := do
  match (← Action.get).heap.content with
  | none => pure ()
  | some h => withHeap h (KernelHeap.release a)

/-- Moves memory of layout `old` to memory of layout `new`; if there is none, it stays. -/
def realloc (a : VirtualAddress) (old new : Layout) : Request VirtualAddress := do
  let b ← allocLayout new
  if b ≠ .null then
    let h ← kernelHeap
    onMachine (Machine.store fun m =>
      m.copy (h.directMap.physical a).value.toNat (h.directMap.physical b).value.toNat
        (min old.size new.size).toNat)
    freeLayout a
  pure b

end Services

end MemoryManager
