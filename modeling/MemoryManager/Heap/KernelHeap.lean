import MemoryManager.Frames.Allocator
import MemoryManager.Heap.Block

namespace MemoryManager

/-- The kernel heap: the ends of its list of blocks, and the bytes that it has taken from the frame
allocator. -/
@[ext] structure KernelHeap where
  head : VirtualAddress
  tail : VirtualAddress
  totalBytes : UInt64
  directMap : DirectMap
  deriving DecidableEq

@[ext] structure HeapStats where
  totalBytes : Nat
  freeBytes : Nat
  usedBytes : Nat
  blocks : Nat
  freeBlocks : Nat
  deriving DecidableEq

/-- Number of pages that a heap starts with. -/
def initialHeapPages : UInt64 := 16

namespace KernelHeap

variable {ε : Type}

/-- The payload size that serves a request. -/
def roundedSize? (size : UInt64) : Option UInt64 :=
  if size = 0 then some granule
  else (checkedSum size (granule - 1)).map (· &&& ~~~(granule - 1))

/-- The blocks in list order. Since every block has a header, there are no more than
`totalBytes / 32`. -/
def blocks (h : KernelHeap) (m : Memory) : List HeapBlock :=
  HeapBlock.chain h.directMap m (h.totalBytes / headerSize).toNat h.head

/-- The payload bytes of the blocks. -/
def payloadBytes : List HeapBlock → Nat
  | [] => 0
  | b :: bs => b.size.toNat + payloadBytes bs

def stats (h : KernelHeap) (m : Memory) : HeapStats :=
  let bs := h.blocks m
  let free := bs.filter HeapBlock.free
  let used := bs.filter (!·.free)
  { totalBytes := h.totalBytes.toNat
    freeBytes := payloadBytes free
    usedBytes := payloadBytes used
    blocks := bs.length
    freeBlocks := free.length }

/-- Takes pages from the frame allocator for good: their address and their size in bytes. -/
def claim (p : FrameAllocator) (pages : UInt64) :
    Action Machine HeapError (VirtualAddress × UInt64) := do
  let r ← (p.alloc pages).onRefusal fun e => .refuse (.frames e)
  let bytes ← .value r.bytes
  pure (p.directMap.virtual r.base, bytes)

/-- Creates a heap of one free block. -/
def init (p : FrameAllocator) : Action Machine HeapError KernelHeap := do
  let (start, bytes) ← claim p initialHeapPages
  let size ← .value (difference bytes headerSize)
  Machine.store (HeapBlock.write p.directMap ⟨start, size, true, .null, .null⟩)
  Machine.report (.heapReady bytes start)
  pure ⟨start, start, bytes, p.directMap⟩

/-- As `init`; a refusal ends everything. -/
def initOrHalt (p : FrameAllocator) : Action Machine ε KernelHeap :=
  (init p).onRefusal fun e => Machine.halt .heap (.heap e)

def setTail (a : VirtualAddress) : Action (World KernelHeap) ε Unit :=
  .modify fun w => { w with part := { w.part with tail := a } }

def block (a : VirtualAddress) : Action (World KernelHeap) ε HeapBlock := fun w =>
  (.done (HeapBlock.read w.part.directMap w.machine.memory a), w)

/-- Cuts a block down to `size` bytes and links what is left as a free block behind it. -/
def split (b : HeapBlock) (size : UInt64) : Action (World KernelHeap) ε Unit := do
  let h := (← Action.get).part
  let whole ← .value (sum headerSize size)
  let rest := b.address.add whole
  let restSize ← .value (difference b.size whole)
  World.store (HeapBlock.write h.directMap ⟨rest, restSize, true, b.next, b.address⟩)
  World.store (HeapBlock.setSize h.directMap b.address size)
  World.store (HeapBlock.setNext h.directMap b.address rest)
  if b.next ≠ .null then World.store (HeapBlock.setPrev h.directMap b.next rest)
  if b.address = h.tail then setTail rest

/-- Serves a request from the first free block that is large enough. -/
def takeFirst? (size : UInt64) : Action (World KernelHeap) ε (Option VirtualAddress) := do
  let w ← Action.get
  let h := w.part
  match (h.blocks w.machine.memory).find? fun b => b.free && size ≤ b.size with
  | none => pure none
  | some b =>
    let whole ← .value (sum size headerSize)
    if whole < b.size then split b size
    World.store (HeapBlock.setFree h.directMap b.address false)
    pure (some b.payload)

/-- Appends a free block of fresh pages, all zero, that can hold `size` bytes. -/
def extend (p : FrameAllocator) (size : UInt64) : Action (World KernelHeap) HeapError Unit := do
  match checkedSum size headerSize with
  | none => .refuse (.outOfMemory size)
  | some needed =>
    let pages := (← .value (alignUp needed pageSize)) / pageSize
    let (start, bytes) ← World.onMachine (claim p pages)
    let h := (← Action.get).part
    let size ← .value (difference bytes headerSize)
    World.store fun m => m.fill (h.directMap.physical start).value.toNat bytes.toNat 0
    World.store (HeapBlock.write h.directMap ⟨start, size, true, .null, h.tail⟩)
    World.store (HeapBlock.setNext h.directMap h.tail start)
    setTail start
    let total ← .value (sum h.totalBytes bytes)
    Action.modify fun w => { w with part := { w.part with totalBytes := total } }
    World.report (.heapExtended bytes start total)

/-- Serves a request for `size` bytes; the heap grows once if it has to. -/
def alloc (p : FrameAllocator) (size : UInt64) :
    Action (World KernelHeap) HeapError VirtualAddress := do
  match roundedSize? size with
  | none => .refuse (.outOfMemory size)
  | some size =>
    match ← takeFirst? size with
    | some a => pure a
    | none =>
      extend p size
      match ← takeFirst? size with
      | some a => pure a
      | none => .refuse (.outOfMemory size)

/-- As `alloc`; a refusal ends everything. -/
def allocOrHalt (p : FrameAllocator) (size : UInt64) :
    Action (World KernelHeap) ε VirtualAddress :=
  (alloc p size).onRefusal fun e => World.halt .heap (.heap e)

/-- Joins a block with the next one. -/
def absorbNext (a : VirtualAddress) : Action (World KernelHeap) ε Unit := do
  let h := (← Action.get).part
  let b ← block a
  let next ← block b.next
  let grown ← .value (sum headerSize next.size)
  let size ← .value (sum b.size grown)
  World.store (HeapBlock.setSize h.directMap a size)
  World.store (HeapBlock.setNext h.directMap a next.next)
  if next.next ≠ .null then World.store (HeapBlock.setPrev h.directMap next.next a)
  if b.next = h.tail then setTail a

/-- Joins a block with the next one if both are free and nothing lies between them. -/
def joinNext (a : VirtualAddress) : Action (World KernelHeap) ε Unit := do
  let b ← block a
  if b.next ≠ .null then
    let next ← block b.next
    if next.free then
      let stop ← .value b.stop
      if stop = b.next then absorbNext a

/-- Joins a block with the previous one if that is free and nothing lies between them. -/
def joinPrev (a : VirtualAddress) : Action (World KernelHeap) ε Unit := do
  let b ← block a
  if b.prev ≠ .null then
    let prev ← block b.prev
    if prev.free then
      let stop ← .value prev.stop
      if stop = a then absorbNext b.prev

/-- Releases the block with the given payload. Null is ignored; a block that is free already is
reported and ignored. -/
def release (payload : VirtualAddress) : Action (World KernelHeap) ε Unit := do
  if payload ≠ .null then
    let h := (← Action.get).part
    let a := HeapBlock.ofPayload payload
    let b ← block a
    if b.free then World.report (.releaseIgnored payload)
    else
      World.store (HeapBlock.setFree h.directMap a true)
      World.store fun m => m.fill (h.directMap.physical payload).value.toNat b.size.toNat poison
      joinNext a
      joinPrev a

end KernelHeap

def HeapStats.debug (s : HeapStats) : String :=
  Text.fields "HeapStats"
    [("total_bytes", Text.nat s.totalBytes), ("free_bytes", Text.nat s.freeBytes),
      ("used_bytes", Text.nat s.usedBytes), ("blocks", Text.nat s.blocks),
      ("free_blocks", Text.nat s.freeBlocks)]

def KernelHeap.debug (h : KernelHeap) (m : Memory) : String :=
  Text.someFields "KernelHeap"
    [("head", Text.hex h.head.value), ("tail", Text.hex h.tail.value),
      ("stats", (h.stats m).debug)]

end MemoryManager
