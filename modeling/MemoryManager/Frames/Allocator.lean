import MemoryManager.Boot.Info
import MemoryManager.DirectMap
import MemoryManager.Frames.Bitmap
import MemoryManager.Frames.Range

namespace MemoryManager

/-- The byte that marks memory given back. -/
def poison : UInt8 := 0xFF

/-- The frame allocator: how many frames it tracks, and in which frame its bitmap starts. -/
@[ext] structure FrameAllocator where
  bitmapFrame : PhysicalFrame
  totalFrames : Nat
  directMap : DirectMap
  deriving DecidableEq

namespace FrameAllocator

variable {ε : Type}

/-- The bitmap: a bit for every frame, in whole bytes. -/
def bitmap (p : FrameAllocator) : FrameBitmap :=
  ⟨p.bitmapFrame, (p.totalFrames + 7) / 8⟩

/-- Number of frames that hold the bitmap. -/
def bitmapFrames (p : FrameAllocator) : Nat :=
  (p.bitmap.length + 4095) / 4096

/-- Where the first of the regions that can hold `bytes` bytes on a page boundary holds them.
Page 0 is no candidate. -/
def bitmapStart? (bytes : UInt64) : List Region → Except Fault (Option UInt64)
  | [] => .ok none
  | r :: rs => do
    let start ← alignUp (max r.base.value pageSize) pageSize
    match checkedSum start bytes with
    | some stop => if stop ≤ r.stop.value then .ok (some start) else bitmapStart? bytes rs
    | none => bitmapStart? bytes rs

/-- The allocator for a memory map: how many frames there are, and where the bitmap goes. -/
def place (boot : BootInfo) : Except Fault (Except FrameError FrameAllocator) :=
  let total := boot.map.frameCount
  let bytes := UInt64.ofNat ((total + 7) / 8)
  if total = 0 then .ok (.error .emptyMemoryMap)
  else do
    match ← bitmapStart? bytes boot.map.usable with
    | none => .ok (.error (.noBitmapRegion bytes))
    | some start =>
      let p : FrameAllocator := ⟨.containing ⟨start⟩, total, { offset := boot.directOffset }⟩
      if p.directMap.virtual p.bitmapFrame.base = ⟨0⟩ then .ok (.error (.noBitmapRegion bytes))
      else .ok (.ok p)

/-- Clears the bits of the frames that lie wholly inside a region. -/
def clearRegion (p : FrameAllocator) (r : Region) : Action Machine ε Unit := do
  let first ← .value (alignUp r.base.value pageSize)
  p.bitmap.assignRange false (PhysicalAddress.frame ⟨first⟩).index r.stop.frame.index

/-- Writes the bitmap: free are the frames of usable regions, but for frame 0 and the frames that
hold the bitmap. -/
def writeBitmap (p : FrameAllocator) (map : MemoryMap) : Action Machine ε Unit := do
  Machine.store fun m => m.fill p.bitmapFrame.start p.bitmap.length 0xFF
  map.usable.forM p.clearRegion
  p.bitmap.assignRange true p.bitmapFrame.index (p.bitmapFrame.index + p.bitmapFrames)
  p.bitmap.assignRange true 0 1

def freeFrames (p : FrameAllocator) (m : Memory) : Nat :=
  p.bitmap.clearCount m p.totalFrames

def init (boot : BootInfo) : Action Machine FrameError FrameAllocator := do
  match ← .value (place boot) with
  | .error e => .refuse e
  | .ok p =>
    p.writeBitmap boot.map
    Machine.report (.tracking p.totalFrames p.bitmap.length p.bitmapFrame.base)
    Machine.report (.freeFrames (p.freeFrames (← Machine.load)))
    Machine.report .framesReady
    pure p

/-- Takes the first `pages` contiguous free frames. -/
def alloc (p : FrameAllocator) (pages : UInt64) : Action Machine FrameError FrameRange :=
  if pages = 0 then .refuse .zeroPages
  else do
    match p.bitmap.firstClearRun? (← Machine.load) pages.toNat p.totalFrames with
    | none => .refuse (.outOfMemory pages)
    | some first =>
      p.bitmap.assignRange true first (first + pages.toNat)
      pure ⟨.ofIndex first, pages⟩

/-- Whether frame `i` is never handed out: frame 0 and the frames that hold the bitmap. -/
def isReserved (p : FrameAllocator) (i : Nat) : Bool :=
  i = 0 ∨ (p.bitmapFrame.index ≤ i ∧ i < p.bitmapFrame.index + p.bitmapFrames)

/-- Why frame `i` cannot be given back, if it cannot. -/
def refusal? (p : FrameAllocator) (m : Memory) (i : Nat) : Option FrameError :=
  if p.totalFrames ≤ i then some (.outOfRange (.ofIndex i))
  else if p.isReserved i then some (.reserved (.ofIndex i))
  else if !p.bitmap.test m i then some (.notAllocated (.ofIndex i))
  else none

/-- Why the `n` frames from `first` on cannot be given back: the reason of the lowest such
frame. -/
def firstRefusal? (p : FrameAllocator) (m : Memory) (first : Nat) : (n : Nat) → Option FrameError
  | 0 => none
  | n + 1 =>
    match p.refusal? m first with
    | some e => some e
    | none => firstRefusal? p m (first + 1) n

/-- Overwrites a frame and clears its bit. -/
def releaseFrame (p : FrameAllocator) (m : Memory) (i : Nat) : Memory :=
  p.bitmap.assign false (m.fill (PhysicalFrame.ofIndex i).start 4096 poison) i

/-- Overwrites the `n` frames from `first` on and clears their bits. -/
def releaseFrames (p : FrameAllocator) (m : Memory) (first : Nat) : (n : Nat) → Memory
  | 0 => m
  | n + 1 => releaseFrames p (p.releaseFrame m first) (first + 1) n

/-- Gives back the `n` frames from `first` on; a refusal is reported and changes nothing. -/
def release (p : FrameAllocator) (first n : Nat) : Action Machine FrameError Unit := do
  match p.firstRefusal? (← Machine.load) first n with
  | some e =>
    Machine.report (.freeIgnored first (first + n) e)
    .refuse e
  | none => Machine.store fun m => p.releaseFrames m first n

def free (p : FrameAllocator) (r : FrameRange) : Action Machine FrameError Unit := do
  let _ ← .value r.stop
  p.release r.first.index r.pages.toNat

/-- Whether a frame is allocated or unusable; one that is not tracked is. -/
def isAllocated (p : FrameAllocator) (m : Memory) (f : PhysicalFrame) : Bool :=
  p.totalFrames ≤ f.index || p.bitmap.test m f.index

/-- As `init`; a refusal ends everything. -/
def initOrHalt (boot : BootInfo) : Action Machine ε FrameAllocator :=
  (init boot).onRefusal fun e => Machine.halt .frames (.frames e)

/-- As `alloc`; a refusal ends everything. -/
def allocOrHalt (p : FrameAllocator) (pages : UInt64) : Action Machine ε FrameRange :=
  (p.alloc pages).onRefusal fun e => Machine.halt .frames (.frames e)

def debug (p : FrameAllocator) : String :=
  Text.someFields "BitmapFrameAllocator"
    [("total_frames", Text.nat p.totalFrames), ("bitmap", p.bitmapFrame.debug),
      ("bitmap_frames", Text.nat p.bitmapFrames)]

end FrameAllocator

end MemoryManager
