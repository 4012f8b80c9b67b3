import MemoryManager.Address.Rounding

namespace MemoryManager

/-- A run of contiguous frames. -/
@[ext] structure FrameRange where
  first : PhysicalFrame
  pages : UInt64
  deriving DecidableEq

namespace FrameRange

/-- The run of `pages` frames from the one that holds `a` on. -/
def containing (a : PhysicalAddress) (pages : UInt64) : FrameRange :=
  ⟨a.frame, pages⟩

def base (r : FrameRange) : PhysicalAddress :=
  r.first.base

def bytes (r : FrameRange) : Except Fault UInt64 :=
  product r.pages pageSize

/-- The first `n` frames of the run, or all of them if it has fewer. -/
def frames (r : FrameRange) (n : Nat) : Except Fault (List PhysicalFrame) :=
  (List.range (min n r.pages.toNat)).mapM fun i => r.first.forward (.ofNat i)

/-- Number of the first frame past the run. -/
def stop (r : FrameRange) : Except Fault UInt64 :=
  sum (.ofNat r.first.index) r.pages

def debug (r : FrameRange) : String :=
  Text.fields "FrameRange" [("base", r.first.debug), ("pages", Text.nat r.pages.toNat)]

end FrameRange

end MemoryManager
