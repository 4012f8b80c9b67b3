import MemoryManager.Frames.Allocator

namespace MemoryManager

/-- A state `τ` that frames are taken from and given back to. -/
class FrameSource (τ : Type) where
  /-- Takes a frame, if there is one. -/
  take : {ε : Type} → Action (World τ) ε (Option PhysicalFrame)
  /-- Gives a frame back. -/
  give : {ε : Type} → PhysicalFrame → Action (World τ) ε Unit

/-- Single frames of the frame allocator. A frame that it refuses to take back is reported and
otherwise ignored. -/
instance : FrameSource FrameAllocator where
  take := do
    let w ← Action.get
    match ← World.onMachine (w.part.alloc 1).attempt with
    | .ok r => pure (some (PhysicalFrame.containing r.base))
    | .error _ => pure none
  give f := do
    let w ← Action.get
    let _ ← World.onMachine (w.part.release f.index 1).attempt
    pure ()

/-- A counter: it hands out the frames from number `next` up to `limit`, and only keeps a record
of those given back. -/
@[ext] structure FrameCounter where
  next : UInt64
  limit : UInt64
  taken : Nat := 0
  given : Array PhysicalFrame := #[]

instance : FrameSource FrameCounter where
  take := do
    let w ← Action.get
    let c := w.part
    if c.next < c.limit then
      Action.modify fun w => { w with part := { c with next := c.next + 1, taken := c.taken + 1 } }
      pure (some (.ofIndex c.next.toNat))
    else pure none
  give f := Action.modify fun w => { w with part := { w.part with given := w.part.given.push f } }

end MemoryManager
