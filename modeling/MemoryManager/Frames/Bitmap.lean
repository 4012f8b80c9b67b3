import MemoryManager.Machine

namespace MemoryManager

/-- A bitmap in physical memory: the frame in which it starts, and how many bytes it has. A set bit
stands for a frame that is allocated or unusable. -/
@[ext] structure FrameBitmap where
  frame : PhysicalFrame
  length : Nat
  deriving DecidableEq

namespace FrameBitmap

def assignBit (v : UInt8) (k : Nat) (on : Bool) : UInt8 :=
  if on then v ||| 1 <<< UInt8.ofNat k else v &&& ~~~(1 <<< UInt8.ofNat k)

def size (b : FrameBitmap) : Nat :=
  8 * b.length

/-- Where the byte that holds a bit lies. -/
def position (b : FrameBitmap) (i : Nat) : Nat :=
  b.frame.start + i / 8

def bytes (b : FrameBitmap) (m : Memory) : List UInt8 :=
  m.bytes b.frame.start b.length

def test (b : FrameBitmap) (m : Memory) (i : Nat) : Bool :=
  (m.byte (b.position i)).toNat.testBit (i % 8)

def assign (b : FrameBitmap) (on : Bool) (m : Memory) (i : Nat) : Memory :=
  m.setByte (b.position i) (assignBit (m.byte (b.position i)) (i % 8) on)

/-- Sets or clears the bits `first ≤ i < first + n`, one after the other. -/
def assignEach (b : FrameBitmap) (on : Bool) (m : Memory) (first : Nat) : (n : Nat) → Memory
  | 0 => m
  | n + 1 => assignEach b on (b.assign on m first) (first + 1) n

/-- Sets or clears the bits `first ≤ i < stop`, whole bytes at once. -/
def assignRun (b : FrameBitmap) (on : Bool) (m : Memory) (first stop : Nat) : Memory :=
  let low := min stop (8 * ((first + 7) / 8))
  let high := max low (8 * (stop / 8))
  let m := b.assignEach on m first (low - first)
  let m := m.fill (b.position low) ((high - low) / 8) (if on then 0xFF else 0)
  b.assignEach on m high (stop - high)

/-- As `assignRun`; the first bit past the end of the bitmap is a fault. -/
def assignRange {ε : Type} (b : FrameBitmap) (on : Bool) (first stop : Nat) :
    Action Machine ε Unit := do
  Machine.store fun m => b.assignRun on m first (min stop b.size)
  if first < stop ∧ b.size < stop then .stop (.index b.length (max first b.size / 8))

def clearCount (b : FrameBitmap) (m : Memory) (limit : Nat) : Nat :=
  (List.range limit).countP fun i => !b.test m i

/-- The search for `length` consecutive clear bits below `limit`, at `bit`, where the `run` bits
from `start` on are clear. A byte without a clear bit is passed over at once. -/
def scan (b : FrameBitmap) (m : Memory) (length limit : Nat) :
    (fuel bit start run : Nat) → Option Nat
  | 0, _, _, _ => none
  | fuel + 1, bit, start, run =>
    if limit ≤ bit then none
    else if bit % 8 = 0 ∧ bit + 8 ≤ limit ∧ m.byte (b.position bit) = 0xFF then
      scan b m length limit fuel (bit + 8) (bit + 8) 0
    else if b.test m bit then scan b m length limit fuel (bit + 1) (bit + 1) 0
    else if run + 1 = length then some start
    else scan b m length limit fuel (bit + 1) start (run + 1)

/-- The first of `length` consecutive clear bits below `limit`, searched from bit 0. -/
def firstClearRun? (b : FrameBitmap) (m : Memory) (length limit : Nat) : Option Nat :=
  b.scan m length limit limit 0 0 0

end FrameBitmap

end MemoryManager
