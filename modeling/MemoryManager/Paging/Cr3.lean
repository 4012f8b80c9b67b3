import MemoryManager.BitField

namespace MemoryManager

/-- A value of the root-table register. -/
@[ext] structure Cr3 where
  bits : UInt64
  deriving DecidableEq

namespace Cr3

def reserved0Field : BitField := { shift := 0, width := 3 }
def writeThroughBit : BitField := .bit 3
def cacheDisabledBit : BitField := .bit 4
def reserved1Field : BitField := { shift := 5, width := 7 }
def rootField : BitField := { shift := 12, width := 40 }
def reserved2Field : BitField := { shift := 52, width := 12 }

/-- The value that makes the table in a frame the root. -/
def ofRoot (f : PhysicalFrame) : Except Fault Cr3 :=
  (rootField.put 0 (.ofNat f.index)).map Cr3.mk

def writeThrough (c : Cr3) : Bool := writeThroughBit.test c.bits
def cacheDisabled (c : Cr3) : Bool := cacheDisabledBit.test c.bits
def reserved0 (c : Cr3) : UInt64 := reserved0Field.read c.bits
def reserved1 (c : Cr3) : UInt64 := reserved1Field.read c.bits
def reserved2 (c : Cr3) : UInt64 := reserved2Field.read c.bits

def root (c : Cr3) : PhysicalFrame :=
  .ofIndex (rootField.read c.bits).toNat

def assign (c : Cr3) (f : BitField) (on : Bool) : Cr3 :=
  ⟨f.assign c.bits on⟩

def put (c : Cr3) (f : BitField) (v : UInt64) : Except Fault Cr3 :=
  (f.put c.bits v).map Cr3.mk

def debug (c : Cr3) : String :=
  Text.fields "Cr3"
    [("reserved0", Text.nat c.reserved0.toNat), ("pwt", Text.bool c.writeThrough),
      ("pcd", Text.bool c.cacheDisabled), ("reserved1", Text.nat c.reserved1.toNat),
      ("root_frame", Text.nat (rootField.read c.bits).toNat),
      ("reserved2", Text.nat c.reserved2.toNat)]

end Cr3

end MemoryManager
