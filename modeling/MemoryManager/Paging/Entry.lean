import MemoryManager.BitField
import MemoryManager.Paging.Flags

namespace MemoryManager

/-- A page-table entry: one word that names a frame and grants rights on it. -/
@[ext] structure PageEntry where
  bits : UInt64
  deriving DecidableEq

namespace PageEntry

def presentBit : BitField := .bit 0
def writableBit : BitField := .bit 1
def userBit : BitField := .bit 2
def writeThroughBit : BitField := .bit 3
def cacheDisabledBit : BitField := .bit 4
def accessedBit : BitField := .bit 5
def availableLowBit : BitField := .bit 6
def largePageBit : BitField := .bit 7
def availableField : BitField := { shift := 8, width := 4 }
def frameField : BitField := { shift := 12, width := 51 }
def noExecuteBit : BitField := .bit 63

def zero : PageEntry := ⟨0⟩

def present (e : PageEntry) : Bool := presentBit.test e.bits
def writable (e : PageEntry) : Bool := writableBit.test e.bits
def user (e : PageEntry) : Bool := userBit.test e.bits
def writeThrough (e : PageEntry) : Bool := writeThroughBit.test e.bits
def cacheDisabled (e : PageEntry) : Bool := cacheDisabledBit.test e.bits
def accessed (e : PageEntry) : Bool := accessedBit.test e.bits
def availableLow (e : PageEntry) : Bool := availableLowBit.test e.bits
def largePage (e : PageEntry) : Bool := largePageBit.test e.bits
def available (e : PageEntry) : UInt64 := availableField.read e.bits
def frameNumber (e : PageEntry) : UInt64 := frameField.read e.bits
def noExecute (e : PageEntry) : Bool := noExecuteBit.test e.bits

def frame (e : PageEntry) : PhysicalFrame :=
  .ofIndex e.frameNumber.toNat

def assign (e : PageEntry) (f : BitField) (on : Bool) : PageEntry :=
  ⟨f.assign e.bits on⟩

def put (e : PageEntry) (f : BitField) (v : UInt64) : Except Fault PageEntry :=
  (f.put e.bits v).map PageEntry.mk

/-- An entry that links a table: all rights, so that the leaf entry decides. -/
def tableLink (f : PhysicalFrame) : Except Fault PageEntry :=
  (((zero.assign presentBit true).assign writableBit true).assign userBit true).put
    frameField (.ofNat f.index)

/-- Names the frame that holds an address. -/
def setFrame (e : PageEntry) (a : PhysicalAddress) : Except Fault PageEntry :=
  e.put frameField (a.value >>> pageShift)

/-- Grants the rights of `flags` and no other. -/
def applyFlags (e : PageEntry) (flags : PageFlags) : PageEntry :=
  ((((e.assign presentBit (flags.contains .present)).assign writableBit
    (flags.contains .writable)).assign userBit (flags.contains .user)).assign
    largePageBit false).assign noExecuteBit (!flags.contains .executable)

/-- Takes the mapping away; the remaining rights stay. -/
def clearMapping (e : PageEntry) : PageEntry :=
  ⟨frameField.write (e.assign presentBit false).bits 0⟩

/-- An entry can name every frame below 2 ^ 51. -/
theorem put_frame_ok (e : PageEntry) {v : UInt64} (h : v.toNat < 1 <<< 51) :
    e.put frameField v = .ok ⟨frameField.write e.bits v⟩ := by
  have le : v ≤ frameField.max := by
    rw [UInt64.le_iff_toNat_le, frameField.toNat_max]
    exact Nat.le_sub_one_of_lt h
  simp only [put, BitField.put, if_pos le]
  rfl

theorem lt_of_put_frame {e e' : PageEntry} {v : UInt64} (h : e.put frameField v = .ok e') :
    v.toNat < 1 <<< 51 := by
  rw [put, BitField.put] at h
  by_cases hv : v ≤ frameField.max
  · exact frameField.lt_of_le_max hv
  · rw [if_neg hv] at h
    cases h

theorem lt_of_setFrame {e e' : PageEntry} {a : PhysicalAddress} (h : e.setFrame a = .ok e') :
    a.value.toNat < 1 <<< 63 := by
  have hlt := lt_of_put_frame h
  rw [toNat_shiftRight_pageShift] at hlt
  omega

theorem lt_of_tableLink {e : PageEntry} {f : PhysicalFrame} (h : tableLink f = .ok e) :
    f.index < 1 <<< 51 := by
  have hlt := lt_of_put_frame h
  have hf := f.index_lt
  rw [UInt64.toNat_ofNat'] at hlt
  omega

theorem setFrame_ok (e : PageEntry) {a : PhysicalAddress} (h : a.value.toNat < 1 <<< 63) :
    ∃ e', e.setFrame a = .ok e' ∧ e'.frame = a.frame ∧
      ∀ f : BitField, f.Apart frameField → f.read e'.bits = f.read e.bits := by
  have lt : (a.value >>> pageShift).toNat < 1 <<< 51 := by
    rw [toNat_shiftRight_pageShift]
    omega
  have le : a.value >>> pageShift ≤ frameField.max := by
    rw [UInt64.le_iff_toNat_le, frameField.toNat_max]
    exact Nat.le_sub_one_of_lt lt
  refine ⟨_, e.put_frame_ok lt, ?_, fun f apart => BitField.read_write_of_apart apart _ _ le⟩
  rw [frame, frameNumber, frameField.read_write _ _ le, toNat_shiftRight_pageShift]
  exact a.frame.ofIndex_index

/-- A table link names the table's frame and grants every right. -/
theorem tableLink_ok {f : PhysicalFrame} (h : f.index < 1 <<< 51) :
    ∃ e, tableLink f = .ok e ∧ e.frame = f ∧ e.present = true ∧ e.writable = true ∧
      e.user = true ∧ e.largePage = false ∧ e.noExecute = false := by
  have eq : (UInt64.ofNat f.index).toNat = f.index := by
    have := f.index_lt
    rw [UInt64.toNat_ofNat']
    omega
  have lt : (UInt64.ofNat f.index).toNat < 1 <<< 51 := by rw [eq]; exact h
  have le : UInt64.ofNat f.index ≤ frameField.max := by
    rw [UInt64.le_iff_toNat_le, frameField.toNat_max]
    exact Nat.le_sub_one_of_lt lt
  have kept (g : BitField) (apart : g.Apart frameField) (bits : UInt64) :
      g.test (frameField.write bits (.ofNat f.index)) = g.test bits := by
    rw [BitField.test, BitField.read_write_of_apart apart _ _ le, BitField.test]
  refine ⟨_, put_frame_ok _ lt, ?_, kept _ (by decide) _, kept _ (by decide) _,
    kept _ (by decide) _, kept _ (by decide) _, kept _ (by decide) _⟩
  rw [frame, frameNumber, frameField.read_write _ _ le, eq]
  exact f.ofIndex_index

section Rights

variable (e : PageEntry) (flags : PageFlags)

/-- Granting rights changes no field but those of the rights and the page size. -/
theorem read_applyFlags {f : BitField} (p : f.Apart presentBit) (w : f.Apart writableBit)
    (u : f.Apart userBit) (l : f.Apart largePageBit) (x : f.Apart noExecuteBit) :
    f.read (e.applyFlags flags).bits = f.read e.bits := by
  simp only [applyFlags, assign, BitField.read_assign_of_apart, p, w, u, l, x]

theorem frame_applyFlags : (e.applyFlags flags).frame = e.frame := by
  rw [frame, frameNumber, e.read_applyFlags flags (by decide) (by decide) (by decide) (by decide)
    (by decide), frame, frameNumber]

theorem present_applyFlags : (e.applyFlags flags).present = flags.contains .present := by
  simp only [present, applyFlags, assign, BitField.test_assign,
    BitField.test_assign_of_apart (show presentBit.Apart writableBit by decide),
    BitField.test_assign_of_apart (show presentBit.Apart userBit by decide),
    BitField.test_assign_of_apart (show presentBit.Apart largePageBit by decide),
    BitField.test_assign_of_apart (show presentBit.Apart noExecuteBit by decide)]

theorem writable_applyFlags : (e.applyFlags flags).writable = flags.contains .writable := by
  simp only [writable, applyFlags, assign, BitField.test_assign,
    BitField.test_assign_of_apart (show writableBit.Apart userBit by decide),
    BitField.test_assign_of_apart (show writableBit.Apart largePageBit by decide),
    BitField.test_assign_of_apart (show writableBit.Apart noExecuteBit by decide)]

theorem user_applyFlags : (e.applyFlags flags).user = flags.contains .user := by
  simp only [user, applyFlags, assign, BitField.test_assign,
    BitField.test_assign_of_apart (show userBit.Apart largePageBit by decide),
    BitField.test_assign_of_apart (show userBit.Apart noExecuteBit by decide)]

theorem largePage_applyFlags : (e.applyFlags flags).largePage = false := by
  simp only [largePage, applyFlags, assign, BitField.test_assign,
    BitField.test_assign_of_apart (show largePageBit.Apart noExecuteBit by decide)]

theorem noExecute_applyFlags : (e.applyFlags flags).noExecute = !flags.contains .executable := by
  simp only [noExecute, applyFlags, assign, BitField.test_assign]

theorem present_clearMapping : e.clearMapping.present = false := by
  rw [present, clearMapping, BitField.test, BitField.read_write_of_apart (by decide) _ _
    UInt64.zero_le, ← BitField.test]
  exact presentBit.test_assign _ _

theorem frame_clearMapping : e.clearMapping.frame = .ofIndex 0 := by
  rw [frame, frameNumber, clearMapping, frameField.read_write _ _ UInt64.zero_le]
  rfl

end Rights

def debug (e : PageEntry) : String :=
  Text.fields "PageEntry"
    [("present", Text.bool e.present), ("writable", Text.bool e.writable),
      ("user_access", Text.bool e.user), ("write_through", Text.bool e.writeThrough),
      ("cache_disabled", Text.bool e.cacheDisabled), ("accessed", Text.bool e.accessed),
      ("available_low", Text.bool e.availableLow), ("large_page", Text.bool e.largePage),
      ("available", Text.nat e.available.toNat),
      ("frame_number", Text.nat e.frameNumber.toNat),
      ("no_execute", Text.bool e.noExecute)]

end PageEntry

end MemoryManager
