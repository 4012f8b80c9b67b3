import MemoryManager.Frames.Allocator
import MemoryManager.Frames.Bitmap.Assignment
import MemoryManager.Proofs.Rounding

namespace MemoryManager

namespace Region

/-- Whether frame `i` lies wholly inside the region. -/
def HoldsFrame (r : Region) (i : Nat) : Prop :=
  r.base.value.toNat ≤ 4096 * i ∧ 4096 * (i + 1) ≤ r.base.value.toNat + r.length.toNat

instance (r : Region) (i : Nat) : Decidable (r.HoldsFrame i) :=
  inferInstanceAs (Decidable (_ ∧ _))

/-- Whether the region can hold `bytes` bytes from `start` on: on a page boundary past page 0, and
below the region's end. -/
structure Hosts (r : Region) (bytes start : Nat) : Prop where
  aligned : 4096 ∣ start
  past : 4096 ≤ start
  base_le : r.base.value.toNat ≤ start
  le_stop : start + bytes ≤ r.stop.value.toNat

theorem toNat_stop (r : Region) :
    r.stop.value.toNat = min (r.base.value.toNat + r.length.toNat) (2 ^ 64 - 1) := by
  have hb := r.base.value.toNat_lt
  have hl := r.length.toNat_lt
  unfold stop
  cases h : checkedSum r.base.value r.length with
  | none =>
    have big : 2 ^ 64 ≤ r.base.value.toNat + r.length.toNat := checkedSum_eq_none_iff.mp h
    simp only [UInt64.reduceToNat]
    omega
  | some e =>
    have he := checkedSum_eq_some_iff.mp h
    have := e.toNat_lt
    simp only
    omega

def firstFrame (r : Region) : Nat :=
  (r.base.value.toNat + 4095) / 4096

theorem index_stop (r : Region) :
    r.stop.frame.index = min (r.base.value.toNat + r.length.toNat) (2 ^ 64 - 1) / 4096 := by
  rw [← toNat_stop]
  rfl

/-- The frames that lie wholly inside a region are those between its rounded bounds. -/
theorem holdsFrame_iff (r : Region) {i : Nat} (hi : i + 1 < 2 ^ 52) :
    r.HoldsFrame i ↔ r.firstFrame ≤ i ∧ i < r.stop.frame.index := by
  rw [index_stop, HoldsFrame, firstFrame]
  omega

end Region

namespace MemoryMap

theorem foldl_max_le_iff (xs : List Nat) (a b : Nat) :
    xs.foldl max a ≤ b ↔ a ≤ b ∧ ∀ x ∈ xs, x ≤ b := by
  induction xs generalizing a with
  | nil => simp
  | cons x xs ih =>
    rw [List.foldl_cons, ih, List.forall_mem_cons, Nat.max_le, and_assoc]

theorem frameCount_le_iff (map : MemoryMap) (n : Nat) :
    map.frameCount ≤ n ↔ ∀ r ∈ map.usable, r.stop.frame.index ≤ n := by
  simp [frameCount, foldl_max_le_iff]

theorem frameCount_lt (map : MemoryMap) : map.frameCount < 2 ^ 52 := by
  have h : map.frameCount ≤ 2 ^ 52 - 1 := (map.frameCount_le_iff _).mpr fun r _ => by
    rw [Region.index_stop]
    omega
  omega

end MemoryMap

namespace FrameAllocator

variable {ε : Type}

/-- Where the allocator's bitmap lies and how many frames it may track. -/
structure Placed (p : FrameAllocator) : Prop where
  total_lt : p.totalFrames < 2 ^ 52
  bitmap_fits : p.bitmapFrame.start + p.bitmap.length ≤ Memory.size

/-- Whether frame `i` may be handed out at all: it lies wholly inside a usable region, and is
neither frame 0 nor one that holds the bitmap. -/
def Available (p : FrameAllocator) (map : MemoryMap) (i : Nat) : Prop :=
  p.isReserved i = false ∧ ∃ r ∈ map.usable, r.HoldsFrame i

instance (p : FrameAllocator) (map : MemoryMap) (i : Nat) : Decidable (p.Available map i) :=
  inferInstanceAs (Decidable (_ ∧ _))

theorem isReserved_eq_false_iff (p : FrameAllocator) (i : Nat) :
    p.isReserved i = false ↔
      i ≠ 0 ∧ ¬ (p.bitmapFrame.index ≤ i ∧ i < p.bitmapFrame.index + p.bitmapFrames) := by
  rw [isReserved, decide_eq_false_iff_not, not_or]

@[simp] theorem bitmap_frame (p : FrameAllocator) : p.bitmap.frame = p.bitmapFrame := rfl

theorem total_le_size (p : FrameAllocator) : p.totalFrames ≤ p.bitmap.size := by
  simp only [bitmap, FrameBitmap.size]
  omega

theorem Placed.position_lt {p : FrameAllocator} (hp : p.Placed) {i : Nat} (hi : i < p.bitmap.size) :
    p.bitmap.position i < Memory.size := by
  have := hp.bitmap_fits
  simp only [FrameBitmap.position, FrameBitmap.size, bitmap_frame] at hi ⊢
  omega

/-- A region is passed over if `bytes` bytes do not fit between its first page boundary past page 0
and its end. -/
theorem bitmapStart?_cons {bytes first : UInt64} {r : Region} (rs : List Region)
    (hfirst : alignUp (max r.base.value pageSize) pageSize = .ok first) :
    bitmapStart? bytes (r :: rs) =
      if first.toNat + bytes.toNat ≤ r.stop.value.toNat then .ok (some first)
      else bitmapStart? bytes rs := by
  rw [bitmapStart?, hfirst]
  simp only [bind, Except.bind]
  cases hsum : checkedSum first bytes with
  | none =>
    have hlarge : 2 ^ 64 ≤ first.toNat + bytes.toNat := checkedSum_eq_none_iff.mp hsum
    have hstop := r.stop.value.toNat_lt
    rw [if_neg (by omega)]
  | some stop => simp only [UInt64.le_iff_toNat_le, checkedSum_eq_some_iff.mp hsum]

theorem toNat_max_pageSize (v : UInt64) : (max v pageSize).toNat = max v.toNat 4096 := by
  have hpage : pageSize.toNat = 4096 := rfl
  change (if v ≤ pageSize then pageSize else v).toNat = _
  simp only [UInt64.le_iff_toNat_le]
  split <;> omega

/-- The bitmap goes to the first usable region that can hold it. -/
theorem bitmapStart?_eq_some {bytes : UInt64} {rs : List Region} {start : UInt64}
    (h : bitmapStart? bytes rs = .ok (some start)) :
    ∃ before r after, rs = before ++ r :: after ∧ r.Hosts bytes.toNat start.toNat ∧
      ∀ s ∈ before, ∀ a, ¬ s.Hosts bytes.toNat a := by
  induction rs with
  | nil => cases h
  | cons r rs ih =>
    cases ha : alignUp (max r.base.value pageSize) pageSize with
    | error f => rw [bitmapStart?, ha] at h; cases h
    | ok first =>
      have hfirst := (alignUp_pageSize_eq_ok_iff.mp ha).2
      rw [toNat_max_pageSize] at hfirst
      rw [bitmapStart?_cons rs ha] at h
      split at h
      · rename_i hfits
        cases h
        refine ⟨[], r, rs, rfl, ⟨?_, ?_, ?_, hfits⟩, fun s hs => absurd hs List.not_mem_nil⟩
        · exact hfirst ▸ Nat.dvd_mul_left _ _
        · omega
        · omega
      · rename_i hfits
        obtain ⟨before, r', after, rfl, hhosts, hfirst'⟩ := ih h
        refine ⟨r :: before, r', after, rfl, hhosts, ?_⟩
        rw [List.forall_mem_cons]
        refine ⟨fun a ha => hfits ?_, hfirst'⟩
        obtain ⟨⟨k, rfl⟩, hpast, hbase, hstop⟩ := ha
        omega

/-- The allocator for a memory map tracks every frame below the end of the highest usable region,
and keeps its bitmap inside the first usable region that can hold it. -/
theorem place_spec {boot : BootInfo} {p : FrameAllocator} (h : place boot = .ok (.ok p)) :
    p.totalFrames = boot.map.frameCount ∧ 0 < p.totalFrames ∧
      p.directMap = { offset := boot.directOffset } ∧
      ∃ before r after, boot.map.usable = before ++ r :: after ∧
        r.Hosts p.bitmap.length p.bitmapFrame.start ∧
          ∀ s ∈ before, ∀ start, ¬ s.Hosts p.bitmap.length start := by
  simp only [place] at h
  split at h
  · cases h
  · rename_i hpos
    cases hs : bitmapStart? (UInt64.ofNat ((boot.map.frameCount + 7) / 8)) boot.map.usable with
    | error f => rw [hs] at h; cases h
    | ok start? =>
      rw [hs] at h
      cases start? with
      | none => cases h
      | some start =>
        simp only [bind, Except.bind] at h
        split at h
        · cases h
        · cases h
          obtain ⟨before, r, after, husable, hhosts, hearlier⟩ := bitmapStart?_eq_some hs
          have hbytes : (UInt64.ofNat ((boot.map.frameCount + 7) / 8)).toNat =
              (boot.map.frameCount + 7) / 8 := by
            have := boot.map.frameCount_lt
            rw [UInt64.toNat_ofNat']
            omega
          have hframe : (PhysicalFrame.containing ⟨start⟩).start = start.toNat := by
            obtain ⟨k, hk⟩ := hhosts.aligned
            simp only [PhysicalFrame.start, PhysicalFrame.containing]
            omega
          rw [hbytes] at hhosts hearlier
          exact ⟨rfl, Nat.pos_of_ne_zero hpos, rfl, before, r, after, husable, hframe ▸ hhosts,
            hearlier⟩

theorem place_placed {boot : BootInfo} {p : FrameAllocator} (h : place boot = .ok (.ok p)) :
    p.Placed := by
  obtain ⟨htotal, -, -, _, r, _, -, hhosts, -⟩ := place_spec h
  refine ⟨by rw [htotal]; exact boot.map.frameCount_lt, Nat.le_trans hhosts.le_stop ?_⟩
  exact Nat.le_of_lt r.stop.value.toNat_lt

theorem clearRegion_spec {p : FrameAllocator} (hp : p.Placed) {r : Region} {m m' : Machine}
    (h : (p.clearRegion r : Action Machine ε Unit).run m = (.done (), m')) :
    (∀ j < p.bitmap.size, p.bitmap.test m'.memory j =
      if r.firstFrame ≤ j ∧ j < r.stop.frame.index then false else p.bitmap.test m.memory j) ∧
    ∀ a, p.bitmap.Outside a → m'.memory.byte a = m.memory.byte a := by
  obtain ⟨first, t, hv, hassign⟩ := Action.run_bind_eq_done h
  obtain ⟨hfirst, rfl⟩ := Action.run_value_eq_done hv
  have hindex : (PhysicalAddress.frame ⟨first⟩).index = r.firstFrame := by
    have := (alignUp_pageSize_eq_ok_iff.mp hfirst).2
    simp only [PhysicalAddress.frame, PhysicalFrame.containing, Region.firstFrame]
    omega
  rw [hindex, FrameBitmap.run_assignRange] at hassign
  obtain ⟨-, rfl⟩ := Prod.mk.inj hassign
  constructor
  · intro j hj
    rw [FrameBitmap.test_assignRun _ _ _ (fun i hi => hp.position_lt (by omega))]
    simp only [Nat.lt_min, hj, and_true]
  · intro a ha
    exact FrameBitmap.byte_assignRun_of_outside ha _ _ (Nat.min_le_right _ _)

/-- Clearing the regions one after the other clears the bits that some region clears. -/
theorem clearRegions_spec {p : FrameAllocator} (hp : p.Placed) {rs : List Region} {m m' : Machine}
    (h : (rs.forM p.clearRegion : Action Machine ε Unit).run m = (.done (), m')) :
    (∀ j < p.bitmap.size, p.bitmap.test m'.memory j = false ↔
      (∃ r ∈ rs, r.firstFrame ≤ j ∧ j < r.stop.frame.index) ∨ p.bitmap.test m.memory j = false) ∧
    ∀ a, p.bitmap.Outside a → m'.memory.byte a = m.memory.byte a := by
  induction rs generalizing m with
  | nil =>
    cases h
    simp
  | cons r rs ih =>
    obtain ⟨_, t, hr, hrs⟩ := Action.run_bind_eq_done h
    obtain ⟨hbits, hbytes⟩ := clearRegion_spec hp hr
    obtain ⟨hbits', hbytes'⟩ := ih hrs
    refine ⟨?_, fun a ha => (hbytes' a ha).trans (hbytes a ha)⟩
    intro j hj
    rw [hbits' j hj, hbits j hj]
    by_cases c : r.firstFrame ≤ j ∧ j < r.stop.frame.index <;> simp [c]

/-- Once the bitmap is written, the clear bits are those of the frames of usable regions, but for
the reserved frames. -/
theorem writeBitmap_spec {p : FrameAllocator} (hp : p.Placed) {map : MemoryMap} {m m' : Machine}
    (h : (p.writeBitmap map : Action Machine ε Unit).run m = (.done (), m')) :
    (∀ j < p.bitmap.size, p.bitmap.test m'.memory j = false ↔
      p.isReserved j = false ∧ ∃ r ∈ map.usable, r.firstFrame ≤ j ∧ j < r.stop.frame.index) ∧
    ∀ a, p.bitmap.Outside a → m'.memory.byte a = m.memory.byte a := by
  obtain ⟨_, t, hfill, h⟩ := Action.run_bind_eq_done h
  obtain ⟨_, u, hclear, h⟩ := Action.run_bind_eq_done h
  obtain ⟨_, v, hset, hzero⟩ := Action.run_bind_eq_done h
  obtain ⟨hbits, hbytes⟩ := clearRegions_spec hp hclear
  rw [FrameBitmap.run_assignRange] at hset hzero
  obtain rfl := (Prod.mk.inj hset).2
  obtain rfl := (Prod.mk.inj hzero).2
  cases hfill
  refine ⟨?_, ?_⟩
  · intro j hj
    have ones :
        p.bitmap.test (m.memory.fill p.bitmapFrame.start p.bitmap.length 0xFF) j = true := by
      apply FrameBitmap.test_of_byte_eq_ones
      have hlt := hp.position_lt hj
      rw [Memory.byte_fill, if_pos]
      simp only [FrameBitmap.position, FrameBitmap.size, bitmap_frame] at hj hlt ⊢
      omega
    rw [FrameBitmap.test_assignRun _ _ _ (fun i hi => hp.position_lt (by omega)),
      FrameBitmap.test_assignRun _ _ _ (fun i hi => hp.position_lt (by omega)),
      isReserved_eq_false_iff]
    have hbit := hbits j hj
    rw [ones] at hbit
    by_cases z : j = 0
    · rw [if_pos (by omega)]
      simp [z]
    rw [if_neg (by omega)]
    by_cases c : p.bitmapFrame.index ≤ j ∧ j < p.bitmapFrame.index + p.bitmapFrames
    · rw [if_pos (by omega)]
      simp [c]
    · rw [if_neg (by omega), hbit]
      simp [z, c]
  · intro a ha
    rw [FrameBitmap.byte_assignRun_of_outside ha _ _ (Nat.min_le_right _ _),
      FrameBitmap.byte_assignRun_of_outside ha _ _ (Nat.min_le_right _ _), hbytes a ha,
      Memory.byte_fill, if_neg]
    simp only [FrameBitmap.Outside, bitmap_frame] at ha
    omega

theorem init_eq_done {boot : BootInfo} {p : FrameAllocator} {m m' : Machine}
    (h : (init boot).run m = (.done p, m')) :
    place boot = .ok (.ok p) ∧ ∃ t : Machine,
      (p.writeBitmap boot.map : Action Machine FrameError Unit).run m = (.done (), t) ∧
        m'.memory = t.memory := by
  obtain ⟨x, s, hv, h⟩ := Action.run_bind_eq_done h
  obtain ⟨hplace, rfl⟩ := Action.run_value_eq_done hv
  cases x with
  | error e => cases h
  | ok q =>
    obtain ⟨_, t, hwrite, h⟩ := Action.run_bind_eq_done h
    cases h
    exact ⟨hplace, t, hwrite, rfl⟩

/-- Once the allocator is built, the free frames are the available ones. -/
theorem init_spec {boot : BootInfo} {p : FrameAllocator} {m m' : Machine}
    (h : (init boot).run m = (.done p, m')) :
    p.Placed ∧
    (∀ i < p.totalFrames, p.bitmap.test m'.memory i = false ↔ p.Available boot.map i) ∧
    ∀ a, p.bitmap.Outside a → m'.memory.byte a = m.memory.byte a := by
  obtain ⟨hplace, t, hwrite, hmem⟩ := init_eq_done h
  have hp := place_placed hplace
  obtain ⟨hbits, hbytes⟩ := writeBitmap_spec hp hwrite
  rw [hmem]
  refine ⟨hp, ?_, hbytes⟩
  intro i hi
  rw [hbits i (Nat.lt_of_lt_of_le hi p.total_le_size), Available]
  have hlt : i + 1 < 2 ^ 52 := by
    have := hp.total_lt
    omega
  simp only [Region.holdsFrame_iff _ hlt]

end FrameAllocator

namespace TwoRegions

/-- A report of two regions of free RAM, the second of which starts inside a frame. -/
def boot : BootInfo where
  map := [⟨⟨0⟩, 0x8000, .usable⟩, ⟨⟨0x8000⟩, 0x4000, .reserved⟩, ⟨⟨0xC800⟩, 0x20000, .usable⟩]
  directOffset := 0xFFFF800000000000

def allocator : FrameAllocator where
  bitmapFrame := .ofIndex 1
  totalFrames := 44
  directMap := { offset := 0xFFFF800000000000 }

def machine : Machine :=
  ((FrameAllocator.init boot).run ⟨.zeroed, #[], #[]⟩).2

theorem init_eq : (FrameAllocator.init boot).run ⟨.zeroed, #[], #[]⟩ = (.done allocator, machine) :=
  Prod.ext rfl rfl

end TwoRegions

end MemoryManager
