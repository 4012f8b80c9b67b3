import MemoryManager.Proofs.Frames.Boot

namespace MemoryManager

namespace MemoryMap

/-- The highest end of a region of free RAM. -/
def usableEnd (map : MemoryMap) : Nat :=
  (map.usable.map fun r => r.stop.value.toNat).foldl max 0

theorem usableEnd_le_iff (map : MemoryMap) (n : Nat) :
    map.usableEnd ≤ n ↔ ∀ r ∈ map.usable, r.stop.value.toNat ≤ n := by
  simp [usableEnd, foldl_max_le_iff]

/-- Rounding down goes through the maximum. -/
theorem frameCount_eq (map : MemoryMap) : map.frameCount = map.usableEnd / 4096 := by
  have hbounds : ∀ n, map.frameCount ≤ n ↔ map.usableEnd / 4096 ≤ n := by
    intro n
    have hround : map.usableEnd / 4096 ≤ n ↔ map.usableEnd ≤ 4096 * n + 4095 := by omega
    rw [hround, frameCount_le_iff, usableEnd_le_iff]
    refine forall₂_congr fun r _ => ?_
    rw [Region.index_stop, Region.toNat_stop]
    omega
  exact Nat.le_antisymm ((hbounds _).mpr (Nat.le_refl _)) ((hbounds _).mp (Nat.le_refl _))

theorem index_stop_le_frameCount {map : MemoryMap} {r : Region} (hr : r ∈ map.usable) :
    r.stop.frame.index ≤ map.frameCount :=
  (map.frameCount_le_iff _).mp (Nat.le_refl _) r hr

end MemoryMap

namespace FrameAllocator

/-- The clear bits of the whole bitmap, those past the last tracked frame included. -/
theorem test_init {boot : BootInfo} {p : FrameAllocator} {m m' : Machine}
    (h : (init boot).run m = (.done p, m')) {i : Nat} (hi : i < p.bitmap.size) :
    p.bitmap.test m'.memory i = false ↔ i < p.totalFrames ∧ p.Available boot.map i := by
  obtain ⟨hplace, t, hwrite, hmem⟩ := init_eq_done h
  have hp := place_placed hplace
  have hbits := (writeBitmap_spec hp hwrite).1 i hi
  rw [← hmem] at hbits
  have htotal : p.totalFrames = boot.map.frameCount := (place_spec hplace).1
  by_cases hlt : i < p.totalFrames
  · simp only [(init_spec h).2.1 i hlt, hlt, true_and]
  · simp only [hlt, false_and, iff_false]
    intro hclear
    obtain ⟨-, r, hr, -, hstop⟩ := hbits.mp hclear
    have := MemoryMap.index_stop_le_frameCount hr
    omega

end FrameAllocator

/-- Once the allocator is built, it tracks the frames up to the highest end of a usable region, and
its bitmap lies in the first usable region that can hold it. A bit of the bitmap is clear if and only
if its frame is tracked, is not frame 0, lies wholly inside one usable region and holds no byte of
the bitmap; the bits past the last tracked frame are all set. -/
theorem bitmap_matches_map {boot : BootInfo} {p : FrameAllocator} {m m' : Machine}
    (hinit : (FrameAllocator.init boot).run m = (.done p, m')) :
    p.totalFrames = boot.map.usableEnd / 4096 ∧
    p.bitmap.length = (p.totalFrames + 7) / 8 ∧
    (∃ before r after, boot.map.usable = before ++ r :: after ∧
      r.Hosts p.bitmap.length p.bitmapFrame.start ∧
      ∀ s ∈ before, ∀ start, ¬ s.Hosts p.bitmap.length start) ∧
    (∀ i < 8 * p.bitmap.length, p.bitmap.test m'.memory i = false ↔
      0 < i ∧ i < p.totalFrames ∧ (∃ r ∈ boot.map.usable, r.HoldsFrame i) ∧
        ¬ (p.bitmapFrame.index ≤ i ∧
          i < p.bitmapFrame.index + (p.bitmap.length + 4095) / 4096)) ∧
    ∀ i < 8 * p.bitmap.length, p.totalFrames ≤ i → p.bitmap.test m'.memory i = true := by
  obtain ⟨hplace, -⟩ := FrameAllocator.init_eq_done hinit
  obtain ⟨htotal, -, -, hhosts⟩ := FrameAllocator.place_spec hplace
  have hsize : 8 * p.bitmap.length = p.bitmap.size := rfl
  refine ⟨htotal.trans boot.map.frameCount_eq, rfl, hhosts, fun i hi => ?_, fun i hi hpad => ?_⟩
  · rw [FrameAllocator.test_init hinit (hsize ▸ hi), FrameAllocator.Available,
      FrameAllocator.isReserved_eq_false_iff, ← Nat.pos_iff_ne_zero]
    constructor
    · rintro ⟨hlt, ⟨hpos, hout⟩, hheld⟩
      exact ⟨hpos, hlt, hheld, hout⟩
    · rintro ⟨hpos, hlt, hheld, hout⟩
      exact ⟨hlt, ⟨hpos, hout⟩, hheld⟩
  · rw [← Bool.not_eq_false, FrameAllocator.test_init hinit (hsize ▸ hi)]
    exact fun hclear => absurd hclear.1 (Nat.not_lt.mpr hpad)

namespace Overlapping

/-- A report of overlapping regions of free RAM. The first one is page 0, and no other one starts or
ends on a page boundary. -/
def boot : BootInfo where
  map := [⟨⟨0⟩, 0x1000, .usable⟩, ⟨⟨0x2800⟩, 0x5A00, .usable⟩, ⟨⟨0x6400⟩, 0x6100, .usable⟩,
    ⟨⟨0x9000⟩, 0x2000, .reserved⟩, ⟨⟨0xE001⟩, 0x17FF, .usable⟩]
  directOffset := 0xFFFF800000000000

def allocator : FrameAllocator where
  bitmapFrame := .ofIndex 3
  totalFrames := 15
  directMap := { offset := 0xFFFF800000000000 }

def machine : Machine :=
  ((FrameAllocator.init boot).run ⟨.zeroed, #[], #[]⟩).2

theorem init_eq : (FrameAllocator.init boot).run ⟨.zeroed, #[], #[]⟩ = (.done allocator, machine) :=
  Prod.ext rfl rfl

end Overlapping

/-- Page 0 cannot hold the bitmap, so frame 3 does. Frame 8 crosses the end of one region but lies
wholly inside another; frame 14 starts before the last region does, and bit 15 is padding. -/
theorem bitmap_matches_map_of_overlapping :
    ((List.range 16).filter fun i =>
      !Overlapping.allocator.bitmap.test Overlapping.machine.memory i) = List.range' 4 8 := by
  obtain ⟨-, -, -, hbits, -⟩ := bitmap_matches_map Overlapping.init_eq
  have hfree : ∀ i < 16, Overlapping.allocator.bitmap.test Overlapping.machine.memory i = false ↔
      4 ≤ i ∧ i < 12 := by
    intro i hi
    rw [hbits i hi]
    revert i
    decide
  have hkeep : ∀ i ∈ List.range 16,
      (!Overlapping.allocator.bitmap.test Overlapping.machine.memory i) =
        decide (4 ≤ i ∧ i < 12) := by
    intro i hi
    rw [Bool.eq_iff_iff, Bool.not_eq_true', decide_eq_true_iff]
    exact hfree i (List.mem_range.mp hi)
  rw [List.filter_congr hkeep]
  decide

end MemoryManager
