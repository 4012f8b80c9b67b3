import MemoryManager.Bits
import MemoryManager.Proofs.Frames.Releases

namespace MemoryManager

namespace FrameBitmap

variable {b : FrameBitmap} {m t : Memory}

/-- The bytes of a bitmap are known by its bits. -/
theorem byte_eq_of_test (h : ∀ i < b.size, b.test t i = b.test m i) {a : Nat}
    (ha : ¬ b.Outside a) : t.byte a = m.byte a := by
  apply UInt8.toNat_inj.mp
  apply Nat.eq_of_testBit_eq
  intro k
  by_cases hk : k < 8
  · have hsize : 8 * (a - b.frame.start) + k < b.size := by
      simp only [Outside, size] at *
      omega
    have hposition : b.position (8 * (a - b.frame.start) + k) = a := by
      simp only [Outside, position] at *
      omega
    have hbit := h _ hsize
    rwa [test, test, hposition, Nat.mul_add_mod, Nat.mod_eq_of_lt hk] at hbit
  · rw [Bits.testBit_of_lt (t.byte a).toNat_lt (Nat.not_lt.mp hk),
      Bits.testBit_of_lt (m.byte a).toNat_lt (Nat.not_lt.mp hk)]

theorem bytes_congr (h : ∀ a, ¬ b.Outside a → t.byte a = m.byte a) : b.bytes t = b.bytes m := by
  refine List.map_congr_left fun k hk => h _ ?_
  rw [List.mem_range] at hk
  simp only [Outside]
  omega

end FrameBitmap

namespace FrameAllocator

variable {p : FrameAllocator} {m t u : Memory} {first n : Nat}

theorem Granted.isFirst (h : p.Granted m t first n) :
    p.bitmap.IsFirst m n p.totalFrames (some first) :=
  ⟨h.fits, h.clear, h.least⟩

/-- Every bit is back at its old value, those past the last frame included. -/
theorem Granted.test_released (h : p.Granted m t first n) (hr : p.Released t u first n) :
    ∀ i < p.bitmap.size, p.bitmap.test u i = p.bitmap.test m i := by
  intro i hi
  rw [hr.bits i hi, h.bits i hi]
  split
  · rename_i hrun
    exact (h.clear i hrun.1 hrun.2).symm
  · rfl

/-- An allocation hands out the run that the search has to find. -/
theorem alloc_of_isFirst {m : Machine} (hp : p.Placed) {pages : UInt64} (hpages : pages ≠ 0)
    (h : p.bitmap.IsFirst m.memory pages.toNat p.totalFrames (some first)) :
    ∃ t, (p.alloc pages).run m = (.done ⟨.ofIndex first, pages⟩, { m with memory := t }) ∧
      p.Granted m.memory t first pages.toNat := by
  rcases alloc_cases p pages hp with ⟨e, -, hzero | hnone⟩ | ⟨k, t, hrun, hg⟩
  · exact absurd hzero hpages
  · cases hnone.eq h
  · obtain rfl := Option.some.inj (hg.isFirst.eq h)
    exact ⟨t, hrun, hg⟩

end FrameAllocator

open FrameAllocator

/-- Taking frames and giving them back, after any run of requests, releases of arbitrary frames among
them. What an allocation hands out is accepted at once for release; then every byte of the bitmap is
what it was before the allocation, the frames are overwritten, and no other byte outside of the bitmap
has changed. The same allocation hands out the same frames again. -/
theorem frame_round_trip {boot : BootInfo} {p : FrameAllocator} {m₀ m : Machine}
    (hinit : (FrameAllocator.init boot).run m₀ = (.done p, m)) {s : Custody}
    (hs : Custody.Reachable p m s) {pages : UInt64} {r : FrameRange} {t : Machine}
    (halloc : (p.alloc pages).run s.machine = (.done r, t)) :
    r.pages = pages ∧ ∃ u, (p.free r).run t = (.done (), u) ∧
      p.bitmap.bytes u.memory = p.bitmap.bytes s.machine.memory ∧
      (∀ a, r.Holds (a / 4096) → u.memory.byte a = poison) ∧
      (∀ a, p.bitmap.Outside a → ¬ r.Holds (a / 4096) →
        u.memory.byte a = s.machine.memory.byte a) ∧
      ∃ v, (p.alloc pages).run u = (.done r, v) := by
  have h := (hs.accounted hinit).toSound
  rcases alloc_cases p pages (m := s.machine) h.toPlaced with
    ⟨e, hrefused, -⟩ | ⟨first, memory, hdone, hg⟩
  · cases hrefused.symm.trans halloc
  cases hdone.symm.trans halloc
  have hindex : (PhysicalFrame.ofIndex first).index = first := by
    have hfits := hg.fits
    have htotal := h.total_lt
    exact Nat.mod_eq_of_lt (by omega)
  have hholds : ∀ i, (FrameRange.mk (.ofIndex first) pages).Holds i ↔
      first ≤ i ∧ i < first + pages.toNat := by
    intro i
    rw [FrameRange.Holds, hindex]
  obtain ⟨memory', hfree, hr⟩ := release_of_owned p (m := { s.machine with memory := memory })
    h.toPlaced fun i hi hlt => hg.owned h hi hlt
  have hsame : ∀ a, ¬ p.bitmap.Outside a → memory'.byte a = s.machine.memory.byte a :=
    fun _ ha => FrameBitmap.byte_eq_of_test (hg.test_released hr) ha
  have hpages : pages ≠ 0 := by
    rintro rfl
    exact absurd hg.pos (Nat.lt_irrefl 0)
  obtain ⟨memory'', hagain, -⟩ := alloc_of_isFirst (m := { s.machine with memory := memory' })
    h.toPlaced hpages (FrameBitmap.isFirst_congr hsame p.total_le_size hg.isFirst)
  refine ⟨rfl, _, ?_, FrameBitmap.bytes_congr hsame, fun a ha => ?_, fun a ha hnot => ?_, _, hagain⟩
  · have hend : first + pages.toNat < 2 ^ 64 := by
      have hfits := hg.fits
      have htotal := h.total_lt
      omega
    rw [run_free, hindex, if_pos hend]
    exact hfree
  · rw [hholds] at ha
    exact hr.byte_eq_poison ha.1 ha.2
  · rw [hholds] at hnot
    rw [hr.bytes a ha, if_neg hnot, hg.bytes a ha]

namespace TwoRegions

/-- A frame that no usable region holds is given back right after boot. -/
def strayed : Custody :=
  (⟨machine, [], []⟩ : Custody).perform allocator (.give (.ofIndex 8))

theorem strayed_reachable : Custody.Reachable allocator machine strayed :=
  .step (.give (.ofIndex 8)) .start trivial

end TwoRegions

/-- The seven frames are the last ones of a region, and one behind it that was given back without
having been handed out. -/
theorem frame_round_trip_of_two_regions :
    ∃ t u v, (TwoRegions.allocator.alloc 7).run TwoRegions.strayed.machine =
        (.done ⟨.ofIndex 2, 7⟩, t) ∧
      (TwoRegions.allocator.free ⟨.ofIndex 2, 7⟩).run t = (.done (), u) ∧
      TwoRegions.allocator.bitmap.bytes u.memory =
        TwoRegions.allocator.bitmap.bytes TwoRegions.strayed.machine.memory ∧
      u.memory.byte 0x8FFF = poison ∧
      (TwoRegions.allocator.alloc 7).run u = (.done ⟨.ofIndex 2, 7⟩, v) := by
  have halloc : (TwoRegions.allocator.alloc 7).run TwoRegions.strayed.machine =
      (.done ⟨.ofIndex 2, 7⟩, ((TwoRegions.allocator.alloc 7).run TwoRegions.strayed.machine).2) :=
    Prod.ext rfl rfl
  obtain ⟨-, u, hfree, hbitmap, hpoison, -, v, hagain⟩ :=
    frame_round_trip TwoRegions.init_eq TwoRegions.strayed_reachable halloc
  exact ⟨_, u, v, halloc, hfree, hbitmap, hpoison 0x8FFF (by decide), hagain⟩

end MemoryManager
