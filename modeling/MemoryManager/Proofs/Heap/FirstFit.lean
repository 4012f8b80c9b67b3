import MemoryManager.Proofs.Frames.RoundTrip
import MemoryManager.Proofs.Heap.Payloads

namespace MemoryManager

open KernelHeap

namespace KernelHeap

variable {p : FrameAllocator} {w w' : World KernelHeap} {frames new : List Nat}
  {cs l r : List Extent} {c : Extent} {size n : UInt64} {first : Nat}

theorem Serves.extents_eq (h : Serves p frames w w' n new l c r) :
    extents w' = l ++ served c n ++ r :=
  h.formed.map_extent_blocks

/-- A block that the heap has already is taken without the frame allocator. -/
theorem Serves.bitmap_eq (h : Serves p frames w w' n [] l c r) :
    p.bitmap.bytes w'.machine.memory = p.bitmap.bytes w.machine.memory := by
  refine FrameBitmap.bytes_congr fun a ha => FrameBitmap.byte_eq_of_test (fun i hi => ?_) ha
  rw [h.bits i hi, if_neg List.not_mem_nil]

/-- A request that some block is large enough for can be rounded up to pages. -/
theorem Formed.pages_lt (hf : Formed w.part w.machine.memory frames cs) (hc : c ∈ cs)
    (hfits : Fits n c) : n.toNat + 32 + 4095 < 2 ^ 64 := by
  have hle := hf.stop_le hc
  have hsize := hfits.2
  omega

/-- So can one that enough frames are free for. -/
theorem Backed.pages_lt {m : Memory} {d : DirectMap} (hb : Backed p d m frames)
    (hfirst : p.bitmap.IsFirst m (growthPages n) p.totalFrames (some first)) :
    n.toNat + 32 + 4095 < 2 ^ 64 := by
  have hfits := hfirst.1
  have htotal := hb.total_lt
  unfold growthPages at hfits
  omega

/-- A request is served by the first block that is large enough, if there is one. -/
theorem alloc_of_fits (hf : Formed w.part w.machine.memory frames (l ++ c :: r))
    (hb : Backed p w.part.directMap w.machine.memory frames) (hn : roundedSize? size = some n)
    (hl : ∀ e ∈ l, ¬ Fits n e) (hc : Fits n c) :
    ∃ w', (alloc p size).run w = (.done c.payload, w') ∧ Serves p frames w w' n [] l c r := by
  have hmem : c ∈ l ++ c :: r := by simp
  have hpages := hf.pages_lt hmem hc
  have hs := roundedSize?_eq_some_iff.mp hn
  have hended := alloc_ended hf hb size
  generalize (alloc p size).run w = ended at hended ⊢
  obtain ⟨o, w'⟩ := ended
  cases hended with
  | tooLarge _ hlarge => omega
  | overflow _ hlarge => omega
  | exhausted _ hround _ hnone =>
    cases hround.symm.trans hn
    exact absurd hc (hnone c hmem)
  | found hround hcs hserves =>
    cases hround.symm.trans hn
    obtain ⟨rfl, rfl, rfl⟩ := first_fit_unique hl hc hserves.first hserves.fits hcs
    exact ⟨w', rfl, hserves⟩
  | grown hround hnone =>
    cases hround.symm.trans hn
    exact absurd hc (hnone c hmem)

/-- If no block is large enough, a request is served from the first run of free frames that is. -/
theorem alloc_of_isFirst (hf : Formed w.part w.machine.memory frames cs)
    (hb : Backed p w.part.directMap w.machine.memory frames) (hn : roundedSize? size = some n)
    (hnone : ∀ e ∈ cs, ¬ Fits n e)
    (hfirst : p.bitmap.IsFirst w.machine.memory (growthPages n) p.totalFrames (some first)) :
    ∃ c w', (alloc p size).run w = (.done c.payload, w') ∧
      c.start w.part.directMap = 4096 * first ∧ c.size.toNat + 32 = 4096 * growthPages n ∧
      Serves p frames w w' n (List.range' first (growthPages n)) cs c [] := by
  have hpages := hb.pages_lt hfirst
  have hs := roundedSize?_eq_some_iff.mp hn
  have hended := alloc_ended hf hb size
  generalize (alloc p size).run w = ended at hended ⊢
  obtain ⟨o, w'⟩ := ended
  cases hended with
  | tooLarge _ hlarge => omega
  | overflow _ hlarge => omega
  | exhausted _ hround _ _ hnothing =>
    cases hround.symm.trans hn
    cases hnothing.eq hfirst
  | found hround hcs hserves =>
    cases hround.symm.trans hn
    exact absurd hserves.fits (hnone _ (by simp [hcs]))
  | grown hround _ hstart hsize hgranted hserves =>
    cases hround.symm.trans hn
    obtain rfl := Option.some.inj (hgranted.isFirst.eq hfirst)
    exact ⟨_, w', rfl, hstart, hsize, hserves⟩

/-- Without such a run, nothing is handed out. -/
theorem alloc_ne_done (hf : Formed w.part w.machine.memory frames cs)
    (hb : Backed p w.part.directMap w.machine.memory frames) (hn : roundedSize? size = some n)
    (hnone : ∀ e ∈ cs, ¬ Fits n e)
    (hfirst : p.bitmap.IsFirst w.machine.memory (growthPages n) p.totalFrames none)
    (a : VirtualAddress) : (alloc p size).run w ≠ (.done a, w') := by
  intro hrun
  have hended := alloc_ended hf hb size
  rw [hrun] at hended
  cases hended with
  | found hround hcs hserves =>
    cases hround.symm.trans hn
    exact absurd hserves.fits (hnone _ (by simp [hcs]))
  | grown hround _ _ _ hgranted =>
    cases hround.symm.trans hn
    cases hgranted.isFirst.eq hfirst

end KernelHeap

/-- First fit, and no more growth than needed. In every reachable state, a request takes the first
block in the list that is free and large enough for its rounded size `n`, if there is one, and no bit
of the frame allocator changes. Otherwise it takes the pages that a block of `n` bytes fills, at the
first place where so many frames are free, and puts them behind the last block; if there is no such
place it is not served. The block that is taken becomes `served c n`: cut to `n` bytes, with a free
block behind it, if that has room for its header and more, and used as it is otherwise. All other
blocks stay as they are. -/
theorem heap_first_fit {boot : BootInfo} {p : FrameAllocator} {s : HeapState}
    (hnull : ¬ p.Available boot.map p.directMap.nullFrame) (hs : HeapState.Reachable boot p s)
    {size n : UInt64} (hn : n.toNat = payloadSize size.toNat) :
    (∀ l c r, extents s.world = l ++ c :: r → (∀ e ∈ l, ¬ Fits n e) → Fits n c →
      ∃ w, (KernelHeap.alloc p size).run s.world = (.done c.payload, w) ∧
        extents w = l ++ served c n ++ r ∧
        p.bitmap.bytes w.machine.memory = p.bitmap.bytes s.memory) ∧
    ((∀ e ∈ extents s.world, ¬ Fits n e) →
      (∀ first, p.bitmap.IsFirst s.memory (growthPages n) p.totalFrames (some first) →
        ∃ c w, (KernelHeap.alloc p size).run s.world = (.done c.payload, w) ∧
          c.start p.directMap = 4096 * first ∧ c.size.toNat + 32 = 4096 * growthPages n ∧
          extents w = extents s.world ++ served c n ∧
          ∀ i < p.bitmap.size, p.bitmap.test w.machine.memory i =
            if first ≤ i ∧ i < first + growthPages n then true else p.bitmap.test s.memory i) ∧
      (p.bitmap.IsFirst s.memory (growthPages n) p.totalFrames none →
        ∀ a w, (KernelHeap.alloc p size).run s.world ≠ (.done a, w))) := by
  obtain ⟨cs, h⟩ := hs.sound hnull
  have hround := roundedSize?_eq_some_iff.mpr hn
  rw [h.extents_eq]
  refine ⟨?_, fun hnone => ⟨?_, ?_⟩⟩
  · rintro l c r rfl hl hc
    obtain ⟨w, hrun, hserves⟩ := alloc_of_fits h.formed h.backed hround hl hc
    exact ⟨w, hrun, hserves.extents_eq, hserves.bitmap_eq⟩
  · intro first hfirst
    obtain ⟨c, w, hrun, hstart, hsize, hserves⟩ :=
      alloc_of_isFirst h.formed h.backed hround hnone hfirst
    rw [h.backed.directMap]
    refine ⟨c, w, hrun, hstart, hsize, ?_, fun i hi => ?_⟩
    · rw [hserves.extents_eq, List.append_nil]
    · simp only [hserves.bits i hi, List.mem_range'_1]
  · intro hfirst a w
    exact alloc_ne_done h.formed h.backed hround hnone hfirst a

/-- The first request is served by what is left of the heap's pages. The second one takes seven more,
though not where the lowest six are free. -/
theorem heap_first_fit_of_two_regions :
    (∃ w, (KernelHeap.alloc TwoRegions.allocator 1000).run TwoRegions.filled.world =
        (.done ⟨0xFFFF80000001CAD0⟩, w) ∧
      extents w = [⟨⟨0xFFFF80000000D000⟩, 112, false⟩, ⟨⟨0xFFFF80000000D090⟩, 64000, false⟩,
        ⟨⟨0xFFFF80000001CAB0⟩, 1008, false⟩, ⟨⟨0xFFFF80000001CEC0⟩, 288, true⟩]) ∧
    ∃ c w, (KernelHeap.alloc TwoRegions.allocator 28000).run TwoRegions.filled.world =
        (.done c.payload, w) ∧
      c.start TwoRegions.allocator.directMap = 4096 * 29 ∧ c.size.toNat + 32 = 4096 * 7 ∧
      extents w = extents TwoRegions.filled.world ++ served c 28000 := by
  have hextents : extents TwoRegions.filled.world = [⟨⟨0xFFFF80000000D000⟩, 112, false⟩,
      ⟨⟨0xFFFF80000000D090⟩, 64000, false⟩, ⟨⟨0xFFFF80000001CAB0⟩, 1328, true⟩] := by
    decide +kernel
  have hsmall : (1008 : UInt64).toNat = payloadSize (1000 : UInt64).toNat := rfl
  have hlarge : (28000 : UInt64).toNat = payloadSize (28000 : UInt64).toNat := rfl
  obtain ⟨hfound, -⟩ :=
    heap_first_fit TwoRegions.nullFrame_not_available TwoRegions.reachable_filled hsmall
  obtain ⟨-, hgrown⟩ :=
    heap_first_fit TwoRegions.nullFrame_not_available TwoRegions.reachable_filled hlarge
  rw [hextents] at hfound hgrown ⊢
  obtain ⟨w, hrun, hafter, -⟩ := hfound [_, _] _ [] rfl (by simp [Fits]) ⟨rfl, by decide⟩
  obtain ⟨hserved, -⟩ := hgrown (by simp [Fits])
  obtain ⟨c, w', hrun', hstart, hsize, hafter', -⟩ := hserved 29
    ⟨by decide +kernel, by decide +kernel, by decide +kernel⟩
  exact ⟨⟨w, hrun, hafter⟩, c, w', hrun', hstart, hsize, hafter'⟩

end MemoryManager
