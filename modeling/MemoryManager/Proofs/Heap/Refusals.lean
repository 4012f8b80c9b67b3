import MemoryManager.Proofs.Heap.FirstFit

namespace MemoryManager

open KernelHeap

namespace KernelHeap

variable {p : FrameAllocator} {w w' : World KernelHeap} {frames : List Nat} {cs : List Extent}
  {size n : UInt64} {o : Outcome HeapError VirtualAddress}

/-- What the heap gains is large enough for the request that it grew for. -/
theorem takeFirst?_of_extended (hf : Formed w.part w.machine.memory frames cs)
    (hb : Backed p w.part.directMap w.machine.memory frames) (hn : roundedSize? size = some n)
    (hextend : (extend p n).run w = (.done (), w')) :
    ∃ a u, (takeFirst? n : Action (World KernelHeap) HeapError _).run w' = (.done (some a), u) := by
  obtain ⟨hpos, hgranule, -⟩ := roundedSize?_spec hn
  rcases extend_cases hf hb n with ⟨e, hrefused, -⟩ | ⟨-, -, hstopped⟩ |
    ⟨first, t, c, total, reports, hdone, hg, hstart, hsize, hfree, htotal⟩
  · cases hrefused.symm.trans hextend
  · cases hstopped.symm.trans hextend
  · cases hdone.symm.trans hextend
    obtain ⟨hgrown, -⟩ := grown_spec hf hb hg hstart hsize htotal
    have hroom : c ∈ cs ++ [c] := by simp
    obtain ⟨l, c', r, u, tail, -, -, -, hrun, -⟩ :=
      (takeFirst?_cases HeapError (w := ⟨⟨grownMemory w.part first (growthPages n) c t, reports,
        w.machine.requests⟩, { w.part with tail := c.address, totalBytes := total }⟩)
        hgrown hpos hgranule).resolve_left fun hmissed =>
          hmissed.2 c hroom (fits_of_growth hfree hsize)
    exact ⟨_, _, hrun⟩

theorem Ended.world_eq {e : HeapError} (h : Ended p frames cs size w (.refused e) w') : w' = w := by
  cases h with
  | tooLarge => rfl
  | exhausted => rfl

/-- The size of a request tells whether it is too large for a word, stops the system, or is served
unless frames are short. -/
theorem Ended.by_size (h : Ended p frames cs size w o w')
    (hf : Formed w.part w.machine.memory frames cs)
    (hb : Backed p w.part.directMap w.machine.memory frames) :
    (∃ k, o = .refused (.outOfMemory k)) ∧ 2 ^ 64 ≤ payloadSize size.toNat + 32 ∨
    (o = .stopped (.overflow .addition) ∧ w' = w) ∧ payloadSize size.toNat + 32 < 2 ^ 64 ∧
      2 ^ 64 ≤ payloadSize size.toNat + 32 + 4095 ∨
    ((∃ a, o = .done a) ∨ ∃ e, o = .refused (.frames e)) ∧
      payloadSize size.toNat + 32 + 4095 < 2 ^ 64 := by
  cases h with
  | tooLarge k hlarge => exact .inl ⟨⟨k, rfl⟩, hlarge⟩
  | overflow hword hlarge => exact .inr (.inl ⟨⟨rfl, rfl⟩, hword, hlarge⟩)
  | exhausted e hround hpages =>
    rw [roundedSize?_eq_some_iff.mp hround] at hpages
    exact .inr (.inr ⟨.inr ⟨e, rfl⟩, hpages⟩)
  | found hround hcs hserves =>
    have hpages := hf.pages_lt (by simp [hcs]) hserves.fits
    rw [roundedSize?_eq_some_iff.mp hround] at hpages
    exact .inr (.inr ⟨.inl ⟨_, rfl⟩, hpages⟩)
  | grown hround _ _ _ hgranted =>
    have hpages := hb.pages_lt hgranted.isFirst
    rw [roundedSize?_eq_some_iff.mp hround] at hpages
    exact .inr (.inr ⟨.inl ⟨_, rfl⟩, hpages⟩)

/-- Whether no block of `n` bytes is to be had: no free block is large enough, and the pages that
such a block fills with its header are nowhere free in a row. -/
def Exhausted (h : KernelHeap) (p : FrameAllocator) (m : Memory) (n : Nat) : Prop :=
  (∀ b ∈ h.blocks m, b.free = true → b.size.toNat < n) ∧
  ∀ first, first + (n + 32 + 4095) / 4096 ≤ p.totalFrames →
    ¬ p.bitmap.ClearRun m ((n + 32 + 4095) / 4096) first

theorem Formed.exhausted_iff {h : KernelHeap} {m : Memory} (hf : Formed h m frames cs) :
    h.Exhausted p m n.toNat ↔
      (∀ c ∈ cs, ¬ Fits n c) ∧ p.bitmap.IsFirst m (growthPages n) p.totalFrames none := by
  have hblocks : (∀ c ∈ cs, ¬ Fits n c) ↔
      ∀ b ∈ h.blocks m, b.free = true → b.size.toNat < n.toNat := by
    simp only [← hf.map_extent_blocks, List.forall_mem_map, Fits, not_and, Nat.not_le]
    rfl
  rw [hblocks]
  rfl

/-- A request that can be rounded up to pages is refused if the heap is exhausted, and served
otherwise. -/
theorem alloc_exhausted (hf : Formed w.part w.machine.memory frames cs)
    (hb : Backed p w.part.directMap w.machine.memory frames)
    (hpages : payloadSize size.toNat + 32 + 4095 < 2 ^ 64) :
    w.part.Exhausted p w.machine.memory (payloadSize size.toNat) ∧
      (∃ e, (alloc p size).run w = (.refused e, w)) ∨
    ¬ w.part.Exhausted p w.machine.memory (payloadSize size.toNat) ∧
      ∃ a w', (alloc p size).run w = (.done a, w') ∧ a ≠ .null := by
  have hended := alloc_ended hf hb size
  generalize (alloc p size).run w = ended at hended ⊢
  obtain ⟨o, w'⟩ := ended
  cases hended with
  | tooLarge _ hlarge => omega
  | overflow _ hlarge => omega
  | exhausted e hround _ hnone hfirst =>
    left
    rw [← roundedSize?_eq_some_iff.mp hround, hf.exhausted_iff]
    exact ⟨⟨hnone, hfirst⟩, .frames e, rfl⟩
  | found hround hcs hserves =>
    right
    rw [← roundedSize?_eq_some_iff.mp hround, hf.exhausted_iff]
    refine ⟨fun hout => ?_, _, _, rfl, HeapState.served_ne_null hserves⟩
    exact hout.1 _ (by simp [hcs]) hserves.fits
  | grown hround _ _ _ hgranted hserves =>
    right
    rw [← roundedSize?_eq_some_iff.mp hround, hf.exhausted_iff]
    refine ⟨fun hout => ?_, _, _, rfl, HeapState.served_ne_null hserves⟩
    cases hout.2.eq hgranted.isFirst

end KernelHeap

/-- A refused request leaves no trace: the heap, the bitmap of the frame allocator, all of memory and
the reports are as before. It is refused for its size only if that, rounded up and with a header, is
more than a word can hold; the search after a growth always finds a block. -/
theorem heap_refusal {boot : BootInfo} {p : FrameAllocator} {s : HeapState}
    (hnull : ¬ p.Available boot.map p.directMap.nullFrame) (hs : HeapState.Reachable boot p s)
    (size : UInt64) :
    (∀ e w, (KernelHeap.alloc p size).run s.world = (.refused e, w) →
      w = s.world ∧ ((∃ k, e = .outOfMemory k) ↔ 2 ^ 64 ≤ payloadSize size.toNat + 32)) ∧
    ∀ n w, roundedSize? size = some n → (extend p n).run s.world = (.done (), w) →
      ∃ a u, (takeFirst? n : Action (World KernelHeap) HeapError _).run w = (.done (some a), u) := by
  obtain ⟨cs, h⟩ := hs.sound hnull
  refine ⟨fun e w hrun => ?_, fun n w => takeFirst?_of_extended h.formed h.backed⟩
  have hended := alloc_ended h.formed h.backed size
  rw [hrun] at hended
  refine ⟨hended.world_eq, ?_⟩
  rcases hended.by_size h.formed h.backed with
    ⟨⟨k, he⟩, hlarge⟩ | ⟨⟨he, -⟩, -⟩ | ⟨⟨a, he⟩ | ⟨f, he⟩, hpages⟩
  · cases he
    exact iff_of_true ⟨k, rfl⟩ hlarge
  · cases he
  · cases he
  · cases he
    refine iff_of_false (fun hk => ?_) (by omega)
    obtain ⟨k, hk⟩ := hk
    cases hk

/-- The first request is for seventeen pages, the second one for more bytes than a word counts. The
heap does grow by seven pages. -/
theorem heap_refusal_of_two_regions :
    (KernelHeap.alloc TwoRegions.allocator 65536).run TwoRegions.filled.world =
      (.refused (.frames (.outOfMemory 17)), TwoRegions.filled.world) ∧
    (KernelHeap.alloc TwoRegions.allocator 0xFFFFFFFFFFFFFFFF).run TwoRegions.filled.world =
      (.refused (.outOfMemory 0xFFFFFFFFFFFFFFFF), TwoRegions.filled.world) ∧
    ∃ w a u, (extend TwoRegions.allocator 28000).run TwoRegions.filled.world = (.done (), w) ∧
      (takeFirst? 28000 : Action (World KernelHeap) HeapError _).run w = (.done (some a), u) := by
  have h := heap_refusal TwoRegions.nullFrame_not_available TwoRegions.reachable_filled
  have hmany : (KernelHeap.alloc TwoRegions.allocator 65536).run TwoRegions.filled.world =
      (.refused (.frames (.outOfMemory 17)),
        ((KernelHeap.alloc TwoRegions.allocator 65536).run TwoRegions.filled.world).2) :=
    Prod.ext rfl rfl
  have hlarge : (KernelHeap.alloc TwoRegions.allocator 0xFFFFFFFFFFFFFFFF).run
      TwoRegions.filled.world = (.refused (.outOfMemory 0xFFFFFFFFFFFFFFFF),
        ((KernelHeap.alloc TwoRegions.allocator 0xFFFFFFFFFFFFFFFF).run
          TwoRegions.filled.world).2) :=
    Prod.ext rfl rfl
  have hextend : (extend TwoRegions.allocator 28000).run TwoRegions.filled.world =
      (.done (), ((extend TwoRegions.allocator 28000).run TwoRegions.filled.world).2) :=
    Prod.ext rfl rfl
  obtain ⟨a, u, hfound⟩ := (h 28000).2 28000 _ (by decide) hextend
  refine ⟨?_, ?_, _, a, u, hextend, hfound⟩
  · rw [hmany, ((h 65536).1 _ _ hmany).1]
  · rw [hlarge, ((h 0xFFFFFFFFFFFFFFFF).1 _ _ hlarge).1]

/-- Which requests are answered. Every request for less than `2 ^ 64 - 4127` bytes or for more than
`2 ^ 64 - 48` is served, or refused without a trace. One for a size between these stops the system,
since the size with its header fits into a word but not once it is rounded up to pages. -/
theorem heap_request_answered {boot : BootInfo} {p : FrameAllocator} {s : HeapState}
    (hnull : ¬ p.Available boot.map p.directMap.nullFrame) (hs : HeapState.Reachable boot p s)
    (size : UInt64) :
    (size.toNat < 2 ^ 64 - 4127 ∨ 2 ^ 64 - 48 < size.toNat →
      (∃ a w, (KernelHeap.alloc p size).run s.world = (.done a, w)) ∨
        ∃ e, (KernelHeap.alloc p size).run s.world = (.refused e, s.world)) ∧
    (2 ^ 64 - 4127 ≤ size.toNat ∧ size.toNat ≤ 2 ^ 64 - 48 →
      (KernelHeap.alloc p size).run s.world = (.stopped (.overflow .addition), s.world)) := by
  obtain ⟨cs, h⟩ := hs.sound hnull
  have hpayload : payloadSize size.toNat + 32 < 2 ^ 64 ∧
      2 ^ 64 ≤ payloadSize size.toNat + 32 + 4095 ↔
        2 ^ 64 - 4127 ≤ size.toNat ∧ size.toNat ≤ 2 ^ 64 - 48 := by
    unfold payloadSize
    split <;> omega
  have hended := alloc_ended h.formed h.backed size
  generalize (KernelHeap.alloc p size).run s.world = ended at hended ⊢
  obtain ⟨o, w⟩ := ended
  dsimp only at hended
  rcases hended.by_size h.formed h.backed with
    ⟨⟨k, rfl⟩, hlarge⟩ | ⟨⟨rfl, rfl⟩, hrange⟩ | ⟨⟨a, rfl⟩ | ⟨e, rfl⟩, hpages⟩
  · refine ⟨fun _ => .inr ⟨_, by rw [hended.world_eq]⟩, fun hin => ?_⟩
    have hword := (hpayload.mpr hin).1
    omega
  · refine ⟨fun hout => ?_, fun _ => rfl⟩
    have hin := hpayload.mp hrange
    omega
  · refine ⟨fun _ => .inl ⟨a, w, rfl⟩, fun hin => ?_⟩
    have hlarge := (hpayload.mpr hin).2
    omega
  · refine ⟨fun _ => .inr ⟨_, by rw [hended.world_eq]⟩, fun hin => ?_⟩
    have hlarge := (hpayload.mpr hin).2
    omega

/-- The largest size that is answered before those that are not, and the one after it. -/
theorem heap_request_answered_of_two_regions :
    (KernelHeap.alloc TwoRegions.allocator 0xFFFFFFFFFFFFEFE1).run TwoRegions.filled.world =
      (.stopped (.overflow .addition), TwoRegions.filled.world) ∧
    ((∃ a w, (KernelHeap.alloc TwoRegions.allocator 0xFFFFFFFFFFFFEFE0).run
        TwoRegions.filled.world = (.done a, w)) ∨
      ∃ e, (KernelHeap.alloc TwoRegions.allocator 0xFFFFFFFFFFFFEFE0).run
        TwoRegions.filled.world = (.refused e, TwoRegions.filled.world)) := by
  have h := heap_request_answered TwoRegions.nullFrame_not_available TwoRegions.reachable_filled
  exact ⟨(h 0xFFFFFFFFFFFFEFE1).2 (by decide), (h 0xFFFFFFFFFFFFEFE0).1 (by decide)⟩

/-- A request for 48 bytes less than a word counts is neither served nor refused. -/
theorem large_request_stops :
    ∃ s : HeapState, HeapState.Reachable TwoRegions.boot TwoRegions.allocator s ∧
      (KernelHeap.alloc TwoRegions.allocator 0xFFFFFFFFFFFFFFD0).run s.world =
        (.stopped (.overflow .addition), s.world) :=
  ⟨TwoRegions.started, TwoRegions.reachable_started, Prod.ext rfl rfl⟩

end MemoryManager
