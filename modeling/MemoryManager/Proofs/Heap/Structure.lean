import MemoryManager.Proofs.Heap.Runs

namespace MemoryManager

namespace KernelHeap

/-- The headers `bs` form a doubly linked list from the heap's head to its tail. -/
structure DoublyLinked (h : KernelHeap) (m : Memory) (bs : List HeapBlock) : Prop where
  stored : ∀ b ∈ bs, HeapBlock.read h.directMap m b.address = b
  distinct : (bs.map HeapBlock.address).Nodup
  head : ∃ b, bs.head? = some b ∧ b.address = h.head ∧ b.prev = .null
  tail : ∃ b, bs.getLast? = some b ∧ b.address = h.tail ∧ b.next = .null
  links : bs.IsChain fun b c => b.next = c.address ∧ c.prev = b.address

variable {h : KernelHeap} {m : Memory} {frames : List Nat} {cs : List Extent}

theorem map_address_linkUp (prev : VirtualAddress) (cs : List Extent) :
    (linkUp prev cs).map HeapBlock.address = cs.map Extent.address := by
  have hmap := congrArg (List.map Extent.address) (extent_linkUp prev cs)
  rwa [List.map_map] at hmap

theorem Formed.doublyLinked (hf : Formed h m frames cs) : DoublyLinked h m (h.blocks m) := by
  have hne : linkUp .null cs ≠ [] := by
    intro hnil
    have hmap := extent_linkUp .null cs
    rw [hnil] at hmap
    exact hf.nonempty hmap.symm
  rw [hf.blocks_eq]
  refine ⟨hf.linked.stored, ?_, ?_, ?_, isChain_linkUp .null cs⟩
  · rw [map_address_linkUp]
    exact List.pairwise_map.mpr (hf.tiling.headers_apart.imp fun hbc => hbc.ne)
  · obtain ⟨b, hb⟩ := List.ne_nil_iff_exists_cons.mp hne
    obtain ⟨r, hr⟩ := hb
    have hhead := head?_linkUp .null cs b (by rw [hr]; rfl)
    refine ⟨b, by rw [hr]; rfl, ?_, hhead.1⟩
    rw [hf.linked.first_eq, hhead.2]
    rfl
  · have hlast := List.getLast?_eq_some_getLast hne
    obtain ⟨hnext, haddress⟩ := getLast?_linkUp .null cs _ hlast
    refine ⟨_, hlast, ?_, hnext⟩
    rw [hf.linked.last_eq, haddress]
    rfl

theorem payloadBytes_add (bs : List HeapBlock) :
    payloadBytes (bs.filter (!·.free)) + payloadBytes (bs.filter HeapBlock.free) +
      32 * bs.length = (bs.map fun b => 32 + b.size.toNat).sum := by
  induction bs with
  | nil => rfl
  | cons b bs ih =>
    cases hb : b.free with
    | true =>
      rw [List.filter_cons_of_neg (by simp [hb]), List.filter_cons_of_pos hb]
      simp only [payloadBytes, List.map_cons, List.sum_cons, List.length_cons]
      omega
    | false =>
      rw [List.filter_cons_of_pos (by simp [hb]), List.filter_cons_of_neg (by simp [hb])]
      simp only [payloadBytes, List.map_cons, List.sum_cons, List.length_cons]
      omega

theorem Formed.stats_add (hf : Formed h m frames cs) :
    (h.stats m).usedBytes + (h.stats m).freeBytes + 32 * (h.stats m).blocks =
      (h.stats m).totalBytes := by
  have hsum := payloadBytes_add (h.blocks m)
  have htotal := hf.tiling.total
  have hspan : ∀ c : Extent, (c.span h.directMap).stop - (c.span h.directMap).first =
      32 + c.size.toNat := by
    intro c
    simp only [Extent.span]
    omega
  have hmap : (h.blocks m).map (fun b => 32 + b.size.toNat) =
      cs.map fun c => 32 + c.size.toNat := by
    have hext := congrArg (List.map fun c : Extent => 32 + c.size.toNat) (extent_linkUp .null cs)
    rwa [List.map_map, ← hf.blocks_eq] at hext
  rw [List.map_map] at htotal
  simp only [Function.comp_def, hspan] at htotal
  rw [hmap, htotal, ← hf.total] at hsum
  exact hsum

end KernelHeap

/-- The structure of the heap. Whatever its clients ask for, released pointers being live ones, and
whatever others do with the frame allocator and with memory, as long as they leave alone what the
heap has: the headers from head to tail form a doubly linked list; every block size is a positive
multiple of 16; headers and payloads share no byte and make up exactly the frames that the heap
obtained; and the counts add up. No frame that may be handed out appears at the null address, which
is a part of what the loader promises: that the direct map reaches all usable memory. -/
theorem heap_structure {boot : BootInfo} {p : FrameAllocator} {s : HeapState}
    (hnull : ¬ p.Available boot.map p.directMap.nullFrame) (hs : HeapState.Reachable boot p s) :
    KernelHeap.DoublyLinked s.world.part s.memory (s.world.part.blocks s.memory) ∧
    (∀ b ∈ s.world.part.blocks s.memory, 0 < b.size.toNat ∧ 16 ∣ b.size.toNat) ∧
    ((s.world.part.blocks s.memory).Pairwise fun b c =>
      (b.extent.span p.directMap).Apart (c.extent.span p.directMap)) ∧
    (∀ x, (∃ b ∈ s.world.part.blocks s.memory, (b.extent.span p.directMap).Holds x) ↔
      x / 4096 ∈ s.frames) ∧
    s.frames.Nodup ∧ s.world.part.totalBytes.toNat = 4096 * s.frames.length ∧
    (s.world.part.stats s.memory).usedBytes + (s.world.part.stats s.memory).freeBytes +
      32 * (s.world.part.stats s.memory).blocks = (s.world.part.stats s.memory).totalBytes := by
  obtain ⟨cs, h⟩ := hs.sound hnull
  have hf := h.formed
  have hdirect := h.backed.directMap
  have hmap : (s.world.part.blocks s.memory).map (fun b => b.extent.span p.directMap) =
      cs.map (Extent.span s.world.part.directMap) := by
    have hext := congrArg (List.map (Extent.span p.directMap)) (extent_linkUp .null cs)
    rw [List.map_map, ← hf.blocks_eq, hdirect] at hext
    rw [hdirect]
    exact hext
  refine ⟨hf.doublyLinked, ?_, ?_, ?_, h.backed.nodup, hf.total, hf.stats_add⟩
  · intro b hb
    have hc : b.extent ∈ cs := by
      rw [← extent_linkUp .null cs, ← hf.blocks_eq]
      exact List.mem_map_of_mem hb
    obtain ⟨hlt, hfirst, hstop⟩ := hf.sized hc
    simp only [Extent.span, HeapBlock.extent] at hlt hfirst hstop
    omega
  · have hapart := hf.tiling.apart
    rwa [← hmap, List.pairwise_map] at hapart
  · intro x
    rw [← hf.tiling.covers x, ← hmap]
    simp only [List.mem_map, exists_exists_and_eq_and]

theorem heap_structure_of_two_regions :
    ∃ s : HeapState, HeapState.Reachable TwoRegions.boot TwoRegions.allocator s ∧
      s.live.length = 1 ∧ s.frames.length = 17 ∧ s.world.part.totalBytes.toNat = 4096 * 17 ∧
      KernelHeap.DoublyLinked s.world.part s.memory (s.world.part.blocks s.memory) := by
  have full := TwoRegions.reachable_started.step (.alloc 65000) trivial
  have grown := full.step (.alloc 1000) trivial
  have holed := grown.step (.release ⟨0xFFFF80000000D020⟩)
    ⟨⟨⟨0xFFFF80000000D020⟩, 65008⟩, by decide +kernel, rfl⟩
  have h := heap_structure TwoRegions.nullFrame_not_available holed
  refine ⟨_, holed, ?_, ?_, ?_, h.1⟩
  · decide +kernel
  · decide +kernel
  · rw [h.2.2.2.2.2.1]
    decide +kernel

end MemoryManager
