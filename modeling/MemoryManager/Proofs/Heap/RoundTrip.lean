import MemoryManager.Proofs.Heap.Coalescing

namespace MemoryManager

open FrameAllocator KernelHeap

namespace KernelHeap

variable {cs l r : List Extent} {b c e : Extent}

theorem joined_of_coalesced (hc : c.free = true) (h : Coalesced (c :: r)) : joined c r = c :: r := by
  cases r with
  | nil => rfl
  | cons e r =>
    rw [joined, if_neg]
    exact fun hjoin => (coalesced_cons.mp h).1 e rfl ⟨hc, hjoin⟩

/-- Where nothing could be joined, releasing a block that is free already changes nothing. -/
theorem released_of_coalesced (hc : c.free = true) (h : Coalesced (l ++ c :: r)) :
    released l c r = l ++ c :: r := by
  have hfree : { c with free := true } = c := Extent.ext rfl rfl hc.symm
  have hcr := joined_of_coalesced hc (coalesced_append.mp h).2.1
  rcases List.eq_nil_or_concat l with rfl | ⟨l, b, rfl⟩
  · rw [released_nil, hfree, hcr, List.nil_append]
  · rw [List.concat_eq_append, List.append_assoc, List.singleton_append] at h ⊢
    rw [released_concat, hfree, hcr]
    split
    · rename_i hb
      rw [joined_of_coalesced hb (coalesced_append.mp h).2.1]
    · rfl

/-- A block that has served a request, whether it was cut or not, is released as if it never had. -/
theorem released_served (hc : c.free = true) (hcr : Coalesced (c :: r)) (l : List Extent)
    (size : UInt64) : ∃ n s, served c size = ⟨c.address, n, false⟩ :: s ∧
      released l ⟨c.address, n, false⟩ (s ++ r) = released l c r := by
  rw [served]
  split
  · refine ⟨size, [rest c size], rfl, ?_⟩
    -- what was left of the block is free and starts where the block was cut
    have hsize : size + (headerSize + (c.size - (headerSize + size))) = c.size := by
      rw [← UInt64.add_assoc, UInt64.add_comm size, UInt64.add_comm (headerSize + size),
        UInt64.sub_add_cancel]
    have hjoined : joined ⟨c.address, size, true⟩ (rest c size :: r) = c :: r := by
      rw [joined, if_pos ⟨rfl, rfl⟩]
      exact congrArg (· :: r) (Extent.ext rfl hsize hc.symm)
    have hfree : { c with free := true } = c := Extent.ext rfl rfl hc.symm
    simp only [released, List.singleton_append, hjoined, hfree, joined_of_coalesced hc hcr]
  · exact ⟨c.size, [], rfl, rfl⟩

/-- The payload bytes of the used blocks. -/
theorem payloadBytes_linkUp (prev : VirtualAddress) (cs : List Extent) :
    payloadBytes ((linkUp prev cs).filter (!·.free)) =
      ((inUse cs).map fun c => c.size.toNat).sum := by
  induction cs generalizing prev with
  | nil => rfl
  | cons c cs ih =>
    rw [linkUp]
    cases hc : c.free with
    | true => rw [List.filter_cons_of_neg (by simp), ih, inUse_cons_of_free hc]
    | false =>
      rw [List.filter_cons_of_pos (by simp), inUse_cons_of_used hc, List.map_cons, List.sum_cons,
        payloadBytes, ih]

/-- A used block keeps its header when a free block is put behind the last one, but for the link of
the last one. -/
theorem mem_linkUp_released {b : HeapBlock} {prev : VirtualAddress}
    (hb : b ∈ linkUp prev cs) (hused : b.free = false) :
    ∃ next, { b with next := next } ∈ linkUp prev (released cs c []) ∧
      (b.next ≠ .null → next = b.next) := by
  induction cs generalizing prev with
  | nil => cases hb
  | cons e cs ih =>
    rw [linkUp] at hb
    cases cs with
    | nil =>
      obtain rfl := List.mem_singleton.mp hb
      have he : e.free = false := hused
      rw [← List.nil_append [e], released_concat, if_neg (Bool.eq_false_iff.mp he), List.nil_append]
      refine ⟨c.address, ?_, fun hnext => absurd rfl hnext⟩
      rw [linkUp]
      exact List.mem_cons_self
    | cons f cs =>
      obtain ⟨n, s, hfirst⟩ := released_cons_eq f c cs []
      rw [released_cons (List.cons_ne_nil f cs), linkUp]
      rcases List.mem_cons.mp hb with rfl | hb
      · refine ⟨f.address, ?_, fun _ => rfl⟩
        rw [hfirst]
        exact List.mem_cons_self
      · obtain ⟨next, hmem, hnext⟩ := ih hb
        exact ⟨next, List.mem_cons_of_mem _ hmem, hnext⟩

/-- The blocks in use are the same, with the same headers and payloads, but for the link of the last
block to the next. -/
structure UsedKept (w w' : World KernelHeap) : Prop where
  extents : inUse (extents w') = inUse (extents w)
  headers : ∀ b ∈ w.part.blocks w.machine.memory, b.free = false →
    ∃ next, { b with next := next } ∈ w'.part.blocks w'.machine.memory ∧
      (b.next ≠ .null → next = b.next)
  payloads : ∀ c ∈ inUse (KernelHeap.extents w), ∀ x, c.start w.part.directMap + 32 ≤ x →
    x < c.start w.part.directMap + 32 + c.size.toNat →
    w'.machine.memory.byte x = w.machine.memory.byte x

end KernelHeap

namespace HeapState

variable {p : FrameAllocator} {s : HeapState} {cs l r : List Extent} {c : Extent}

/-- Releasing what has just been handed out leads to the blocks that releasing the block that was
taken would lead to. No block that was in use before is written to. -/
theorem Sound.release_served (h : s.Sound p cs) {w : World KernelHeap} {size : UInt64}
    {new : List Nat} (hserves : Serves p s.frames s.world w size new l c r)
    (hcr : Coalesced (c :: r)) (hused : inUse (l ++ r) = inUse cs) :
    ∃ t tail, (release c.payload : Action (World KernelHeap) Empty Unit).run w =
        (.done (), ⟨{ w.machine with memory := t }, { w.part with tail := tail }⟩) ∧
      Formed { w.part with tail := tail } t (s.frames ++ new) (KernelHeap.released l c r) ∧
      ∀ e ∈ cs, e.free = false → ∀ x, e.start s.world.part.directMap + 32 ≤ x →
        x < e.start s.world.part.directMap + 32 + e.size.toNat → t.byte x = s.memory.byte x := by
  obtain ⟨n, rs, hserved, hreleased⟩ := released_served hserves.fits.1 hcr l size
  have hformed := hserves.formed
  rw [List.append_assoc, hserved, List.cons_append] at hformed
  obtain ⟨t, tail, hrun, hf, hbytes⟩ := release_spec Empty hformed rfl
  rw [hreleased] at hf
  refine ⟨t, tail, hrun, hf, fun e he heused x hlow hhigh => ?_⟩
  have hin : e ∈ l ++ r := (mem_inUse.mp (hused ▸ mem_inUse.mpr ⟨he, heused⟩)).1
  have hother : e ∈ l ++ (rs ++ r) := by
    rw [List.mem_append, List.mem_append]
    exact (List.mem_append.mp hin).imp_right .inr
  have hstill : e ∈ l ++ ⟨c.address, n, false⟩ :: (rs ++ r) :=
    List.mem_append.mpr ((List.mem_append.mp hother).imp_right (List.mem_cons_of_mem _))
  have hapart := hformed.spans_apart hstill (c := ⟨c.address, n, false⟩) (by simp)
    fun heq => hformed.address_ne hother (congrArg Extent.address heq)
  rw [← h.served_byte he heused hserves hused hlow hhigh]
  rw [← hserves.directMap] at hlow hhigh
  rw [hbytes x (hformed.not_inHeaders hstill hlow hhigh), if_neg]
  intro hpayload
  simp only [Span.Apart, Extent.span] at hapart hpayload
  omega

/-- If a block that the heap had already was taken, everything is as it was. -/
theorem Sound.restores (h : s.Sound p (l ++ c :: r)) (hcs : Coalesced (l ++ c :: r))
    {w : World KernelHeap} {size : UInt64} (hserves : Serves p s.frames s.world w size [] l c r) :
    ∃ w', (release c.payload : Action (World KernelHeap) Empty Unit).run w = (.done (), w') ∧
      w'.part = s.world.part ∧
      w'.part.blocks w'.machine.memory = s.world.part.blocks s.memory ∧
      w'.part.stats w'.machine.memory = s.world.part.stats s.memory := by
  have hc := hserves.fits.1
  obtain ⟨t, tail, hrun, hreleased, -⟩ := h.release_served hserves (coalesced_append.mp hcs).2.1
    (inUse_append_cons_of_free hc l r).symm
  rw [released_of_coalesced hc hcs, List.append_nil] at hreleased
  obtain ⟨hhead, htail, hblocks⟩ := hreleased.agree h.formed
  have htotal : w.part.totalBytes = s.world.part.totalBytes :=
    UInt64.toNat_inj.mp (hreleased.total.trans h.formed.total.symm)
  have hpart : { w.part with tail := tail } = s.world.part :=
    KernelHeap.ext hhead htail htotal hserves.directMap
  refine ⟨_, hrun, hpart, hblocks, ?_⟩
  rw [stats, hblocks, hpart, stats]

/-- If the heap has grown, it has what it gained as one more free block or as a part of the last
one. -/
theorem Sound.keepsUsed (h : s.Sound p cs) {w : World KernelHeap} {size : UInt64} {first n : Nat}
    (hserves : Serves p s.frames s.world w size (List.range' first n) cs c []) :
    ∃ w', (release c.payload : Action (World KernelHeap) Empty Unit).run w = (.done (), w') ∧
      w'.part.totalBytes.toNat = s.world.part.totalBytes.toNat + 4096 * n ∧
      (w'.part.stats w'.machine.memory).usedBytes = (s.world.part.stats s.memory).usedBytes ∧
      UsedKept s.world w' := by
  have hf := h.formed
  obtain ⟨t, tail, hrun, hreleased, hbytes⟩ :=
    h.release_served hserves (.singleton c) (by rw [List.append_nil])
  have hused : inUse (KernelHeap.released cs c []) = inUse cs := by
    rw [inUse_released, inUse_nil, List.append_nil]
  have htotal := hreleased.total
  rw [List.length_append, List.length_range', Nat.mul_add, ← hf.total] at htotal
  refine ⟨_, hrun, htotal, ?_, ?_, fun b hb hbused => ?_, fun e he => ?_⟩
  · simp only [stats, hreleased.blocks_eq, hf.blocks_eq, payloadBytes_linkUp, hused]
  · rw [h.extents_eq, extents, hreleased.map_extent_blocks, hused]
  · rw [hf.blocks_eq] at hb
    rw [hreleased.blocks_eq]
    exact mem_linkUp_released hb hbused
  · rw [h.extents_eq, mem_inUse] at he
    exact hbytes e he.1 he.2

end HeapState

/-- Allocating and releasing at once. In every reachable state, what a request is served with can be
released. If no frame was gained for it, then the heap, the headers of its blocks with their links,
and its statistics are the ones before. If frames were gained, they follow each other, their bytes
are what the heap has more than before, and there are the same blocks in use, with as many bytes in
all and the same contents. -/
theorem alloc_release_restores {boot : BootInfo} {p : FrameAllocator} {s : HeapState}
    (hnull : ¬ p.Available boot.map p.directMap.nullFrame) (hs : HeapState.Reachable boot p s)
    {size : UInt64} {a : VirtualAddress} {w : World KernelHeap}
    (halloc : (KernelHeap.alloc p size).run s.world = (.done a, w)) :
    ∃ w', (release a : Action (World KernelHeap) Empty Unit).run w = (.done (), w') ∧
      (HeapState.gained p s.memory w.machine.memory = [] →
        w'.part = s.world.part ∧
        w'.part.blocks w'.machine.memory = s.world.part.blocks s.memory ∧
        w'.part.stats w'.machine.memory = s.world.part.stats s.memory) ∧
      (HeapState.gained p s.memory w.machine.memory ≠ [] → ∃ first n,
        HeapState.gained p s.memory w.machine.memory = List.range' first n ∧
        w'.part.totalBytes.toNat = s.world.part.totalBytes.toNat + 4096 * n ∧
        (w'.part.stats w'.machine.memory).usedBytes = (s.world.part.stats s.memory).usedBytes ∧
        UsedKept s.world w') := by
  obtain ⟨cs, h⟩ := hs.sound hnull
  have hcoalesced := hs.coalesced hnull
  rw [h.extents_eq] at hcoalesced
  rcases alloc_cases h.formed h.backed size with
    ⟨e, hrun⟩ | hrun | ⟨m, new, l, c, r, w₁, -, hrun, hserves, hbase⟩
  · cases halloc.symm.trans hrun
  · cases halloc.symm.trans hrun
  obtain ⟨hpayload, rfl⟩ := Prod.mk.inj (halloc.symm.trans hrun)
  obtain rfl := Outcome.done.inj hpayload
  rcases hbase with ⟨rfl, rfl⟩ | ⟨-, rfl, rfl, hsize, first, u, rfl, -, -⟩
  · have hgained := HeapState.gained_eq .nil hserves.fresh hserves.test
    obtain ⟨w', hrelease, hsame⟩ := h.restores hcoalesced hserves
    exact ⟨w', hrelease, fun _ => hsame, fun hgrown => absurd hgained hgrown⟩
  · have hgained :=
      HeapState.gained_eq (List.pairwise_lt_range' 1) hserves.fresh hserves.test
    obtain ⟨w', hrelease, hkept⟩ := h.keepsUsed hserves
    refine ⟨w', hrelease, fun hnone => ?_, fun _ => ⟨first, growthPages m, hgained, hkept⟩⟩
    have hpages : growthPages m = 0 := List.range'_eq_nil_iff.mp (hgained.symm.trans hnone)
    omega

/-- A request that is served by what is left of the heap's pages, and one that takes seven more. -/
theorem alloc_release_restores_of_two_regions :
    (∃ w w', (KernelHeap.alloc TwoRegions.allocator 1000).run TwoRegions.filled.world =
        (.done ⟨0xFFFF80000001CAD0⟩, w) ∧
      (release ⟨0xFFFF80000001CAD0⟩ : Action (World KernelHeap) Empty Unit).run w =
        (.done (), w') ∧
      w'.part = TwoRegions.filled.world.part ∧ extents w' = extents TwoRegions.filled.world) ∧
    ∃ w w', (KernelHeap.alloc TwoRegions.allocator 28000).run TwoRegions.filled.world =
        (.done ⟨0xFFFF80000001D020⟩, w) ∧
      (release ⟨0xFFFF80000001D020⟩ : Action (World KernelHeap) Empty Unit).run w =
        (.done (), w') ∧
      inUse (extents w') = inUse (extents TwoRegions.filled.world) := by
  have hsmall : ((KernelHeap.alloc TwoRegions.allocator 1000).run TwoRegions.filled.world).1 =
      .done ⟨0xFFFF80000001CAD0⟩ := rfl
  have hlarge : ((KernelHeap.alloc TwoRegions.allocator 28000).run TwoRegions.filled.world).1 =
      .done ⟨0xFFFF80000001D020⟩ := rfl
  have hkept : HeapState.gained TwoRegions.allocator TwoRegions.filled.memory
      ((KernelHeap.alloc TwoRegions.allocator 1000).run
        TwoRegions.filled.world).2.machine.memory = [] := rfl
  have hgrown : HeapState.gained TwoRegions.allocator TwoRegions.filled.memory
      ((KernelHeap.alloc TwoRegions.allocator 28000).run
        TwoRegions.filled.world).2.machine.memory = List.range' 29 7 := rfl
  have halloc := Prod.ext (y := (_, _)) hsmall rfl
  have halloc' := Prod.ext (y := (_, _)) hlarge rfl
  obtain ⟨w', hrelease, hrestores, -⟩ :=
    alloc_release_restores TwoRegions.nullFrame_not_available TwoRegions.reachable_filled halloc
  obtain ⟨w'', hrelease', -, hgrows⟩ :=
    alloc_release_restores TwoRegions.nullFrame_not_available TwoRegions.reachable_filled halloc'
  obtain ⟨hpart, hblocks, -⟩ := hrestores hkept
  obtain ⟨-, -, -, -, -, hused⟩ := hgrows (hgrown ▸ List.cons_ne_nil _ _)
  exact ⟨⟨_, w', halloc, hrelease, hpart, congrArg (List.map HeapBlock.extent) hblocks⟩,
    _, w'', halloc', hrelease', hused.extents⟩

end MemoryManager
