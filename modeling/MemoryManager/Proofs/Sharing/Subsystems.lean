import MemoryManager.Proofs.Sharing.Runs

namespace MemoryManager

open FrameAllocator FourLevel Memory

namespace Sharing

variable {fl : FourLevel} {p : FrameAllocator} {s : Sharing} {q : SharingRequest} {i : Nat}

theorem Sound.start {boot : BootInfo} {m₀ m : Machine}
    (hinit : (FrameAllocator.init boot).run m₀ = (.done p, m))
    (hnull : ¬ p.Available boot.map p.directMap.nullFrame) : Sound fl p ⟨m, [], [], none⟩ := by
  have hb := HeapState.backed_init hinit hnull
  have hnodup : (withheld p).Nodup := (List.nodup_singleton _).filter _
  refine ⟨⟨hnodup, [], ⟨lends_init hinit, rfl, ?_, ?_, ?_⟩, .nil fl _ []⟩,
    fun h hh => absurd hh (Option.not_mem_none h)⟩
  · intro i hi
    obtain ⟨rfl, hlt, hres⟩ := mem_withheld.mp hi
    exact ⟨hlt, hres, hb.null_set hlt⟩
  · exact fun u hu => absurd hu List.not_mem_nil
  · exact fun x _ => rfl

theorem Reachable.sound {boot : BootInfo} {m₀ m : Machine}
    (hinit : (FrameAllocator.init boot).run m₀ = (.done p, m))
    (hnull : ¬ p.Available boot.map p.directMap.nullFrame) (hs : Reachable fl p m s) :
    Sound fl p s := by
  induction hs with
  | start => exact .start hinit hnull
  | step q _ hq ih => exact (ih.perform hq).1

/-- What a frame is used for can be told from the frame. -/
theorem Parted.eq_of_owns (h : Parted fl p s) {a : Party} (ha : s.Owns p a i) :
    a = if p.isReserved i = true then .bitmap else if i ∈ s.held then .holder
      else if i ∈ s.heapFrames then .heap else .tables := by
  cases a with
  | bitmap =>
    obtain ⟨x, rfl, hx⟩ := ha
    rw [if_pos (Bool.of_not_eq_false fun hfree => hx (outside_of_not_reserved hfree))]
  | holder =>
    have hheld : i ∈ s.held := ha
    rw [if_neg (Bool.eq_false_iff.mp (h.not_reserved (others_of_held hheld))), if_pos hheld]
  | heap =>
    have hframe := mem_heapFrames.mpr ha
    rw [if_neg (Bool.eq_false_iff.mp (h.not_reserved (others_of_heap hframe))),
      if_neg (h.not_held (.inl hframe)), if_pos hframe]
  | tables =>
    obtain ⟨r, is, t, ht, rfl⟩ := ha
    obtain ⟨-, used, hk, hf⟩ := h
    have hu := hf.used ht
    rw [if_neg (Bool.eq_false_iff.mp (hk.held t hu).2.1),
      if_neg fun hin => hk.apart t hu (others_of_held hin),
      if_neg fun hin => hk.apart t hu (others_of_heap hin)]

theorem Sound.translate_eq (hs : Sound fl p s) (hq : s.Allowed p q) {root : RootTable}
    (hroot : root.frame ∈ s.roots) (hon : ¬ q.On root.frame) (va : VirtualAddress) :
    fl.translate (s.perform fl p q).memory root va = fl.translate s.memory root va := by
  obtain ⟨hs', hu⟩ := hs.perform hq
  obtain ⟨used, -, hf⟩ := hs.tables
  obtain ⟨used', -, hf'⟩ := hs'.tables
  exact translate_congr hf hf' hroot (hu.roots root.frame hroot hon)
    (hu.leaves root.frame hroot hon) va

/-- Headers are no memory that the heap handed out, so even a write leaves them alone. -/
theorem Sound.blocks_eq (hs : Sound fl p s) (hq : s.Allowed p q) (hno : ¬ q.OnHeap)
    {h : HeapShare} (hh : h ∈ s.heap) :
    h.heap.blocks (s.perform fl p q).memory = h.heap.blocks s.memory := by
  obtain ⟨-, hu⟩ := hs.perform hq
  obtain ⟨-, hbytes⟩ := hu.heap hno
  obtain ⟨cs, hsound⟩ := hs.heap h hh
  have hformed : KernelHeap.Formed h.heap (s.perform fl p q).memory h.frames cs :=
    hsound.formed.congr fun x hx =>
      hbytes h hh x (hsound.formed.frame_of_inHeaders hx) fun _ a ha hholds =>
        hsound.not_inHeaders ha hholds hx
  exact hformed.blocks_eq.trans hsound.formed.blocks_eq.symm

end Sharing

/-- Subsystems that share the frame allocator and memory never disturb each other, whatever they ask
for and however it ends. The bitmap, the tables of the address spaces, the heap and the frames that are
held are in different frames, and the blocks of the heap take up its frames. A request changes a
translation only of the address space that it is about. Unless it is one to the heap, it changes no
header of the heap, and unless it is a write of a client, no byte that the heap handed out and none of
a frame that stays held. No frame that may be handed out appears at the null address: the loader
promises a direct map that reaches all usable memory. -/
theorem subsystems_apart {boot : BootInfo} {p : FrameAllocator} {m₀ m : Machine}
    (hinit : (FrameAllocator.init boot).run m₀ = (.done p, m))
    (hnull : ¬ p.Available boot.map p.directMap.nullFrame) {fl : FourLevel} {s : Sharing}
    (hs : Sharing.Reachable fl p m s) :
    (∀ a b i, s.Owns p a i → s.Owns p b i → a = b) ∧
    (∀ h ∈ s.heap, ∀ x,
      (∃ b ∈ h.heap.blocks s.memory, (b.extent.span p.directMap).Holds x) ↔
        s.Owns p .heap (x / 4096)) ∧
    (∀ q, s.Allowed p q → ∀ root : RootTable, root.frame ∈ s.roots → ¬ q.On root.frame → ∀ va,
      fl.translate (s.perform fl p q).memory root va = fl.translate s.memory root va) ∧
    (∀ q, s.Allowed p q → ¬ q.OnHeap → ∀ h ∈ s.heap, h ∈ (s.perform fl p q).heap ∧
      h.heap.blocks (s.perform fl p q).memory = h.heap.blocks s.memory ∧
      (¬ q.Writes → ∀ a ∈ h.live, ∀ v : VirtualAddress, a.span.Holds v.value.toNat →
        (s.perform fl p q).memory.byte (p.directMap.physical v).value.toNat =
          s.memory.byte (p.directMap.physical v).value.toNat)) ∧
    ∀ q, s.Allowed p q → ¬ q.Writes → ∀ x, x / 4096 ∈ s.held →
      x / 4096 ∈ (s.perform fl p q).held →
        (s.perform fl p q).memory.byte x = s.memory.byte x := by
  have hsound := hs.sound hinit hnull
  refine ⟨?_, ?_, ?_, ?_, ?_⟩
  · intro a b i ha hb
    rw [hsound.eq_of_owns ha, hsound.eq_of_owns hb]
  · intro h hh x
    obtain ⟨cs, hheap⟩ := hsound.heap h hh
    have hcover := hheap.formed.blocks_cover x
    rw [← hheap.backed.directMap] at hcover
    refine hcover.trans ⟨fun hx => ⟨h, hh, hx⟩, fun hx => ?_⟩
    obtain ⟨k, hk, hx⟩ := hx
    obtain rfl := Option.mem_unique hk hh
    exact hx
  · intro q hq root hroot hon va
    exact hsound.translate_eq hq hroot hon va
  · intro q hq hno h hh
    obtain ⟨hsame, hbytes⟩ := (hsound.perform hq).2.heap hno
    obtain ⟨cs, hheap⟩ := hsound.heap h hh
    refine ⟨hsame ▸ hh, hsound.blocks_eq hq hno hh, ?_⟩
    intro hwrites a ha v hv
    rw [hheap.backed.directMap]
    have hholds := (hheap.holds_iff ha v).mpr hv
    exact hbytes h hh _ (hheap.frame_mem ha hholds) fun hw => absurd hw hwrites
  · intro q hq hwrites x hx hx'
    exact (hsound.perform hq).2.held hwrites x hx hx'

namespace TwoRegions

def mappingRequest : SharingRequest :=
  .space (.change root (.map ⟨0x1D000⟩ ⟨0x40202000⟩ ⟨3⟩))

/-- An address space, and a heap that has handed out memory. -/
def populated : Sharing :=
  ((Sharing.mk machine [] [] none).perform paging allocator (.space .newRoot)).perform paging
    allocator .createHeap |>.perform paging allocator (.alloc 100)

theorem reachable_populated : Sharing.Reachable paging allocator machine populated :=
  ((Sharing.Reachable.start.step (.space .newRoot) trivial).step .createHeap rfl).step (.alloc 100)
    trivial

end TwoRegions

/-- The address space maps a page, which takes three tables, and then the heap grows. Neither changes
what the other one has. -/
theorem subsystems_apart_of_two_regions :
    ∃ s, Sharing.Reachable TwoRegions.paging TwoRegions.allocator TwoRegions.machine s ∧
      (∃ h ∈ s.heap, ⟨⟨0xFFFF80000000D020⟩, 112⟩ ∈ h.live) ∧
      s.memory.byte 0xD020 = TwoRegions.populated.memory.byte 0xD020 ∧
      TwoRegions.paging.translate s.memory TwoRegions.root ⟨0x40202ABC⟩ = .ok (some ⟨0x1DABC⟩) ∧
      TwoRegions.paging.translate
        (s.perform TwoRegions.paging TwoRegions.allocator (.alloc 64000)).memory TwoRegions.root
          ⟨0x40202ABC⟩ = .ok (some ⟨0x1DABC⟩) := by
  have hroot : TwoRegions.root.frame ∈ TwoRegions.populated.roots := by decide +kernel
  have hallowed : TwoRegions.populated.Allowed TwoRegions.allocator TwoRegions.mappingRequest :=
    (Sharing.allowed_change _ _ _ _).mpr hroot
  obtain ⟨h, hh, hlive⟩ : ∃ h ∈ TwoRegions.populated.heap,
      ⟨⟨0xFFFF80000000D020⟩, 112⟩ ∈ h.live := by decide +kernel
  obtain ⟨-, -, -, hheap, -⟩ := subsystems_apart TwoRegions.init_eq
    TwoRegions.nullFrame_not_available TwoRegions.reachable_populated
  obtain ⟨hh', -, hbytes⟩ := hheap TwoRegions.mappingRequest hallowed id h hh
  have hmapped := TwoRegions.reachable_populated.step TwoRegions.mappingRequest hallowed
  have htranslate : TwoRegions.paging.translate (TwoRegions.populated.perform TwoRegions.paging
      TwoRegions.allocator TwoRegions.mappingRequest).memory TwoRegions.root ⟨0x40202ABC⟩ =
        .ok (some ⟨0x1DABC⟩) := by
    decide +kernel
  obtain ⟨-, -, htranslates, -⟩ := subsystems_apart TwoRegions.init_eq
    TwoRegions.nullFrame_not_available hmapped
  refine ⟨_, hmapped, ⟨h, hh', hlive⟩, ?_, htranslate, ?_⟩
  · have hnot : ¬ TwoRegions.mappingRequest.Writes := fun hw => by
      obtain ⟨m, hm⟩ := hw
      cases hm
    have hin : (Allocation.span ⟨⟨0xFFFF80000000D020⟩, 112⟩).Holds
        (VirtualAddress.mk 0xFFFF80000000D020).value.toNat := by
      change _ ≤ _ ∧ _ < _
      decide
    exact hbytes hnot _ hlive ⟨0xFFFF80000000D020⟩ hin
  · rw [← htranslate]
    refine htranslates (.alloc 64000) trivial TwoRegions.root ?_ id _
    rw [TwoRegions.mappingRequest, Sharing.roots_change]
    exact hroot

end MemoryManager
