import MemoryManager.Proofs.Heap.ReleaseOrder

namespace MemoryManager

open FrameAllocator KernelHeap

theorem DirectMap.physical_inj {d : DirectMap} {a b : VirtualAddress} :
    d.physical a = d.physical b ↔ a = b := by
  rw [PhysicalAddress.ext_iff, VirtualAddress.ext_iff]
  exact UInt64.sub_left_inj d.offset

namespace KernelHeap

/-- Both blocks are free, and the second one starts where the first one stops. -/
def Joinable (b c : Extent) : Prop :=
  b.free = true ∧ c.free = true ∧ b.address.add (headerSize + b.size) = c.address

/-- No two blocks in a row could be joined. -/
def Coalesced (cs : List Extent) : Prop :=
  cs.IsChain fun b c => ¬ Joinable b c

variable {cs l r : List Extent} {b c e : Extent} {size : UInt64}

theorem coalesced_cons :
    Coalesced (c :: r) ↔ (∀ e ∈ r.head?, ¬ Joinable c e) ∧ Coalesced r :=
  List.isChain_cons

theorem coalesced_append : Coalesced (l ++ r) ↔ Coalesced l ∧ Coalesced r ∧
    ∀ b ∈ l.getLast?, ∀ c ∈ r.head?, ¬ Joinable b c :=
  List.isChain_append

theorem not_joinable_of_used (hb : b.free = false) (c : Extent) : ¬ Joinable b c :=
  fun h => Bool.false_ne_true (hb.symm.trans h.1)

theorem not_joinable_used (b : Extent) (hc : c.free = false) : ¬ Joinable b c :=
  fun h => Bool.false_ne_true (hc.symm.trans h.2.1)

/-- A block that has taken over the next one could be joined with what that could be joined with. -/
theorem joinable_joined (h : Joinable c e) (f : Extent) :
    Joinable { c with size := c.size + (headerSize + e.size) } f ↔ Joinable e f := by
  simp only [Joinable, stop_joined h.2.2, h.1, h.2.1]

theorem Coalesced.joined (hr : Coalesced r) (hc : c.free = true) :
    Coalesced (KernelHeap.joined c r) := by
  cases r with
  | nil => exact .singleton _
  | cons e r =>
    obtain ⟨hnext, hrest⟩ := coalesced_cons.mp hr
    rw [KernelHeap.joined]
    split
    · rename_i hjoin
      refine coalesced_cons.mpr ⟨fun f hf => ?_, hrest⟩
      rw [joinable_joined ⟨hc, hjoin⟩]
      exact hnext f hf
    · rename_i hapart
      refine coalesced_cons.mpr ⟨?_, hr⟩
      intro f hf
      cases hf
      exact fun hj => hapart hj.2

/-- A release joins all that could be joined after it. -/
theorem Coalesced.released (h : Coalesced (l ++ c :: r)) :
    Coalesced (KernelHeap.released l c r) := by
  obtain ⟨hl, hcr, -⟩ := coalesced_append.mp h
  have hs := Coalesced.joined (c := { c with free := true }) (coalesced_cons.mp hcr).2 rfl
  rcases List.eq_nil_or_concat l with rfl | ⟨l, b, rfl⟩
  · exact hs
  · rw [List.concat_eq_append] at hl ⊢
    obtain ⟨hl, -, hb⟩ := coalesced_append.mp hl
    -- the block in front may grow, but it starts where it started
    have hfront : ∀ n s, ∀ d ∈ l.getLast?, ∀ e ∈ ({ b with size := n } :: s).head?,
        ¬ Joinable d e := by
      intro n s d hd e he
      cases he
      exact hb d hd b rfl
    rw [released_concat]
    split
    · rename_i hfree
      obtain ⟨n, s, hjoined⟩ := joined_eq b (KernelHeap.joined { c with free := true } r)
      refine coalesced_append.mpr ⟨hl, hs.joined hfree, ?_⟩
      rw [hjoined]
      exact hfront n s
    · rename_i hused
      have hb : b.free = false := Bool.eq_false_iff.mpr hused
      exact coalesced_append.mpr
        ⟨hl, coalesced_cons.mpr ⟨fun e _ => not_joinable_of_used hb e, hs⟩, hfront b.size _⟩

/-- What is cut off a block ends where the block did. -/
theorem joinable_rest (hc : c.free = true) (size : UInt64) (e : Extent) :
    Joinable (rest c size) e ↔ Joinable c e := by
  have hsize : (headerSize + size) + (headerSize + (c.size - (headerSize + size))) =
      headerSize + c.size := by
    rw [← UInt64.add_assoc, UInt64.add_comm _ headerSize, UInt64.add_assoc,
      UInt64.add_comm (headerSize + size), UInt64.sub_add_cancel]
  simp only [Joinable, rest, VirtualAddress.add, hc, true_and, UInt64.add_assoc c.address.value,
    hsize]

/-- A block that serves a request keeps what is in front of it apart from what is left of it. -/
theorem Coalesced.served (hl : Coalesced l) (hc : c.free = true) (hr : Coalesced (c :: r))
    (size : UInt64) : Coalesced (l ++ KernelHeap.served c size ++ r) := by
  obtain ⟨hnext, hr⟩ := coalesced_cons.mp hr
  rw [List.append_assoc, KernelHeap.served]
  split
  · refine coalesced_append.mpr ⟨hl, coalesced_cons.mpr ⟨fun e _ => not_joinable_of_used rfl e,
      coalesced_cons.mpr ⟨fun e he => ?_, hr⟩⟩, ?_⟩
    · rw [joinable_rest hc]
      exact hnext e he
    · intro b _ e he
      cases he
      exact not_joinable_used b rfl
  · refine coalesced_append.mpr
      ⟨hl, coalesced_cons.mpr ⟨fun e _ => not_joinable_of_used rfl e, hr⟩, ?_⟩
    intro b _ e he
    cases he
    exact not_joinable_used b rfl

namespace Formed

variable {h : KernelHeap} {m : Memory} {frames : List Nat}

/-- A block ends where another one begins if one follows the other in physical memory. -/
theorem touch_iff (hf : Formed h m frames cs) (hb : b ∈ cs) :
    (b.span h.directMap).stop = (c.span h.directMap).first ↔
      b.address.add (headerSize + b.size) = c.address := by
  have hstart : (rest b b.size).start h.directMap = b.start h.directMap + 32 + b.size.toNat :=
    start_rest (hf.stop_lt hb)
  simp only [Extent.span]
  rw [← hstart, Extent.start, Extent.start, UInt64.toNat_inj, ← PhysicalAddress.ext_iff,
    DirectMap.physical_inj, rest]

theorem coalesced_iff (hf : Formed h m frames cs) : Coalesced cs ↔ ∀ b c, [b, c] <:+: cs →
    (b.span h.directMap).stop = (c.span h.directMap).first → b.free = false ∨ c.free = false := by
  constructor
  · intro hcs b c hpair htouch
    have hnot := List.isChain_pair.mp <| List.IsChain.infix hcs hpair
    rw [hf.touch_iff (hpair.subset (by simp))] at htouch
    by_contra hfree
    rw [not_or, Bool.not_eq_false, Bool.not_eq_false] at hfree
    exact hnot ⟨hfree.1, hfree.2, htouch⟩
  · intro hpairs
    refine (List.isChain_isInfix cs).imp fun b c hpair hjoin => ?_
    obtain ⟨hb, hc, hadj⟩ := hjoin
    have htouch := (hf.touch_iff (hpair.subset (by simp))).mpr hadj
    rcases hpairs b c hpair htouch with hused | hused
    · exact Bool.false_ne_true (hused.symm.trans hb)
    · exact Bool.false_ne_true (hused.symm.trans hc)

/-- Free blocks that could not be joined any more have spans that do not touch. -/
theorem separate_spans (hf : Formed h m frames cs) (hcs : Coalesced cs)
    (hfree : ∀ c ∈ cs, c.free = true) : Span.Separate (cs.map (Extent.span h.directMap)) := by
  refine ⟨fun s hs => (hf.tiling.sized s hs).lt, (List.isChain_map _).mpr ?_⟩
  refine hcs.imp_of_mem_imp fun b c hb hc hnot htouch => hnot ?_
  exact ⟨hfree b hb, hfree c hc, (hf.touch_iff hb).mp htouch⟩

end Formed

end KernelHeap

namespace HeapState

variable {p : FrameAllocator} {s : HeapState} {cs : List Extent}

theorem Sound.coalesced_alloc (h : s.Sound p cs) (hs : Coalesced cs) (size : UInt64) :
    Coalesced (extents (s.perform p (.alloc size)).world) := by
  have hold := h.extents_eq
  rcases alloc_cases h.formed h.backed size with
    ⟨e, hrun⟩ | hrun | ⟨n, new, l, c, r, w, -, hrun, hserves, hbase⟩
  · simp only [HeapState.perform, hrun, hold, hs]
  · simp only [HeapState.perform, hrun, hold, hs]
  · simp only [HeapState.perform, hrun]
    rw [extents, hserves.formed.map_extent_blocks]
    rcases hbase with ⟨-, rfl⟩ | ⟨-, rfl, rfl, -⟩
    · obtain ⟨hl, hcr, -⟩ := coalesced_append.mp hs
      exact hl.served hserves.fits.1 hcr n
    · -- what the heap has grown by may touch a free block, but it is taken at once
      exact hs.served hserves.fits.1 (.singleton c) n

theorem Sound.coalesced_release (h : s.Sound p cs) (hs : Coalesced cs) {b : Allocation}
    (hb : b ∈ s.live) : Coalesced (extents (s.perform p (.release b.address)).world) := by
  obtain ⟨c, hc, hused, hpayload, -⟩ := h.block hb
  obtain ⟨l, r, rfl⟩ := List.append_of_mem hc
  obtain ⟨t, tail, hrun, hf, -⟩ := release_spec Empty h.formed hused
  simp only [HeapState.perform, ← hpayload, hrun]
  rw [extents, hf.map_extent_blocks]
  exact hs.released

theorem Sound.coalesced (h : s.Sound p cs) (hs : Coalesced cs) {q : HeapRequest}
    (hq : s.Allowed p q) : Coalesced (extents (s.perform p q).world) := by
  cases q with
  | alloc size => exact h.coalesced_alloc hs size
  | release a =>
    obtain ⟨b, hb, rfl⟩ := hq
    exact h.coalesced_release hs hb
  | frames q =>
    rw [(h.perform_frames hq).extents_eq]
    exact hs

theorem coalesced_start {h : KernelHeap} {m t : Machine} (hb : Backed p p.directMap m.memory [])
    (hheap : (KernelHeap.init p).run m = (.done h, t)) : Coalesced (extents ⟨t, h⟩) := by
  obtain ⟨u, first, c, hcreated⟩ := created_of_init hb hheap
  rw [extents, hcreated.formed.map_extent_blocks]
  exact .singleton c

theorem Reachable.coalesced {boot : BootInfo} (hs : Reachable boot p s)
    (hnull : ¬ p.Available boot.map p.directMap.nullFrame) : Coalesced (extents s.world) := by
  induction hs with
  | start hboot hbefore hheap => exact coalesced_start (hbefore.backed (backed_init hboot hnull)) hheap
  | step q hs hq ih =>
    obtain ⟨cs, h⟩ := hs.sound hnull
    rw [h.extents_eq] at ih
    exact h.coalesced ih hq

/-- Once nothing is handed out, every block is free. -/
theorem Sound.free_of_live_eq_nil (h : s.Sound p cs) (hlive : s.live = []) :
    ∀ c ∈ cs, c.free = true := by
  intro c hc
  by_contra hused
  have hmem : c.payload ∈ (inUse cs).map Extent.payload :=
    List.mem_map_of_mem (mem_inUse.mpr ⟨hc, Bool.eq_false_iff.mpr hused⟩)
  rw [← h.live.mem_iff, hlive] at hmem
  cases hmem

end HeapState

/-- Coalescing is complete. In every reachable state, of two blocks in a row one of which ends where
the other one begins, at least one is in use. Once nothing is handed out, there is exactly one free
block for every maximal chain of regions that the heap obtained one after the other and each of which
begins where the one before it ends, and the block covers them. How the frames of the heap are parted
into regions does not matter, as long as these are not empty and have the bytes of the frames in the
order in which the heap obtained them. -/
theorem coalescing_complete {boot : BootInfo} {p : FrameAllocator} {s : HeapState}
    (hnull : ¬ p.Available boot.map p.directMap.nullFrame) (hs : HeapState.Reachable boot p s) :
    (∀ b c, [b, c] <:+: extents s.world →
      (b.span p.directMap).stop = (c.span p.directMap).first → b.free = false ∨ c.free = false) ∧
    (s.live = [] → (∀ c ∈ extents s.world, c.free = true) ∧
      ∀ regions : List Span, (∀ r ∈ regions, r.first < r.stop) →
        regions.flatMap Span.bytes = frameBytes s.frames →
        (extents s.world).map (Extent.span p.directMap) = Span.merged regions) := by
  obtain ⟨cs, h⟩ := hs.sound hnull
  have hcoalesced := hs.coalesced hnull
  have horder := (HeapState.inOrder_iff h.formed).mp (hs.inOrder hnull)
  rw [h.extents_eq] at hcoalesced ⊢
  rw [h.backed.directMap]
  refine ⟨h.formed.coalesced_iff.mp hcoalesced, fun hlive => ?_⟩
  have hfree := h.free_of_live_eq_nil hlive
  refine ⟨hfree, fun regions hregions hbytes => ?_⟩
  refine (h.formed.separate_spans hcoalesced hfree).eq_merged hregions ?_
  rw [hbytes, ← horder, bytesInOrder, List.flatMap_map]

namespace TwoRegions

/-- The heap grows by seven frames behind its first region, and then by seven in front of it. -/
def grownTwice : HeapState :=
  ((lateFilled.perform allocator (.alloc 28640)).perform allocator
    (.frames (.free ⟨.ofIndex 13, 7⟩))).perform allocator (.alloc 28640)

def emptied : HeapState :=
  (((grownTwice.perform allocator (.release ⟨0xFFFF800000014020⟩)).perform allocator
    (.release ⟨0xFFFF800000024020⟩)).perform allocator
    (.release ⟨0xFFFF800000014080⟩)).perform allocator (.release ⟨0xFFFF80000000D020⟩)

theorem holdings_grownTwice :
    ((lateFilled.perform allocator (.alloc 28640)).frames = List.range' 20 23 ∧
      (lateFilled.perform allocator (.alloc 28640)).world.part.directMap.nullFrame = 0x800000000) ∧
    grownTwice.live = [⟨⟨0xFFFF800000014020⟩, 64⟩, ⟨⟨0xFFFF800000014080⟩, 65408⟩,
      ⟨⟨0xFFFF800000024020⟩, 28640⟩, ⟨⟨0xFFFF80000000D020⟩, 28640⟩] ∧
    grownTwice.frames = List.range' 20 16 ++ List.range' 36 7 ++ List.range' 13 7 := by
  decide +kernel

theorem reachable_grownTwice : HeapState.Reachable boot allocator grownTwice := by
  have hgrown : HeapState.Reachable boot allocator (lateFilled.perform allocator (.alloc 28640)) :=
    .step _ reachable_lateFilled trivial
  refine .step _ (.step _ hgrown fun i hgives => ?_) trivial
  obtain ⟨hlow, hhigh⟩ : 13 ≤ i ∧ i < 13 + 7 := hgives
  obtain ⟨⟨hframes, hnull⟩, -⟩ := holdings_grownTwice
  rw [hframes, List.mem_range'_1, hnull]
  omega

theorem reachable_emptied : HeapState.Reachable boot allocator emptied := by
  refine .step (.release _) (.step (.release _) (.step (.release _) (.step (.release _)
    reachable_grownTwice ?_) ?_) ?_) ?_ <;>
  simp [HeapState.Allowed, HeapState.live_release, holdings_grownTwice.2.1]

theorem holdings_emptied : emptied.live = [] ∧
    emptied.frames = List.range' 20 16 ++ List.range' 36 7 ++ List.range' 13 7 := by
  constructor
  · simp [emptied, HeapState.live_release, holdings_grownTwice.2.1]
  · simp only [emptied, HeapState.frames_release, holdings_grownTwice.2.2]

end TwoRegions

/-- Of three regions, the first two touch: they become one block. The third one touches the first,
but was not obtained in front of it: it stays a block of its own. -/
theorem coalescing_complete_of_two_regions :
    ∃ s : HeapState, HeapState.Reachable TwoRegions.boot TwoRegions.allocator s ∧ s.live = [] ∧
      (extents s.world).map (Extent.span TwoRegions.allocator.directMap) =
        [⟨0x14000, 0x2B000⟩, ⟨0xD000, 0x14000⟩] := by
  have h := (coalescing_complete TwoRegions.nullFrame_not_available TwoRegions.reachable_emptied).2
  obtain ⟨hlive, hframes⟩ := TwoRegions.holdings_emptied
  refine ⟨_, TwoRegions.reachable_emptied, hlive, ?_⟩
  refine ((h hlive).2 [⟨4096 * 20, 4096 * (20 + 16)⟩, ⟨4096 * 36, 4096 * (36 + 7)⟩,
    ⟨4096 * 13, 4096 * (13 + 7)⟩] (by decide) ?_).trans (by decide)
  rw [hframes, frameBytes_append, frameBytes_append, frameBytes, frameBytes, frameBytes,
    Span.flatMap_bytes_range', Span.flatMap_bytes_range', Span.flatMap_bytes_range']
  simp only [List.flatMap_cons, List.flatMap_nil, List.append_nil, List.append_assoc]

end MemoryManager
