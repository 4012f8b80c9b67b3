import MemoryManager.Proofs.Heap.Bytes
import MemoryManager.Proofs.Heap.Payloads

namespace MemoryManager

open FrameAllocator KernelHeap

/-- The virtual addresses of a frame. -/
def DirectMap.window (d : DirectMap) (i : Nat) : Span :=
  ⟨(d.virtual (PhysicalFrame.ofIndex i).base).value.toNat,
    (d.virtual (PhysicalFrame.ofIndex i).base).value.toNat + 4096⟩

namespace KernelHeap

/-- The physical bytes of the blocks, in the order of the list. -/
def bytesInOrder (d : DirectMap) (cs : List Extent) : List Nat :=
  cs.flatMap fun c => (c.span d).bytes

/-- Whether the end of the block can be computed. -/
def Bounded (d : DirectMap) (c : Extent) : Prop :=
  c.start d + 32 + c.size.toNat < 2 ^ 64

variable {d : DirectMap} {cs l r : List Extent} {b c : Extent} {size : UInt64}

@[simp] theorem bytesInOrder_append (d : DirectMap) (l r : List Extent) :
    bytesInOrder d (l ++ r) = bytesInOrder d l ++ bytesInOrder d r :=
  List.flatMap_append

@[simp] theorem bytesInOrder_cons (d : DirectMap) (c : Extent) (cs : List Extent) :
    bytesInOrder d (c :: cs) = (c.span d).bytes ++ bytesInOrder d cs :=
  List.flatMap_cons

@[simp] theorem bytesInOrder_nil (d : DirectMap) : bytesInOrder d [] = [] := rfl

theorem bytesInOrder_served (hc : Bounded d c) :
    bytesInOrder d (served c size) = (c.span d).bytes := by
  rw [served]
  split
  · rename_i hfit
    obtain ⟨hspan, hrest⟩ := span_cut size hc (Nat.le_of_lt hfit) false
    rw [bytesInOrder_cons, bytesInOrder_cons, bytesInOrder_nil, List.append_nil, hspan, hrest]
    exact Span.bytes_append (by omega) (by omega)
  · rw [bytesInOrder_cons, bytesInOrder_nil, List.append_nil]
    rfl

/-- Joining a block with the next one moves no byte. -/
theorem bytesInOrder_joined (h : ∀ e ∈ c :: r, Bounded d e) :
    bytesInOrder d (joined c r) = bytesInOrder d (c :: r) ∧ ∀ e ∈ joined c r, Bounded d e := by
  cases r with
  | nil => exact ⟨rfl, h⟩
  | cons e r =>
    rw [joined]
    split
    · rename_i hjoin
      simp only [List.forall_mem_cons, Bounded] at h ⊢
      obtain ⟨hc, he, hr⟩ := h
      have hstart := start_of_adjacent hc hjoin.2
      have hspan := span_joined hstart he
      constructor
      · simp only [bytesInOrder_cons, hspan]
        rw [← List.append_assoc]
        simp only [Extent.span, hstart]
        rw [Span.bytes_append (by omega) (by omega)]
      · have hstop := congrArg Span.stop hspan
        exact ⟨Nat.lt_of_le_of_lt hstop.le he, hr⟩
    · exact ⟨rfl, h⟩

/-- Releasing a block moves no byte. -/
theorem bytesInOrder_released (h : ∀ e ∈ l ++ c :: r, Bounded d e) :
    bytesInOrder d (released l c r) = bytesInOrder d (l ++ c :: r) := by
  rw [List.forall_mem_append] at h
  have hmark : bytesInOrder d ({ c with free := true } :: r) = bytesInOrder d (c :: r) := rfl
  have hfreed : ∀ e ∈ { c with free := true } :: r, Bounded d e := by
    obtain ⟨hc, hr⟩ := List.forall_mem_cons.mp h.2
    exact List.forall_mem_cons.mpr ⟨hc, hr⟩
  obtain ⟨hnext, hbounded⟩ := bytesInOrder_joined hfreed
  rcases List.eq_nil_or_concat l with rfl | ⟨l, b, rfl⟩
  · rw [released_nil, hnext, hmark, List.nil_append]
  · rw [List.concat_eq_append] at h ⊢
    rw [released_concat, bytesInOrder_append, List.append_assoc, bytesInOrder_append]
    congr 1
    split
    · rw [(bytesInOrder_joined (List.forall_mem_cons.mpr ⟨h.1 b (by simp), hbounded⟩)).1,
        bytesInOrder_cons, hnext, hmark]
      rfl
    · rw [bytesInOrder_cons, hnext, hmark]
      rfl

theorem Formed.bounded {h : KernelHeap} {m : Memory} {frames : List Nat}
    (hf : Formed h m frames cs) : ∀ c ∈ cs, Bounded h.directMap c :=
  fun _ hc => hf.stop_lt hc

end KernelHeap

/-- The physical bytes of the frames, in the order of the list. -/
def frameBytes (frames : List Nat) : List Nat :=
  frames.flatMap fun i => Span.bytes ⟨4096 * i, 4096 * (i + 1)⟩

theorem frameBytes_append (l r : List Nat) : frameBytes (l ++ r) = frameBytes l ++ frameBytes r :=
  List.flatMap_append

namespace HeapState

variable {p : FrameAllocator} {s : HeapState} {cs : List Extent}

/-- From head to tail, the bytes of the blocks are those of the frames in the order in which the
heap obtained them. -/
def InOrder (s : HeapState) : Prop :=
  bytesInOrder s.world.part.directMap ((s.world.part.blocks s.memory).map HeapBlock.extent) =
    frameBytes s.frames

theorem inOrder_iff {w : World KernelHeap} {frames tiles : List Nat} {live : List Allocation}
    (hf : Formed w.part w.machine.memory tiles cs) :
    InOrder ⟨w, frames, live⟩ ↔ bytesInOrder w.part.directMap cs = frameBytes frames := by
  rw [InOrder, memory, hf.map_extent_blocks]

theorem Sound.inOrder_alloc (h : s.Sound p cs) (hs : s.InOrder) (size : UInt64) :
    (s.perform p (.alloc size)).InOrder := by
  have hold := (inOrder_iff h.formed).mp hs
  rcases alloc_cases h.formed h.backed size with
    ⟨e, hrun⟩ | hrun | ⟨n, new, l, c, r, w, -, hrun, hserves, hbase⟩
  · simp only [HeapState.perform, hrun, gained_self, List.append_nil, handedOut]
    exact (inOrder_iff h.formed).mpr hold
  · simp only [HeapState.perform, hrun, gained_self, List.append_nil, handedOut]
    exact (inOrder_iff h.formed).mpr hold
  · simp only [HeapState.perform, hrun]
    rw [inOrder_iff hserves.formed, hserves.directMap, bytesInOrder_append, bytesInOrder_append]
    rcases hbase with ⟨rfl, rfl⟩ | ⟨-, rfl, rfl, hsize, first, u, rfl, hstart, hg⟩
    · rw [gained_eq List.Pairwise.nil hserves.fresh hserves.test, List.append_nil,
        bytesInOrder_served (h.formed.bounded c (by simp)), ← hold, bytesInOrder_append,
        bytesInOrder_cons, List.append_assoc]
    · rw [gained_eq (List.pairwise_lt_range' 1) hserves.fresh hserves.test, frameBytes_append, hold,
        bytesInOrder_nil, List.append_nil, bytesInOrder_served ?_, span_of_start hstart hsize,
        frameBytes, frameBytes, Span.flatMap_bytes_range']
      have hfits := hg.fits
      have htotal := h.backed.total_lt
      rw [Bounded, hstart]
      omega

theorem Sound.inOrder_release (h : s.Sound p cs) (hs : s.InOrder) {b : Allocation}
    (hb : b ∈ s.live) : (s.perform p (.release b.address)).InOrder := by
  have hold := (inOrder_iff h.formed).mp hs
  obtain ⟨c, hc, hused, hpayload, -⟩ := h.block hb
  obtain ⟨l, r, rfl⟩ := List.append_of_mem hc
  obtain ⟨t, tail, hrun, hf, -⟩ := release_spec Empty h.formed hused
  simp only [HeapState.perform, ← hpayload, hrun]
  rw [inOrder_iff hf, ← hold]
  exact bytesInOrder_released h.formed.bounded

theorem Sound.inOrder_frames (h : s.Sound p cs) (hs : s.InOrder) {q : FrameRequest}
    (hq : s.Allowed p (.frames q)) : (s.perform p (.frames q)).InOrder :=
  (inOrder_iff (h.perform_frames hq).formed).mpr ((inOrder_iff h.formed).mp hs)

theorem Sound.inOrder (h : s.Sound p cs) (hs : s.InOrder) {q : HeapRequest} (hq : s.Allowed p q) :
    (s.perform p q).InOrder := by
  cases q with
  | alloc size => exact h.inOrder_alloc hs size
  | release a =>
    obtain ⟨b, hb, rfl⟩ := hq
    exact h.inOrder_release hs hb
  | frames q => exact h.inOrder_frames hs hq

theorem inOrder_start {h : KernelHeap} {m t : Machine} (hb : Backed p p.directMap m.memory [])
    (hheap : (KernelHeap.init p).run m = (.done h, t)) :
    InOrder ⟨⟨t, h⟩, gained p m.memory t.memory, []⟩ := by
  obtain ⟨u, first, c, hcreated⟩ := created_of_init hb hheap
  rw [inOrder_iff (w := ⟨t, h⟩) hcreated.formed,
    gained_of_granted hb hcreated.granted hcreated.bits, hcreated.directMap, bytesInOrder_cons,
    bytesInOrder_nil, List.append_nil, span_of_start hcreated.start hcreated.size, frameBytes,
    Span.flatMap_bytes_range']

theorem Reachable.inOrder {boot : BootInfo} (hs : Reachable boot p s)
    (hnull : ¬ p.Available boot.map p.directMap.nullFrame) : s.InOrder := by
  induction hs with
  | start hboot hbefore hheap =>
    exact inOrder_start (hbefore.backed (backed_init hboot hnull)) hheap
  | step q hs hq ih =>
    obtain ⟨cs, h⟩ := hs.sound hnull
    exact h.inOrder ih hq

end HeapState

namespace DirectMap

variable {d : DirectMap} {i : Nat}

/-- Where a byte appears, given its physical address. -/
def appears (d : DirectMap) (x : Nat) : Nat :=
  (x + d.offset.toNat) % 2 ^ 64

/-- No frame but one reaches the end of the virtual addresses. -/
theorem first_window (hi : i + 1 < 2 ^ 52) (hne : i ≠ d.nullFrame) :
    (d.window i).first = d.appears (4096 * i) ∧ (d.window i).first + 4096 ≤ 2 ^ 64 := by
  have hbase : (PhysicalFrame.ofIndex i).base = ⟨.ofNat (4096 * i)⟩ := by
    rw [PhysicalFrame.base, start_ofIndex (Nat.lt_of_succ_lt hi)]
  have hfirst : (d.window i).first = d.appears (4096 * i) := by
    rw [window, hbase, virtual, UInt64.toNat_add, UInt64.toNat_ofNat', appears, Nat.mod_add_mod]
  have hnull := d.toNat_physical .null
  have ho := d.offset.toNat_lt
  have hzero : VirtualAddress.null.value.toNat = 0 := rfl
  rw [hzero] at hnull
  rw [nullFrame, hnull] at hne
  refine ⟨hfirst, ?_⟩
  rw [hfirst, appears]
  omega

theorem map_appears (d : DirectMap) {a b n : Nat} (h : ∀ k < n, d.appears (a + k) = b + k) :
    (Span.bytes ⟨a, a + n⟩).map d.appears = Span.bytes ⟨b, b + n⟩ := by
  simp only [Span.bytes, Nat.add_sub_cancel_left, List.range'_eq_map_range, List.map_map]
  exact List.map_congr_left fun k hk => h k (List.mem_range.mp hk)

theorem map_appears_frame (hi : i + 1 < 2 ^ 52) (hne : i ≠ d.nullFrame) :
    (Span.bytes ⟨4096 * i, 4096 * (i + 1)⟩).map d.appears = (d.window i).bytes := by
  obtain ⟨hfirst, hle⟩ := first_window hi hne
  have hmove : ∀ k < 4096, d.appears (4096 * i + k) = (d.window i).first + k := by
    intro k hk
    rw [hfirst, appears] at hle ⊢
    rw [appears]
    omega
  exact d.map_appears hmove

end DirectMap

namespace KernelHeap.Formed

variable {h : KernelHeap} {m : Memory} {frames : List Nat} {cs : List Extent} {c : Extent}

theorem map_appears (hf : Formed h m frames cs) (hc : c ∈ cs) :
    (c.span h.directMap).bytes.map h.directMap.appears = c.window.bytes := by
  have hle := hf.window_le hc
  have haddress := h.directMap.toNat_physical c.address
  have ho := h.directMap.offset.toNat_lt
  simp only [Extent.span, Extent.window, Nat.add_assoc]
  refine h.directMap.map_appears fun k hk => ?_
  rw [DirectMap.appears, Extent.start, haddress]
  omega

theorem nodup_windows (hf : Formed h m frames cs) :
    (cs.flatMap fun c => c.window.bytes).Nodup := by
  have hcs : cs.Nodup := hf.tiling.headers_apart.imp fun hbc heq =>
    hbc.ne (congrArg Extent.address heq)
  refine List.nodup_flatMap.mpr ⟨fun c _ => (Span.pairwise_bytes _).imp Nat.ne_of_lt, ?_⟩
  refine hcs.pairwise_of_forall_ne fun b hb c hc hne x hx hy => ?_
  have hapart := hf.windows_apart hb hc hne
  rw [Span.mem_bytes] at hx hy
  simp only [Span.Apart, Span.Holds] at *
  omega

end KernelHeap.Formed

/-- From head to tail, the blocks have the virtual bytes of the frames in the order in which the
heap obtained them. -/
theorem HeapState.Sound.windows_eq {p : FrameAllocator} {s : HeapState} {cs : List Extent}
    (h : s.Sound p cs) (hs : s.InOrder) :
    (cs.flatMap fun c => c.window.bytes) =
      s.frames.flatMap fun i => (s.world.part.directMap.window i).bytes := by
  have hbytes := congrArg (List.map s.world.part.directMap.appears)
    ((inOrder_iff h.formed).mp hs)
  rw [bytesInOrder, frameBytes, List.map_flatMap, List.map_flatMap,
    List.flatMap_congr fun c hc => h.formed.map_appears hc,
    List.flatMap_congr fun i hi => DirectMap.map_appears_frame (h.formed.below i hi)
      fun heq => h.formed.named (heq ▸ hi)] at hbytes
  exact hbytes

/-- The order of the list. From head to tail the blocks have the bytes of the heap's frames in the
order in which the heap obtained them, and within one growth lowest first. So the list goes up in
memory if and only if each growth lies above all that the heap had before. Two blocks that touch are
neighbours in the list, and may be joined, if and only if the frames that touch there were obtained
one after the other. -/
theorem heap_order {boot : BootInfo} {p : FrameAllocator} {s : HeapState}
    (hnull : ¬ p.Available boot.map p.directMap.nullFrame) (hs : HeapState.Reachable boot p s) :
    ((s.world.part.blocks s.memory).flatMap fun b => b.extent.window.bytes) =
      (s.frames.flatMap fun i => (p.directMap.window i).bytes) ∧
    ((s.world.part.blocks s.memory).Pairwise (fun b c => b.address.value < c.address.value) ↔
      s.frames.Pairwise fun i j => (p.directMap.window i).first < (p.directMap.window j).first) ∧
    ∀ b ∈ s.world.part.blocks s.memory, ∀ c ∈ s.world.part.blocks s.memory,
      b.extent.window.stop = c.extent.window.first →
        ([b, c] <:+: s.world.part.blocks s.memory ↔ ∀ i ∈ s.frames, ∀ j ∈ s.frames,
          (p.directMap.window i).stop = b.extent.window.stop →
          (p.directMap.window j).first = b.extent.window.stop → [i, j] <:+: s.frames) := by
  obtain ⟨cs, h⟩ := hs.sound hnull
  have hbytes := h.windows_eq (hs.inOrder hnull)
  have hnodup := h.formed.nodup_windows
  rw [← h.formed.map_extent_blocks, List.flatMap_map] at hbytes hnodup
  rw [← h.backed.directMap] at hbytes
  have hblock : ∀ b ∈ s.world.part.blocks s.memory,
      b.extent.window.first < b.extent.window.stop := by
    intro b _
    simp only [Extent.window]
    omega
  have hframe : ∀ i ∈ s.frames, (p.directMap.window i).first < (p.directMap.window i).stop :=
    fun i _ => Nat.lt_add_of_pos_right (by decide)
  refine ⟨hbytes, ?_, fun b hb c hc htouch =>
    Span.isInfix_iff_of_eq hblock hnodup hframe hbytes hb hc htouch⟩
  have hgoesUp := Span.pairwise_flatMap_iff hblock hnodup
  rw [hbytes] at hnodup hgoesUp
  rw [← Span.pairwise_flatMap_iff hframe hnodup, hgoesUp]
  simp only [UInt64.lt_iff_toNat_lt, Extent.window, HeapBlock.extent]

theorem heap_order_of_two_regions :
    ∃ s : HeapState, HeapState.Reachable TwoRegions.boot TwoRegions.allocator s ∧
      s.frames = List.range' 13 24 ∧
      (s.world.part.blocks s.memory).Pairwise fun b c => b.address.value < c.address.value := by
  have full := TwoRegions.reachable_started.step (.alloc 65000) trivial
  have grown := full.step (.alloc 30000) trivial
  have h := heap_order TwoRegions.nullFrame_not_available grown
  have hframes : ((TwoRegions.started.perform TwoRegions.allocator (.alloc 65000)).perform
      TwoRegions.allocator (.alloc 30000)).frames = List.range' 13 24 := by decide +kernel
  refine ⟨_, grown, hframes, h.2.1.mpr ?_⟩
  rw [hframes]
  decide

namespace TwoRegions

/-- Somebody takes seven frames before there is a heap. -/
def busyMachine : Machine :=
  FrameRequest.run allocator machine (.alloc 7)

def lateHeap : KernelHeap where
  head := ⟨0xFFFF800000014000⟩
  tail := ⟨0xFFFF800000014000⟩
  totalBytes := 65536
  directMap := allocator.directMap

def lateMachine : Machine :=
  ((KernelHeap.init allocator).run busyMachine).2

theorem init_late : (KernelHeap.init allocator).run busyMachine = (.done lateHeap, lateMachine) :=
  Prod.ext rfl rfl

def lateStarted : HeapState :=
  ⟨⟨lateMachine, lateHeap⟩, HeapState.gained allocator busyMachine.memory lateMachine.memory, []⟩

/-- Two allocations fill the heap. -/
def lateFilled : HeapState :=
  (lateStarted.perform allocator (.alloc 64)).perform allocator (.alloc 65408)

/-- The seven frames come back, and the heap grows into them. -/
def grownBelow : HeapState :=
  (lateFilled.perform allocator (.frames (.free ⟨.ofIndex 13, 7⟩))).perform allocator (.alloc 28640)

/-- The first and the last allocation are released. -/
def holedTwice : HeapState :=
  (grownBelow.perform allocator (.release ⟨0xFFFF800000014020⟩)).perform allocator
    (.release ⟨0xFFFF80000000D020⟩)

theorem reachable_lateFilled : HeapState.Reachable boot allocator lateFilled := by
  have hbefore : HeapState.Before allocator machine busyMachine := .step (.alloc 7) .refl id
  have hstarted : HeapState.Reachable boot allocator lateStarted :=
    .start init_eq hbefore init_late
  exact (hstarted.step (.alloc 64) trivial).step (.alloc 65408) trivial

theorem holdings_grownBelow :
    (lateFilled.frames = List.range' 20 16 ∧
      lateFilled.world.part.directMap.nullFrame = 0x800000000) ∧
    grownBelow.live = [⟨⟨0xFFFF800000014020⟩, 64⟩, ⟨⟨0xFFFF800000014080⟩, 65408⟩,
      ⟨⟨0xFFFF80000000D020⟩, 28640⟩] := by
  decide +kernel

theorem reachable_givenBack : HeapState.Reachable boot allocator
    (lateFilled.perform allocator (.frames (.free ⟨.ofIndex 13, 7⟩))) := by
  refine .step _ reachable_lateFilled fun i hgives => ?_
  obtain ⟨hlow, hhigh⟩ : 13 ≤ i ∧ i < 13 + 7 := hgives
  obtain ⟨⟨hframes, hnull⟩, -⟩ := holdings_grownBelow
  rw [hframes, List.mem_range'_1, hnull]
  omega

theorem reachable_grownBelow : HeapState.Reachable boot allocator grownBelow :=
  .step (.alloc 28640) reachable_givenBack trivial

theorem reachable_holedTwice : HeapState.Reachable boot allocator holedTwice := by
  refine .step (.release _) (.step (.release _) reachable_grownBelow ?_) ?_ <;>
  simp [HeapState.Allowed, HeapState.live_release, holdings_grownBelow.2]

end TwoRegions

/-- The list need not go up in memory: the heap grows into frames below its first block. Two free
blocks that touch there are no neighbours in the list, and stay apart. -/
theorem blocks_out_of_order :
    ∃ s : HeapState, HeapState.Reachable TwoRegions.boot TwoRegions.allocator s ∧
      ¬ (s.world.part.blocks s.memory).Pairwise (fun b c => b.address.value < c.address.value) ∧
      ∃ b ∈ s.world.part.blocks s.memory, ∃ c ∈ s.world.part.blocks s.memory,
        b.free = true ∧ c.free = true ∧ b.extent.window.stop = c.extent.window.first ∧
        ¬ [b, c] <:+: s.world.part.blocks s.memory ∧
        ¬ [c, b] <:+: s.world.part.blocks s.memory := by
  have hblocks : TwoRegions.holedTwice.world.part.blocks TwoRegions.holedTwice.memory =
      [⟨⟨0xFFFF800000014000⟩, 64, true, ⟨0xFFFF800000014060⟩, .null⟩,
        ⟨⟨0xFFFF800000014060⟩, 65408, false, ⟨0xFFFF80000000D000⟩, ⟨0xFFFF800000014000⟩⟩,
        ⟨⟨0xFFFF80000000D000⟩, 28640, true, .null, ⟨0xFFFF800000014060⟩⟩] := by
    decide +kernel
  refine ⟨_, TwoRegions.reachable_holedTwice, ?_⟩
  rw [hblocks]
  refine ⟨by decide, _, .tail _ (.tail _ (.head _)), _, .head _, rfl, rfl, ?_, ?_, ?_⟩ <;> decide

end MemoryManager
