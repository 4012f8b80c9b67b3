import MemoryManager.Proofs.Heap.Runs

namespace MemoryManager

open FrameAllocator KernelHeap

namespace DirectMap

theorem toNat_physical (d : DirectMap) (a : VirtualAddress) :
    (d.physical a).value.toNat = (2 ^ 64 - d.offset.toNat + a.value.toNat) % 2 ^ 64 :=
  UInt64.toNat_sub ..

end DirectMap

def Allocation.span (a : Allocation) : Span :=
  ⟨a.address.value.toNat, a.address.value.toNat + a.size.toNat⟩

def HeapBlock.headerSpan (b : HeapBlock) : Span :=
  ⟨b.address.value.toNat, b.address.value.toNat + 32⟩

/-- The virtual addresses of header and payload. -/
def Extent.window (c : Extent) : Span :=
  ⟨c.address.value.toNat, c.address.value.toNat + 32 + c.size.toNat⟩

namespace KernelHeap.Formed

variable {h : KernelHeap} {m : Memory} {frames : List Nat} {cs : List Extent} {b c : Extent}

/-- No block reaches past the last virtual address: it would meet the null address. -/
theorem window_le (hf : Formed h m frames cs) (hc : c ∈ cs) :
    c.address.value.toNat + 32 + c.size.toNat ≤ 2 ^ 64 := by
  have hlt := hf.stop_lt hc
  -- virtual addresses are physical ones moved around a circle of 2 ^ 64 bytes
  have haddress := h.directMap.toNat_physical c.address
  have hnull := h.directMap.toNat_physical .null
  have ha := c.address.value.toNat_lt
  have ho := h.directMap.offset.toNat_lt
  have hzero : VirtualAddress.null.value.toNat = 0 := rfl
  rw [Extent.start] at hlt
  rw [hzero] at hnull
  by_contra hgt
  refine hf.named (hf.frame_mem hc (x := (h.directMap.physical .null).value.toNat) ?_)
  simp only [Span.Holds, Extent.span, Extent.start]
  omega

theorem spans_apart (hf : Formed h m frames cs) (hb : b ∈ cs) (hc : c ∈ cs) (hne : b ≠ c) :
    (b.span h.directMap).Apart (c.span h.directMap) := by
  have hsymm : Std.Symm fun b c : Extent => (b.span h.directMap).Apart (c.span h.directMap) :=
    ⟨fun _ _ => Span.Apart.symm⟩
  exact (List.pairwise_map.mp hf.tiling.apart).forall hb hc hne

theorem windows_apart (hf : Formed h m frames cs) (hb : b ∈ cs) (hc : c ∈ cs) (hne : b ≠ c) :
    b.window.Apart c.window := by
  have hbc := hf.spans_apart hb hc hne
  have hlt := hf.stop_lt hb
  have hlt' := hf.stop_lt hc
  have hle := hf.window_le hb
  have hle' := hf.window_le hc
  have haddress := h.directMap.toNat_physical b.address
  have haddress' := h.directMap.toNat_physical c.address
  have ho := h.directMap.offset.toNat_lt
  simp only [Span.Apart, Extent.window, Extent.span, Extent.start] at hlt hlt' hbc ⊢
  omega

theorem toNat_payload (hf : Formed h m frames cs) (hc : c ∈ cs) :
    c.payload.value.toNat = c.address.value.toNat + 32 := by
  have hle := hf.window_le hc
  have hpos := hf.size_pos hc
  have hadd : c.payload.value.toNat = (c.address.value.toNat + 32) % 2 ^ 64 :=
    UInt64.toNat_add ..
  rw [hadd, Nat.mod_eq_of_lt (by omega)]

theorem dvd_payload (hf : Formed h m frames cs) (hc : c ∈ cs)
    (halign : 16 ∣ h.directMap.offset.toNat) : 16 ∣ c.payload.value.toNat := by
  have hdvd := (hf.sized hc).2.1
  have hphysical := h.directMap.toNat_physical c.address
  have ho := h.directMap.offset.toNat_lt
  have ha := c.address.value.toNat_lt
  rw [hf.toNat_payload hc]
  simp only [Extent.span, Extent.start] at hdvd
  omega

end KernelHeap.Formed

namespace HeapState

variable {p : FrameAllocator} {s : HeapState} {cs : List Extent} {a : Allocation}

theorem Sound.inside (h : s.Sound p cs) (ha : a ∈ s.live) :
    ∃ c ∈ cs, c.free = false ∧ c.payload = a.address ∧ a.span.first = c.window.first + 32 ∧
      a.span.stop ≤ c.window.stop := by
  obtain ⟨c, hc, hfree, hpayload, hsize⟩ := h.block ha
  have hfirst := h.formed.toNat_payload hc
  rw [hpayload] at hfirst
  refine ⟨c, hc, hfree, hpayload, hfirst, ?_⟩
  simp only [Allocation.span, Extent.window]
  omega

theorem Sound.span_le (h : s.Sound p cs) (ha : a ∈ s.live) : a.span.stop ≤ 2 ^ 64 := by
  obtain ⟨c, hc, -, -, -, hstop⟩ := h.inside ha
  exact Nat.le_trans hstop (h.formed.window_le hc)

theorem Sound.holds_iff (h : s.Sound p cs) (ha : a ∈ s.live) (v : VirtualAddress) :
    a.Holds s.world.part.directMap (s.world.part.directMap.physical v).value.toNat ↔
      a.span.Holds v.value.toNat := by
  obtain ⟨c, hc, -, hpayload, hsize⟩ := h.block ha
  have hlt := h.formed.stop_lt hc
  have hstart := h.formed.physical_payload hc
  have hle := h.span_le ha
  have haddress := s.world.part.directMap.toNat_physical a.address
  have hphysical := s.world.part.directMap.toNat_physical v
  have hv := v.value.toNat_lt
  have ho := s.world.part.directMap.offset.toNat_lt
  rw [hpayload] at hstart
  simp only [Allocation.Holds, Span.Holds, Allocation.span] at hle ⊢
  omega

theorem Sound.nodup (h : s.Sound p cs) : (s.live.map Allocation.address).Nodup := by
  rw [h.live.nodup_iff]
  refine List.pairwise_map.mpr (List.Pairwise.filter _ ?_)
  refine h.formed.tiling.headers_apart.imp fun {b c} hbc heq => hbc.ne ?_
  exact Extent.payload_inj.mp heq

theorem Sound.live_apart (h : s.Sound p cs) : s.live.Pairwise fun a b => a.span.Apart b.span := by
  refine (List.pairwise_map.mp h.nodup).imp_of_mem fun {a b} ha hb hne => ?_
  obtain ⟨c, hc, -, hpayload, hfirst, hstop⟩ := h.inside ha
  obtain ⟨e, he, -, hpayload', hfirst', hstop'⟩ := h.inside hb
  have hce : c ≠ e := by
    intro heq
    obtain rfl := heq
    exact hne (hpayload.symm.trans hpayload')
  have hapart := h.formed.windows_apart hc he hce
  simp only [Span.Apart] at hapart ⊢
  omega

theorem Sound.apart_header (h : s.Sound p cs) (ha : a ∈ s.live) {b : HeapBlock}
    (hb : b ∈ s.world.part.blocks s.memory) : a.span.Apart b.headerSpan := by
  have hbcs := h.formed.extent_mem hb
  obtain ⟨c, hc, -, -, hfirst, hstop⟩ := h.inside ha
  by_cases hce : c = b.extent
  · subst hce
    exact .inr hfirst.ge
  · have hapart := h.formed.windows_apart hc hbcs hce
    simp only [Span.Apart, Extent.window, HeapBlock.extent, HeapBlock.headerSpan] at *
    omega

theorem Sound.frame_mem (h : s.Sound p cs) (ha : a ∈ s.live) {x : Nat}
    (hx : a.Holds s.world.part.directMap x) : x / 4096 ∈ s.frames := by
  obtain ⟨c, hc, -, -, hholds⟩ := h.holds ha
  obtain ⟨hlow, hhigh⟩ := hholds x hx
  exact h.formed.frame_mem hc ⟨Nat.le_trans (Nat.le_add_right _ _) hlow, hhigh⟩

/-- Whether a request is none to release `a`, and writes nothing to it. -/
def LeavesAlone (a : Allocation) (s : HeapState) : HeapRequest → Prop
  | .alloc _ => True
  | .release b => b ≠ a.address
  | .frames (.elsewhere m) => ∀ x, a.Holds s.world.part.directMap x →
    m.memory.byte x = s.memory.byte x
  | .frames _ => True

/-- The states that runs of allowed requests lead to which leave `a` alone. -/
inductive Beside (p : FrameAllocator) (a : Allocation) (s : HeapState) : HeapState → Prop
  | refl : Beside p a s s
  | step {t : HeapState} (q : HeapRequest) (ht : Beside p a s t) (hq : t.Allowed p q)
      (hleaves : t.LeavesAlone a q) : Beside p a s (t.perform p q)

/-- The allocation is as it was: nobody took it, and its bytes are the same. -/
structure Kept (d : DirectMap) (a : Allocation) (s t : HeapState) : Prop where
  live : a ∈ t.live
  bytes : ∀ x, a.Holds d x → t.memory.byte x = s.memory.byte x

variable {t : HeapState}

theorem Kept.trans {d : DirectMap} {u : HeapState} (h : Kept d a s t) (h' : Kept d a t u) :
    Kept d a s u :=
  ⟨h'.live, fun x hx => (h'.bytes x hx).trans (h.bytes x hx)⟩

theorem mem_handedOut {live : List Allocation} {size : UInt64} (ha : a ∈ live)
    (o : Outcome HeapError VirtualAddress) : a ∈ handedOut live size o := by
  cases o with
  | done b => exact List.mem_append_left _ ha
  | refused e => exact ha
  | stopped f => exact ha

/-- Serving a request for one block writes into no other block that is in use. -/
theorem Sound.served_byte (h : s.Sound p cs) {e : Extent} (he : e ∈ cs) (hfree : e.free = false)
    {w : World KernelHeap} {size : UInt64} {new : List Nat} {l r : List Extent} {c : Extent}
    (hserves : Serves p s.frames s.world w size new l c r) (hused : inUse (l ++ r) = inUse cs)
    {x : Nat} (hlow : e.start s.world.part.directMap + 32 ≤ x)
    (hhigh : x < e.start s.world.part.directMap + 32 + e.size.toNat) :
    w.machine.memory.byte x = s.memory.byte x := by
  have hmem : x / 4096 ∈ s.frames :=
    h.formed.frame_mem he ⟨Nat.le_trans (Nat.le_add_right _ _) hlow, hhigh⟩
  have hnew : x / 4096 ∉ new := fun hin =>
    (List.nodup_append.mp hserves.backed.nodup).2.2 _ hmem _ hin rfl
  -- the block is still there afterwards, so no header of the new list lies in its payload
  have hstill : e ∈ l ++ KernelHeap.served c size ++ r := by
    obtain ⟨n, hserved, -⟩ := inUse_served (l := l) (c := c) (r := r) size
    have hin : e ∈ inUse (l ++ r) := by
      rw [hused]
      exact mem_inUse.mpr ⟨he, hfree⟩
    rw [inUse_append, List.mem_append] at hin
    refine (mem_inUse.mp ?_).1
    rw [hserved, List.mem_append, List.mem_cons]
    exact hin.imp_right .inr
  apply hserves.bytes x (h.backed.outside hmem) hnew
  rw [← hserves.directMap] at hlow hhigh
  exact hserves.formed.not_inHeaders hstill hlow hhigh

theorem Sound.kept_alloc (h : s.Sound p cs) (ha : a ∈ s.live) (size : UInt64) :
    Kept s.world.part.directMap a s (s.perform p (.alloc size)) := by
  refine ⟨mem_handedOut ha _, fun x hx => ?_⟩
  rcases alloc_cases h.formed h.backed size with
    ⟨e, hrun⟩ | hrun | ⟨n, new, l, c, r, w, -, hrun, hserves, hbase⟩
  · simp only [HeapState.perform, memory, hrun]
  · simp only [HeapState.perform, memory, hrun]
  · simp only [HeapState.perform, memory, hrun]
    obtain ⟨e, he, hfree, -, hholds⟩ := h.holds ha
    obtain ⟨hlow, hhigh⟩ := hholds x hx
    refine h.served_byte he hfree hserves ?_ hlow hhigh
    rcases hbase with ⟨-, rfl⟩ | ⟨-, rfl, rfl, -⟩
    · exact (inUse_append_cons_of_free hserves.fits.1 l r).symm
    · rw [List.append_nil]

/-- Releasing a block poisons its own payload and no other. -/
theorem Sound.kept_release (h : s.Sound p cs) (ha : a ∈ s.live) {b : Allocation} (hb : b ∈ s.live)
    (hne : b.address ≠ a.address) :
    Kept s.world.part.directMap a s (s.perform p (.release b.address)) := by
  refine ⟨List.mem_filter.mpr ⟨ha, decide_eq_true hne.symm⟩, fun x hx => ?_⟩
  obtain ⟨c, hc, hused, hpayload, -⟩ := h.block hb
  obtain ⟨e, he, -, hpayload', hholds⟩ := h.holds ha
  obtain ⟨hlow, hhigh⟩ := hholds x hx
  have hce : c ≠ e := by
    intro heq
    obtain rfl := heq
    exact hne (hpayload.symm.trans hpayload')
  have hapart := h.formed.spans_apart hc he hce
  have hheaders := h.formed.not_inHeaders he hlow hhigh
  obtain ⟨l, r, rfl⟩ := List.append_of_mem hc
  obtain ⟨t, tail, hrun, -, hbytes⟩ := release_spec Empty h.formed hused
  simp only [HeapState.perform, memory, ← hpayload, hrun]
  rw [hbytes x hheaders, if_neg]
  simp only [Span.Apart, Extent.span] at hapart
  omega

theorem Sound.kept_frames (h : s.Sound p cs) (ha : a ∈ s.live) {q : FrameRequest}
    (hq : s.Allowed p (.frames q)) (hleaves : s.LeavesAlone a (.frames q)) :
    Kept s.world.part.directMap a s (s.perform p (.frames q)) := by
  refine ⟨ha, fun x hx => ?_⟩
  rcases h.frames_cases hq with ⟨m, rfl⟩ | ⟨hkeeps, hgives⟩
  · exact hleaves x hx
  · have hmem := h.frame_mem ha hx
    exact hkeeps.bytes x (h.backed.outside hmem) fun hg => (hgives _ hg).1 hmem

theorem Sound.kept (h : s.Sound p cs) (ha : a ∈ s.live) {q : HeapRequest} (hq : s.Allowed p q)
    (hleaves : s.LeavesAlone a q) : Kept s.world.part.directMap a s (s.perform p q) := by
  cases q with
  | alloc size => exact h.kept_alloc ha size
  | release b =>
    obtain ⟨b, hb, rfl⟩ := hq
    exact h.kept_release ha hb hleaves
  | frames q => exact h.kept_frames ha hq hleaves

theorem Beside.kept (ht : Beside p a s t) (h : s.Sound p cs) (ha : a ∈ s.live) :
    Kept p.directMap a s t ∧ ∃ cs', t.Sound p cs' := by
  induction ht with
  | refl => exact ⟨⟨ha, fun x _ => rfl⟩, cs, h⟩
  | step q _ hq hleaves ih =>
    obtain ⟨hkept, cs', h'⟩ := ih
    have hstep := h'.kept hkept.live hq hleaves
    rw [← h'.backed.directMap] at hstep
    exact ⟨hkept.trans hstep, h'.perform hq⟩

end HeapState

/-- Payload safety. In every reachable state, what the heap has handed out is aligned to 16 bytes,
does not reach past the last address, lies in frames that the heap obtained, and shares no byte with
anything else that is handed out or with a header. Whatever is asked of the heap and of the frame
allocator from then on, as long as nobody releases an allocation or writes to it, the allocation
stays handed out and every byte of it stays the same. -/
theorem heap_payloads {boot : BootInfo} {p : FrameAllocator} {s : HeapState}
    (hnull : ¬ p.Available boot.map p.directMap.nullFrame)
    (halign : 4096 ∣ p.directMap.offset.toNat) (hs : HeapState.Reachable boot p s) :
    (∀ a ∈ s.live, 16 ∣ a.address.value.toNat ∧ a.span.stop ≤ 2 ^ 64 ∧
      (∀ v : VirtualAddress, a.span.Holds v.value.toNat →
        (p.directMap.physical v).value.toNat / 4096 ∈ s.frames) ∧
      ∀ b ∈ s.world.part.blocks s.memory, a.span.Apart b.headerSpan) ∧
    s.live.Pairwise (fun a b => a.span.Apart b.span) ∧
    ∀ a ∈ s.live, ∀ t, HeapState.Beside p a s t →
      a ∈ t.live ∧ ∀ v : VirtualAddress, a.span.Holds v.value.toNat →
        t.memory.byte (p.directMap.physical v).value.toNat =
          s.memory.byte (p.directMap.physical v).value.toNat := by
  obtain ⟨cs, h⟩ := hs.sound hnull
  have hdirect := h.backed.directMap
  refine ⟨fun a ha => ⟨?_, h.span_le ha, ?_, fun b hb => h.apart_header ha hb⟩, h.live_apart, ?_⟩
  · obtain ⟨c, hc, -, hpayload, -⟩ := h.block ha
    rw [← hpayload]
    refine h.formed.dvd_payload hc (Nat.dvd_trans (show 16 ∣ 4096 by decide) ?_)
    rwa [← hdirect]
  · intro v hv
    rw [hdirect]
    exact h.frame_mem ha ((h.holds_iff ha v).mpr hv)
  · intro a ha t ht
    obtain ⟨hkept, -⟩ := ht.kept h ha
    refine ⟨hkept.live, fun v hv => hkept.bytes _ ?_⟩
    rw [hdirect]
    exact (h.holds_iff ha v).mpr hv

namespace TwoRegions

def filled : HeapState :=
  (started.perform allocator (.alloc 100)).perform allocator (.alloc 64000)

theorem reachable_filled : HeapState.Reachable boot allocator filled :=
  (reachable_started.step (.alloc 100) trivial).step (.alloc 64000) trivial

end TwoRegions

theorem heap_payloads_of_two_regions :
    ∃ t : HeapState, HeapState.Beside TwoRegions.allocator ⟨⟨0xFFFF80000000D020⟩, 112⟩
        TwoRegions.filled t ∧
      TwoRegions.filled.frames.length = 16 ∧ t.frames.length = 17 ∧
      ⟨⟨0xFFFF80000000D020⟩, 112⟩ ∈ t.live ∧
      t.memory.byte 0xD020 = TwoRegions.filled.memory.byte 0xD020 := by
  have same := HeapState.Beside.refl (p := TwoRegions.allocator) (s := TwoRegions.filled)
    (a := ⟨⟨0xFFFF80000000D020⟩, 112⟩)
  have grown := same.step (.alloc 2000) trivial trivial
  have freed := grown.step (.release ⟨0xFFFF80000000D0B0⟩)
    ⟨⟨⟨0xFFFF80000000D0B0⟩, 64000⟩, by decide +kernel, rfl⟩ (by change _ ≠ _; decide)
  have h := (heap_payloads TwoRegions.nullFrame_not_available (by decide)
    TwoRegions.reachable_filled).2.2 ⟨⟨0xFFFF80000000D020⟩, 112⟩ (by decide +kernel) _ freed
  refine ⟨_, freed, ?_, ?_, h.1, h.2 ⟨0xFFFF80000000D020⟩ (by change _ ≤ _ ∧ _ < _; decide)⟩
  · decide +kernel
  · decide +kernel

end MemoryManager
