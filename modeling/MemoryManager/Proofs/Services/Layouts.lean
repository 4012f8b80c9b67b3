import MemoryManager.Proofs.Heap.Refusals
import MemoryManager.Proofs.Services.Repeats

namespace MemoryManager

open MemoryManager.Action KernelHeap

namespace Layout

/-- No size of a layout is too large to be rounded up to pages. -/
theorem pages_lt (l : Layout) : payloadSize l.size.toNat + 32 + 4095 < 2 ^ 64 := by
  have hle := l.size_le
  unfold maxLayoutSize at hle
  unfold payloadSize
  split <;> omega

theorem not_granule_lt (l : Layout) : ¬ granule < l.align ↔ l.align.toNat ≤ 16 := by
  rw [UInt64.not_lt, UInt64.le_iff_toNat_le]
  rfl

theorem align_dvd (l : Layout) (hle : l.align.toNat ≤ 16) : l.align.toNat ∣ 16 := by
  obtain ⟨k, hk⟩ := isPowerOfTwo_iff.mp l.isPowerOfTwo_align
  rw [hk] at hle ⊢
  have hexponent : k ≤ 4 := (Nat.pow_le_pow_iff_right (by decide : 1 < 2)).mp hle
  exact Nat.pow_dvd_pow 2 hexponent

end Layout

/-- Physical addresses run through an allocation as virtual ones do. -/
theorem HeapState.Sound.toNat_physical {p : FrameAllocator} {s : HeapState} {cs : List Extent}
    {a : Allocation} (h : s.Sound p cs) (ha : a ∈ s.live) {v : VirtualAddress}
    (hv : a.span.Holds v.value.toNat) :
    (s.world.part.directMap.physical v).value.toNat =
      (s.world.part.directMap.physical a.address).value.toNat +
        (v.value.toNat - a.address.value.toNat) := by
  have hholds := (h.holds_iff ha v).mpr hv
  have haddress := s.world.part.directMap.toNat_physical a.address
  have hphysical := s.world.part.directMap.toNat_physical v
  have hlt := v.value.toNat_lt
  simp only [Allocation.Holds, Span.Holds, Allocation.span] at hholds hv
  omega

namespace Services

variable {S T : Services} {p : FrameAllocator} {h : KernelHeap} {l : Layout} {a : VirtualAddress}

/-- Whether a request for layout `l` gets null: the alignment is beyond the heap's, there is no heap
yet, or neither the heap nor the frame allocator has room for the rounded size. -/
def Withholds (S : Services) (l : Layout) : Prop :=
  16 < l.align.toNat ∨ S.heap.content = none ∨
    ∃ h ∈ S.heap.content, ∃ p ∈ S.frames.content,
      h.Exhausted p S.machine.memory (payloadSize l.size.toNat)

theorem withholds_iff (hframes : S.frames.content = some p) (hheap : S.heap.content = some h)
    (halign : l.align.toNat ≤ 16) :
    S.Withholds l ↔ h.Exhausted p S.machine.memory (payloadSize l.size.toNat) := by
  simp [Withholds, hframes, hheap, Nat.not_lt.mpr halign]

/-- Whoever gets memory gets it from the heap. -/
theorem run_allocLayout_eq_done (hframes : S.frames.content = some p)
    (hrun : (allocLayout l).run S = (.done a, T)) (ha : a ≠ .null) :
    l.align.toNat ≤ 16 ∧ ∃ h w, S.heap.content = some h ∧
      (KernelHeap.alloc p l.size).run ⟨S.machine, h⟩ = (.done a, w) ∧ T.machine = w.machine := by
  by_cases hnull : granule < l.align ∨ S.heap.content = none
  · rw [run_allocLayout_null hnull] at hrun
    cases hrun
    exact absurd rfl ha
  · obtain ⟨halign, hsome⟩ := not_or.mp hnull
    obtain ⟨h, hheap⟩ := Option.ne_none_iff_exists'.mp hsome
    rw [run_allocLayout hframes hheap halign, run_withHeap hheap] at hrun
    refine ⟨l.not_granule_lt.mp halign, h, ?_⟩
    rcases halloc : (KernelHeap.alloc p l.size).run ⟨S.machine, h⟩ with ⟨o, w⟩
    rw [halloc] at hrun
    cases o with
    | done b =>
      cases hrun
      exact ⟨w, hheap, rfl, rfl⟩
    | refused e =>
      cases hrun
      exact absurd rfl ha
    | stopped f => cases hrun

end Services

namespace Session

/-- What a caller obtains for layout `l` when `s` becomes `t`: the block `b`, which is large enough,
lies in frames of the heap, does not reach past the last address, and shares no byte with what was
handed out before; and all of that keeps its bytes. The block is aligned if the direct map starts at
an aligned address. -/
structure Grants (p : FrameAllocator) (s : Session) (l : Layout) (b : Allocation) (t : Session) :
    Prop where
  live : t.live = s.live ++ [b]
  aligned : 16 ∣ p.directMap.offset.toNat → l.align.toNat ∣ b.address.value.toNat
  size_le : l.size.toNat ≤ b.size.toNat
  stop_le : b.span.stop ≤ 2 ^ 64
  frames : ∀ v : VirtualAddress, b.span.Holds v.value.toNat →
    (p.directMap.physical v).value.toNat / 4096 ∈ t.heapFrames
  apart : ∀ c ∈ s.live, c.span.Apart b.span
  kept : ∀ c ∈ s.live, ∀ v : VirtualAddress, c.span.Holds v.value.toNat →
    t.memory.byte (p.directMap.physical v).value.toNat =
      s.memory.byte (p.directMap.physical v).value.toNat

variable {boot : BootInfo} {p : FrameAllocator} {s t : Session} {T : Services} {l : Layout}
  {a : VirtualAddress} {b : Allocation}

/-- A request by layout always ends: with null if the layout is withheld, with memory otherwise. -/
theorem Sound.allocLayout_ends (hs : s.Sound boot p) (l : Layout) :
    s.services.Withholds l ∧
      (Services.allocLayout l).run s.services = (.done .null, s.services) ∨
    ¬ s.services.Withholds l ∧
      ∃ a T, (Services.allocLayout l).run s.services = (.done a, T) ∧ a ≠ .null := by
  by_cases hnull : granule < l.align ∨ s.services.heap.content = none
  · left
    refine ⟨?_, Services.run_allocLayout_null hnull⟩
    rcases hnull with halign | hnone
    · exact .inl (UInt64.lt_iff_toNat_lt.mp halign)
    · exact .inr (.inl hnone)
  · obtain ⟨halign, hsome⟩ := not_or.mp hnull
    obtain ⟨h, hheap⟩ := Option.ne_none_iff_exists'.mp hsome
    obtain ⟨cs, hsound⟩ := hs.heapSound hheap
    rw [Services.withholds_iff hs.content_frames hheap (l.not_granule_lt.mp halign),
      Services.run_allocLayout hs.content_frames hheap halign, Services.run_withHeap hheap]
    rcases alloc_exhausted hsound.formed hsound.backed l.pages_lt with
      ⟨hout, e, hrun⟩ | ⟨hroom, a, w, hrun, ha⟩
    · left
      refine ⟨hout, ?_⟩
      rw [hrun]
      dsimp only
      rw [← hheap]
    · right
      rw [hrun]
      exact ⟨hroom, a, _, rfl, ha⟩

/-- Handing out a block leaves alone what was handed out before. -/
theorem Sound.byte_allocLayout (hs : s.Sound boot p)
    (hrun : (Services.allocLayout l).run s.services = (.done a, T)) (ha : a ≠ .null)
    {c : Allocation} (hc : c ∈ s.live) {v : VirtualAddress} (hv : c.span.Holds v.value.toNat) :
    T.machine.memory.byte (p.directMap.physical v).value.toNat =
      s.memory.byte (p.directMap.physical v).value.toNat := by
  obtain ⟨-, h, w, hheap, halloc, hmachine⟩ :=
    Services.run_allocLayout_eq_done hs.content_frames hrun ha
  obtain ⟨cs, hsound⟩ := hs.heapSound hheap
  have hbytes := (hsound.kept_alloc hc l.size).bytes _ ((hsound.holds_iff hc v).mpr hv)
  simp only [HeapState.perform, HeapState.memory, halloc] at hbytes
  rw [hmachine, hsound.backed.directMap]
  exact hbytes

/-- A block that is new among what is handed out serves every layout that it is large enough for. -/
theorem Sound.grants (ht : t.Sound boot p) {h : KernelHeap}
    (hheap : t.services.heap.content = some h) (hlive : t.live = s.live ++ [b])
    (halign : l.align.toNat ≤ 16) (hsize : l.size.toNat ≤ b.size.toNat)
    (hkept : ∀ c ∈ s.live, ∀ v : VirtualAddress, c.span.Holds v.value.toNat →
      t.memory.byte (p.directMap.physical v).value.toNat =
        s.memory.byte (p.directMap.physical v).value.toNat) :
    s.Grants p l b t := by
  obtain ⟨cs, hsound⟩ := ht.heapSound hheap
  have hdirect := hsound.backed.directMap
  have hb : b ∈ t.live := by simp [hlive]
  have haligned (hoffset : 16 ∣ p.directMap.offset.toNat) :
      l.align.toNat ∣ b.address.value.toNat := by
    apply (l.align_dvd halign).trans
    obtain ⟨c, hc, -, hpayload, -⟩ := hsound.block hb
    rw [← hpayload]
    apply hsound.formed.dvd_payload hc
    rwa [← hdirect]
  have hframes : ∀ v : VirtualAddress, b.span.Holds v.value.toNat →
      (p.directMap.physical v).value.toNat / 4096 ∈ t.heapFrames := by
    intro v hv
    rw [hdirect]
    exact hsound.frame_mem hb ((hsound.holds_iff hb v).mpr hv)
  have hapart : ∀ c ∈ s.live, c.span.Apart b.span := by
    have hpairs := hsound.live_apart
    simp only [hlive, List.pairwise_append, List.mem_singleton, forall_eq] at hpairs
    exact hpairs.2.2
  exact ⟨hlive, haligned, hsize, hsound.span_le hb, hframes, hapart, hkept⟩

/-- Clearing a block that is handed out clears that block, and leaves the others alone. -/
theorem Sound.byte_cleared (ht : t.Sound boot p) {h : KernelHeap}
    (hheap : t.services.heap.content = some h) (hb : b ∈ t.live) {n : Nat}
    (hn : n ≤ b.size.toNat) (v : VirtualAddress) :
    (t.memory.fill (h.directMap.physical b.address).value.toNat n 0).byte
        (p.directMap.physical v).value.toNat =
      if b.address.value.toNat ≤ v.value.toNat ∧ v.value.toNat < b.address.value.toNat + n then 0
      else t.memory.byte (p.directMap.physical v).value.toNat := by
  obtain ⟨cs, hsound⟩ := ht.heapSound hheap
  have hholds := hsound.holds_iff hb v
  have hphysical := fun hv => hsound.toNat_physical hb (v := v) hv
  have hlt := (h.directMap.physical v).value.toNat_lt
  have hcleared : ((h.directMap.physical b.address).value.toNat ≤
        (h.directMap.physical v).value.toNat ∧
      (h.directMap.physical v).value.toNat < (h.directMap.physical b.address).value.toNat + n ∧
        (h.directMap.physical v).value.toNat < Memory.size) ↔
      b.address.value.toNat ≤ v.value.toNat ∧ v.value.toNat < b.address.value.toNat + n := by
    simp only [Allocation.Holds, Span.Holds, Allocation.span] at hholds hphysical
    unfold Memory.size
    constructor
    · rintro ⟨hlow, hhigh, -⟩
      have hv := hholds.mp ⟨hlow, by omega⟩
      have heq := hphysical hv
      omega
    · rintro ⟨hlow, hhigh⟩
      have heq := hphysical ⟨hlow, by omega⟩
      omega
  rw [hsound.backed.directMap, Memory.byte_fill]
  simp only [hcleared]

/-- Memory for a layout that is not withheld, as it is and cleared. -/
theorem Sound.allocLayout_grants (hs : s.Sound boot p) (l : Layout)
    (hroom : ¬ s.services.Withholds l) :
    ∃ b : Allocation, b.address ≠ .null ∧
      ((Services.allocLayout l).run s.services).1 = .done b.address ∧
      ((Services.allocZeroed l).run s.services).1 = .done b.address ∧
      s.Grants p l b (s.perform boot p (.allocLayout l)) ∧
      s.Grants p l b (s.perform boot p (.allocZeroed l)) ∧
      ∀ v : VirtualAddress, b.address.value.toNat ≤ v.value.toNat →
        v.value.toNat < b.address.value.toNat + l.size.toNat →
          (s.perform boot p (.allocZeroed l)).memory.byte
            (p.directMap.physical v).value.toNat = 0 := by
  obtain ⟨-, a, T, hrun, ha⟩ := (hs.allocLayout_ends l).resolve_left fun hnull => hroom hnull.1
  obtain ⟨halign, -⟩ := Services.run_allocLayout_eq_done hs.content_frames hrun ha
  rcases hs.allocLayout_cases l with
    ⟨o, hnull, ho⟩ | ⟨b, n, h, U, hdone, -, hround, hheap, hplain⟩
  · cases hrun.symm.trans hnull
    exact absurd (ho a rfl) ha
  cases hrun.symm.trans hdone
  obtain ⟨-, -, hsize⟩ := roundedSize?_spec hround
  have hclear := Services.run_allocZeroed hrun ha hheap
  have hcleared := hs.allocZeroed l
  rw [Session.perform, obtaining, hrun, hclear, Sound.handedOut_done ha hround] at hcleared
  rw [Session.perform, Session.perform, obtaining, hrun, hclear, Sound.handedOut_done ha hround]
  have hgrants := hplain.grants (s := s) hheap rfl halign hsize fun c hc v hv =>
    hs.byte_allocLayout hrun ha hc hv
  have hbyte := hplain.byte_cleared hheap (b := ⟨a, n⟩) (by simp) hsize
  refine ⟨⟨a, n⟩, ha, rfl, rfl, hgrants, ?_, ?_⟩
  · apply hcleared.grants hheap rfl halign hsize
    intro c hc v hv
    have hapart := hgrants.apart c hc
    rw [← hgrants.kept c hc v hv]
    apply (hbyte v).trans
    rw [if_neg]
    simp only [Span.Apart, Span.Holds, Allocation.span] at hapart hv ⊢
    omega
  · intro v hlow hhigh
    apply (hbyte v).trans
    rw [if_pos ⟨hlow, hhigh⟩]

end Session

/-- Requests by layout always end, and with memory if there is any. In every state before there is a
heap, and in every state that allowed requests and repeated stages lead to, a layout gets null exactly
if it is aligned to more than 16 bytes, if there is no heap, or if no free block holds the rounded size
and the frame allocator has not enough frames in a row for a new one; then nothing changes. All other
layouts get a block that is large enough for them, aligned if the direct map starts at an aligned
address, and that shares no byte with anything else that is handed out. The bytes that the layout asks
for are zero, if that is asked for too. The loader promises a direct map that reaches all usable
memory, so that no frame that may be handed out appears at the null address. -/
theorem layout_requests {boot : BootInfo} {p : FrameAllocator} {s : Session}
    (hs : s.services.heap.content = none ∨ s.Continued boot p)
    (hnull : ¬ p.Available boot.map p.directMap.nullFrame) (l : Layout) :
    (s.services.Withholds l →
      (Services.allocLayout l).run s.services = (.done .null, s.services) ∧
      (Services.allocZeroed l).run s.services = (.done .null, s.services)) ∧
    (¬ s.services.Withholds l →
      ∃ b : Allocation, b.address ≠ .null ∧
        ((Services.allocLayout l).run s.services).1 = .done b.address ∧
        ((Services.allocZeroed l).run s.services).1 = .done b.address ∧
        s.Grants p l b (s.perform boot p (.allocLayout l)) ∧
        s.Grants p l b (s.perform boot p (.allocZeroed l)) ∧
        ∀ v : VirtualAddress, b.address.value.toNat ≤ v.value.toNat →
          v.value.toNat < b.address.value.toNat + l.size.toNat →
            (s.perform boot p (.allocZeroed l)).memory.byte
              (p.directMap.physical v).value.toNat = 0) := by
  have hzeroed (hrun : (Services.allocLayout l).run s.services = (.done .null, s.services)) :
      (Services.allocZeroed l).run s.services = (.done .null, s.services) :=
    Services.run_allocZeroed_null hrun fun a ha => (Outcome.done.inj ha).symm
  rcases hs with hnone | hs
  · have hrun := Services.run_allocLayout_null (l := l) (.inr hnone)
    exact ⟨fun _ => ⟨hrun, hzeroed hrun⟩, fun hroom => absurd (.inr (.inl hnone)) hroom⟩
  · have hsound := hs.sound hnull
    constructor
    · intro hout
      obtain ⟨-, hrun⟩ := (hsound.allocLayout_ends l).resolve_right fun hroom => hroom.1 hout
      exact ⟨hrun, hzeroed hrun⟩
    · exact hsound.allocLayout_grants l

namespace SixtyFourPages

def heap : KernelHeap where
  head := ⟨0xFFFF800000002000⟩
  tail := ⟨0xFFFF800000002000⟩
  totalBytes := 65536
  directMap := allocator.directMap

/-- The heap was created twice. -/
def withHeapAgain : Session :=
  { withHeap with services := (Services.initHeap.run withHeap.services).2 }

theorem continued_withHeapAgain : withHeapAgain.Continued boot allocator :=
  .heapAgain (.reached reachable_withHeap) (by decide +kernel)

theorem content_withHeapAgain : withHeapAgain.services.heap.content = some heap := by
  decide +kernel

theorem blocks_withHeapAgain : heap.blocks withHeapAgain.services.machine.memory =
    [⟨⟨0xFFFF800000002000⟩, 65504, true, .null, .null⟩] := by
  decide +kernel

def hundredBytes : Layout :=
  ⟨100, 8, by decide, by decide⟩

/-- A layout of the largest size that there is for its alignment. -/
def largest : Layout :=
  ⟨0x7FFFFFFFFFFFFFF0, 16, by decide, by decide⟩

theorem hundredBytes_not_withheld : ¬ withHeapAgain.services.Withholds hundredBytes := by
  rintro (halign | hnone | ⟨h, hh, p, -, hblocks, -⟩)
  · exact absurd halign (by decide)
  · rw [content_withHeapAgain] at hnone
    cases hnone
  · rw [content_withHeapAgain] at hh
    cases hh
    rw [blocks_withHeapAgain] at hblocks
    exact absurd (hblocks _ (List.mem_singleton_self _) rfl) (by decide)

theorem largest_withheld : withHeapAgain.services.Withholds largest := by
  refine .inr (.inr ⟨heap, content_withHeapAgain, allocator, by decide +kernel, ?_, ?_⟩)
  · rw [blocks_withHeapAgain]
    decide
  · intro first hfits
    have hpages : 64 < (payloadSize largest.size.toNat + 32 + 4095) / 4096 := by decide
    have htotal : allocator.totalFrames = 64 := rfl
    omega

end SixtyFourPages

/-- The heap was created twice, and still serves a small request. The second layout is aligned to 64
bytes, and the third one is too large. -/
theorem layout_requests_of_sixtyFourPages :
    SixtyFourPages.withHeapAgain.Continued SixtyFourPages.boot SixtyFourPages.allocator ∧
    (∃ b : Allocation, b.address ≠ .null ∧ 8 ∣ b.address.value.toNat ∧ 100 ≤ b.size.toNat ∧
      ((Services.allocZeroed SixtyFourPages.hundredBytes).run
        SixtyFourPages.withHeapAgain.services).1 = .done b.address ∧
      (SixtyFourPages.withHeapAgain.perform SixtyFourPages.boot SixtyFourPages.allocator
        (.allocZeroed SixtyFourPages.hundredBytes)).memory.byte
          (SixtyFourPages.allocator.directMap.physical b.address).value.toNat = 0) ∧
    (Services.allocLayout ⟨64, 64, by decide, by decide⟩).run
        SixtyFourPages.withHeapAgain.services =
      (.done .null, SixtyFourPages.withHeapAgain.services) ∧
    (Services.allocLayout SixtyFourPages.largest).run SixtyFourPages.withHeapAgain.services =
      (.done .null, SixtyFourPages.withHeapAgain.services) := by
  have h := layout_requests (.inr SixtyFourPages.continued_withHeapAgain)
    SixtyFourPages.nullFrame_not_available
  refine ⟨SixtyFourPages.continued_withHeapAgain, ?_, ?_, ?_⟩
  · obtain ⟨b, hb, -, hrun, -, hgrants, hzero⟩ :=
      (h SixtyFourPages.hundredBytes).2 SixtyFourPages.hundredBytes_not_withheld
    have hsize : 100 ≤ b.size.toNat := hgrants.size_le
    refine ⟨b, hb, hgrants.aligned (by decide), hsize, hrun, ?_⟩
    exact hzero b.address (Nat.le_refl _) (Nat.lt_add_of_pos_right (by decide))
  · obtain ⟨hrun, -⟩ := (h ⟨64, 64, by decide, by decide⟩).1 (.inl (by decide))
    exact hrun
  · obtain ⟨hrun, -⟩ := (h SixtyFourPages.largest).1 SixtyFourPages.largest_withheld
    exact hrun

end MemoryManager
