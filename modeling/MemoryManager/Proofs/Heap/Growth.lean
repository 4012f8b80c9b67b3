import Mathlib.Data.List.Perm.Subperm
import MemoryManager.Proofs.Frames.Requests
import MemoryManager.Proofs.Heap.Operations
import MemoryManager.Proofs.Rounding

namespace MemoryManager.KernelHeap

open FrameAllocator HeapBlock

variable {h : KernelHeap} {p : FrameAllocator} {m t : Memory} {frames : List Nat}
  {cs : List Extent} {first n : Nat}

/-- The frames of a heap are handed out by the allocator, and the frame that appears at the null
address cannot be. -/
structure Backed (p : FrameAllocator) (d : DirectMap) (m : Memory) (frames : List Nat) : Prop
    extends p.Sound m where
  directMap : p.directMap = d
  nodup : frames.Nodup
  held : ∀ i ∈ frames, i < p.totalFrames ∧ p.isReserved i = false ∧ p.bitmap.test m i = true
  null_set : d.nullFrame < p.totalFrames → p.bitmap.test m d.nullFrame = true

namespace Backed

variable {d : DirectMap}

theorem outside (hb : Backed p d m frames) {x : Nat} (hx : x / 4096 ∈ frames) :
    p.bitmap.Outside x :=
  outside_of_not_reserved (hb.held _ hx).2.1

theorem length_lt (hb : Backed p d m frames) : frames.length < 2 ^ 52 := by
  have hsub : frames ⊆ List.range p.totalFrames := fun i hi =>
    List.mem_range.mpr (hb.held i hi).1
  have hle := (hb.nodup.subperm hsub).length_le
  rw [List.length_range] at hle
  exact Nat.lt_of_le_of_lt hle hb.total_lt

theorem congr (hb : Backed p d m frames) (ht : ∀ a, ¬ p.bitmap.Outside a → t.byte a = m.byte a) :
    Backed p d t frames := by
  have hbit : ∀ i < p.totalFrames, p.bitmap.test t i = p.bitmap.test m i := fun i hi =>
    test_congr ht (Nat.lt_of_lt_of_le hi p.total_le_size)
  refine ⟨hb.toSound.congr ht, hb.directMap, hb.nodup, ?_, ?_⟩
  · intro i hi
    obtain ⟨hlt, hres, hset⟩ := hb.held i hi
    exact ⟨hlt, hres, (hbit i hlt).trans hset⟩
  · intro hlt
    exact (hbit _ hlt).trans (hb.null_set hlt)

theorem perm (hb : Backed p d m frames) {frames' : List Nat} (hp : frames.Perm frames') :
    Backed p d m frames' :=
  ⟨hb.toSound, hb.directMap, hp.nodup_iff.mp hb.nodup,
    fun i hi => hb.held i (hp.mem_iff.mpr hi), hb.null_set⟩

theorem keeps (hb : Backed p d m frames) {gives : Nat → Prop} (hk : p.Keeps gives m t)
    (hgives : ∀ i ∈ frames, ¬ gives i) (hnull : ¬ gives d.nullFrame) : Backed p d t frames := by
  refine ⟨hk.sound, hb.directMap, hb.nodup, ?_, ?_⟩
  · intro i hi
    obtain ⟨hlt, hres, hset⟩ := hb.held i hi
    exact ⟨hlt, hres, hk.bits i hlt hset (hgives i hi)⟩
  · intro hlt
    exact hk.bits _ hlt (hb.null_set hlt) hnull

/-- The frames that are handed out are fresh, and none of them appears at the null address. -/
theorem fresh (hb : Backed p d m frames) (hg : p.Granted m t first n) {i : Nat} (hlow : first ≤ i)
    (hhigh : i < first + n) : i < p.totalFrames ∧ i ∉ frames ∧ i ≠ d.nullFrame ∧
      p.isReserved i = false ∧ p.bitmap.test m i = false := by
  have hclear := hg.clear i hlow hhigh
  have hlt := hg.lt_total hhigh
  refine ⟨hlt, ?_, ?_, hb.not_reserved_of_clear hlt hclear, hclear⟩
  · intro hi
    rw [(hb.held i hi).2.2] at hclear
    cases hclear
  · intro heq
    obtain rfl := heq
    rw [hb.null_set hlt] at hclear
    cases hclear

theorem granted (hb : Backed p d m frames) (hg : p.Granted m t first n) :
    Backed p d t (frames ++ List.range' first n) := by
  refine ⟨hb.toSound.of_granted hg, hb.directMap, ?_, ?_, ?_⟩
  · refine List.nodup_append.mpr ⟨hb.nodup, List.nodup_range', ?_⟩
    intro i hi j hj heq
    obtain rfl := heq
    rw [List.mem_range'_1] at hj
    exact (hb.fresh hg hj.1 hj.2).2.1 hi
  · intro i hi
    rcases List.mem_append.mp hi with hi | hi
    · obtain ⟨hlt, hres, hset⟩ := hb.held i hi
      exact ⟨hlt, hres, hg.test_of_set hlt hset⟩
    · rw [List.mem_range'_1] at hi
      exact hg.owned hb.toSound hi.1 hi.2
  · intro hlt
    exact hg.test_of_set hlt (hb.null_set hlt)

end Backed

theorem span_of_start {d : DirectMap} {c : Extent} (hstart : c.start d = 4096 * first)
    (hsize : c.size.toNat + 32 = 4096 * n) : c.span d = ⟨4096 * first, 4096 * (first + n)⟩ := by
  rw [Extent.span, hstart]
  congr 1
  omega

theorem inMemory_of_start {d : DirectMap} {c : Extent} (hstart : c.start d = 4096 * first)
    (hfirst : first + 1 < 2 ^ 52) : InMemory d c.address := by
  simp only [InMemory, field, Memory.size, Extent.start] at *
  omega

/-- A block over fresh frames is put behind the last one. -/
theorem Formed.append (hf : Formed h m frames cs) {c : Extent} (hn : 0 < n)
    (hfresh : ∀ i, first ≤ i → i < first + n →
      i ∉ frames ∧ i ≠ h.directMap.nullFrame ∧ i + 1 < 2 ^ 52)
    (hstart : c.start h.directMap = 4096 * first) (hsize : c.size.toNat + 32 = 4096 * n)
    {total : UInt64} (htotal : total.toNat = 4096 * (frames.length + n)) :
    Formed { h with tail := c.address, totalBytes := total }
      (setNext h.directMap h.tail c.address
        (write h.directMap ⟨c.address, c.size, c.free, .null, h.tail⟩ m))
      (frames ++ List.range' first n) (cs ++ [c]) ∧
    ∀ x, ¬ InHeaders h.directMap (cs ++ [c]) x →
      (setNext h.directMap h.tail c.address
        (write h.directMap ⟨c.address, c.size, c.free, .null, h.tail⟩ m)).byte x = m.byte x := by
  have htiling : Tiling (frames ++ List.range' first n)
      ((cs ++ [c]).map (Extent.span h.directMap)) := by
    rw [List.map_append, List.map_singleton, span_of_start hstart hsize]
    exact hf.tiling.append hn fun i hlow hhigh => (hfresh i hlow hhigh).1
  obtain ⟨l, e, rfl⟩ := List.eq_nil_or_concat cs |>.resolve_left hf.nonempty
  rw [List.concat_eq_append, List.append_assoc, List.singleton_append] at *
  obtain ⟨hec, hout, -⟩ := htiling.neighbours_apart
  have htail : h.tail = e.address := by
    rw [hf.linked.last_eq, List.getLast?_concat]
    rfl
  have hmem : InMemory h.directMap e.address := hf.inMemory (by simp)
  have hmem' : InMemory h.directMap c.address :=
    inMemory_of_start hstart (hfresh first (Nat.le_refl _) (by omega)).2.2
  have hwrite : OnlyHeader h.directMap c.address m
      (write h.directMap ⟨c.address, c.size, c.free, .null, e.address⟩ m) :=
    onlyHeader_write ⟨c.address, c.size, c.free, .null, e.address⟩
  constructor
  · refine ⟨?_, by simp, htiling, ?_, ?_, ?_⟩
    · have hlinked := hf.linked
      rw [htail] at hlinked ⊢
      rw [List.append_cons]
      refine hlinked.snoc ?_ ?_ ?_
      · rw [read_setNext hmem, hwrite.read_of_apart hec.symm]
      · rw [(onlyHeader_setNext _).read_of_apart hec]
        exact read_write h.directMap ⟨c.address, c.size, c.free, .null, e.address⟩ m hmem'
      · intro f hfl
        obtain ⟨hef, hcf⟩ := hout f (List.mem_append_left _ hfl)
        rw [(onlyHeader_setNext _).read_of_apart hef, hwrite.read_of_apart hcf]
    · rw [htotal, List.length_append, List.length_range']
    · intro i hi
      rcases List.mem_append.mp hi with hi | hi
      · exact hf.below i hi
      · rw [List.mem_range'_1] at hi
        exact (hfresh i hi.1 hi.2).2.2
    · intro hnull
      rcases List.mem_append.mp hnull with hnull | hnull
      · exact hf.named hnull
      · rw [List.mem_range'_1] at hnull
        exact (hfresh _ hnull.1 hnull.2).2.1 rfl
  · intro x hx
    simp only [inHeaders_append, inHeaders_cons, not_or] at hx
    obtain ⟨-, hxe, hxc, -⟩ := hx
    rw [htail, (onlyHeader_setNext _).byte_eq hxe, hwrite.byte_eq hxc]

/-- Claiming pages is refused and changes nothing, or hands out the first free run. -/
theorem claim_cases (p : FrameAllocator) (pages : UInt64) (m : Machine) (hp : p.Placed)
    (hpages : pages.toNat * 4096 < 2 ^ 64) :
    (∃ e, (claim p pages).run m = (.refused (.frames e), m) ∧
      (pages = 0 ∨ p.bitmap.IsFirst m.memory pages.toNat p.totalFrames none)) ∨
    ∃ first t, (claim p pages).run m =
      (.done (p.directMap.virtual ⟨.ofNat (4096 * first)⟩, pages * pageSize),
        { m with memory := t }) ∧ p.Granted m.memory t first pages.toNat := by
  have hbytes : product pages pageSize = .ok (pages * pageSize) := if_pos hpages
  rcases alloc_cases p pages hp with ⟨e, h, he⟩ | ⟨first, t, h, hg⟩
  · refine .inl ⟨e, ?_, he⟩
    simp only [claim, Action.run_bind, Action.run_onRefusal, h, Action.run_refuse]
  · refine .inr ⟨first, t, ?_, hg⟩
    have hbase : (PhysicalFrame.ofIndex first).base = ⟨.ofNat (4096 * first)⟩ := by
      rw [PhysicalFrame.base, start_ofIndex (hg.first_lt hp)]
    simp only [claim, Action.run_bind, Action.run_onRefusal, h, FrameRange.bytes, hbytes,
      Action.run_value_ok, Action.run_pure, FrameRange.base, hbase]

/-- Number of pages that hold a block with a payload of `size` bytes. -/
def growthPages (size : UInt64) : Nat :=
  (size.toNat + 32 + 4095) / 4096

/-- Memory once a block of `n` fresh frames from `first` on is cleared and put behind the last
one. -/
def grownMemory (h : KernelHeap) (first n : Nat) (c : Extent) (m : Memory) : Memory :=
  setNext h.directMap h.tail c.address
    (write h.directMap ⟨c.address, c.size, c.free, .null, h.tail⟩
      (m.fill (4096 * first) (4096 * n) 0))

theorem growthPages_pos (size : UInt64) : 0 < growthPages size := by
  unfold growthPages
  omega

theorem growth_eq {size : UInt64} (hlt : size.toNat + 32 + 4095 < 2 ^ 64) :
    ∃ needed aligned : UInt64, checkedSum size headerSize = some needed ∧
      alignUp needed pageSize = .ok aligned ∧ (aligned / pageSize).toNat = growthPages size := by
  have hneeded : (size + headerSize).toNat = size.toNat + 32 := by
    rw [UInt64.toNat_add, show headerSize.toNat = 32 from rfl, Nat.mod_eq_of_lt (by omega)]
  refine ⟨size + headerSize, .ofNat ((size.toNat + 32 + 4095) / 4096 * 4096),
    checkedSum_eq_some_iff.mpr hneeded.symm, alignUp_pageSize_eq_ok_iff.mpr ?_, ?_⟩
  · rw [hneeded, UInt64.toNat_ofNat']
    omega
  · rw [UInt64.toNat_div, UInt64.toNat_ofNat', show pageSize.toNat = 4096 from rfl, growthPages]
    omega

/-- The free block over `bytes` bytes of fresh frames from `first` on. -/
def freshBlock (d : DirectMap) (first : Nat) (bytes : UInt64) : Extent :=
  ⟨d.virtual ⟨.ofNat (4096 * first)⟩, bytes - headerSize, true⟩

theorem freshBlock_spec (d : DirectMap) {bytes : UInt64} (hfirst : first < 2 ^ 52) (hn : 0 < n)
    (hbytes : bytes.toNat = 4096 * n) :
    (freshBlock d first bytes).start d = 4096 * first ∧
    (freshBlock d first bytes).size.toNat + 32 = 4096 * n ∧
    difference bytes headerSize = .ok (freshBlock d first bytes).size := by
  have hle : headerSize ≤ bytes := by
    rw [UInt64.le_iff_toNat_le, hbytes, show headerSize.toNat = 32 from rfl]
    omega
  refine ⟨?_, ?_, if_pos hle⟩
  · rw [Extent.start, freshBlock, DirectMap.physical_virtual, UInt64.toNat_ofNat']
    omega
  · rw [freshBlock, UInt64.toNat_sub_of_le _ _ hle, hbytes, show headerSize.toNat = 32 from rfl]
    omega

theorem run_extend_of_large {size : UInt64} (hlarge : 2 ^ 64 ≤ size.toNat + 32)
    (w : World KernelHeap) : (extend p size).run w = (.refused (.outOfMemory size), w) := by
  have hnone : checkedSum size headerSize = none := if_neg (Nat.not_lt.mpr hlarge)
  simp only [extend, hnone, Action.run_refuse]

theorem run_extend_of_overflow {size : UInt64} (hword : size.toNat + 32 < 2 ^ 64)
    (hlarge : 2 ^ 64 ≤ size.toNat + 32 + 4095) (w : World KernelHeap) :
    (extend p size).run w = (.stopped (.overflow .addition), w) := by
  have hneeded : (size + headerSize).toNat = size.toNat + 32 := by
    rw [UInt64.toNat_add, show headerSize.toNat = 32 from rfl, Nat.mod_eq_of_lt hword]
  have hsome : checkedSum size headerSize = some (size + headerSize) :=
    checkedSum_eq_some_iff.mpr hneeded.symm
  have halign : alignUp (size + headerSize) pageSize = .error (.overflow .addition) :=
    alignUp_pageSize_of_overflow (by omega)
  simp only [extend, hsome, halign, Action.run_bind, Action.run_value_error]

/-- Growing the heap is refused or stopped and changes nothing, or puts a free block of fresh frames
behind the last one. -/
theorem extend_cases {w : World KernelHeap} (hf : Formed w.part w.machine.memory frames cs)
    (hb : Backed p w.part.directMap w.machine.memory frames) (size : UInt64) :
    (∃ e, (extend p size).run w = (.refused e, w) ∧
      (2 ^ 64 ≤ size.toNat + 32 ∧ e = .outOfMemory size ∨
        size.toNat + 32 + 4095 < 2 ^ 64 ∧ ∃ e', e = .frames e' ∧
          p.bitmap.IsFirst w.machine.memory (growthPages size) p.totalFrames none)) ∨
    (size.toNat + 32 < 2 ^ 64 ∧ 2 ^ 64 ≤ size.toNat + 32 + 4095 ∧
      (extend p size).run w = (.stopped (.overflow .addition), w)) ∨
    ∃ first t c total reports, (extend p size).run w =
        (.done (), ⟨⟨grownMemory w.part first (growthPages size) c t, reports, w.machine.requests⟩,
          { w.part with tail := c.address, totalBytes := total }⟩) ∧
      p.Granted w.machine.memory t first (growthPages size) ∧
      c.start w.part.directMap = 4096 * first ∧
      c.size.toNat + 32 = 4096 * growthPages size ∧ c.free = true ∧
      total.toNat = 4096 * (frames.length + growthPages size) := by
  by_cases hword : 2 ^ 64 ≤ size.toNat + 32
  · exact .inl ⟨.outOfMemory size, run_extend_of_large hword w, .inl ⟨hword, rfl⟩⟩
  by_cases hlarge : 2 ^ 64 ≤ size.toNat + 32 + 4095
  · exact .inr (.inl ⟨Nat.not_le.mp hword, hlarge,
      run_extend_of_overflow (Nat.not_le.mp hword) hlarge w⟩)
  obtain ⟨needed, aligned, hneeded, haligned, hpages⟩ := growth_eq (Nat.not_le.mp hlarge)
  have hpos := growthPages_pos size
  have hsize : growthPages size * 4096 < 2 ^ 64 := by
    unfold growthPages
    omega
  rcases claim_cases p (aligned / pageSize) w.machine hb.toPlaced (by rwa [hpages]) with
    ⟨e, hclaim, he⟩ | ⟨first, t, hclaim, hg⟩
  · refine .inl ⟨.frames e, ?_, .inr ⟨Nat.not_le.mp hlarge, e, rfl, ?_⟩⟩
    · simp only [extend, hneeded, haligned, Action.run_bind, Action.run_value_ok,
        World.run_onMachine, hclaim]
    · rw [hpages] at he
      refine he.resolve_left fun hzero => ?_
      rw [hzero] at hpages
      exact absurd hpages (Nat.ne_of_lt hpos)
  · rw [hb.directMap] at hclaim
    rw [hpages] at hg
    have hbytes : (aligned / pageSize * pageSize).toNat = 4096 * growthPages size := by
      rw [UInt64.toNat_mul, hpages, show pageSize.toNat = 4096 from rfl, Nat.mod_eq_of_lt hsize,
        Nat.mul_comm]
    have hfirst := hg.first_lt hb.toPlaced
    have hbase : (UInt64.ofNat (4096 * first)).toNat = 4096 * first := by
      rw [UInt64.toNat_ofNat']
      omega
    obtain ⟨hstart, hblock, hdifference⟩ := freshBlock_spec w.part.directMap hfirst hpos hbytes
    have hlength := (hb.granted hg).length_lt
    rw [List.length_append, List.length_range'] at hlength
    obtain ⟨total, htotal⟩ : ∃ total : UInt64,
        w.part.totalBytes.toNat + (aligned / pageSize * pageSize).toNat = total.toNat := by
      refine ⟨.ofNat (4096 * (frames.length + growthPages size)), ?_⟩
      rw [hf.total, hbytes, UInt64.toNat_ofNat']
      omega
    refine .inr (.inr ⟨first, t, freshBlock w.part.directMap first (aligned / pageSize * pageSize),
      total, w.machine.reports.push (.heapExtended (aligned / pageSize * pageSize)
        (w.part.directMap.virtual ⟨.ofNat (4096 * first)⟩) total), ?_, hg, hstart, hblock, rfl, ?_⟩)
    · simp only [extend, hneeded, haligned, Action.run_bind, Action.run_value_ok,
        World.run_onMachine, hclaim, Action.run_get, hdifference, World.run_store, setTail,
        Action.run_modify, sum_eq_ok_iff.mpr htotal, World.run_report,
        DirectMap.physical_virtual, hbase, hbytes, grownMemory, freshBlock]
    · rw [← htotal, hf.total, hbytes, Nat.mul_add]

end MemoryManager.KernelHeap
