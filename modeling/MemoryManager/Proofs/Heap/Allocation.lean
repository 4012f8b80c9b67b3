import MemoryManager.Proofs.Heap.Growth

namespace MemoryManager.KernelHeap

open FrameAllocator HeapBlock

variable {h : KernelHeap} {p : FrameAllocator} {m t : Memory} {frames : List Nat}
  {cs l r : List Extent} {c : Extent} {first n : Nat} {w : World KernelHeap}

/-- The payload size that serves a request, were words unbounded: at least one granule, and whole
granules only. -/
def payloadSize (size : Nat) : Nat :=
  if size = 0 then 16 else (size + 15) / 16 * 16

theorem payloadSize_spec (size : Nat) :
    0 < payloadSize size ∧ 16 ∣ payloadSize size ∧ size ≤ payloadSize size := by
  unfold payloadSize
  split <;> omega

theorem roundedSize?_eq_some_iff {size s : UInt64} :
    roundedSize? size = some s ↔ s.toNat = payloadSize size.toNat := by
  rw [roundedSize?, payloadSize]
  split
  · rename_i hzero
    rw [hzero, Option.some.injEq, ← UInt64.toNat_inj, show granule.toNat = 16 from rfl,
      UInt64.toNat_zero, if_pos rfl, eq_comm]
  · rename_i hzero
    have hpos : size.toNat ≠ 0 := fun hn => hzero (UInt64.toNat_inj.mp hn)
    have hgranule : (granule - 1).toNat = 15 := rfl
    have hmask (v : UInt64) : (v &&& ~~~(granule - 1)).toNat = v.toNat / 16 * 16 :=
      toNat_and_not (k := 4) rfl v
    rw [checkedSum, hgranule, show UInt64.size = 2 ^ 64 from rfl, if_neg hpos]
    split
    · rename_i hlt
      rw [Option.map_some, Option.some.injEq, ← UInt64.toNat_inj, hmask, UInt64.toNat_add, hgranule,
        Nat.mod_eq_of_lt hlt, eq_comm]
    · have hword := s.toNat_lt
      simp only [Option.map_none, reduceCtorEq, false_iff]
      omega

theorem roundedSize?_eq_none_iff {size : UInt64} :
    roundedSize? size = none ↔ 2 ^ 64 ≤ payloadSize size.toNat := by
  constructor
  · intro hnone
    by_contra hlt
    have hsome : roundedSize? size = some (.ofNat (payloadSize size.toNat)) :=
      roundedSize?_eq_some_iff.mpr (UInt64.toNat_ofNat_of_lt' (Nat.not_le.mp hlt))
    rw [hnone] at hsome
    cases hsome
  · intro hlarge
    refine Option.eq_none_iff_forall_ne_some.mpr fun s hs => ?_
    have hword := s.toNat_lt
    rw [roundedSize?_eq_some_iff.mp hs] at hword
    exact Nat.not_le.mpr hword hlarge

theorem roundedSize?_spec {size s : UInt64} (h : roundedSize? size = some s) :
    0 < s.toNat ∧ 16 ∣ s.toNat ∧ size.toNat ≤ s.toNat := by
  rw [roundedSize?_eq_some_iff.mp h]
  exact payloadSize_spec size.toNat

theorem grown_spec (hf : Formed h m frames cs) (hb : Backed p h.directMap m frames)
    (hg : p.Granted m t first n) (hstart : c.start h.directMap = 4096 * first)
    (hsize : c.size.toNat + 32 = 4096 * n) {total : UInt64}
    (htotal : total.toNat = 4096 * (frames.length + n)) :
    Formed { h with tail := c.address, totalBytes := total } (grownMemory h first n c t)
      (frames ++ List.range' first n) (cs ++ [c]) ∧
    Backed p h.directMap (grownMemory h first n c t) (frames ++ List.range' first n) ∧
    (∀ i < p.bitmap.size, p.bitmap.test (grownMemory h first n c t) i = p.bitmap.test t i) ∧
    ∀ x, p.bitmap.Outside x → x / 4096 ∉ List.range' first n → ¬ InHeaders h.directMap cs x →
      (grownMemory h first n c t).byte x = m.byte x := by
  have hfresh := fun i hlow hhigh => hb.fresh (i := i) hg hlow hhigh
  have htotalFrames := hb.total_lt
  -- the fresh frames are cleared before the header is written
  have hclear : ∀ x, p.bitmap.Outside x → x / 4096 ∉ List.range' first n →
      (t.fill (4096 * first) (4096 * n) 0).byte x = m.byte x := by
    intro x hx hnew
    rw [List.mem_range'_1] at hnew
    rw [Memory.byte_fill, if_neg (by omega), hg.bytes x hx]
  have hcleared : Formed h (t.fill (4096 * first) (4096 * n) 0) frames cs := by
    refine hf.congr fun x hx => ?_
    have hmem := hf.frame_of_inHeaders hx
    refine hclear x (hb.outside hmem) fun hnew => ?_
    rw [List.mem_range'_1] at hnew
    exact (hfresh _ hnew.1 hnew.2).2.1 hmem
  obtain ⟨hgrown, hbytes⟩ := hcleared.append (c := c) hg.pos (fun i hlow hhigh => by
    obtain ⟨hlt, hnot, hnull, -⟩ := hfresh i hlow hhigh
    exact ⟨hnot, hnull, by omega⟩) hstart hsize htotal
  have hbacked := hb.granted hg
  have hkept : ∀ x, ¬ p.bitmap.Outside x → (grownMemory h first n c t).byte x = t.byte x := by
    intro x hx
    have hmem : x / 4096 ∉ frames ++ List.range' first n := fun hmem => hx (hbacked.outside hmem)
    rw [grownMemory, hbytes x fun hin => hmem (hgrown.frame_of_inHeaders hin), Memory.byte_fill,
      if_neg]
    intro hx'
    refine hmem (List.mem_append_right _ (List.mem_range'_1.mpr ?_))
    omega
  refine ⟨hgrown, hbacked.congr hkept, fun i hi => test_congr hkept hi, ?_⟩
  · intro x hx hnew hold
    rw [grownMemory, hbytes, hclear x hx hnew]
    rw [inHeaders_append, not_or]
    refine ⟨hold, ?_⟩
    simp only [inHeaders_cons, inHeaders_nil, or_false, hstart]
    rw [List.mem_range'_1] at hnew
    have hpos := hg.pos
    omega

/-- One block over fresh frames is a heap. -/
theorem Formed.single {d : DirectMap} {c : Extent} (total : UInt64) (hn : 0 < n)
    (hfresh : ∀ i, first ≤ i → i < first + n → i ≠ d.nullFrame ∧ i + 1 < 2 ^ 52)
    (hstart : c.start d = 4096 * first) (hsize : c.size.toNat + 32 = 4096 * n)
    (htotal : total.toNat = 4096 * n) :
    Formed ⟨c.address, c.address, total, d⟩
      (write d ⟨c.address, c.size, c.free, .null, .null⟩ m) (List.range' first n) [c] := by
  have hmem : InMemory d c.address :=
    inMemory_of_start hstart (hfresh first (Nat.le_refl _) (by omega)).2
  refine ⟨⟨rfl, .null, ?_, rfl, rfl⟩, by simp, ?_, ?_, ?_, ?_⟩
  · exact read_write d ⟨c.address, c.size, c.free, .null, .null⟩ m hmem
  · rw [List.map_singleton, span_of_start hstart hsize]
    exact Tiling.nil.append hn fun _ _ _ => List.not_mem_nil
  · rw [htotal, List.length_range']
  · intro i hi
    rw [List.mem_range'_1] at hi
    exact (hfresh i hi.1 hi.2).2
  · intro hnull
    rw [List.mem_range'_1] at hnull
    exact (hfresh _ hnull.1 hnull.2).1 rfl

/-- The heap `h` is new: its only block is `c`, which is free and fills the sixteen frames from
`first` on. The memory `u` is the one in which the frames are handed out already. -/
structure Created (p : FrameAllocator) (m : Machine) (h : KernelHeap) (t : Machine) (u : Memory)
    (first : Nat) (c : Extent) : Prop where
  directMap : h.directMap = p.directMap
  granted : p.Granted m.memory u first 16
  start : c.start p.directMap = 4096 * first
  size : c.size.toNat + 32 = 4096 * 16
  free : c.free = true
  formed : Formed h t.memory (List.range' first 16) [c]
  backed : Backed p p.directMap t.memory (List.range' first 16)
  bits : ∀ i < p.totalFrames, p.bitmap.test t.memory i = p.bitmap.test u i
  bytes : ∀ x, p.bitmap.Outside x → x / 4096 ∉ List.range' first 16 →
    t.memory.byte x = m.memory.byte x

/-- Creating a heap is refused and changes nothing, or makes one free block of the first sixteen
contiguous free frames. -/
theorem init_cases {m : Machine} (hb : Backed p p.directMap m.memory []) :
    (∃ e, (init p).run m = (.refused (.frames e), m) ∧
      p.bitmap.IsFirst m.memory 16 p.totalFrames none) ∨
    ∃ h t u first c, (init p).run m = (.done h, t) ∧ Created p m h t u first c := by
  rcases claim_cases p initialHeapPages m hb.toPlaced (by decide) with
    ⟨e, hclaim, he⟩ | ⟨first, u, hclaim, hg⟩
  · refine .inl ⟨e, ?_, he.resolve_left (by decide)⟩
    simp only [init, Action.run_bind, hclaim]
  · obtain ⟨c, hc⟩ : ∃ c, c = freshBlock p.directMap first (initialHeapPages * pageSize) :=
      ⟨_, rfl⟩
    have hfirst := hg.first_lt hb.toPlaced
    have hbytes : (initialHeapPages * pageSize).toNat = 4096 * 16 := rfl
    obtain ⟨hstart, hsize, hdifference⟩ := freshBlock_spec p.directMap hfirst (by decide) hbytes
    rw [← hc] at hstart hsize
    have hfresh := fun i hlow hhigh => hb.fresh (i := i) hg hlow hhigh
    have hformed := Formed.single (m := u) (c := c) (initialHeapPages * pageSize) hg.pos
      (fun i hlow hhigh => by
        obtain ⟨hlt, -, hnull, -⟩ := hfresh i hlow hhigh
        have htotal := hb.total_lt
        exact ⟨hnull, by omega⟩) hstart hsize rfl
    have hbacked := hb.granted hg
    rw [List.nil_append] at hbacked
    have hheader : OnlyHeader p.directMap c.address u
        (write p.directMap ⟨c.address, c.size, c.free, .null, .null⟩ u) :=
      onlyHeader_write ⟨c.address, c.size, c.free, .null, .null⟩
    have hwrite : ∀ x, x / 4096 ∉ List.range' first 16 →
        (write p.directMap ⟨c.address, c.size, c.free, .null, .null⟩ u).byte x = u.byte x := by
      intro x hx
      rw [List.mem_range'_1] at hx
      apply hheader.byte_eq
      omega
    have hkept : ∀ x, ¬ p.bitmap.Outside x →
        (write p.directMap ⟨c.address, c.size, c.free, .null, .null⟩ u).byte x = u.byte x :=
      fun x hx => hwrite x fun hmem => hx (hbacked.outside hmem)
    refine .inr ⟨_, ⟨write p.directMap ⟨c.address, c.size, c.free, .null, .null⟩ u,
      m.reports.push (.heapReady (initialHeapPages * pageSize) c.address), m.requests⟩, u, first, c,
      ?_, rfl, hg, hstart, hsize, by rw [hc, freshBlock], hformed, hbacked.congr hkept, ?_, ?_⟩
    · simp only [init, Action.run_bind, hclaim, hdifference, Action.run_value_ok, Machine.store,
        Action.run_modify, Machine.report, Action.run_pure, hc, freshBlock]
    · intro i hi
      exact test_congr hkept (Nat.lt_of_lt_of_le hi p.total_le_size)
    · intro x hx hnew
      rw [hwrite x hnew, hg.bytes x hx]

theorem created_of_init {h : KernelHeap} {m t : Machine} (hb : Backed p p.directMap m.memory [])
    (hheap : (init p).run m = (.done h, t)) : ∃ u first c, Created p m h t u first c := by
  rcases init_cases hb with ⟨e, hrun, -⟩ | ⟨h', t', u, first, c, hrun, hcreated⟩
  · cases hrun.symm.trans hheap
  · cases hrun.symm.trans hheap
    exact ⟨u, first, c, hcreated⟩

/-- The block `c` between `l` and `r` serves a request for `s` bytes, after the heap has gained the
frames `new`. -/
structure Serves (p : FrameAllocator) (frames : List Nat) (w w' : World KernelHeap) (s : UInt64)
    (new : List Nat) (l : List Extent) (c : Extent) (r : List Extent) : Prop where
  fits : Fits s c
  first : ∀ e ∈ l, ¬ Fits s e
  directMap : w'.part.directMap = w.part.directMap
  head : w'.part.head = w.part.head
  formed : Formed w'.part w'.machine.memory (frames ++ new) (l ++ served c s ++ r)
  backed : Backed p w'.part.directMap w'.machine.memory (frames ++ new)
  fresh : ∀ i ∈ new, i < p.totalFrames ∧ p.bitmap.test w.machine.memory i = false
  bits : ∀ i < p.bitmap.size, p.bitmap.test w'.machine.memory i =
    if i ∈ new then true else p.bitmap.test w.machine.memory i
  bytes : ∀ x, p.bitmap.Outside x → x / 4096 ∉ new →
    ¬ InHeaders w'.part.directMap (l ++ served c s ++ r) x →
      w'.machine.memory.byte x = w.machine.memory.byte x

theorem Backed.serves {s : UInt64} {w : World KernelHeap} {tail : VirtualAddress}
    (hb : Backed p w.part.directMap w.machine.memory frames) (hfits : Fits s c)
    (hfirst : ∀ e ∈ l, ¬ Fits s e)
    (hf : Formed { w.part with tail := tail } t frames (l ++ served c s ++ r))
    (hbytes : ∀ x, ¬ InHeaders w.part.directMap (l ++ served c s ++ r) x →
      t.byte x = w.machine.memory.byte x) :
    Serves p frames w ⟨{ w.machine with memory := t }, { w.part with tail := tail }⟩ s [] l c
      r := by
  have hkept : ∀ x, ¬ p.bitmap.Outside x → t.byte x = w.machine.memory.byte x :=
    fun x hx => hbytes x fun hin => hx (hb.outside (hf.frame_of_inHeaders hin))
  refine ⟨hfits, hfirst, rfl, rfl, ?_, ?_, fun i hi => absurd hi List.not_mem_nil, ?_, ?_⟩
  · rw [List.append_nil]
    exact hf
  · rw [List.append_nil]
    exact hb.congr hkept
  · intro i hi
    rw [if_neg List.not_mem_nil]
    exact test_congr hkept hi
  · intro x _ _ hin
    exact hbytes x hin

/-- The bits of the frames among all bits. -/
theorem Serves.test {s : UInt64} {new : List Nat} {w w' : World KernelHeap}
    (h : Serves p frames w w' s new l c r) (i : Nat) (hi : i < p.totalFrames) :
    p.bitmap.test w'.machine.memory i =
      if i ∈ new then true else p.bitmap.test w.machine.memory i :=
  h.bits i (Nat.lt_of_lt_of_le hi p.total_le_size)

/-- No two blocks are the first one that is large enough. -/
theorem first_fit_unique {s : UInt64} {l' r' : List Extent} {c' : Extent} (hl : ∀ e ∈ l, ¬ Fits s e)
    (hc : Fits s c) (hl' : ∀ e ∈ l', ¬ Fits s e) (hc' : Fits s c')
    (heq : l ++ c :: r = l' ++ c' :: r') : l = l' ∧ c = c' ∧ r = r' := by
  induction l generalizing l' with
  | nil =>
    cases l' with
    | nil => exact ⟨rfl, List.cons.inj heq⟩
    | cons e l' =>
      obtain ⟨rfl, -⟩ := List.cons.inj heq
      exact absurd hc (hl' c List.mem_cons_self)
  | cons e l ih =>
    cases l' with
    | nil =>
      obtain ⟨rfl, -⟩ := List.cons.inj heq
      exact absurd hc' (hl e List.mem_cons_self)
    | cons e' l' =>
      obtain ⟨rfl, htail⟩ := List.cons.inj heq
      obtain ⟨rfl, hrest⟩ := ih (List.forall_mem_cons.mp hl).2 (List.forall_mem_cons.mp hl').2 htail
      exact ⟨rfl, hrest⟩

/-- A free block over the pages that the heap grows by is large enough. -/
theorem fits_of_growth {s : UInt64} (hfree : c.free = true)
    (hsize : c.size.toNat + 32 = 4096 * growthPages s) : Fits s c := by
  refine ⟨hfree, ?_⟩
  unfold growthPages at hsize
  omega

/-- Serving a request after the heap has grown from `w` to `w₁`. -/
theorem Serves.grown {s : UInt64} {w w₁ w' : World KernelHeap}
    (h : Serves p (frames ++ List.range' first n) w₁ w' s [] l c r)
    (hdirect : w₁.part.directMap = w.part.directMap) (hhead : w₁.part.head = w.part.head)
    (hb : Backed p w.part.directMap w.machine.memory frames)
    (hg : p.Granted w.machine.memory t first n)
    (hbits : ∀ i < p.bitmap.size, p.bitmap.test w₁.machine.memory i = p.bitmap.test t i)
    (hbytes : ∀ x, p.bitmap.Outside x → x / 4096 ∉ List.range' first n →
      ¬ InHeaders w'.part.directMap l x → w₁.machine.memory.byte x = w.machine.memory.byte x) :
    Serves p frames w w' s (List.range' first n) l c r := by
  have hformed := h.formed
  have hbacked := h.backed
  rw [List.append_nil] at hformed hbacked
  refine ⟨h.fits, h.first, h.directMap.trans hdirect, h.head.trans hhead, hformed, hbacked, ?_, ?_,
    ?_⟩
  · intro i hi
    rw [List.mem_range'_1] at hi
    obtain ⟨hlt, -, -, -, hclear⟩ := hb.fresh hg hi.1 hi.2
    exact ⟨hlt, hclear⟩
  · intro i hi
    rw [h.bits i hi, if_neg List.not_mem_nil, hbits i hi, hg.bits i hi]
    simp only [List.mem_range'_1]
  · intro x hx hnew hin
    rw [h.bytes x hx List.not_mem_nil hin]
    refine hbytes x hx hnew fun hl => hin ?_
    rw [inHeaders_append, inHeaders_append]
    exact .inl (.inl hl)

/-- How a request for `size` bytes ends in a heap with the blocks `cs`. -/
inductive Ended (p : FrameAllocator) (frames : List Nat) (cs : List Extent) (size : UInt64)
    (w : World KernelHeap) : Outcome HeapError VirtualAddress → World KernelHeap → Prop
  /-- Payload and header are no number of bytes that a word can hold. -/
  | tooLarge (k : UInt64) (hlarge : 2 ^ 64 ≤ payloadSize size.toNat + 32) :
      Ended p frames cs size w (.refused (.outOfMemory k)) w
  /-- Payload and header are, but not once they are rounded up to pages. -/
  | overflow (hword : payloadSize size.toNat + 32 < 2 ^ 64)
      (hlarge : 2 ^ 64 ≤ payloadSize size.toNat + 32 + 4095) :
      Ended p frames cs size w (.stopped (.overflow .addition)) w
  | exhausted {s : UInt64} (e : FrameError) (hround : roundedSize? size = some s)
      (hpages : s.toNat + 32 + 4095 < 2 ^ 64) (hnone : ∀ e ∈ cs, ¬ Fits s e)
      (hfirst : p.bitmap.IsFirst w.machine.memory (growthPages s) p.totalFrames none) :
      Ended p frames cs size w (.refused (.frames e)) w
  | found {s : UInt64} {l r : List Extent} {c : Extent} {w' : World KernelHeap}
      (hround : roundedSize? size = some s) (hcs : cs = l ++ c :: r)
      (hserves : Serves p frames w w' s [] l c r) : Ended p frames cs size w (.done c.payload) w'
  | grown {s : UInt64} {c : Extent} {first : Nat} {t : Memory} {w' : World KernelHeap}
      (hround : roundedSize? size = some s) (hnone : ∀ e ∈ cs, ¬ Fits s e)
      (hstart : c.start w.part.directMap = 4096 * first)
      (hsize : c.size.toNat + 32 = 4096 * growthPages s)
      (hgranted : p.Granted w.machine.memory t first (growthPages s))
      (hserves : Serves p frames w w' s (List.range' first (growthPages s)) cs c []) :
      Ended p frames cs size w (.done c.payload) w'

theorem alloc_ended (hf : Formed w.part w.machine.memory frames cs)
    (hb : Backed p w.part.directMap w.machine.memory frames) (size : UInt64) :
    Ended p frames cs size w ((alloc p size).run w).1 ((alloc p size).run w).2 := by
  cases hround : roundedSize? size with
  | none =>
    have hrun : (alloc p size).run w = (.refused (.outOfMemory size), w) := by
      simp only [alloc, hround, Action.run_refuse]
    rw [hrun]
    have hlarge := roundedSize?_eq_none_iff.mp hround
    exact .tooLarge size (by omega)
  | some s =>
    have hs := roundedSize?_eq_some_iff.mp hround
    obtain ⟨hpos, hgranule, -⟩ := roundedSize?_spec hround
    rcases takeFirst?_cases HeapError hf hpos hgranule with
      ⟨hsearch, hnone⟩ | ⟨l, c, r, t, tail, hcs, hfits, hfirst, hsearch, hf', hbytes⟩
    · rcases extend_cases hf hb s with ⟨e, hextend, hwhy⟩ | ⟨hword, hlarge, hextend⟩ |
        ⟨first, u, c, total, reports, hextend, hg, hstart, hsize, hfree, htotal⟩
      · have hrun : (alloc p size).run w = (.refused e, w) := by
          simp only [alloc, hround, Action.run_bind, hsearch, hextend]
        rw [hrun]
        rcases hwhy with ⟨hlarge, rfl⟩ | ⟨hpages, e, rfl, hfirst⟩
        · exact .tooLarge s (by rwa [← hs])
        · exact .exhausted e hround hpages hnone hfirst
      · have hrun : (alloc p size).run w = (.stopped (.overflow .addition), w) := by
          simp only [alloc, hround, Action.run_bind, hsearch, hextend]
        rw [hrun]
        exact .overflow (by rwa [← hs]) (by rwa [← hs])
      · obtain ⟨hgrown, hbacked, hbits, hkept⟩ := grown_spec hf hb hg hstart hsize htotal
        have hfitsc := fits_of_growth hfree hsize
        have hroom : c ∈ cs ++ [c] := by simp
        obtain ⟨l, c', r, t, tail, hcs, hfits, hfirst, hagain, hf', hbytes⟩ :=
          (takeFirst?_cases HeapError (w := ⟨⟨grownMemory w.part first (growthPages s) c u, reports,
            w.machine.requests⟩, { w.part with tail := c.address, totalBytes := total }⟩)
            hgrown hpos hgranule).resolve_left fun hmissed => hmissed.2 c hroom hfitsc
        -- no older block was large enough, so the second search takes the new one
        obtain ⟨rfl, rfl, rfl⟩ := first_fit_unique hnone hfitsc hfirst hfits hcs
        have hserves := hbacked.serves (w := ⟨⟨grownMemory w.part first (growthPages s) c u,
          reports, w.machine.requests⟩, { w.part with tail := c.address, totalBytes := total }⟩)
          hfits hfirst hf' hbytes
        have hrun : (alloc p size).run w = (.done c.payload,
            ⟨⟨t, reports, w.machine.requests⟩, { w.part with tail, totalBytes := total }⟩) := by
          simp only [alloc, hround, Action.run_bind, hsearch, hextend, hagain, Action.run_pure]
        rw [hrun]
        exact .grown hround hnone hstart hsize hg (hserves.grown rfl rfl hb hg hbits hkept)
    · have hrun : (alloc p size).run w = (.done c.payload,
          ⟨{ w.machine with memory := t }, { w.part with tail }⟩) := by
        simp only [alloc, hround, Action.run_bind, hsearch, Action.run_pure]
      rw [hrun]
      exact .found hround hcs (hb.serves hfits hfirst hf' hbytes)

/-- A request is refused or stopped and changes nothing, or is served by the first block that is
large enough. If there was none, that is one over fresh frames behind all others. -/
theorem alloc_cases (hf : Formed w.part w.machine.memory frames cs)
    (hb : Backed p w.part.directMap w.machine.memory frames) (size : UInt64) :
    (∃ e, (alloc p size).run w = (.refused e, w)) ∨
    (alloc p size).run w = (.stopped (.overflow .addition), w) ∨
    ∃ s new l c r w', roundedSize? size = some s ∧ (alloc p size).run w = (.done c.payload, w') ∧
      Serves p frames w w' s new l c r ∧
      (new = [] ∧ cs = l ++ c :: r ∨
        (∀ e ∈ cs, ¬ Fits s e) ∧ l = cs ∧ r = [] ∧ c.size.toNat + 32 = 4096 * growthPages s ∧
          ∃ first u, new = List.range' first (growthPages s) ∧
            c.start w.part.directMap = 4096 * first ∧
            p.Granted w.machine.memory u first (growthPages s)) := by
  have hended := alloc_ended hf hb size
  generalize (alloc p size).run w = ended at hended ⊢
  obtain ⟨o, w'⟩ := ended
  cases hended with
  | tooLarge k => exact .inl ⟨_, rfl⟩
  | overflow => exact .inr (.inl rfl)
  | exhausted e => exact .inl ⟨_, rfl⟩
  | found hround hcs hserves =>
    exact .inr (.inr ⟨_, [], _, _, _, _, hround, rfl, hserves, .inl ⟨rfl, hcs⟩⟩)
  | grown hround hnone hstart hsize hgranted hserves =>
    exact .inr (.inr ⟨_, _, _, _, _, _, hround, rfl, hserves,
      .inr ⟨hnone, rfl, rfl, hsize, _, _, rfl, hstart, hgranted⟩⟩)

end MemoryManager.KernelHeap
