import MemoryManager.Proofs.Frames.Ownership
import MemoryManager.Proofs.Heap.Allocation
import MemoryManager.Proofs.Heap.Release

namespace MemoryManager

open FrameAllocator KernelHeap

/-- An allocation that was not released: the address that the heap returned, and the rounded
size. -/
structure Allocation where
  address : VirtualAddress
  size : UInt64
  deriving DecidableEq

/-- A byte of the payload, by its physical address. -/
def Allocation.Holds (d : DirectMap) (a : Allocation) (x : Nat) : Prop :=
  (d.physical a.address).value.toNat ≤ x ∧ x < (d.physical a.address).value.toNat + a.size.toNat

/-- A heap on a machine, the frames that it obtained from the frame allocator, and what it handed
out. -/
structure HeapState where
  world : World KernelHeap
  frames : List Nat
  live : List Allocation

/-- A step of a system with a heap: a request to the heap, or one to its frame allocator by someone
else. -/
inductive HeapRequest where
  | alloc (size : UInt64)
  | release (a : VirtualAddress)
  | frames (q : FrameRequest)

namespace HeapState

variable {p : FrameAllocator} {s : HeapState} {cs l r : List Extent} {c : Extent}

abbrev memory (s : HeapState) : Memory :=
  s.world.machine.memory

/-- The frames that were free before and are not any more. -/
def gained (p : FrameAllocator) (m t : Memory) : List Nat :=
  (List.range p.totalFrames).filter fun i => !p.bitmap.test m i && p.bitmap.test t i

def handedOut (live : List Allocation) (size : UInt64) :
    Outcome HeapError VirtualAddress → List Allocation
  | .done a => live ++ ((roundedSize? size).map (Allocation.mk a)).toList
  | _ => live

def perform (p : FrameAllocator) (s : HeapState) : HeapRequest → HeapState
  | .alloc size =>
    let o := (KernelHeap.alloc p size).run s.world
    ⟨o.2, s.frames ++ gained p s.memory o.2.machine.memory, handedOut s.live size o.1⟩
  | .release a =>
    ⟨((KernelHeap.release a : Action (World KernelHeap) Empty Unit).run s.world).2, s.frames,
      s.live.filter fun b => b.address ≠ a⟩
  | .frames q => ⟨⟨q.run p s.world.machine, s.world.part⟩, s.frames, s.live⟩

theorem live_release (p : FrameAllocator) (s : HeapState) (a : VirtualAddress) :
    (s.perform p (.release a)).live = s.live.filter fun b => b.address ≠ a := rfl

theorem frames_release (p : FrameAllocator) (s : HeapState) (a : VirtualAddress) :
    (s.perform p (.release a)).frames = s.frames := rfl

/-- What clients may do: they release nothing but what they hold, and leave alone the bitmap, the
frames of the heap but for the payloads that they hold, and the frame that appears at the null
address. -/
def Allowed (p : FrameAllocator) (s : HeapState) : HeapRequest → Prop
  | .alloc _ => True
  | .release a => ∃ b ∈ s.live, b.address = a
  | .frames (.elsewhere m) => ∀ x, (¬ p.bitmap.Outside x ∨ x / 4096 ∈ s.frames ∧
      ∀ b ∈ s.live, ¬ b.Holds s.world.part.directMap x) → m.memory.byte x = s.memory.byte x
  | .frames q => ∀ i, q.Gives i → i ∉ s.frames ∧ i ≠ s.world.part.directMap.nullFrame

/-- What others may do before there is a heap. -/
def AllowedBefore (p : FrameAllocator) (m : Memory) : FrameRequest → Prop
  | .elsewhere t => ∀ x, ¬ p.bitmap.Outside x → t.memory.byte x = m.byte x
  | q => ¬ q.Gives p.directMap.nullFrame

/-- The machines that others can make of one before there is a heap. -/
inductive Before (p : FrameAllocator) (m : Machine) : Machine → Prop
  | refl : Before p m m
  | step {t : Machine} (q : FrameRequest) (ht : Before p m t) (hq : AllowedBefore p t.memory q) :
      Before p m (q.run p t)

/-- The states that runs of allowed requests lead to: the frame allocator is built at boot, others
use it, a heap is created, and then the heap and others use it. -/
inductive Reachable (boot : BootInfo) (p : FrameAllocator) : HeapState → Prop
  | start {h : KernelHeap} {m₀ m₁ m₂ m₃ : Machine}
      (hboot : (FrameAllocator.init boot).run m₀ = (.done p, m₁)) (hbefore : Before p m₁ m₂)
      (hheap : (KernelHeap.init p).run m₂ = (.done h, m₃)) :
      Reachable boot p ⟨⟨m₃, h⟩, gained p m₂.memory m₃.memory, []⟩
  | step {s : HeapState} (q : HeapRequest) (hs : Reachable boot p s) (hq : s.Allowed p q) :
      Reachable boot p (s.perform p q)

/-- The invariant: the used blocks of the heap are what is handed out. -/
structure Sound (p : FrameAllocator) (s : HeapState) (cs : List Extent) : Prop where
  formed : Formed s.world.part s.memory s.frames cs
  backed : Backed p s.world.part.directMap s.memory s.frames
  live : (s.live.map Allocation.address).Perm ((inUse cs).map Extent.payload)
  fits : ∀ a ∈ s.live, ∀ c ∈ cs, c.free = false → c.payload = a.address →
    a.size.toNat ≤ c.size.toNat

theorem Sound.extents_eq (h : s.Sound p cs) : extents s.world = cs :=
  h.formed.map_extent_blocks

theorem gained_perm {m t : Memory} {new : List Nat} (hnodup : new.Nodup)
    (hnew : ∀ i ∈ new, i < p.totalFrames ∧ p.bitmap.test m i = false)
    (hbits : ∀ i < p.totalFrames,
      p.bitmap.test t i = if i ∈ new then true else p.bitmap.test m i) :
    new.Perm (gained p m t) := by
  rw [gained, List.perm_ext_iff_of_nodup hnodup (List.nodup_range.filter _)]
  intro i
  rw [List.mem_filter, List.mem_range, Bool.and_eq_true, Bool.not_eq_true']
  constructor
  · intro hi
    obtain ⟨hlt, hclear⟩ := hnew i hi
    exact ⟨hlt, hclear, by rw [hbits i hlt, if_pos hi]⟩
  · intro hparts
    obtain ⟨hlt, hclear, hset⟩ := hparts
    by_contra hi
    rw [hbits i hlt, if_neg hi, hclear] at hset
    cases hset

/-- The frames that are gained are listed lowest first. -/
theorem gained_eq {m t : Memory} {new : List Nat} (hlt : new.Pairwise (· < ·))
    (hnew : ∀ i ∈ new, i < p.totalFrames ∧ p.bitmap.test m i = false)
    (hbits : ∀ i < p.totalFrames,
      p.bitmap.test t i = if i ∈ new then true else p.bitmap.test m i) :
    gained p m t = new := by
  have hnodup : new.Nodup := hlt.imp Nat.ne_of_lt
  refine (gained_perm hnodup hnew hbits).symm.eq_of_pairwise ?_
    (List.pairwise_lt_range.filter _) hlt
  intro i j _ _ hij hji
  omega

theorem gained_of_granted {d : DirectMap} {m t u : Memory} {frames : List Nat} {first n : Nat}
    (hb : Backed p d m frames) (hg : p.Granted m u first n)
    (hbits : ∀ i < p.totalFrames, p.bitmap.test t i = p.bitmap.test u i) :
    gained p m t = List.range' first n := by
  refine gained_eq (List.pairwise_lt_range' 1) (fun i hi => ?_) (fun i hi => ?_)
  · rw [List.mem_range'_1] at hi
    obtain ⟨hlt, -, -, -, hclear⟩ := hb.fresh hg hi.1 hi.2
    exact ⟨hlt, hclear⟩
  · rw [hbits i hi, hg.test_eq hi]
    simp only [List.mem_range'_1]

theorem inUse_served (size : UInt64) :
    ∃ n, inUse (l ++ KernelHeap.served c size ++ r) = inUse l ++ ⟨c.address, n, false⟩ :: inUse r ∧
      (size.toNat ≤ c.size.toNat → size.toNat ≤ n.toNat) := by
  rw [KernelHeap.served]
  split
  · refine ⟨size, ?_, fun _ => Nat.le_refl _⟩
    rw [inUse_append, inUse_append, inUse_cons_of_used rfl, inUse_cons_of_free rfl, inUse_nil,
      List.append_assoc, List.singleton_append]
  · refine ⟨c.size, ?_, id⟩
    rw [inUse_append, inUse_append, inUse_cons_of_used rfl, inUse_nil, List.append_assoc,
      List.singleton_append]

/-- What the heap hands out is not null. -/
theorem served_ne_null {w w' : World KernelHeap} {size : UInt64} {frames new : List Nat}
    (h : Serves p frames w w' size new l c r) : c.payload ≠ .null := by
  obtain ⟨n, hused, -⟩ := inUse_served (l := l) (c := c) (r := r) size
  have hc : (⟨c.address, n, false⟩ : Extent) ∈ l ++ KernelHeap.served c size ++ r := by
    refine (mem_inUse.mp ?_).1
    rw [hused]
    exact List.mem_append_right _ (List.mem_cons_self ..)
  have hne : (⟨c.address, n, false⟩ : Extent).payload ≠ .null := h.formed.payload_ne_null hc
  exact hne

theorem inUse_joined (hfree : c.free = true) : inUse (joined c r) = inUse r := by
  cases r with
  | nil => exact inUse_cons_of_free hfree []
  | cons e r =>
    rw [joined]
    split
    · rename_i h
      rw [inUse_cons_of_free h.1]
      exact inUse_cons_of_free (c := { c with size := c.size + (headerSize + e.size) }) hfree r
    · exact inUse_cons_of_free hfree _

theorem inUse_released : inUse (released l c r) = inUse l ++ inUse r := by
  rcases List.eq_nil_or_concat l with rfl | ⟨l, b, rfl⟩
  · rw [released_nil, inUse_joined rfl, inUse_nil, List.nil_append]
  · rw [List.concat_eq_append, released_concat, inUse_append, inUse_append, List.append_assoc]
    congr 1
    cases hb : b.free with
    | true => rw [if_pos rfl, inUse_joined hb, inUse_joined rfl, inUse_cons_of_free hb]; rfl
    | false =>
      rw [if_neg Bool.false_ne_true, inUse_cons_of_used hb, inUse_joined rfl,
        inUse_cons_of_used hb]
      rfl

theorem Sound.block (h : s.Sound p cs) {a : Allocation} (ha : a ∈ s.live) :
    ∃ c ∈ cs, c.free = false ∧ c.payload = a.address ∧ a.size.toNat ≤ c.size.toNat := by
  have hmem := h.live.mem_iff.mp (List.mem_map_of_mem ha)
  obtain ⟨c, hc, hpayload⟩ := List.mem_map.mp hmem
  rw [mem_inUse] at hc
  exact ⟨c, hc.1, hc.2, hpayload, h.fits a ha c hc.1 hc.2 hpayload⟩

theorem Sound.served (h : s.Sound p cs) {w : World KernelHeap} {size : UInt64} {new : List Nat}
    (hserves : Serves p s.frames s.world w size new l c r) (hused : inUse (l ++ r) = inUse cs) :
    Sound p ⟨w, s.frames ++ gained p s.memory w.machine.memory,
      s.live ++ [⟨c.payload, size⟩]⟩ (l ++ KernelHeap.served c size ++ r) := by
  obtain ⟨n, hnew, hsize⟩ := inUse_served (l := l) (c := c) (r := r) size
  have hle := hsize hserves.fits.2
  have hnodup := List.nodup_append.mp hserves.backed.nodup
  have hperm : (s.frames ++ new).Perm (s.frames ++ gained p s.memory w.machine.memory) :=
    (gained_perm hnodup.2.1 hserves.fresh hserves.test).append_left _
  have hmem (e : Extent) : (e ∈ l ++ KernelHeap.served c size ++ r ∧ e.free = false) ↔
      e = ⟨c.address, n, false⟩ ∨ e ∈ cs ∧ e.free = false := by
    rw [← mem_inUse, ← mem_inUse, hnew, ← hused, inUse_append, List.mem_append, List.mem_append,
      List.mem_cons]
    exact or_left_comm
  refine ⟨hserves.formed.perm hperm, hserves.backed.perm hperm, ?_, ?_⟩
  · rw [hnew, List.map_append, List.map_append, List.map_cons]
    refine (List.perm_append_singleton _ _).trans (.trans ?_ List.perm_middle.symm)
    refine List.Perm.cons _ (h.live.trans ?_)
    rw [← hused, inUse_append, List.map_append]
  · intro a ha e he hfree hpayload
    have hc := ((hmem ⟨c.address, n, false⟩).mpr (.inl rfl)).1
    rcases (hmem e).mp ⟨he, hfree⟩ with rfl | hold
    · rcases List.mem_append.mp ha with ha | ha
      · obtain ⟨f, hf, hffree, hfpayload, hfsize⟩ := h.block ha
        have hfnew := ((hmem f).mpr (.inr ⟨hf, hffree⟩)).1
        have heq := hserves.formed.eq_of_address_eq hfnew hc
          (Extent.payload_inj.mp (hfpayload.trans hpayload.symm))
        rw [heq] at hfsize
        exact hfsize
      · rw [List.mem_singleton.mp ha]
        exact hle
    · rcases List.mem_append.mp ha with ha | ha
      · exact h.fits a ha e hold.1 hold.2 hpayload
      · rw [List.mem_singleton.mp ha] at hpayload ⊢
        have heq := hserves.formed.eq_of_address_eq he hc (Extent.payload_inj.mp hpayload)
        rw [heq]
        exact hle

theorem gained_self (p : FrameAllocator) (m : Memory) : gained p m m = [] := by
  simp [gained]

theorem Sound.unserved (h : s.Sound p cs) :
    Sound p ⟨s.world, s.frames ++ gained p s.memory s.memory, s.live⟩ cs := by
  rw [gained_self, List.append_nil]
  exact h

theorem Sound.holds (h : s.Sound p cs) {a : Allocation} (ha : a ∈ s.live) :
    ∃ c ∈ cs, c.free = false ∧ c.payload = a.address ∧ ∀ x, a.Holds s.world.part.directMap x →
      c.start s.world.part.directMap + 32 ≤ x ∧
        x < c.start s.world.part.directMap + 32 + c.size.toNat := by
  obtain ⟨c, hc, hfree, hpayload, hsize⟩ := h.block ha
  refine ⟨c, hc, hfree, hpayload, ?_⟩
  intro x hparts
  obtain ⟨hlow, hhigh⟩ := hparts
  rw [← hpayload, h.formed.physical_payload hc] at hlow hhigh
  exact ⟨hlow, by omega⟩

theorem Sound.not_inHeaders (h : s.Sound p cs) {a : Allocation} (ha : a ∈ s.live) {x : Nat}
    (hx : a.Holds s.world.part.directMap x) : ¬ InHeaders s.world.part.directMap cs x := by
  obtain ⟨c, hc, -, -, hpayload⟩ := h.holds ha
  obtain ⟨hlow, hhigh⟩ := hpayload x hx
  exact h.formed.not_inHeaders hc hlow hhigh

theorem Sound.beside (h : s.Sound p cs) {m : Machine}
    (hheaders : ∀ x, InHeaders s.world.part.directMap cs x → m.memory.byte x = s.memory.byte x)
    (hb : Backed p s.world.part.directMap m.memory s.frames) :
    Sound p ⟨⟨m, s.world.part⟩, s.frames, s.live⟩ cs :=
  ⟨h.formed.congr hheaders, hb, h.live, h.fits⟩

theorem Sound.released (h : s.Sound p (l ++ c :: r)) (hused : c.free = false) {t : Memory}
    {tail : VirtualAddress}
    (hf : Formed { s.world.part with tail := tail } t s.frames (KernelHeap.released l c r))
    (hbytes : ∀ x, ¬ InHeaders s.world.part.directMap (l ++ c :: r) x →
      t.byte x = if c.start s.world.part.directMap + 32 ≤ x ∧
        x < c.start s.world.part.directMap + 32 + c.size.toNat then poison
        else s.memory.byte x) :
    Sound p ⟨⟨{ s.world.machine with memory := t }, { s.world.part with tail := tail }⟩, s.frames,
      s.live.filter fun b => b.address ≠ c.payload⟩ (KernelHeap.released l c r) := by
  have hc : c ∈ l ++ c :: r := by simp
  have hne : ∀ e ∈ l ++ r, decide (e.payload ≠ c.payload) = true := by
    intro e he
    rw [decide_eq_true_iff, ne_eq, Extent.payload_inj]
    exact h.formed.address_ne he
  refine ⟨hf, h.backed.congr fun x hx => ?_, ?_, ?_⟩
  · have hmem : x / 4096 ∉ s.frames := fun hmem => hx (h.backed.outside hmem)
    rw [hbytes x fun hin => hmem (h.formed.frame_of_inHeaders hin), if_neg]
    intro hpayload
    refine hmem (h.formed.frame_mem hc ⟨?_, hpayload.2⟩)
    simp only [Extent.span]
    omega
  · have hlive := h.live.filter fun a => decide (a ≠ c.payload)
    have hl : ((inUse l).map Extent.payload).filter (fun a => decide (a ≠ c.payload)) =
        (inUse l).map Extent.payload := by
      rw [List.filter_map, List.filter_eq_self.mpr]
      intro e he
      exact hne e (List.mem_append_left _ (mem_inUse.mp he).1)
    have hr : ((inUse r).map Extent.payload).filter (fun a => decide (a ≠ c.payload)) =
        (inUse r).map Extent.payload := by
      rw [List.filter_map, List.filter_eq_self.mpr]
      intro e he
      exact hne e (List.mem_append_right _ (mem_inUse.mp he).1)
    rw [List.filter_map] at hlive
    refine hlive.trans (.of_eq ?_)
    rw [inUse_released, inUse_append, inUse_cons_of_used hused, List.map_append, List.map_cons,
      List.filter_append, List.filter_cons_of_neg (by simp), hl, hr, List.map_append]
  · intro a ha e he hfree hpayload
    have hold : e ∈ inUse (KernelHeap.released l c r) := mem_inUse.mpr ⟨he, hfree⟩
    rw [inUse_released, ← inUse_append, mem_inUse] at hold
    refine h.fits a (List.mem_filter.mp ha).1 e ?_ hfree hpayload
    rcases List.mem_append.mp hold.1 with hold | hold
    · exact List.mem_append_left _ hold
    · exact List.mem_append_right _ (List.mem_cons_of_mem _ hold)

theorem Sound.perform_alloc (h : s.Sound p cs) (size : UInt64) :
    ∃ cs', (s.perform p (.alloc size)).Sound p cs' := by
  rcases alloc_cases h.formed h.backed size with
    ⟨e, hrun⟩ | hrun | ⟨n, new, l, c, r, w, hround, hrun, hserves, hbase⟩
  · refine ⟨cs, ?_⟩
    simp only [HeapState.perform, hrun, handedOut]
    exact h.unserved
  · refine ⟨cs, ?_⟩
    simp only [HeapState.perform, hrun, handedOut]
    exact h.unserved
  · refine ⟨l ++ KernelHeap.served c n ++ r, ?_⟩
    simp only [HeapState.perform, hrun, handedOut, hround, Option.map_some, Option.toList_some]
    apply h.served hserves
    rcases hbase with ⟨-, rfl⟩ | ⟨-, rfl, rfl, -⟩
    · exact (inUse_append_cons_of_free hserves.fits.1 l r).symm
    · rw [List.append_nil]

theorem Sound.perform_release (h : s.Sound p cs) {b : Allocation} (hb : b ∈ s.live) :
    ∃ cs', (s.perform p (.release b.address)).Sound p cs' := by
  obtain ⟨c, hc, hused, hpayload, -⟩ := h.block hb
  obtain ⟨l, r, rfl⟩ := List.append_of_mem hc
  obtain ⟨t, tail, hrun, hf, hbytes⟩ := release_spec Empty h.formed hused
  refine ⟨KernelHeap.released l c r, ?_⟩
  simp only [HeapState.perform, ← hpayload, hrun]
  exact h.released hused hf hbytes

/-- Others write to memory, or use the frame allocator and keep what the heap has. -/
theorem Sound.frames_cases (h : s.Sound p cs) {q : FrameRequest} (hq : s.Allowed p (.frames q)) :
    (∃ m, q = .elsewhere m) ∨
    p.Keeps q.Gives s.memory (q.run p s.world.machine).memory ∧
      ∀ i, q.Gives i → i ∉ s.frames ∧ i ≠ s.world.part.directMap.nullFrame := by
  by_cases helse : ∃ m, q = .elsewhere m
  · exact .inl helse
  · refine .inr ⟨FrameRequest.keeps h.backed.toSound q fun t ht => helse ⟨t, ht⟩, ?_⟩
    cases q with
    | elsewhere m => exact absurd ⟨m, rfl⟩ helse
    | _ => exact hq

theorem Sound.perform_frames (h : s.Sound p cs) {q : FrameRequest}
    (hq : s.Allowed p (.frames q)) : (s.perform p (.frames q)).Sound p cs := by
  rcases h.frames_cases hq with ⟨m, rfl⟩ | ⟨hkeeps, hgives⟩
  · refine h.beside (fun x hx => hq x (.inr ⟨h.formed.frame_of_inHeaders hx, ?_⟩))
      (h.backed.congr fun x hx => hq x (.inl hx))
    intro b hb hholds
    exact h.not_inHeaders hb hholds hx
  · refine h.beside (fun x hx => ?_) (h.backed.keeps hkeeps
      (fun i hi hg => (hgives i hg).1 hi) (fun hg => (hgives _ hg).2 rfl))
    have hmem := h.formed.frame_of_inHeaders hx
    exact hkeeps.bytes x (h.backed.outside hmem) fun hg => (hgives _ hg).1 hmem

/-- Whatever the clients of the heap and of its frame allocator do, as long as it is allowed, the
invariant is kept. -/
theorem Sound.perform (h : s.Sound p cs) {q : HeapRequest} (hq : s.Allowed p q) :
    ∃ cs', (s.perform p q).Sound p cs' := by
  cases q with
  | alloc size => exact h.perform_alloc size
  | release a =>
    obtain ⟨b, hb, rfl⟩ := hq
    exact h.perform_release hb
  | frames q => exact ⟨cs, h.perform_frames hq⟩

theorem backed_init {boot : BootInfo} {m₀ m : Machine}
    (hinit : (FrameAllocator.init boot).run m₀ = (.done p, m))
    (hnull : ¬ p.Available boot.map p.directMap.nullFrame) :
    Backed p p.directMap m.memory [] := by
  refine ⟨(Holding.ledger_init hinit).toSound, rfl, List.nodup_nil,
    fun i hi => absurd hi List.not_mem_nil, fun hlt => ?_⟩
  obtain ⟨-, hbits, -⟩ := init_spec hinit
  rw [← Bool.not_eq_false, hbits _ hlt]
  exact hnull

theorem Before.backed {m t : Machine} (ht : Before p m t)
    (hb : Backed p p.directMap m.memory []) : Backed p p.directMap t.memory [] := by
  induction ht with
  | refl => exact hb
  | @step t q _ hq ih =>
    by_cases helse : ∃ u, q = .elsewhere u
    · obtain ⟨u, rfl⟩ := helse
      exact ih.congr hq
    · have hgives : ¬ q.Gives p.directMap.nullFrame := by
        cases q with
        | elsewhere u => exact absurd ⟨u, rfl⟩ helse
        | _ => exact hq
      exact ih.keeps (FrameRequest.keeps ih.toSound q fun u hu => helse ⟨u, hu⟩)
        (fun i hi => absurd hi List.not_mem_nil) hgives

theorem sound_start {h : KernelHeap} {m t : Machine} (hb : Backed p p.directMap m.memory [])
    (hheap : (KernelHeap.init p).run m = (.done h, t)) :
    ∃ cs, Sound p ⟨⟨t, h⟩, gained p m.memory t.memory, []⟩ cs := by
  obtain ⟨u, first, c, hcreated⟩ := created_of_init hb hheap
  have hf := hcreated.formed
  have hb' := hcreated.backed
  rw [← gained_of_granted hb hcreated.granted hcreated.bits] at hf hb'
  refine ⟨[c], hf, ?_, ?_, fun a ha => absurd ha List.not_mem_nil⟩
  · rw [hcreated.directMap]
    exact hb'
  · rw [inUse_cons_of_free hcreated.free]
    exact .nil

theorem Reachable.sound {boot : BootInfo} (hs : Reachable boot p s)
    (hnull : ¬ p.Available boot.map p.directMap.nullFrame) : ∃ cs, s.Sound p cs := by
  induction hs with
  | start hboot hbefore hheap => exact sound_start (hbefore.backed (backed_init hboot hnull)) hheap
  | step q _ hq ih =>
    obtain ⟨cs, h⟩ := ih
    exact h.perform hq

end HeapState

namespace TwoRegions

def heap : KernelHeap where
  head := ⟨0xFFFF80000000D000⟩
  tail := ⟨0xFFFF80000000D000⟩
  totalBytes := 65536
  directMap := allocator.directMap

def heapMachine : Machine :=
  ((KernelHeap.init allocator).run machine).2

theorem init_heap : (KernelHeap.init allocator).run machine = (.done heap, heapMachine) :=
  Prod.ext rfl rfl

def started : HeapState :=
  ⟨⟨heapMachine, heap⟩, HeapState.gained allocator machine.memory heapMachine.memory, []⟩

theorem reachable_started : HeapState.Reachable boot allocator started :=
  .start init_eq .refl init_heap

theorem nullFrame_not_available :
    ¬ allocator.Available boot.map allocator.directMap.nullFrame := by decide

end TwoRegions

end MemoryManager
