import MemoryManager.Proofs.Frames.Custody
import MemoryManager.Proofs.Heap.Runs
import MemoryManager.Proofs.Paging.Teardown

namespace MemoryManager

namespace FrameAllocator

/-- From `m` to `t`, bits stay set but for the frames `given`, and outside of the bitmap bytes stay
the same but for those of the frames `written`. -/
structure Footprint (p : FrameAllocator) (given written : Nat → Prop) (m t : Memory) : Prop where
  sound : p.Sound t
  bits : ∀ i < p.totalFrames, p.bitmap.test m i = true → ¬ given i → p.bitmap.test t i = true
  bytes : ∀ x, p.bitmap.Outside x → ¬ written (x / 4096) → t.byte x = m.byte x

/-- Frame `i` is free in `m` and handed out in `t`. -/
def Fresh (p : FrameAllocator) (m t : Memory) (i : Nat) : Prop :=
  i < p.totalFrames ∧ p.bitmap.test m i = false ∧ p.bitmap.test t i = true

variable {p : FrameAllocator} {given written : Nat → Prop} {m t : Memory} {i : Nat}

theorem Sound.footprint_refl (hs : p.Sound m) : p.Footprint given written m m :=
  ⟨hs, fun _ _ hset _ => hset, fun _ _ _ => rfl⟩

/-- Writing to frames that are not reserved gives nothing back. -/
theorem Sound.footprint_of_written (hs : p.Sound m)
    (hwritten : ∀ i, written i → p.isReserved i = false)
    (hbytes : ∀ x, ¬ written (x / 4096) → t.byte x = m.byte x) :
    p.Footprint (fun _ => False) written m t := by
  have hsame : ∀ x, ¬ p.bitmap.Outside x → t.byte x = m.byte x := fun x hx =>
    hbytes x fun hw => hx (outside_of_not_reserved (hwritten _ hw))
  refine ⟨hs.congr hsame, ?_, fun x _ hx => hbytes x hx⟩
  intro i hi hset _
  rw [test_congr hsame (Nat.lt_of_lt_of_le hi p.total_le_size), hset]

theorem GivenBack.footprint {frames : List PhysicalFrame} (hs : p.Sound m)
    (h : p.GivenBack frames m t) :
    p.Footprint (· ∈ frames.map PhysicalFrame.index) (· ∈ frames.map PhysicalFrame.index) m t := by
  simp only [List.mem_map]
  have hbits : ∀ i < p.totalFrames, p.bitmap.test m i = true →
      (p.isReserved i = false → ¬ ∃ f ∈ frames, f.index = i) → p.bitmap.test t i = true := by
    intro i hi hset hkept
    rw [h.bits i (Nat.lt_of_lt_of_le hi p.total_le_size)]
    exact ⟨hset, fun hfreed => hkept hfreed.2.1 hfreed.2.2⟩
  refine ⟨hs.of_bits_mono fun i hi hres hset => hbits i hi hset ?_, ?_, ?_⟩
  · intro hfree
    rw [hres] at hfree
    cases hfree
  · exact fun i hi hset hkept => hbits i hi hset fun _ => hkept
  · intro x hx hkept
    refine h.bytes x hx fun hin => hkept ?_
    obtain ⟨f, hf, hindex⟩ := hin
    exact ⟨f, hf, hindex.symm⟩

end FrameAllocator

open FrameAllocator

namespace FrameRequest

variable {p : FrameAllocator} {m : Machine}

theorem footprint (hs : p.Sound m.memory) (q : FrameRequest) (hq : ∀ t, q ≠ .elsewhere t) :
    p.Footprint q.Gives q.Gives m.memory (q.run p m).memory := by
  obtain ⟨hsound, hbits, hbytes⟩ := q.keeps hs hq
  exact ⟨hsound, hbits, hbytes⟩

/-- What a request hands out was free before. -/
theorem grants_fresh (hp : p.Placed) (q : FrameRequest) (m : Machine) :
    (q.grants p m).Nodup ∧ ∀ i ∈ q.grants p m, p.Fresh m.memory (q.run p m).memory i := by
  by_cases helse : ∃ t, q = .elsewhere t
  · obtain ⟨t, rfl⟩ := helse
    exact ⟨List.nodup_nil, fun i hi => absurd hi List.not_mem_nil⟩
  · have heffect := q.effect hp m fun t ht => helse ⟨t, ht⟩
    generalize (q.run p m).memory = t at heffect ⊢
    generalize q.grants p m = grants at heffect ⊢
    generalize q.accepted p m = accepted at heffect
    cases heffect with
    | idle => exact ⟨List.nodup_nil, fun i hi => absurd hi List.not_mem_nil⟩
    | released hr => exact ⟨List.nodup_nil, fun i hi => absurd hi List.not_mem_nil⟩
    | granted hg =>
      refine ⟨List.nodup_range', fun i hi => ?_⟩
      rw [List.mem_range'_1] at hi
      have hlt := hg.lt_total hi.2
      refine ⟨hlt, hg.clear i hi.1 hi.2, ?_⟩
      rw [hg.test_eq hlt, if_pos hi]

end FrameRequest

namespace HeapState

open KernelHeap

variable {p : FrameAllocator} {s : HeapState} {cs : List Extent} {m t : Memory}

theorem mem_gained {i : Nat} : i ∈ gained p m t ↔ p.Fresh m t i := by
  simp [gained, Fresh]

theorem nodup_gained (p : FrameAllocator) (m t : Memory) : (gained p m t).Nodup :=
  List.nodup_range.filter _

/-- An allocation writes only to frames that the heap has afterwards. -/
theorem Sound.footprint_alloc (h : s.Sound p cs) (size : UInt64) :
    p.Footprint (fun _ => False) (· ∈ (s.perform p (.alloc size)).frames) s.memory
      (s.perform p (.alloc size)).memory := by
  rcases alloc_cases h.formed h.backed size with
    ⟨e, hrun⟩ | hrun | ⟨n, new, l, c, r, w, -, hrun, hserves, -⟩
  · simp only [HeapState.perform, memory, hrun]
    exact h.backed.toSound.footprint_refl
  · simp only [HeapState.perform, memory, hrun]
    exact h.backed.toSound.footprint_refl
  · have hperm := gained_perm (List.nodup_append.mp hserves.backed.nodup).2.1 hserves.fresh
      hserves.test
    simp only [HeapState.perform, memory, hrun]
    refine ⟨hserves.backed.toSound, ?_, ?_⟩
    · intro i hi hset _
      rw [hserves.test i hi, hset, ite_self]
    · intro x hx hout
      rw [List.mem_append, ← hperm.mem_iff, ← List.mem_append] at hout
      refine hserves.bytes x hx (fun hnew => hout (List.mem_append_right _ hnew)) fun hin => ?_
      exact hout (hserves.formed.frame_of_inHeaders hin)

/-- A release writes only to frames of the heap. -/
theorem Sound.footprint_release (h : s.Sound p cs) {a : Allocation} (ha : a ∈ s.live) :
    p.Footprint (fun _ => False) (· ∈ s.frames) s.memory
      (s.perform p (.release a.address)).memory := by
  obtain ⟨c, hc, hused, hpayload, -⟩ := h.block ha
  obtain ⟨l, r, rfl⟩ := List.append_of_mem hc
  obtain ⟨t, tail, hrun, -, hbytes⟩ := release_spec Empty h.formed hused
  simp only [HeapState.perform, memory, ← hpayload, hrun]
  refine h.backed.toSound.footprint_of_written (fun i hi => (h.backed.held i hi).2.1) ?_
  intro x hx
  rw [hbytes x fun hin => hx (h.formed.frame_of_inHeaders hin), if_neg]
  intro hin
  refine hx (h.formed.frame_mem hc ⟨?_, hin.2⟩)
  simp only [Extent.span]
  omega

/-- Creating a heap writes only to the frames that it gains. -/
theorem footprint_init {m : Machine} (hb : Backed p p.directMap m.memory []) :
    p.Footprint (fun _ => False) (· ∈ gained p m.memory ((KernelHeap.init p).run m).2.memory)
      m.memory ((KernelHeap.init p).run m).2.memory := by
  rcases init_cases hb with ⟨e, hrun, -⟩ | ⟨h, t, u, first, c, hrun, hcreated⟩
  · rw [hrun]
    exact hb.toSound.footprint_refl
  · rw [hrun]
    have hset : ∀ i < p.totalFrames, p.bitmap.test t.memory i =
        if first ≤ i ∧ i < first + 16 then true else p.bitmap.test m.memory i := fun i hi => by
      rw [hcreated.bits i hi, hcreated.granted.test_eq hi]
    refine ⟨hcreated.backed.toSound, ?_, ?_⟩
    · intro i hi hold _
      rw [hset i hi, hold, ite_self]
    · intro x hx hnew
      refine hcreated.bytes x hx fun hin => hnew (mem_gained.mpr ?_)
      rw [List.mem_range'_1] at hin
      have hlt := hcreated.granted.lt_total hin.2
      exact ⟨hlt, hcreated.granted.clear _ hin.1 hin.2, by rw [hset _ hlt, if_pos hin]⟩

end HeapState

namespace FrameAllocator

open Memory FourLevel

/-- The allocator `a` has handed out the frames `used` since memory was `m`, and nothing else was
written to. -/
structure LendsFresh (a : FrameAllocator) (m : Memory) (used : List PhysicalFrame)
    (w : World FrameAllocator) : Prop extends Lends used w where
  part : w.part = a
  kept : ∀ i < a.totalFrames, a.bitmap.test m i = true →
    a.bitmap.test w.machine.memory i = true
  clear : ∀ u ∈ used, a.bitmap.test m u.index = false
  bytes : ∀ x, a.bitmap.Outside x → ¬ InFrames used x → w.machine.memory.byte x = m.byte x

namespace LendsFresh

variable {a : FrameAllocator} {m : Memory} {used : List PhysicalFrame}
  {w w' : World FrameAllocator}

theorem nil {t : Machine} (hs : a.Sound t.memory) : LendsFresh a t.memory [] ⟨t, a⟩ :=
  ⟨⟨hs, fun _ hu => absurd hu List.not_mem_nil⟩, rfl, fun _ _ => id,
    fun _ hu => absurd hu List.not_mem_nil, fun _ _ _ => rfl⟩

theorem take {o : Outcome PagingError (Option PhysicalFrame)} (h : LendsFresh a m used w)
    (hrun : (FrameSource.take : Action (World FrameAllocator) PagingError _).run w = (o, w')) :
    (∀ f ∈ o.taken, f ∉ used) ∧ LendsFresh a m (o.taken ++ used) w' ∧
      ∀ x, InFrames used x → w'.machine.memory.byte x = w.machine.memory.byte x := by
  obtain ⟨hfresh, hlends, hbytes⟩ := h.toLends.take hrun
  obtain rfl := h.part
  rcases take_cases PagingError w.part w.machine h.toPlaced with htake | ⟨first, t, htake, hg⟩
  · obtain ⟨rfl, rfl⟩ := Prod.mk.inj (htake.symm.trans hrun)
    exact ⟨hfresh, ⟨hlends, rfl, h.kept, h.clear, h.bytes⟩, hbytes⟩
  · obtain ⟨rfl, rfl⟩ := Prod.mk.inj (htake.symm.trans hrun)
    refine ⟨hfresh, ⟨hlends, rfl, ?_, ?_, ?_⟩, hbytes⟩
    · intro i hi hset
      exact hg.test_of_set hi (h.kept i hi hset)
    · intro u hu
      rcases List.mem_append.mp hu with hu | hu
      · have hclear := hg.clear first (Nat.le_refl _) (Nat.lt_succ_self _)
        rw [List.mem_singleton.mp hu, hg.index_ofIndex h.toPlaced, ← Bool.not_eq_true]
        intro hset
        rw [h.kept first hg.fits hset] at hclear
        cases hclear
      · exact h.clear u hu
    · intro x hx hout
      rw [← h.bytes x hx fun hin => hout ?_]
      · exact hg.bytes x hx
      · obtain ⟨u, hu, hindex⟩ := hin
        exact ⟨u, List.mem_append_right _ hu, hindex⟩

theorem beside (h : LendsFresh a m used w) (hpart : w'.part = w.part)
    (hbytes : ∀ x, ¬ InFrames used x → w'.machine.memory.byte x = w.machine.memory.byte x) :
    LendsFresh a m used w' := by
  obtain rfl := h.part
  refine ⟨h.toLends.beside hpart hbytes, hpart, ?_, h.clear, ?_⟩
  · intro i hi hset
    exact (h.test_beside hbytes hi).trans (h.kept i hi hset)
  · intro x hx hout
    rw [← h.bytes x hx hout]
    exact hbytes x hout

theorem lawful (a : FrameAllocator) (m : Memory) :
    FrameSource.Lawful FrameAllocator (LendsFresh a m) :=
  ⟨take, beside⟩

theorem fresh (h : LendsFresh a m used w) {u : PhysicalFrame} (hu : u ∈ used) :
    a.Fresh m w.machine.memory u.index := by
  obtain rfl := h.part
  exact ⟨(h.held u hu).1, h.clear u hu, (h.held u hu).2.2⟩

/-- Whoever only takes frames and writes to them leaves all else alone. -/
theorem footprint (h : LendsFresh a m used w) :
    a.Footprint (fun _ => False) (a.Fresh m w.machine.memory) m w.machine.memory := by
  refine ⟨h.part ▸ h.toSound, fun i hi hset _ => h.kept i hi hset, fun x hx hout => ?_⟩
  refine h.bytes x hx fun hin => hout ?_
  obtain ⟨u, hu, hindex⟩ := hin
  exact hindex ▸ h.fresh hu

end LendsFresh

variable {p : FrameAllocator} {given written : Nat → Prop} {fl : FourLevel}
  {others others' : List Nat} {used used' roots roots' : List PhysicalFrame} {m₀ : Memory}
  {m t : Machine}

theorem Footprint.entry (h : p.Footprint given written m.memory t.memory) {u : PhysicalFrame}
    (hres : p.isReserved u.index = false) (hu : ¬ written u.index) (j : TableIndex) :
    t.memory.entry u j = m.memory.entry u j := by
  refine entry_congr_frame (fun x hx => ?_) j
  exact h.bytes x (outside_of_not_reserved (by rwa [hx])) (by rwa [hx])

/-- The frames of others are theirs also in memory as it is now. -/
theorem LendsBeside.now {w : World FrameAllocator} (h : LendsBeside p others m₀ used w) :
    LendsBeside p others w.machine.memory used w :=
  { h with bytes := fun _ _ => rfl }

/-- An operation that neither gives back nor writes to the frames `used'` leaves the tables in them as
they are. Others have afterwards what they had before and did not give back, and fresh frames. -/
theorem LendsBeside.pass (hk : LendsBeside p others m₀ used ⟨m, p⟩)
    (hf : Forest fl m.memory roots used) (hft : p.Footprint given written m.memory t.memory)
    (hsub : used' ⊆ used) (hkept : ∀ u ∈ used', ¬ given u.index ∧ ¬ written u.index)
    (hroots : roots' ⊆ roots) (htables : ∀ {r is u}, m.memory.Finds roots' r is u → u ∈ used')
    (hothers : ∀ i ∈ others', i ∈ others ∧ ¬ given i ∨ p.Fresh m.memory t.memory i) :
    LendsBeside p others' t.memory used' ⟨t, p⟩ ∧ Forest fl t.memory roots' used' ∧
      Grows roots' m.memory t.memory := by
  have hheld := fun u hu => hk.held u (hsub hu)
  have hforest : Forest fl m.memory roots' used' :=
    ⟨htables, fun h h' => hf.unique (h.mono hroots) (h'.mono hroots),
      fun h => hf.reached (h.mono hroots)⟩
  refine ⟨⟨⟨hft.sound, ?_⟩, rfl, ?_, ?_, fun _ _ => rfl⟩, hforest.congr ?_⟩
  · intro u hu
    obtain ⟨hlt, hres, hset⟩ := hheld u hu
    exact ⟨hlt, hres, hft.bits u.index hlt hset (hkept u hu).1⟩
  · intro i hi
    rcases hothers i hi with ⟨hold, hnot⟩ | ⟨hlt, hclear, hset⟩
    · obtain ⟨hlt, hres, hset⟩ := hk.set i hold
      exact ⟨hlt, hres, hft.bits i hlt hset hnot⟩
    · exact ⟨hlt, hk.toSound.not_reserved_of_clear hlt hclear, hset⟩
  · intro u hu hi
    rcases hothers u.index hi with ⟨hold, -⟩ | ⟨-, hclear, -⟩
    · exact hk.apart u (hsub hu) hold
    · rw [(hheld u hu).2.2] at hclear
      cases hclear
  · intro u hu j
    exact hft.entry (hheld u hu).2.1 (hkept u hu).2 j

end FrameAllocator

end MemoryManager
