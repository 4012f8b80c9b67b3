import MemoryManager.Proofs.Heap.Payloads

namespace MemoryManager

open FrameAllocator KernelHeap

namespace KernelHeap

/-- The byte lies in a free block, and belongs neither to the size nor to a link of any block. -/
structure AtRest (d : DirectMap) (cs : List Extent) (x : Nat) : Prop where
  free : ∃ e ∈ cs, e.free = true ∧ (e.span d).Holds x
  notLinks : ¬ InLinks d cs x

/-- What is left of a released block. Its header still says that it is free, its payload is
overwritten, and both are at rest, whatever the block has been joined with. -/
structure Remains (d : DirectMap) (m : Memory) (cs : List Extent) (c : Extent) : Prop where
  flag : AtRest d cs (c.start d + 8) ∧ m.byte (c.start d + 8) = 1
  payload : ∀ x, c.start d + 32 ≤ x → x < c.start d + 32 + c.size.toNat →
    AtRest d cs x ∧ m.byte x = poison

section Rest

variable {h k : KernelHeap} {m t : Memory} {frames : List Nat} {cs ds l r : List Extent}
  {c e : Extent} {x : Nat} {d : DirectMap}

theorem inLinks_of_released (hx : InLinks d (released l c r) x) : InLinks d (l ++ c :: r) x := by
  have hmarked : ∀ l, InLinks d (l ++ joined { c with free := true } r) x →
      InLinks d (l ++ c :: r) x := fun l hl => inLinks_marked.mp (inLinks_of_joined hl)
  rcases List.eq_nil_or_concat l with rfl | ⟨l, b, rfl⟩
  · exact hmarked [] hx
  · rw [List.concat_eq_append, released_concat] at *
    apply hmarked
    rw [List.append_assoc]
    split at hx
    · exact inLinks_of_joined hx
    · exact hx

theorem Formed.not_holds_of_atRest (hf : Formed h m frames cs) (he : e ∈ cs)
    (hused : e.free = false) (hx : AtRest h.directMap cs x) : ¬ (e.span h.directMap).Holds x := by
  obtain ⟨b, hb, hfree, hbx⟩ := hx.free
  have hapart := hf.spans_apart he hb fun heq =>
    Bool.false_ne_true (hused.symm.trans (heq ▸ hfree))
  intro hex
  simp only [Span.Apart, Span.Holds] at hapart hbx hex
  omega

theorem Formed.frame_of_atRest (hf : Formed h m frames cs) (hx : AtRest h.directMap cs x) :
    x / 4096 ∈ frames := by
  obtain ⟨e, he, -, hex⟩ := hx.free
  exact hf.frame_mem he hex

theorem Formed.atRest_flag (hf : Formed h m frames cs) (hc : c ∈ cs) (hfree : c.free = true) :
    AtRest h.directMap cs (c.start h.directMap + 8) := by
  have hsized := (hf.sized hc).1
  refine ⟨⟨c, hc, hfree, ?_⟩, ?_⟩
  · simp only [Span.Holds, Extent.span] at hsized ⊢
    omega
  · intro hlinks
    obtain ⟨b, hb, hbx⟩ := hlinks
    by_cases hbc : b = c
    · subst hbc
      simp only [Extent.HoldsLinks] at hbx
      omega
    · have hapart := hf.spans_apart hb hc hbc
      simp only [Extent.HoldsLinks, Span.Apart, Extent.span] at hbx hapart hsized
      omega

theorem Formed.atRest_payload (hf : Formed h m frames cs) (hc : c ∈ cs) (hfree : c.free = true)
    (hlow : c.start h.directMap + 32 ≤ x) (hhigh : x < c.start h.directMap + 32 + c.size.toNat) :
    AtRest h.directMap cs x :=
  ⟨⟨c, hc, hfree, Nat.le_trans (Nat.le_add_right _ _) hlow, hhigh⟩,
    mt InLinks.inHeaders (hf.not_inHeaders hc hlow hhigh)⟩

theorem AtRest.marked (hx : AtRest d (l ++ c :: r) x) :
    AtRest d (l ++ { c with free := true } :: r) x := by
  obtain ⟨e, he, hfree, hex⟩ := hx.free
  refine ⟨?_, mt inLinks_marked.mp hx.notLinks⟩
  rw [List.mem_append, List.mem_cons] at he
  rcases he with he | rfl | he
  · exact ⟨e, by simp [he], hfree, hex⟩
  · exact ⟨{ e with free := true }, by simp, rfl, hex⟩
  · exact ⟨e, by simp [he], hfree, hex⟩

/-- What is at rest stays so when blocks are joined: it lies in no used block, and no block starts
where none has started before. -/
theorem AtRest.released (hf : Formed h m frames (l ++ { c with free := true } :: r))
    (hreleased : Formed k t frames (released l c r)) (hdirect : k.directMap = h.directMap)
    (hx : AtRest h.directMap (l ++ { c with free := true } :: r) x) :
    AtRest h.directMap (KernelHeap.released l c r) x := by
  have hcovered := (hreleased.tiling.covers x).mpr (hf.frame_of_atRest hx)
  rw [hdirect] at hcovered
  obtain ⟨_, hspan, hex⟩ := hcovered
  obtain ⟨e, he, rfl⟩ := List.mem_map.mp hspan
  refine ⟨⟨e, he, ?_, hex⟩, fun hlinks =>
    hx.notLinks (inLinks_marked.mpr (inLinks_of_released hlinks))⟩
  -- a used block over the byte would have been there before, next to the free one
  by_contra hused
  have hold : e ∈ inUse (KernelHeap.released l c r) :=
    mem_inUse.mpr ⟨he, Bool.eq_false_iff.mpr hused⟩
  rw [HeapState.inUse_released, ← inUse_append, mem_inUse] at hold
  refine hf.not_holds_of_atRest ?_ hold.2 hx hex
  rw [List.mem_append, List.mem_cons]
  exact (List.mem_append.mp hold.1).imp_right .inr

theorem Remains.congr (hc : Remains d m cs c)
    (hrest : ∀ x, AtRest d cs x → AtRest d ds x ∧ t.byte x = m.byte x) : Remains d t ds c := by
  have hkept : ∀ x b, AtRest d cs x ∧ m.byte x = b → AtRest d ds x ∧ t.byte x = b := by
    intro x b hx
    obtain ⟨hstill, hbyte⟩ := hrest x hx.1
    exact ⟨hstill, hbyte.trans hx.2⟩
  exact ⟨hkept _ _ hc.flag, fun x hlow hhigh => hkept _ _ (hc.payload x hlow hhigh)⟩

/-- A released block is not one of those in use. -/
theorem Formed.payload_ne_of_remains (hf : Formed h m frames cs)
    (hc : Remains h.directMap m cs c) (he : e ∈ cs) (hused : e.free = false) : e.payload ≠ c.payload := by
  intro heq
  have hstart : e.start h.directMap = c.start h.directMap := by
    rw [Extent.start, Extent.payload_inj.mp heq, Extent.start]
  have hsized := (hf.sized he).1
  refine hf.not_holds_of_atRest he hused hc.flag.1 ?_
  simp only [Span.Holds, Extent.span] at hsized ⊢
  omega

end Rest

section Release

variable (ε : Type) {w : World KernelHeap} {frames : List Nat} {cs l r : List Extent} {c : Extent}

/-- A released block is recognised by what is left of it. -/
theorem run_release_of_remains (hc : Remains w.part.directMap w.machine.memory cs c)
    (hne : c.payload ≠ .null) :
    (release c.payload : Action (World KernelHeap) ε Unit).run w = (.done (),
      ⟨{ w.machine with reports := w.machine.reports.push (.releaseIgnored c.payload) },
        w.part⟩) := by
  have hfree : (HeapBlock.read w.part.directMap w.machine.memory c.address).free = true := by
    have hbyte : w.machine.memory.byte (HeapBlock.field w.part.directMap c.address 8) = 1 :=
      hc.flag.2
    rw [HeapBlock.read, hbyte]
    rfl
  simp only [release, ne_eq, hne, not_false_eq_true, if_true, Action.run_bind, Action.run_get,
    Extent.ofPayload_payload, run_block, hfree, World.run_report]

/-- A release changes nothing that is at rest, and leaves its block at rest. -/
theorem release_rest (hf : Formed w.part w.machine.memory frames (l ++ c :: r))
    (hused : c.free = false) :
    ∃ t tail, (release c.payload : Action (World KernelHeap) ε Unit).run w =
        (.done (), ⟨{ w.machine with memory := t }, { w.part with tail := tail }⟩) ∧
      Formed { w.part with tail := tail } t frames (released l c r) ∧
      (∀ x, AtRest w.part.directMap (l ++ c :: r) x →
        AtRest w.part.directMap (released l c r) x ∧ t.byte x = w.machine.memory.byte x) ∧
      Remains w.part.directMap t (released l c r) c := by
  have hc : c ∈ l ++ c :: r := by simp
  obtain ⟨t, tail, hrun, hreleased, hlinks⟩ := release_links ε hf hused
  have hmark : ∀ x, AtRest w.part.directMap (l ++ { c with free := true } :: r) x →
      AtRest w.part.directMap (released l c r) x ∧
        t.byte x = (freedMemory w.part.directMap c w.machine.memory).byte x := fun x hx =>
    ⟨hx.released hf.freed hreleased rfl, hlinks x (mt inLinks_marked.mpr hx.notLinks)⟩
  refine ⟨t, tail, hrun, hreleased, fun x hx => ?_, ?_, fun x hlow hhigh => ?_⟩
  · have hnot := hf.not_holds_of_atRest hc hused hx
    have hsized := (hf.sized hc).1
    obtain ⟨hstill, hbyte⟩ := hmark x hx.marked
    refine ⟨hstill, ?_⟩
    simp only [Span.Holds, Extent.span] at hnot hsized
    rw [hbyte, byte_freedMemory hf hc, if_neg (by omega), if_neg (by omega)]
  · obtain ⟨hstill, hbyte⟩ := hmark (c.start w.part.directMap + 8)
      (hf.freed.atRest_flag (c := { c with free := true }) (by simp) rfl)
    refine ⟨hstill, hbyte.trans ?_⟩
    rw [byte_freedMemory hf hc, if_neg (by omega), if_pos rfl]
  · obtain ⟨hstill, hbyte⟩ :=
      hmark x (hf.freed.atRest_payload (c := { c with free := true }) (by simp) rfl hlow hhigh)
    refine ⟨hstill, hbyte.trans ?_⟩
    rw [byte_freedMemory hf hc, if_pos ⟨hlow, hhigh⟩]

end Release

end KernelHeap

namespace HeapState

/-- The states that runs of allowed requests lead to in which the heap hands out nothing, with what is
released in them. It may be released more than once. -/
inductive Quiet (p : FrameAllocator) (s : HeapState) : List VirtualAddress → HeapState → Prop
  | refl : Quiet p s [] s
  | unserved {as : List VirtualAddress} {t : HeapState} (size : UInt64) (ht : Quiet p s as t)
      (hnone : ∀ a w, (KernelHeap.alloc p size).run t.world ≠ (.done a, w)) :
      Quiet p s as (t.perform p (.alloc size))
  | release {as : List VirtualAddress} {t : HeapState} {b : Allocation} (ht : Quiet p s as t)
      (hb : b ∈ t.live) : Quiet p s (b.address :: as) (t.perform p (.release b.address))
  | again {as : List VirtualAddress} {t : HeapState} {a : VirtualAddress} (ht : Quiet p s as t)
      (ha : a ∈ as) : Quiet p s as (t.perform p (.release a))
  | frames {as : List VirtualAddress} {t : HeapState} (q : FrameRequest) (ht : Quiet p s as t)
      (hq : t.Allowed p (.frames q)) : Quiet p s as (t.perform p (.frames q))

variable {p : FrameAllocator} {s t : HeapState} {cs ds : List Extent} {as : List VirtualAddress}
  {c : Extent}

theorem Sound.perform_unserved (h : s.Sound p cs) {size : UInt64}
    (hnone : ∀ a w, (KernelHeap.alloc p size).run s.world ≠ (.done a, w)) :
    s.perform p (.alloc size) = s := by
  rcases alloc_cases h.formed h.backed size with
    ⟨e, hrun⟩ | hrun | ⟨n, new, l, c, r, w, -, hrun, -, -⟩
  · simp only [HeapState.perform, hrun, handedOut, memory, gained_self, List.append_nil]
  · simp only [HeapState.perform, hrun, handedOut, memory, gained_self, List.append_nil]
  · exact absurd hrun (hnone _ _)

theorem Sound.rest_release (h : s.Sound p cs) {b : Allocation} (hb : b ∈ s.live) :
    ∃ ds, ∃ c ∈ inUse cs, (s.perform p (.release b.address)).Sound p ds ∧ inUse ds ⊆ inUse cs ∧
      c.payload = b.address ∧
      (∀ x, AtRest p.directMap cs x → AtRest p.directMap ds x ∧
        (s.perform p (.release b.address)).memory.byte x = s.memory.byte x) ∧
      Remains p.directMap (s.perform p (.release b.address)).memory ds c := by
  obtain ⟨ds, hsound⟩ := h.perform_release hb
  obtain ⟨c, hc, hused, hpayload, -⟩ := h.block hb
  obtain ⟨l, r, rfl⟩ := List.append_of_mem hc
  obtain ⟨t, tail, hrun, hreleased, hrest, hremains⟩ := release_rest Empty h.formed hused
  have hextents := hsound.extents_eq
  simp only [HeapState.perform, memory, ← hpayload, hrun] at hsound hextents ⊢
  obtain rfl : ds = KernelHeap.released l c r := hextents.symm.trans hreleased.map_extent_blocks
  rw [h.backed.directMap]
  refine ⟨_, c, mem_inUse.mpr ⟨hc, hused⟩, hsound, ?_, rfl, hrest, hremains⟩
  rw [inUse_released, inUse_append, inUse_cons_of_used hused]
  exact List.append_subset.mpr ⟨List.subset_append_left .., fun e he => by simp [he]⟩

theorem Sound.perform_again (h : s.Sound p cs) (hc : Remains p.directMap s.memory cs c)
    (hne : c.payload ≠ .null) :
    s.perform p (.release c.payload) = ⟨⟨{ s.world.machine with
      reports := s.world.machine.reports.push (.releaseIgnored c.payload) }, s.world.part⟩,
      s.frames, s.live⟩ := by
  rw [h.backed.directMap] at hc
  have hlive : s.live.filter (fun b => b.address ≠ c.payload) = s.live := by
    refine List.filter_eq_self.mpr fun b hb => decide_eq_true ?_
    obtain ⟨e, he, hused, hpayload, -⟩ := h.block hb
    rw [← hpayload]
    exact h.formed.payload_ne_of_remains hc he hused
  simp only [HeapState.perform, run_release_of_remains Empty hc hne, hlive]

/-- Others write to nothing that is at rest. -/
theorem Sound.rest_frames (h : s.Sound p cs) {q : FrameRequest} (hq : s.Allowed p (.frames q))
    {x : Nat} (hx : AtRest p.directMap cs x) :
    (s.perform p (.frames q)).memory.byte x = s.memory.byte x := by
  rw [h.backed.directMap] at hx
  have hmem := h.formed.frame_of_atRest hx
  rcases h.frames_cases hq with ⟨m, rfl⟩ | ⟨hkeeps, hgives⟩
  · refine hq x (.inr ⟨hmem, fun b hb hbx => ?_⟩)
    obtain ⟨c, hc, hused, -, hholds⟩ := h.holds hb
    obtain ⟨hlow, hhigh⟩ := hholds x hbx
    exact h.formed.not_holds_of_atRest hc hused hx ⟨Nat.le_trans (Nat.le_add_right _ _) hlow, hhigh⟩
  · exact hkeeps.bytes x (h.backed.outside hmem) fun hg => (hgives _ hg).1 hmem

/-- As long as the heap hands out nothing, all released blocks stay as their releases left them. -/
theorem Quiet.remains (ht : Quiet p s as t) (h : s.Sound p cs) :
    ∃ ds, t.Sound p ds ∧ inUse ds ⊆ inUse cs ∧
      ∀ a ∈ as, ∃ c ∈ inUse cs, c.payload = a ∧ Remains p.directMap t.memory ds c := by
  induction ht with
  | refl => exact ⟨cs, h, List.Subset.refl _, fun a ha => absurd ha List.not_mem_nil⟩
  | unserved size _ hnone ih =>
    obtain ⟨ds, hsound, hsub, hremains⟩ := ih
    rw [hsound.perform_unserved hnone]
    exact ⟨ds, hsound, hsub, hremains⟩
  | release _ hb ih =>
    obtain ⟨ds, hsound, hsub, hremains⟩ := ih
    obtain ⟨ds', c, hc, hsound', hsub', hpayload, hrest, hleft⟩ := hsound.rest_release hb
    refine ⟨ds', hsound', List.Subset.trans hsub' hsub, fun a ha => ?_⟩
    rcases List.mem_cons.mp ha with rfl | ha
    · exact ⟨c, hsub hc, hpayload, hleft⟩
    · obtain ⟨e, he, hepayload, hstill⟩ := hremains a ha
      exact ⟨e, he, hepayload, hstill.congr hrest⟩
  | again _ ha ih =>
    obtain ⟨ds, hsound, hsub, hremains⟩ := ih
    obtain ⟨c, hc, rfl, hleft⟩ := hremains _ ha
    have hne := h.formed.payload_ne_null (mem_inUse.mp hc).1
    rw [hsound.perform_again hleft hne]
    exact ⟨ds, hsound.beside (fun _ _ => rfl) hsound.backed, hsub, hremains⟩
  | frames q _ hq ih =>
    obtain ⟨ds, hsound, hsub, hremains⟩ := ih
    refine ⟨ds, hsound.perform_frames hq, hsub, fun a ha => ?_⟩
    obtain ⟨c, hc, hpayload, hleft⟩ := hremains a ha
    exact ⟨c, hc, hpayload, hleft.congr fun x hx => ⟨hx, hsound.rest_frames hq hx⟩⟩

end HeapState

/-- Releasing a block again. From a reachable state on, as long as the heap hands out nothing, a
released block may be released once more, whatever has been released in between and whatever the block
has been joined with. This is reported, and changes neither memory nor the heap. -/
theorem release_again_ignored {boot : BootInfo} {p : FrameAllocator} {s t : HeapState}
    {as : List VirtualAddress} {a : VirtualAddress}
    (hnull : ¬ p.Available boot.map p.directMap.nullFrame) (hs : HeapState.Reachable boot p s)
    (ht : HeapState.Quiet p s as t) (ha : a ∈ as) :
    (release a : Action (World KernelHeap) Empty Unit).run t.world = (.done (),
      ⟨{ t.world.machine with reports := t.world.machine.reports.push (.releaseIgnored a) },
        t.world.part⟩) := by
  obtain ⟨cs, h⟩ := hs.sound hnull
  obtain ⟨ds, hsound, -, hremains⟩ := ht.remains h
  obtain ⟨c, hc, rfl, hleft⟩ := hremains a ha
  rw [hsound.backed.directMap] at hleft
  exact run_release_of_remains Empty hleft (h.formed.payload_ne_null (mem_inUse.mp hc).1)

namespace TwoRegions

/-- The second block is released and joined with what is left behind it, and then joined with the
first one. -/
def joinedTwice : HeapState :=
  (filled.perform allocator (.release ⟨0xFFFF80000000D0B0⟩)).perform allocator
    (.release ⟨0xFFFF80000000D020⟩)

theorem live_filled_extents_joinedTwice :
    filled.live = [⟨⟨0xFFFF80000000D020⟩, 112⟩, ⟨⟨0xFFFF80000000D0B0⟩, 64000⟩] ∧
      extents joinedTwice.world = [⟨⟨0xFFFF80000000D000⟩, 65504, true⟩] := by
  decide +kernel

theorem quiet_joinedTwice : HeapState.Quiet allocator filled
    [⟨0xFFFF80000000D020⟩, ⟨0xFFFF80000000D0B0⟩] joinedTwice := by
  have second := HeapState.Quiet.refl.release (p := allocator) (s := filled)
    (b := ⟨⟨0xFFFF80000000D0B0⟩, 64000⟩) (by simp [live_filled_extents_joinedTwice.1])
  refine second.release (b := ⟨⟨0xFFFF80000000D020⟩, 112⟩) ?_
  simp [HeapState.live_release, live_filled_extents_joinedTwice.1]

end TwoRegions

/-- The header of the second block is a part of the first one's payload by now. -/
theorem release_again_ignored_of_two_regions :
    extents TwoRegions.joinedTwice.world = [⟨⟨0xFFFF80000000D000⟩, 65504, true⟩] ∧
      (release ⟨0xFFFF80000000D0B0⟩ : Action (World KernelHeap) Empty Unit).run
        TwoRegions.joinedTwice.world = (.done (), ⟨{ TwoRegions.joinedTwice.world.machine with
          reports := TwoRegions.joinedTwice.world.machine.reports.push
            (.releaseIgnored ⟨0xFFFF80000000D0B0⟩) }, TwoRegions.joinedTwice.world.part⟩) :=
  ⟨TwoRegions.live_filled_extents_joinedTwice.2,
    release_again_ignored TwoRegions.nullFrame_not_available TwoRegions.reachable_filled
      TwoRegions.quiet_joinedTwice (by simp)⟩

/-- Poison persists. In every reachable state, what is handed out can be released. From then on, as
long as the heap hands out nothing, all bytes of the payload of its block are poison. -/
theorem poison_persists {boot : BootInfo} {p : FrameAllocator} {s : HeapState} {a : Allocation}
    (hnull : ¬ p.Available boot.map p.directMap.nullFrame) (hs : HeapState.Reachable boot p s)
    (ha : a ∈ s.live) :
    (∃ w, (release a.address : Action (World KernelHeap) Empty Unit).run s.world =
      (.done (), w)) ∧
    ∃ c ∈ extents s.world, c.free = false ∧ c.payload = a.address ∧ a.size ≤ c.size ∧
      ∀ as t, HeapState.Quiet p s as t → a.address ∈ as → ∀ k, k < c.size →
        t.memory.byte (p.directMap.physical (a.address.add k)).value.toNat = poison := by
  obtain ⟨cs, h⟩ := hs.sound hnull
  have hf := h.formed
  obtain ⟨c, hc, hused, hpayload, hsize⟩ := h.block ha
  rw [h.extents_eq, ← hpayload]
  refine ⟨?_, c, hc, hused, rfl, UInt64.le_iff_toNat_le.mpr hsize, fun as t ht hreleased k hk => ?_⟩
  · obtain ⟨l, r, rfl⟩ := List.append_of_mem hc
    obtain ⟨t, tail, hrun, -⟩ := release_spec Empty hf hused
    exact ⟨_, hrun⟩
  · obtain ⟨ds, -, -, hremains⟩ := ht.remains h
    obtain ⟨e, he, hepayload, hleft⟩ := hremains _ hreleased
    obtain rfl := hf.eq_of_address_eq (mem_inUse.mp he).1 hc (Extent.payload_inj.mp hepayload)
    have hlt := hf.stop_lt hc
    have hstart := hf.physical_payload hc
    rw [UInt64.lt_iff_toNat_lt] at hk
    rw [h.backed.directMap] at hleft ⊢
    rw [DirectMap.toNat_physical_add _ _ _ (by omega), hstart]
    exact (hleft.payload _ (Nat.le_add_right _ _) (by omega)).2

theorem poison_persists_of_two_regions :
    HeapState.Quiet TwoRegions.allocator TwoRegions.filled
        [⟨0xFFFF80000000D020⟩, ⟨0xFFFF80000000D0B0⟩] TwoRegions.joinedTwice ∧
      ∀ k : UInt64, k < 64000 → TwoRegions.joinedTwice.memory.byte
        (TwoRegions.allocator.directMap.physical
          (VirtualAddress.add ⟨0xFFFF80000000D0B0⟩ k)).value.toNat = poison := by
  have hlive : ⟨⟨0xFFFF80000000D0B0⟩, 64000⟩ ∈ TwoRegions.filled.live := by
    simp [TwoRegions.live_filled_extents_joinedTwice.1]
  obtain ⟨-, c, -, -, -, hsize, hpoison⟩ :=
    poison_persists TwoRegions.nullFrame_not_available TwoRegions.reachable_filled hlive
  refine ⟨TwoRegions.quiet_joinedTwice, fun k hk => ?_⟩
  exact hpoison _ _ TwoRegions.quiet_joinedTwice (by simp) k (UInt64.lt_of_lt_of_le hk hsize)

end MemoryManager
