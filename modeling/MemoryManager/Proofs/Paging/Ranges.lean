import MemoryManager.Proofs.Paging.Changes
import MemoryManager.Proofs.Paging.KernelSpace

namespace MemoryManager

namespace VirtualAddress

/-- The page of byte number `k` of a range. -/
theorem page_add_ofNat (a : VirtualAddress) (k : Nat) :
    (a.add (.ofNat k)).page.val =
      (a.value.toNat / 4096 + (a.value.toNat % 4096 + k) / 4096) % 2 ^ 36 := by
  simp only [page, add, UInt64.toNat_add, UInt64.toNat_ofNat']
  omega

end VirtualAddress

namespace AddressSpaces

/-- Byte number `k` of a range from `a` on lies on one of the pages that are counted for the size. -/
def Covers (a : VirtualAddress) (size : UInt64) (k : Nat) : Prop :=
  a.value.toNat % 4096 + k < 4096 * ((size.toNat + 4095) / 4096)

/-- A range is covered to its last byte if and only if it starts no farther into its page than its
size is short of whole pages. -/
theorem forall_covers_iff {a : VirtualAddress} {size : UInt64} :
    (∀ k < size.toNat, Covers a size k) ↔
      size = 0 ∨ a.value.toNat % 4096 ≤ (4096 - size.toNat % 4096) % 4096 := by
  have hzero : size = 0 ↔ size.toNat = 0 := UInt64.toNat_inj.symm
  rw [hzero]
  unfold Covers
  constructor
  · intro h
    rcases Nat.eq_zero_or_pos size.toNat with hsize | hsize
    · exact .inl hsize
    · have hlast := h (size.toNat - 1) (by omega)
      omega
  · intro h k hk
    omega

section Runs

open FourLevel

variable {τ : Type} [FrameSource τ] {Keeps : List PhysicalFrame → World τ → Prop} {p : FourLevel}
  {root : RootTable} {w w' : World τ} {P : Paging} {s : SpaceRun τ}
  {target : PhysicalAddress} {a : VirtualAddress} {size : UInt64} {flags : PageFlags}

/-- What an address translates to once a range is mapped. -/
theorem translate_mapRange (hs : FrameSource.Lawful τ Keeps) (hP : P.fourLevel? = some p)
    {used : List PhysicalFrame} (hk : Keeps used w) (hr : SpaceRun.Reachable p w s)
    (hroot : root.frame ∈ s.roots)
    (hrun : (mapRange P root target a size flags).run s.world = (.done (), w'))
    (v : VirtualAddress) :
    P.translate w'.machine.memory root v =
      .ok (((rangeRequests target a size flags).foldl PageRequest.apply
        (pageMapOf s.log root.frame)).translate v) := by
  rw [run_mapRange hP (hrun ▸ nofun)] at hrun
  obtain ⟨t, ht, rfl, hroots, hlog⟩ := hr.runRequests hroot hrun
  have htranslate := (ht.sound hs hk).translate_pageMapOf (hroots ▸ hroot) v
  rw [hlog, pageMapOf_append] at htranslate
  rw [Paging.translate, hP]
  exact htranslate

end Runs

section Ranges

variable {target : PhysicalAddress} {a v : VirtualAddress} {size : UInt64} {flags : PageFlags}
  {pm : PageMap}

theorem eq_of_page_eq {i j : Nat} (hi : i < 2 ^ 36) (hj : j < 2 ^ 36)
    (h : (a.add (.ofNat i * pageSize)).page = (a.add (.ofNat j * pageSize)).page) : i = j := by
  rw [Fin.ext_iff, VirtualAddress.page_add, VirtualAddress.page_add] at h
  omega

/-- What mapping pages makes of one of them. -/
theorem foldl_pageRequests {n i : Nat} (hn : n ≤ 2 ^ 36) (hi : i < n) :
    (pageRequests target a flags 0 n).foldl PageRequest.apply pm
      (a.add (.ofNat i * pageSize)).page =
      ⟨PhysicalAddress.frame ⟨target.value + .ofNat i * pageSize⟩, flags⟩ := by
  refine PageRequest.foldl_apply_of_mem pm (maps_pageRequests target a flags 0 n)
    (List.mem_map.mpr ⟨i, List.mem_range'_1.mpr (by omega), rfl⟩) fun t b hmem hpage => ?_
  obtain ⟨j, hj, hmap⟩ := List.mem_map.mp hmem
  obtain ⟨rfl, rfl, -⟩ := PageRequest.map.inj hmap
  rw [List.mem_range'_1, Nat.zero_add] at hj
  rw [eq_of_page_eq (by omega) (by omega) hpage]

/-- What mapping pages makes of all others. -/
theorem foldl_pageRequests_of_ne {n : Nat} {page : Fin (2 ^ 36)}
    (hne : ∀ i < n, (a.add (.ofNat i * pageSize)).page ≠ page) :
    (pageRequests target a flags 0 n).foldl PageRequest.apply pm page = pm page := by
  refine PageRequest.foldl_apply_of_forall_ne pm (maps_pageRequests target a flags 0 n)
    fun t b hmem => ?_
  obtain ⟨j, hj, hmap⟩ := List.mem_map.mp hmem
  obtain ⟨-, rfl, -⟩ := PageRequest.map.inj hmap
  rw [List.mem_range'_1, Nat.zero_add] at hj
  exact hne j hj.2

/-- A covered byte of the range is mapped to the byte with the same number. -/
theorem translate_rangeRequests (hoffset : target.value.toNat % 4096 = a.value.toNat % 4096)
    (hlow : target.value.toNat + size.toNat < 2 ^ 63) (hspan : size.toNat < 2 ^ 48)
    (hpresent : flags.contains .present = true) {k : Nat} (hk : k < size.toNat)
    (hcovers : Covers a size k) :
    ((rangeRequests target a size flags).foldl PageRequest.apply pm).translate (a.add (.ofNat k)) =
      some ⟨.ofNat (target.value.toNat + k)⟩ := by
  -- byte `k` is on page number `i` of the range
  obtain ⟨i, hi⟩ : ∃ i, i = (a.value.toNat % 4096 + k) / 4096 := ⟨_, rfl⟩
  have hin : i < (size.toNat + 4095) / 4096 := by
    unfold Covers at hcovers
    omega
  have hsame : (a.add (.ofNat k)).page = (a.add (.ofNat i * pageSize)).page := by
    rw [Fin.ext_iff, VirtualAddress.page_add_ofNat, VirtualAddress.page_add, hi]
  rw [PageMap.translate, hsame, rangeRequests, foldl_pageRequests (by omega) hin, if_pos hpresent,
    frame_add (by omega)]
  simp only [PhysicalFrame.start, PhysicalFrame.ofIndex, VirtualAddress.add, UInt64.toNat_add,
    UInt64.toNat_ofNat']
  congr 3
  omega

/-- An address that is on no page of the range translates as before. -/
theorem translate_rangeRequests_of_ne
    (hne : ∀ i < (size.toNat + 4095) / 4096, (a.add (.ofNat i * pageSize)).page ≠ v.page) :
    ((rangeRequests target a size flags).foldl PageRequest.apply pm).translate v =
      pm.translate v := by
  rw [PageMap.translate, rangeRequests, foldl_pageRequests_of_ne hne, PageMap.translate]

end Ranges

end AddressSpaces

open AddressSpaces

/-- What mapping a range does to an address space, if it goes through and the range has the same
place in a page on both sides. A byte of the range that lies on one of the pages counted for the size
translates to the byte with the same number; an address on no such page translates as it did before.
The bytes behind the last page counted are of the second kind. There are none if and only if the
range is empty or starts no farther into its page than its size is short of whole pages. -/
theorem mapped_range {τ : Type} [FrameSource τ] {Keeps : List PhysicalFrame → World τ → Prop}
    (hs : FrameSource.Lawful τ Keeps) {P : Paging} {p : FourLevel} (hP : P.fourLevel? = some p)
    {w w' : World τ} {used : List PhysicalFrame} (hk : Keeps used w) {s : SpaceRun τ}
    (hr : SpaceRun.Reachable p w s) {root : RootTable} (hroot : root.frame ∈ s.roots)
    {target : PhysicalAddress} {a : VirtualAddress} {size : UInt64} {flags : PageFlags}
    (hoffset : target.value.toNat % 4096 = a.value.toNat % 4096)
    (hlow : target.value.toNat + size.toNat < 2 ^ 63) (hspan : size.toNat < 2 ^ 48)
    (hpresent : flags.contains .present = true)
    (hrun : (mapRange P root target a size flags).run s.world = (.done (), w')) :
    (∀ k < size.toNat, Covers a size k → P.translate w'.machine.memory root (a.add (.ofNat k)) =
      .ok (some ⟨.ofNat (target.value.toNat + k)⟩)) ∧
    (∀ v, (∀ i < (size.toNat + 4095) / 4096, (a.add (.ofNat i * pageSize)).page ≠ v.page) →
      P.translate w'.machine.memory root v = P.translate s.memory root v) ∧
    (∀ k < size.toNat, ¬ Covers a size k → a.value.toNat % 4096 + size.toNat ≤ 2 ^ 48 →
      P.translate w'.machine.memory root (a.add (.ofNat k)) =
        P.translate s.memory root (a.add (.ofNat k))) ∧
    ((∀ k < size.toNat, Covers a size k) ↔
      size = 0 ∨ a.value.toNat % 4096 ≤ (4096 - size.toNat % 4096) % 4096) := by
  have htranslate := translate_mapRange hs hP hk hr hroot hrun
  have hbefore (v : VirtualAddress) :
      P.translate s.memory root v = .ok ((pageMapOf s.log root.frame).translate v) := by
    rw [Paging.translate, hP]
    exact (hr.sound hs hk).translate_pageMapOf hroot v
  have hother (v : VirtualAddress)
      (hne : ∀ i < (size.toNat + 4095) / 4096, (a.add (.ofNat i * pageSize)).page ≠ v.page) :
      P.translate w'.machine.memory root v = P.translate s.memory root v := by
    rw [htranslate, hbefore, translate_rangeRequests_of_ne hne]
  refine ⟨fun k hk' hcovers => ?_, hother, fun k hk' hbehind hend => hother _ fun i hi heq => ?_,
    forall_covers_iff⟩
  · rw [htranslate, translate_rangeRequests hoffset hlow hspan hpresent hk' hcovers]
  · rw [Fin.ext_iff, VirtualAddress.page_add, VirtualAddress.page_add_ofNat] at heq
    unfold Covers at hbehind
    omega

namespace TwoRegions

def anyPaging : Paging :=
  ⟨.x86_64, allocator.directMap, .cr3⟩

/-- An address space with nothing mapped. -/
def bare : SpaceRun FrameAllocator :=
  (⟨⟨machine, allocator⟩, [], []⟩ : SpaceRun FrameAllocator).perform paging .newRoot

theorem bare_reachable : SpaceRun.Reachable paging ⟨machine, allocator⟩ bare :=
  .step .newRoot .start trivial

theorem bare_roots : root.frame ∈ bare.roots :=
  List.mem_singleton_self _

/-- A range of one page in size is mapped, from the middle of a page on. -/
def mapped : World FrameAllocator :=
  ((mapRange anyPaging root ⟨0x1D800⟩ ⟨0x40202800⟩ 0x1000 ⟨3⟩).run bare.world).2

theorem mapRange_eq : (mapRange anyPaging root ⟨0x1D800⟩ ⟨0x40202800⟩ 0x1000 ⟨3⟩).run bare.world =
    (.done (), mapped) := by
  have hdone : ((mapRange anyPaging root ⟨0x1D800⟩ ⟨0x40202800⟩ 0x1000 ⟨3⟩).run bare.world).1.done? =
      some () := by
    decide +kernel
  exact Prod.ext (Outcome.eq_done hdone) (by rw [mapped])

end TwoRegions

/-- The first half of the range is mapped, the second one is not. -/
theorem mapped_range_of_two_regions :
    TwoRegions.anyPaging.translate TwoRegions.mapped.machine.memory TwoRegions.root ⟨0x40202FFF⟩ =
        .ok (some ⟨0x1DFFF⟩) ∧
      TwoRegions.anyPaging.translate TwoRegions.mapped.machine.memory TwoRegions.root
        ⟨0x40203000⟩ = TwoRegions.anyPaging.translate TwoRegions.bare.memory TwoRegions.root
          ⟨0x40203000⟩ := by
  obtain ⟨hmapped, -, hbehind, -⟩ := mapped_range FrameAllocator.lawful (P := TwoRegions.anyPaging) rfl
    (FrameAllocator.lends_init TwoRegions.init_eq) TwoRegions.bare_reachable TwoRegions.bare_roots
    (by decide) (by decide) (by decide) (by decide) TwoRegions.mapRange_eq
  exact ⟨hmapped 0x7FF (by decide) (by unfold Covers; decide),
    hbehind 0x800 (by decide) (by unfold Covers; decide) (by decide)⟩

/-- The range goes through, but an address less than its size behind its start does not translate. -/
theorem range_end_not_mapped :
    ∃ s w, SpaceRun.Reachable TwoRegions.paging ⟨TwoRegions.machine, TwoRegions.allocator⟩ s ∧
      TwoRegions.root.frame ∈ s.roots ∧
      (mapRange TwoRegions.anyPaging TwoRegions.root ⟨0x1D800⟩ ⟨0x40202800⟩ 0x1000 ⟨3⟩).run s.world =
        (.done (), w) ∧
      TwoRegions.anyPaging.translate w.machine.memory TwoRegions.root
        (VirtualAddress.add ⟨0x40202800⟩ 0x800) = .ok none := by
  refine ⟨TwoRegions.bare, TwoRegions.mapped, TwoRegions.bare_reachable, TwoRegions.bare_roots,
    TwoRegions.mapRange_eq, ?_⟩
  rw [translate_mapRange FrameAllocator.lawful rfl (FrameAllocator.lends_init TwoRegions.init_eq)
    TwoRegions.bare_reachable TwoRegions.bare_roots TwoRegions.mapRange_eq]
  rfl

end MemoryManager
