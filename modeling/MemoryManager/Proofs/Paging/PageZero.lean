import MemoryManager.Proofs.Paging.KernelSpace

namespace MemoryManager

/-- A region makes the direct map show frame 0 if and only if it begins inside the frame, behind its
first byte, and is not empty. -/
theorem Region.shows_zero_iff {r : Region} :
    r.Shows 0 ↔ 0 < r.base.value.toNat ∧ r.base.value.toNat < 4096 ∧ 0 < r.length.toNat := by
  unfold Shows shownStart shownLength
  split <;> omega

namespace AddressSpaces

section Requests

variable {boot : BootInfo} {f : Nat}

/-- The requests of the start for the window of frame 0 come from the direct map of regions that show
this frame, and are for no other frame. -/
theorem asks_window_zero (haligned : 4096 ∣ boot.directOffset.toNat)
    (hlow : ∀ r ∈ boot.map, r.base.value.toNat + r.length.toNat ≤ 2 ^ 47)
    (hkernel : ∀ k < (boot.kernel.size.toNat + 4095) / 4096,
      (boot.kernel.virtual.value.toNat / 4096 + k) % 2 ^ 36 ≠
        boot.directOffset.toNat / 4096 % 2 ^ 36) :
    Asks (bootRequests boot) (boot.directOffset.toNat / 4096 % 2 ^ 36) f ↔
      f = 0 ∧ ∃ r ∈ boot.map, r.Shows 0 := by
  constructor
  · rintro ⟨t, a, hmem, hpage, hframe⟩
    rcases List.mem_append.mp hmem with hmem | hmem
    · obtain ⟨r, hr, hmem⟩ := List.mem_flatMap.mp hmem
      obtain ⟨hshows, hwindow⟩ :=
        (asks_regionRequests haligned (hlow r hr)).mp ⟨t, a, hmem, hpage, hframe⟩
      have hlt := Region.lt_of_shows (hlow r hr) hshows
      obtain rfl : f = 0 := by omega
      exact ⟨rfl, r, hr, hshows⟩
    · obtain ⟨k, hk, hmap⟩ := List.mem_map.mp hmem
      obtain ⟨-, rfl, -⟩ := PageRequest.map.inj hmap
      rw [List.mem_range'_1, Nat.zero_add] at hk
      rw [VirtualAddress.page_add] at hpage
      exact absurd hpage (hkernel k hk.2)
  · rintro ⟨rfl, r, hr, hshows⟩
    obtain ⟨t, a, hmem, hpage, hframe⟩ :=
      (asks_regionRequests haligned (hlow r hr)).mpr ⟨hshows, rfl⟩
    exact ⟨t, a, List.mem_append_left _ (List.mem_flatMap.mpr ⟨r, hr, hmem⟩), hpage, hframe⟩

end Requests

/-- Once the start is done, addresses translate as its requests mean. -/
theorem translate_of_init {τ : Type} [FrameSource τ] {Keeps : List PhysicalFrame → World τ → Prop}
    (hs : FrameSource.Lawful τ Keeps) {P : Paging} {p : FourLevel} (hP : P.fourLevel? = some p)
    {w w' : World τ} {used : List PhysicalFrame} (hk : Keeps used w) {boot : BootInfo}
    {s : AddressSpaces} (hrun : (init P boot).run w = (.done s, w')) (v : VirtualAddress) :
    s.paging.translate w'.machine.memory s.kernelRoot v =
      .ok (((bootRequests boot).foldl PageRequest.apply .empty).translate v) := by
  rw [init] at hrun
  obtain ⟨root, w₁, hbuild, hstart⟩ := Action.run_bind_eq_done hrun
  obtain ⟨rfl, hmemory, -⟩ := start_eq_done hP hstart
  obtain ⟨⟨used', -, hf⟩, hshows⟩ := mirrors_build hs hP hk hbuild
  rw [Paging.translate, hP, hmemory]
  exact FourLevel.translate_of_shows hf (List.mem_singleton_self _) hshows v

end AddressSpaces

/-- Physical page 0 in the direct map. If the start is done, the direct map begins on a page boundary
and the kernel image is not in the window of page 0, then this window is empty unless a region of the
memory map begins in page 0 behind address 0 and is not empty. If there is such a region, every
address of the window translates to the address of page 0 that it stands for. -/
theorem page_zero_in_direct_map {τ : Type} [FrameSource τ]
    {Keeps : List PhysicalFrame → World τ → Prop} (hs : FrameSource.Lawful τ Keeps) {P : Paging}
    {p : FourLevel} (hP : P.fourLevel? = some p) {w w' : World τ} {used : List PhysicalFrame}
    (hk : Keeps used w) {boot : BootInfo} (haligned : 4096 ∣ boot.directOffset.toNat)
    (hlow : ∀ r ∈ boot.map, r.base.value.toNat + r.length.toNat ≤ 2 ^ 47)
    (hkernel : ∀ k < (boot.kernel.size.toNat + 4095) / 4096,
      (boot.kernel.virtual.value.toNat / 4096 + k) % 2 ^ 36 ≠
        boot.directOffset.toNat / 4096 % 2 ^ 36) {s : AddressSpaces}
    (hrun : (AddressSpaces.init P boot).run w = (.done s, w')) {x : Nat} (hx : x < 4096) :
    ((∀ r ∈ boot.map, 0 < r.base.value.toNat → r.base.value.toNat < 4096 → r.length = 0) →
      s.paging.translate w'.machine.memory s.kernelRoot ⟨boot.directOffset + .ofNat x⟩ =
        .ok none) ∧
    ((∃ r ∈ boot.map, 0 < r.base.value.toNat ∧ r.base.value.toNat < 4096 ∧ r.length ≠ 0) →
      s.paging.translate w'.machine.memory s.kernelRoot ⟨boot.directOffset + .ofNat x⟩ =
        .ok (some ⟨.ofNat x⟩)) := by
  have hvalue : (boot.directOffset + .ofNat x).toNat = boot.directOffset.toNat + x := by
    have := boot.directOffset.toNat_lt
    rw [UInt64.toNat_add, UInt64.toNat_ofNat']
    omega
  have hpage : (VirtualAddress.page ⟨boot.directOffset + .ofNat x⟩).val =
      boot.directOffset.toNat / 4096 % 2 ^ 36 := by
    simp only [VirtualAddress.page, hvalue]
    omega
  have hlength (r : Region) : r.length = 0 ↔ r.length.toNat = 0 := UInt64.toNat_inj.symm
  rw [AddressSpaces.translate_of_init hs hP hk hrun]
  constructor
  · intro hnone
    rw [AddressSpaces.translate_of_not_asks fun f hf => ?_]
    rw [hpage, AddressSpaces.asks_window_zero haligned hlow hkernel] at hf
    obtain ⟨-, r, hr, hshows⟩ := hf
    obtain ⟨hpos, hlt, hsize⟩ := Region.shows_zero_iff.mp hshows
    exact Nat.ne_of_gt hsize ((hlength r).mp (hnone r hr hpos hlt))
  · rintro ⟨r, hr, hpos, hlt, hsize⟩
    have hshows : r.Shows 0 :=
      Region.shows_zero_iff.mpr ⟨hpos, hlt, Nat.pos_of_ne_zero (mt (hlength r).mpr hsize)⟩
    rw [AddressSpaces.translate_of_asks (f := 0)]
    · obtain ⟨d, hd⟩ := haligned
      rw [hvalue, show 4096 * 0 + (boot.directOffset.toNat + x) % 4096 = x by omega]
    · rw [hpage, AddressSpaces.asks_window_zero haligned hlow hkernel]
      exact ⟨rfl, r, hr, hshows⟩
    · intro g hg
      rw [hpage, AddressSpaces.asks_window_zero haligned hlow hkernel] at hg
      exact hg.1

namespace LowRegion

/-- A report of one region of free RAM that begins in the middle of page 0. -/
def boot : BootInfo where
  map := [⟨⟨0x800⟩, 0x5800, .usable⟩]
  directOffset := 0xFFFF800000000000

def allocator : FrameAllocator where
  bitmapFrame := .ofIndex 1
  totalFrames := 6
  directMap := { offset := 0xFFFF800000000000 }

def machine : Machine :=
  ((FrameAllocator.init boot).run ⟨.zeroed, #[], #[]⟩).2

theorem init_eq : (FrameAllocator.init boot).run ⟨.zeroed, #[], #[]⟩ = (.done allocator, machine) :=
  Prod.ext rfl rfl

def paging : Paging :=
  ⟨.x86_64, allocator.directMap, .cr3⟩

def spaces : AddressSpaces :=
  ⟨paging, ⟨.ofIndex 2, ⟨0xFFFF800000002000⟩⟩⟩

def started : World FrameAllocator :=
  ((AddressSpaces.init paging boot).run ⟨machine, allocator⟩).2

theorem init_spaces_eq :
    (AddressSpaces.init paging boot).run ⟨machine, allocator⟩ = (.done spaces, started) := by
  have hdone : ((AddressSpaces.init paging boot).run
      (⟨machine, allocator⟩ : World FrameAllocator)).1.done? = some spaces := by
    decide +kernel
  exact Prod.ext (Outcome.eq_done hdone) (by rw [started])

end LowRegion

/-- One memory map has a region from address 0 on, the other one a region from the middle of page 0
on. -/
theorem page_zero_of_image_and_low_region :
    KernelImage.paging.translate KernelImage.started.machine.memory KernelImage.spaces.kernelRoot
        ⟨0xFFFF800000000123⟩ = .ok none ∧
    LowRegion.paging.translate LowRegion.started.machine.memory LowRegion.spaces.kernelRoot
        ⟨0xFFFF800000000123⟩ = .ok (some ⟨0x123⟩) := by
  constructor
  · exact (page_zero_in_direct_map FrameAllocator.lawful (P := KernelImage.paging) rfl
      (FrameAllocator.lends_init KernelImage.init_eq) (by decide) KernelImage.regular.map_low
      (by decide) KernelImage.init_spaces_eq (x := 0x123) (by decide)).1 (by decide)
  · exact (page_zero_in_direct_map FrameAllocator.lawful (P := LowRegion.paging) rfl
      (FrameAllocator.lends_init LowRegion.init_eq) (by decide) (by decide) (by decide)
      LowRegion.init_spaces_eq (x := 0x123) (by decide)).2 (by decide)

/-- An address in the window of page 0 translates, although no region begins at address 0 and there
is no kernel image. -/
theorem page_zero_shown :
    4096 ∣ LowRegion.boot.directOffset.toNat ∧ LowRegion.boot.kernel.size = 0 ∧
    (∀ r ∈ LowRegion.boot.map, r.base.value.toNat + r.length.toNat ≤ 2 ^ 47) ∧
    (AddressSpaces.init LowRegion.paging LowRegion.boot).run
      ⟨LowRegion.machine, LowRegion.allocator⟩ = (.done LowRegion.spaces, LowRegion.started) ∧
    LowRegion.spaces.paging.translate LowRegion.started.machine.memory LowRegion.spaces.kernelRoot
      ⟨LowRegion.boot.directOffset + 0x123⟩ = .ok (some ⟨0x123⟩) :=
  ⟨by decide, rfl, by decide, LowRegion.init_spaces_eq, by decide +kernel⟩

end MemoryManager
