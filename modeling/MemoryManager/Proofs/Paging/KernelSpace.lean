import MemoryManager.AddressSpaces
import MemoryManager.Proofs.Frames.Custody
import MemoryManager.Proofs.Paging.Requests
import MemoryManager.Proofs.Paging.Silence

namespace MemoryManager

namespace PageRequest

/-- A page that requests to map with the same rights name one frame for gets that frame. -/
theorem foldl_apply_of_mem {reqs : List PageRequest} {flags : PageFlags} (pm : PageMap)
    (hmaps : ∀ q ∈ reqs, ∃ t a, q = .map t a flags) {t : PhysicalAddress} {a : VirtualAddress}
    (hmem : .map t a flags ∈ reqs)
    (hsame : ∀ t' a', .map t' a' flags ∈ reqs → a'.page = a.page → t'.frame = t.frame) :
    reqs.foldl apply pm a.page = ⟨t.frame, flags⟩ := by
  -- the last request decides, so the list is taken apart at its end
  induction reqs using List.reverseRecOn with
  | nil => cases hmem
  | append_singleton reqs q ih =>
    obtain ⟨t', a', rfl⟩ := hmaps q (List.mem_append_right _ (List.mem_singleton_self q))
    rw [List.foldl_append, List.foldl_cons, List.foldl_nil, apply]
    by_cases hpage : a.page = a'.page
    · rw [hpage, Function.update_self,
        hsame t' a' (List.mem_append_right _ (List.mem_singleton_self _)) hpage.symm]
    · rw [Function.update_of_ne hpage]
      refine ih (fun q hq => hmaps q (List.mem_append_left _ hq)) ?_ fun t'' a'' h =>
        hsame t'' a'' (List.mem_append_left _ h)
      rcases List.mem_append.mp hmem with h | h
      · exact h
      · cases List.mem_singleton.mp h
        exact absurd rfl hpage

/-- A page that no request is about is left as it was. -/
theorem foldl_apply_of_forall_ne {reqs : List PageRequest} {flags : PageFlags} (pm : PageMap)
    (hmaps : ∀ q ∈ reqs, ∃ t a, q = .map t a flags) {page : Fin (2 ^ 36)}
    (hnone : ∀ t a, .map t a flags ∈ reqs → a.page ≠ page) :
    reqs.foldl apply pm page = pm page := by
  induction reqs generalizing pm with
  | nil => rfl
  | cons q reqs ih =>
    obtain ⟨t, a, rfl⟩ := hmaps q List.mem_cons_self
    rw [List.foldl_cons, ih _ (fun q hq => hmaps q (List.mem_cons_of_mem _ hq))
      fun t' a' h => hnone t' a' (List.mem_cons_of_mem _ h), apply,
      Function.update_of_ne (hnone t a List.mem_cons_self).symm]

end PageRequest

theorem pagesFor_eq_ok {size n : UInt64} (h : pagesFor size = .ok n) :
    n.toNat = (size.toNat + 4095) / 4096 := by
  rw [pagesFor] at h
  cases halign : alignUp size pageSize with
  | error f => rw [halign] at h; cases h
  | ok v =>
    rw [halign] at h
    cases h
    rw [toNat_shiftRight_pageShift, (alignUp_pageSize_eq_ok_iff.mp halign).2]
    omega

namespace AddressSpaces

/-- The requests that map `n` pages of a range, from page number `page` of it on. -/
def pageRequests (target : PhysicalAddress) (a : VirtualAddress) (flags : PageFlags)
    (page n : Nat) : List PageRequest :=
  (List.range' page n).map fun k =>
    .map ⟨target.value + .ofNat k * pageSize⟩ (a.add (.ofNat k * pageSize)) flags

theorem pageRequests_succ (target : PhysicalAddress) (a : VirtualAddress) (flags : PageFlags)
    (page n : Nat) : pageRequests target a flags page (n + 1) =
      .map ⟨target.value + .ofNat page * pageSize⟩ (a.add (.ofNat page * pageSize)) flags ::
        pageRequests target a flags (page + 1) n := rfl

def rangeRequests (target : PhysicalAddress) (a : VirtualAddress) (size : UInt64)
    (flags : PageFlags) : List PageRequest :=
  pageRequests target a flags 0 ((size.toNat + 4095) / 4096)

def regionRequests (offset : UInt64) (r : Region) : List PageRequest :=
  let r := mappedPart r
  rangeRequests r.base ⟨r.base.value + offset⟩ r.length kernelFlags

/-- Everything that is mapped at the start: the direct map, then the kernel image. -/
def bootRequests (boot : BootInfo) : List PageRequest :=
  boot.map.flatMap (regionRequests boot.directOffset) ++
    rangeRequests boot.kernel.physical boot.kernel.virtual boot.kernel.size kernelFlags

section Runs

open FourLevel

variable {τ : Type} [FrameSource τ] {Keeps : List PhysicalFrame → World τ → Prop} {p : FourLevel}
  {root : RootTable} {pm : PageMap} {w w' : World τ} {P : Paging}

theorem mirrors_report (hs : FrameSource.Lawful τ Keeps) (h : Mirrors Keeps p root pm w)
    {r : Report}
    (hrun : (World.report r : Action (World τ) PagingError Unit).run w = (.done (), w')) :
    Mirrors Keeps p root pm w' := by
  obtain ⟨⟨used, hk, hf⟩, hshows⟩ := h
  rw [World.run_report] at hrun
  obtain rfl := (Prod.mk.inj hrun).2
  exact ⟨⟨used, hs.beside hk rfl fun _ _ => rfl, hf⟩, hshows⟩

/-- Unless it is stopped, mapping pages is one request after the other. -/
theorem run_mapPages (hP : P.fourLevel? = some p) {target : PhysicalAddress} {a : VirtualAddress}
    {flags : PageFlags} {page n : Nat}
    (hcalm : ∀ f, ((mapPages P root target a flags page n).run w).1 ≠ .stopped f) :
    (mapPages P root target a flags page n).run w =
      (runRequests p root (pageRequests target a flags page n)).run w := by
  induction n generalizing page w with
  | zero => rfl
  | succ n ih =>
    rw [pageRequests_succ, runRequests_cons]
    simp only [mapPages, Paging.map, hP, PageRequest.run] at hcalm ⊢
    cases ht : target.add (.ofNat page * pageSize) with
    | error f =>
      rw [ht, Action.run_bind, Action.run_value_error] at hcalm
      exact absurd rfl (hcalm f)
    | ok t =>
      obtain rfl : t = ⟨target.value + .ofNat page * pageSize⟩ := by
        rw [PhysicalAddress.add, sum] at ht
        split at ht
        · cases ht
          rfl
        · cases ht
      rw [ht, Action.run_bind_done (Action.run_value_ok _ _)] at hcalm
      rw [Action.run_bind_done (Action.run_value_ok _ _)]
      rcases hmap : (p.map root ⟨target.value + .ofNat page * pageSize⟩
        (a.add (.ofNat page * pageSize)) flags).run w with ⟨o, w₁⟩
      cases o with
      | done u =>
        rw [Action.run_bind_done hmap] at hcalm
        rw [Action.run_bind_done hmap, Action.run_bind_done hmap]
        exact ih hcalm
      | refused e => rw [Action.run_bind_refused hmap, Action.run_bind_refused hmap]
      | stopped f => rw [Action.run_bind_stopped hmap, Action.run_bind_stopped hmap]

/-- Unless it is stopped, mapping a range is one request after the other. -/
theorem run_mapRange (hP : P.fourLevel? = some p) {target : PhysicalAddress} {a : VirtualAddress}
    {size : UInt64} {flags : PageFlags}
    (hcalm : ∀ f, ((mapRange P root target a size flags).run w).1 ≠ .stopped f) :
    (mapRange P root target a size flags).run w =
      (runRequests p root (rangeRequests target a size flags)).run w := by
  rw [mapRange] at hcalm ⊢
  cases hn : pagesFor size with
  | error f =>
    rw [hn, Action.run_bind, Action.run_value_error] at hcalm
    exact absurd rfl (hcalm f)
  | ok n =>
    rw [hn, Action.run_bind_done (Action.run_value_ok _ _), pagesFor_eq_ok hn] at hcalm
    rw [Action.run_bind_done (Action.run_value_ok _ _), pagesFor_eq_ok hn]
    exact run_mapPages hP hcalm

theorem mirrors_runRequests (hs : FrameSource.Lawful τ Keeps) {reqs : List PageRequest}
    (h : Mirrors Keeps p root pm w) (hrun : (runRequests p root reqs).run w = (.done (), w')) :
    Mirrors Keeps p root (reqs.foldl PageRequest.apply pm) w' := by
  induction reqs generalizing pm w with
  | nil =>
    cases hrun
    exact h
  | cons q reqs ih =>
    obtain ⟨_, w₁, hone, hrest⟩ := Action.run_bind_eq_done hrun
    exact ih (h.request hs hone) hrest

theorem mirrors_mapRange (hs : FrameSource.Lawful τ Keeps) (hP : P.fourLevel? = some p)
    {target : PhysicalAddress} {a : VirtualAddress} {size : UInt64} {flags : PageFlags}
    (h : Mirrors Keeps p root pm w)
    (hrun : (mapRange P root target a size flags).run w = (.done (), w')) :
    Mirrors Keeps p root ((rangeRequests target a size flags).foldl PageRequest.apply pm) w' := by
  rw [run_mapRange hP (hrun ▸ nofun)] at hrun
  exact mirrors_runRequests hs h hrun

theorem mirrors_mapRegions (hs : FrameSource.Lawful τ Keeps) (hP : P.fourLevel? = some p)
    {offset : UInt64} {rs : List Region} (h : Mirrors Keeps p root pm w)
    (hrun : (rs.forM (mapRegion P root offset)).run w = (.done (), w')) :
    Mirrors Keeps p root ((rs.flatMap (regionRequests offset)).foldl PageRequest.apply pm) w' := by
  induction rs generalizing pm w with
  | nil =>
    cases hrun
    exact h
  | cons r rs ih =>
    obtain ⟨_, w₁, hregion, hrest⟩ := Action.run_bind_eq_done hrun
    obtain ⟨_, w₂, hreport, hrange⟩ := Action.run_bind_eq_done hregion
    rw [List.flatMap_cons, List.foldl_append]
    exact ih (mirrors_mapRange hs hP (mirrors_report hs h hreport) hrange) hrest

/-- Where everything is mapped, first the regions of the memory map were, and then the kernel image. -/
theorem furnish_eq_done {boot : BootInfo} {root' : RootTable}
    (hrun : (furnish P boot root).run w = (.done root', w')) :
    root' = root ∧ ∃ w₁ w₂ w₃,
      (World.report .mappingMemory : Action (World τ) PagingError Unit).run w = (.done (), w₁) ∧
      (boot.map.forM (mapRegion P root boot.directOffset)).run w₁ = (.done (), w₂) ∧
      (World.report .mappingKernel : Action (World τ) PagingError Unit).run w₂ = (.done (), w₃) ∧
      (mapRange P root boot.kernel.physical boot.kernel.virtual boot.kernel.size kernelFlags).run w₃ =
        (.done (), w') := by
  obtain ⟨_, w₁, hreport, hrun₁⟩ := Action.run_bind_eq_done hrun
  obtain ⟨_, w₂, hregions, hrun₂⟩ := Action.run_bind_eq_done hrun₁
  obtain ⟨_, w₃, hreport', hrun₃⟩ := Action.run_bind_eq_done hrun₂
  obtain ⟨_, w₄, hkernel, hpure⟩ := Action.run_bind_eq_done hrun₃
  cases hpure
  exact ⟨rfl, w₁, w₂, w₃, hreport, hregions, hreport', hkernel⟩

/-- What the first part of the start leads to. -/
theorem mirrors_build (hs : FrameSource.Lawful τ Keeps) (hP : P.fourLevel? = some p)
    {used : List PhysicalFrame} (hk : Keeps used w) {boot : BootInfo}
    (hrun : (build P boot).run w = (.done root, w')) :
    Mirrors Keeps p root ((bootRequests boot).foldl PageRequest.apply .empty) w' := by
  obtain ⟨root', w₁, hroot, hfurnish⟩ := Action.run_bind_eq_done hrun
  obtain ⟨rfl, w₂, w₃, w₄, hreport, hregions, hreport', hkernel⟩ := furnish_eq_done hfurnish
  simp only [Paging.newRoot, hP] at hroot
  have hstart := Mirrors.start hs hk hroot
  have hmapped := mirrors_mapRegions hs hP (mirrors_report hs hstart hreport) hregions
  rw [bootRequests, List.foldl_append]
  exact mirrors_mapRange hs hP (mirrors_report hs hmapped hreport') hkernel

end Runs

end AddressSpaces

namespace VirtualAddress

theorem page_add (a : VirtualAddress) (k : Nat) :
    (a.add (.ofNat k * pageSize)).page.val = (a.value.toNat / 4096 + k) % 2 ^ 36 := by
  have hpage : pageSize.toNat = 4096 := rfl
  simp only [page, add, UInt64.toNat_add, UInt64.toNat_mul, UInt64.toNat_ofNat', hpage]
  omega

end VirtualAddress

namespace Region

/-- Where the part of a region starts that the direct map shows: past a page at address 0. -/
def shownStart (r : Region) : Nat :=
  if r.base.value.toNat = 0 then 4096 else r.base.value.toNat

def shownLength (r : Region) : Nat :=
  if r.base.value.toNat = 0 then r.length.toNat - 4096 else r.length.toNat

/-- Whether the direct map shows frame `f` because of this region. A partial last page counts, and
pages are counted from the frame that the region starts in. -/
def Shows (r : Region) (f : Nat) : Prop :=
  r.shownStart / 4096 ≤ f ∧ f < r.shownStart / 4096 + (r.shownLength + 4095) / 4096

theorem toNat_mappedPart (r : Region) :
    (AddressSpaces.mappedPart r).base.value.toNat = r.shownStart ∧
      (AddressSpaces.mappedPart r).length.toNat = r.shownLength := by
  have hpage : pageSize.toNat = 4096 := rfl
  have hzero : r.base.value = 0 ↔ r.base.value.toNat = 0 := UInt64.toNat_inj.symm
  unfold AddressSpaces.mappedPart shownStart shownLength
  simp only [hzero]
  split
  · refine ⟨rfl, ?_⟩
    dsimp only
    split
    · rename_i hlt
      rw [UInt64.lt_iff_toNat_lt, hpage] at hlt
      rw [show (0 : UInt64).toNat = 0 from rfl]
      omega
    · rename_i hle
      rw [UInt64.lt_iff_toNat_lt, hpage, Nat.not_lt] at hle
      rw [UInt64.toNat_sub_of_le _ _ (by rwa [UInt64.le_iff_toNat_le, hpage]), hpage]
  · exact ⟨rfl, rfl⟩

theorem lt_of_shows {r : Region} (hlow : r.base.value.toNat + r.length.toNat ≤ 2 ^ 47) {f : Nat}
    (h : r.Shows f) : f < 2 ^ 35 := by
  obtain ⟨-, hlt⟩ := h
  unfold shownStart shownLength at hlt
  split at hlt <;> omega

end Region

namespace BootInfo

/-- Whether the kernel's address space is to show frame `f` at the page with this number, by the
direct map or by the kernel image. -/
def Shows (boot : BootInfo) (page f : Nat) : Prop :=
  (∃ r ∈ boot.map, r.Shows f ∧ page = (boot.directOffset.toNat / 4096 + f) % 2 ^ 36) ∨
  ∃ k < (boot.kernel.size.toNat + 4095) / 4096, f = boot.kernel.physical.value.toNat / 4096 + k ∧
    page = (boot.kernel.virtual.value.toNat / 4096 + k) % 2 ^ 36

/-- What the start relies on of the boot loader's report: the direct map starts on a page boundary,
physical addresses are below 2 ^ 47, and the kernel image has no page of the direct map. -/
structure Regular (boot : BootInfo) : Prop where
  aligned : 4096 ∣ boot.directOffset.toNat
  map_low : ∀ r ∈ boot.map, r.base.value.toNat + r.length.toNat ≤ 2 ^ 47
  kernel_low : boot.kernel.physical.value.toNat + boot.kernel.size.toNat ≤ 2 ^ 47
  apart : ∀ r ∈ boot.map, ∀ f, r.Shows f → ∀ k < (boot.kernel.size.toNat + 4095) / 4096,
    (boot.directOffset.toNat / 4096 + f) % 2 ^ 36 ≠
      (boot.kernel.virtual.value.toNat / 4096 + k) % 2 ^ 36

/-- No page shows two frames. -/
theorem Regular.shows_unique {boot : BootInfo} (h : boot.Regular) {page f f' : Nat}
    (hf : boot.Shows page f) (hf' : boot.Shows page f') : f = f' := by
  have hkernel := h.kernel_low
  rcases hf with ⟨r, hr, hshows, hpage⟩ | ⟨k, hk, hindex, hpage⟩
  · rcases hf' with ⟨r', hr', hshows', hpage'⟩ | ⟨k', hk', -, hpage'⟩
    · have hlt := Region.lt_of_shows (h.map_low r hr) hshows
      have hlt' := Region.lt_of_shows (h.map_low r' hr') hshows'
      omega
    · exact absurd (hpage.symm.trans hpage') (h.apart r hr f hshows k' hk')
  · rcases hf' with ⟨r', hr', hshows', hpage'⟩ | ⟨k', hk', hindex', hpage'⟩
    · exact absurd (hpage'.symm.trans hpage) (h.apart r' hr' f' hshows' k hk)
    · omega

end BootInfo

namespace AddressSpaces

/-- Some of the requests asks for frame `f` at the page with this number. -/
def Asks (reqs : List PageRequest) (page f : Nat) : Prop :=
  ∃ t a, PageRequest.map t a kernelFlags ∈ reqs ∧ a.page.val = page ∧ t.frame.index = f

/-- The frame that page number `i` of a range is mapped to. -/
theorem frame_add {target : PhysicalAddress} {i : Nat}
    (hlow : target.value.toNat + i * 4096 < 2 ^ 64) :
    PhysicalAddress.frame ⟨target.value + .ofNat i * pageSize⟩ =
      .ofIndex (target.value.toNat / 4096 + i) := by
  have hpage : pageSize.toNat = 4096 := rfl
  ext
  simp only [PhysicalAddress.frame, PhysicalFrame.containing, PhysicalFrame.ofIndex,
    UInt64.toNat_add, UInt64.toNat_mul, UInt64.toNat_ofNat', hpage]
  omega

theorem asks_rangeRequests {target : PhysicalAddress} {a : VirtualAddress} {size : UInt64}
    (hlow : target.value.toNat + size.toNat ≤ 2 ^ 47) {page f : Nat} :
    Asks (rangeRequests target a size kernelFlags) page f ↔
      ∃ k < (size.toNat + 4095) / 4096, f = target.value.toNat / 4096 + k ∧
        page = (a.value.toNat / 4096 + k) % 2 ^ 36 := by
  have hindex {k : Nat} (hk : k < (size.toNat + 4095) / 4096) :
      (PhysicalAddress.frame ⟨target.value + .ofNat k * pageSize⟩).index =
        target.value.toNat / 4096 + k := by
    rw [frame_add (by omega)]
    exact Nat.mod_eq_of_lt (by omega)
  constructor
  · rintro ⟨t, b, hmem, hpage, hframe⟩
    obtain ⟨k, hk, hmap⟩ := List.mem_map.mp hmem
    obtain ⟨rfl, rfl, -⟩ := PageRequest.map.inj hmap
    rw [List.mem_range'_1, Nat.zero_add] at hk
    rw [hindex hk.2] at hframe
    rw [VirtualAddress.page_add] at hpage
    exact ⟨k, hk.2, hframe.symm, hpage.symm⟩
  · rintro ⟨k, hk, hframe, hpage⟩
    refine ⟨_, _, List.mem_map.mpr ⟨k, ?_, rfl⟩, ?_, ?_⟩
    · rw [List.mem_range'_1]
      omega
    · rw [VirtualAddress.page_add, hpage]
    · rw [hindex hk, hframe]

theorem asks_regionRequests {offset : UInt64} (haligned : 4096 ∣ offset.toNat) {r : Region}
    (hlow : r.base.value.toNat + r.length.toNat ≤ 2 ^ 47) {page f : Nat} :
    Asks (regionRequests offset r) page f ↔
      r.Shows f ∧ page = (offset.toNat / 4096 + f) % 2 ^ 36 := by
  obtain ⟨hbase, hlength⟩ := r.toNat_mappedPart
  have hshown : r.shownStart + r.shownLength ≤ 2 ^ 47 := by
    unfold Region.shownStart Region.shownLength
    split <;> omega
  obtain ⟨d, hd⟩ := haligned
  rw [regionRequests, asks_rangeRequests (by rw [hbase, hlength]; exact hshown)]
  simp only [hbase, hlength, UInt64.toNat_add, Region.Shows]
  constructor
  · rintro ⟨k, hk, rfl, hpage⟩
    omega
  · rintro ⟨⟨hle, hlt⟩, hpage⟩
    exact ⟨f - r.shownStart / 4096, by omega, by omega, by omega⟩

theorem asks_bootRequests {boot : BootInfo} (h : boot.Regular) {page f : Nat} :
    Asks (bootRequests boot) page f ↔ boot.Shows page f := by
  have hregions : Asks (boot.map.flatMap (regionRequests boot.directOffset)) page f ↔
      ∃ r ∈ boot.map, Asks (regionRequests boot.directOffset r) page f := by
    simp only [Asks, List.mem_flatMap]
    grind
  have happend : Asks (bootRequests boot) page f ↔
      Asks (boot.map.flatMap (regionRequests boot.directOffset)) page f ∨
        Asks (rangeRequests boot.kernel.physical boot.kernel.virtual boot.kernel.size kernelFlags)
          page f := by
    simp only [Asks, bootRequests, List.mem_append]
    grind
  rw [happend, hregions, asks_rangeRequests h.kernel_low, BootInfo.Shows]
  refine or_congr (exists_congr fun r => and_congr_right fun hr => ?_) Iff.rfl
  exact asks_regionRequests h.aligned (h.map_low r hr)

theorem maps_pageRequests (target : PhysicalAddress) (a : VirtualAddress) (flags : PageFlags)
    (page n : Nat) : ∀ q ∈ pageRequests target a flags page n, ∃ t b, q = .map t b flags := by
  intro q hq
  obtain ⟨k, -, rfl⟩ := List.mem_map.mp hq
  exact ⟨_, _, rfl⟩

/-- Everything that is asked for at the start is a mapping with the kernel's rights. -/
theorem maps_bootRequests (boot : BootInfo) :
    ∀ q ∈ bootRequests boot, ∃ t a, q = .map t a kernelFlags := by
  intro q hq
  rcases List.mem_append.mp hq with hq | hq
  · obtain ⟨r, -, hq⟩ := List.mem_flatMap.mp hq
    exact maps_pageRequests _ _ _ _ _ q hq
  · exact maps_pageRequests _ _ _ _ _ q hq

section Meaning

variable {boot : BootInfo} {f : Nat} {v : VirtualAddress}

/-- What the requests of the start make of a page that some of them are about, all of them for one
frame. -/
theorem translate_of_asks (hasks : Asks (bootRequests boot) v.page f)
    (honly : ∀ g, Asks (bootRequests boot) v.page g → g = f) :
    ((bootRequests boot).foldl PageRequest.apply .empty).translate v =
      some ⟨.ofNat (4096 * f + v.value.toNat % 4096)⟩ := by
  obtain ⟨t, a, hmem, hpage, hframe⟩ := hasks
  have hsame (t' : PhysicalAddress) (a' : VirtualAddress)
      (hmem' : .map t' a' kernelFlags ∈ bootRequests boot) (hpage' : a'.page = a.page) :
      t'.frame = t.frame :=
    PhysicalFrame.ext ((honly _ ⟨t', a', hmem', by rw [hpage', hpage], rfl⟩).trans hframe.symm)
  have hat := PageRequest.foldl_apply_of_mem .empty (maps_bootRequests boot) hmem hsame
  have hpresent : kernelFlags.contains .present = true := by decide
  rw [Fin.ext hpage] at hat
  rw [PageMap.translate, hat, if_pos hpresent, PhysicalFrame.start, hframe]

/-- A page that no request of the start is about stays unmapped. -/
theorem translate_of_not_asks (hnone : ∀ g, ¬ Asks (bootRequests boot) v.page g) :
    ((bootRequests boot).foldl PageRequest.apply .empty).translate v = none := by
  have hother (t : PhysicalAddress) (a : VirtualAddress)
      (hmem : .map t a kernelFlags ∈ bootRequests boot) : a.page ≠ v.page := fun hpage =>
    hnone _ ⟨t, a, hmem, by rw [hpage], rfl⟩
  have habsent : ¬ PageFlags.empty.contains .present = true := by decide
  rw [PageMap.translate, PageRequest.foldl_apply_of_forall_ne .empty (maps_bootRequests boot) hother,
    PageMap.empty, if_neg habsent]

/-- What the requests of the start mean, page by page. -/
theorem translate_bootRequests (h : boot.Regular) (v : VirtualAddress) :
    (∀ f, boot.Shows v.page f → ((bootRequests boot).foldl PageRequest.apply .empty).translate v =
      some ⟨.ofNat (4096 * f + v.value.toNat % 4096)⟩) ∧
    ((∀ f, ¬ boot.Shows v.page f) →
      ((bootRequests boot).foldl PageRequest.apply .empty).translate v = none) := by
  constructor
  · intro f hf
    exact translate_of_asks ((asks_bootRequests h).mpr hf) fun g hg =>
      h.shows_unique ((asks_bootRequests h).mp hg) hf
  · intro hnone
    exact translate_of_not_asks fun g hg => hnone g ((asks_bootRequests h).mp hg)

end Meaning

section Activation

variable {τ : Type} {P : Paging} {root : RootTable} {s : AddressSpaces} {w w' : World τ}

/-- The second part of the start makes one request and leaves memory as it is, or it is stopped by a
frame that the register has no room for. -/
theorem start_cases {p : FourLevel} (hP : P.fourLevel? = some p) (root : RootTable) (w : World τ) :
    (∃ f, p.register.valueFor root.frame = .error f ∧ (start P root).run w = (.stopped f, w)) ∨
    ∃ bits, p.register.valueFor root.frame = .ok bits ∧ (start P root).run w =
      (.done ⟨P, root⟩, ⟨⟨w.machine.memory, w.machine.reports.push .spacesReady,
        w.requests.push (.activate bits)⟩, w.part⟩) := by
  simp only [start, Paging.activate, hP, FourLevel.activate]
  cases hvalue : p.register.valueFor root.frame with
  | error f => exact .inl ⟨f, rfl, rfl⟩
  | ok bits => exact .inr ⟨bits, rfl, rfl⟩

theorem start_eq_done {p : FourLevel} (hP : P.fourLevel? = some p)
    (hrun : (start P root).run w = (.done s, w')) :
    s = ⟨P, root⟩ ∧ w'.machine.memory = w.machine.memory ∧
      ∃ bits, p.register.valueFor root.frame = .ok bits ∧
        w'.requests = w.requests.push (.activate bits) := by
  rcases start_cases hP root w with ⟨f, -, hstart⟩ | ⟨bits, hbits, hstart⟩
  · cases hstart.symm.trans hrun
  · cases hstart.symm.trans hrun
    exact ⟨rfl, rfl, bits, hbits, rfl⟩

theorem start_not_refused {p : FourLevel} (hP : P.fourLevel? = some p) (e : PagingError) :
    (start P root).run w ≠ (.refused e, w') := by
  intro hrun
  rcases start_cases hP root w with ⟨f, -, hstart⟩ | ⟨bits, -, hstart⟩
  · cases hstart.symm.trans hrun
  · cases hstart.symm.trans hrun

end Activation

theorem silent_build {τ : Type} [FrameSource τ]
    (htake : (FrameSource.take : Action (World τ) PagingError (Option PhysicalFrame)).Silent)
    (P : Paging) (boot : BootInfo) :
    (build P boot : Action (World τ) PagingError RootTable).Silent :=
  (silent_newRoot htake P).bind fun root => (World.silent_report _).bind fun _ =>
    (Action.Preserves.forM (silent_mapRegion htake P root _) _).bind fun _ =>
      (World.silent_report _).bind fun _ =>
        (silent_mapRange htake P root _ _ _ _).bind fun _ => .pure _

end AddressSpaces

/-- The kernel's address space at boot. Whatever the clients of the frame allocator have done
before, if the start ends with an address space, an address on a page that the direct map or the
kernel image shows translates to the frame shown there, and to the same place in it; any other
address does not translate. The start has asked the memory-management unit for one thing, to
activate the root table, and memory was complete by then. If the start is refused, it has asked for
nothing. -/
theorem kernelSpace_at_boot {boot : BootInfo} {a : FrameAllocator} {m₀ m : Machine}
    (hinit : (FrameAllocator.init boot).run m₀ = (.done a, m)) {c : Custody}
    (hc : Custody.Reachable a m c) (hboot : boot.Regular) {p : Paging} (harch : p.arch = .x86_64) :
    (∀ s w, (AddressSpaces.init p boot).run ⟨c.machine, a⟩ = (.done s, w) →
      (∀ v f, boot.Shows (VirtualAddress.page v) f →
        s.paging.translate w.machine.memory s.kernelRoot v =
          .ok (some ⟨.ofNat (4096 * f + v.value.toNat % 4096)⟩)) ∧
      (∀ v, (∀ f, ¬ boot.Shows (VirtualAddress.page v) f) →
        s.paging.translate w.machine.memory s.kernelRoot v = .ok none) ∧
      ∃ w₁ bits, (AddressSpaces.build p boot).run ⟨c.machine, a⟩ = (.done s.kernelRoot, w₁) ∧
        (AddressSpaces.start p s.kernelRoot).run w₁ = (.done s, w) ∧
        w₁.machine.memory = w.machine.memory ∧ w₁.requests = c.machine.requests ∧
        p.register.valueFor s.kernelRoot.frame = .ok bits ∧
        w.requests = c.machine.requests.push (.activate bits)) ∧
    ∀ e w, (AddressSpaces.init p boot).run ⟨c.machine, a⟩ = (.refused e, w) →
      w.requests = c.machine.requests := by
  have hp : p.fourLevel? = some ⟨p.directMap, p.register⟩ := by rw [Paging.fourLevel?, harch]
  have hlends : FrameAllocator.Lends [] ⟨c.machine, a⟩ :=
    ⟨(hc.accounted hinit).toSound, fun _ hu => absurd hu List.not_mem_nil⟩
  have hsilent := AddressSpaces.silent_build FrameAllocator.silent_take p boot ⟨c.machine, a⟩
  rw [AddressSpaces.init]
  constructor
  · intro s w hrun
    obtain ⟨root, w₁, hbuild, hstart⟩ := Action.run_bind_eq_done hrun
    obtain ⟨rfl, hmem, bits, hbits, hrequests⟩ := AddressSpaces.start_eq_done hp hstart
    obtain ⟨⟨used, -, hf⟩, hshows⟩ := AddressSpaces.mirrors_build FrameAllocator.lawful hp
      hlends hbuild
    rw [hbuild] at hsilent
    have htranslate (v : VirtualAddress) : p.translate w.machine.memory root v =
        .ok (((AddressSpaces.bootRequests boot).foldl PageRequest.apply .empty).translate v) := by
      rw [Paging.translate, hp, hmem]
      exact FourLevel.translate_of_shows hf (List.mem_singleton_self _) hshows v
    refine ⟨fun v f hv => ?_, fun v hv => ?_, w₁, bits, hbuild, hstart, hmem.symm, hsilent, hbits,
      ?_⟩
    · rw [htranslate, (AddressSpaces.translate_bootRequests hboot v).1 f hv]
    · rw [htranslate, (AddressSpaces.translate_bootRequests hboot v).2 hv]
    · exact hrequests.trans (congrArg (fun r => r.push (.activate bits)) hsilent)
  · intro e w hrun
    rcases hbuild : (AddressSpaces.build p boot).run ⟨c.machine, a⟩ with ⟨o, w₁⟩
    rw [hbuild] at hsilent
    cases o with
    | done root =>
      rw [Action.run_bind_done hbuild] at hrun
      exact absurd hrun (AddressSpaces.start_not_refused hp e)
    | refused e' =>
      rw [Action.run_bind_refused hbuild] at hrun
      cases hrun
      exact hsilent
    | stopped f =>
      rw [Action.run_bind_stopped hbuild] at hrun
      cases hrun

namespace KernelImage

/-- A report of one region of free RAM and one that holds the kernel image. Neither the second
region nor the image starts or ends on a page boundary. -/
def boot : BootInfo where
  map := [⟨⟨0⟩, 0x9000, .usable⟩, ⟨⟨0x9800⟩, 0x3001, .kernelAndModules⟩]
  directOffset := 0xFFFF800000000000
  kernel := ⟨⟨0x9C00⟩, ⟨0xFFFFFFFF80000C00⟩, 0x1345⟩

def allocator : FrameAllocator where
  bitmapFrame := .ofIndex 1
  totalFrames := 9
  directMap := { offset := 0xFFFF800000000000 }

def machine : Machine :=
  ((FrameAllocator.init boot).run ⟨.zeroed, #[], #[]⟩).2

theorem init_eq : (FrameAllocator.init boot).run ⟨.zeroed, #[], #[]⟩ = (.done allocator, machine) :=
  Prod.ext rfl rfl

theorem regular : boot.Regular := by
  have hlow : ∀ r ∈ boot.map, r.base.value.toNat + r.length.toNat ≤ 2 ^ 16 := by decide
  refine ⟨by decide, fun r hr => Nat.le_trans (hlow r hr) (by decide), by decide, ?_⟩
  intro r hr f hf k hk
  obtain ⟨-, hlt⟩ := hf
  have hend := hlow r hr
  have hsmall : f < 2 ^ 5 := by
    unfold Region.shownStart Region.shownLength at hlt
    split at hlt <;> omega
  have hoffset : boot.directOffset.toNat / 4096 = 0xFFFF800000000 := rfl
  have hvirtual : boot.kernel.virtual.value.toNat / 4096 = 0xFFFFFFFF80000 := rfl
  have hpages : (boot.kernel.size.toNat + 4095) / 4096 = 2 := rfl
  omega

def paging : Paging :=
  ⟨.x86_64, allocator.directMap, .cr3⟩

def spaces : AddressSpaces :=
  ⟨paging, ⟨.ofIndex 2, ⟨0xFFFF800000002000⟩⟩⟩

def started : World FrameAllocator :=
  ((AddressSpaces.init paging boot).run ⟨machine, allocator⟩).2

theorem init_spaces_eq :
    (AddressSpaces.init paging boot).run ⟨machine, allocator⟩ = (.done spaces, started) := by
  have hdone : ((AddressSpaces.init paging boot).run
      (⟨machine, allocator⟩ : World FrameAllocator)).1.done? = some spaces := by
    decide +kernel
  exact Prod.ext (Outcome.eq_done hdone) (by rw [started])

end KernelImage

/-- The second page of the image, the partial last page of the second region, and page 0. -/
theorem kernelSpace_at_boot_of_image :
    KernelImage.paging.translate KernelImage.started.machine.memory KernelImage.spaces.kernelRoot
        ⟨0xFFFFFFFF80001ABC⟩ = .ok (some ⟨0xAABC⟩) ∧
    KernelImage.paging.translate KernelImage.started.machine.memory KernelImage.spaces.kernelRoot
        ⟨0xFFFF80000000CABC⟩ = .ok (some ⟨0xCABC⟩) ∧
    KernelImage.paging.translate KernelImage.started.machine.memory KernelImage.spaces.kernelRoot
        ⟨0xFFFF800000000ABC⟩ = .ok none := by
  obtain ⟨hshown, hnone, -⟩ :=
    (kernelSpace_at_boot KernelImage.init_eq .start KernelImage.regular rfl).1 _ _
      KernelImage.init_spaces_eq
  refine ⟨?_, ?_, ?_⟩
  · exact hshown _ 10 (.inr ⟨1, by decide, by decide, by decide⟩)
  · exact hshown _ 12 (.inl ⟨_, List.mem_cons_of_mem _ (List.mem_singleton_self _),
      ⟨by decide, by decide⟩, by decide⟩)
  · refine hnone _ fun f hf => ?_
    have hoffset : KernelImage.boot.directOffset.toNat / 4096 = 0xFFFF800000000 := rfl
    have hvirtual : KernelImage.boot.kernel.virtual.value.toNat / 4096 = 0xFFFFFFFF80000 := rfl
    have hpage : (VirtualAddress.page ⟨0xFFFF800000000ABC⟩).val = 2 ^ 35 := rfl
    rcases hf with ⟨r, hr, hshows, hdirect⟩ | ⟨k, hk, -, himage⟩
    · have hlt := Region.lt_of_shows (KernelImage.regular.map_low r hr) hshows
      have hstart : ∀ r ∈ KernelImage.boot.map, 1 ≤ r.shownStart / 4096 := by decide
      have hle := hstart r hr
      have hfirst := hshows.1
      omega
    · have hpages : (KernelImage.boot.kernel.size.toNat + 4095) / 4096 = 2 := rfl
      omega

end MemoryManager
