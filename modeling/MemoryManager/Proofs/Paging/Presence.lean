import MemoryManager.Proofs.Paging.Changes

namespace MemoryManager

deriving instance DecidableEq for PageRequest, Change

/-- The recorded requests about a page of an address space, the newest first. -/
def requestsOn (log : List Change) (r : PhysicalFrame) (page : Fin (2 ^ 36)) : List PageRequest :=
  (log.filter fun c => c.root = r ∧ c.request.address.page = page).map Change.request

namespace PageRequest

/-- The frame that requests about one page, the newest first, leave mapped there: that of the last
request to map the page, if no request took it away since. -/
def mapped? : List PageRequest → Option PhysicalFrame
  | [] => none
  | map target _ _ :: _ => some target.frame
  | unmap _ :: _ => none
  | setFlags _ _ :: reqs => mapped? reqs

/-- Whether requests about one page, the newest first, leave it present. -/
def present : List PageRequest → Bool
  | [] => false
  | map _ _ flags :: _ => flags.contains .present
  | unmap _ :: _ => false
  | setFlags _ flags :: _ => flags.contains .present

variable {reqs : List PageRequest} {f : PhysicalFrame}

theorem exists_map_of_mapped? (h : mapped? reqs = some f) :
    ∃ target a flags, map target a flags ∈ reqs ∧ target.frame = f := by
  induction reqs with
  | nil => cases h
  | cons q reqs ih =>
    cases q with
    | map target a flags => exact ⟨target, a, flags, List.mem_cons_self, Option.some.inj h⟩
    | unmap a => cases h
    | setFlags a flags =>
      obtain ⟨target, b, others, hmem, hframe⟩ := ih h
      exact ⟨target, b, others, List.mem_cons_of_mem _ hmem, hframe⟩

/-- A page without a mapping is present if and only if the last request gave it flags to that
effect. -/
theorem present_iff_of_not_mapped (h : mapped? reqs = none) :
    present reqs = true ↔
      ∃ a flags, reqs.head? = some (setFlags a flags) ∧ flags.contains .present = true := by
  cases reqs with
  | nil => simp [present]
  | cons q reqs =>
    cases q with
    | map target a flags => cases h
    | unmap a => simp [present]
    | setFlags a flags => simp [present]

end PageRequest

section Histories

variable {log : List Change} {r : PhysicalFrame} {page : Fin (2 ^ 36)} {c : Change}

theorem requestsOn_cons_of_on (h : c.root = r ∧ c.request.address.page = page) :
    requestsOn (c :: log) r page = c.request :: requestsOn log r page := by
  simp [requestsOn, h]

theorem requestsOn_cons_of_not_on (h : ¬ (c.root = r ∧ c.request.address.page = page)) :
    requestsOn (c :: log) r page = requestsOn log r page := by
  rw [requestsOn, List.filter_cons_of_neg (by simpa using h), ← requestsOn]

/-- What the plain map says about a page is what the requests about the page say. -/
theorem pageMapOf_eq (log : List Change) (r : PhysicalFrame) (page : Fin (2 ^ 36)) :
    (pageMapOf log r page).frame =
        (PageRequest.mapped? (requestsOn log r page)).getD (.ofIndex 0) ∧
      (pageMapOf log r page).flags.contains .present =
        PageRequest.present (requestsOn log r page) := by
  induction log with
  | nil =>
    have habsent : PageFlags.empty.contains .present = false := by decide
    exact ⟨rfl, habsent⟩
  | cons c log ih =>
    rw [pageMapOf]
    by_cases hon : c.root = r ∧ c.request.address.page = page
    · obtain ⟨root, q⟩ := c
      rw [requestsOn_cons_of_on hon, if_pos hon.1]
      obtain ⟨-, rfl⟩ := hon
      cases q with
      | map target a flags => simp [PageRequest.apply, PageRequest.address, PageRequest.mapped?,
          PageRequest.present]
      | unmap a => simp [PageRequest.apply, PageRequest.address, PageRequest.mapped?,
          PageRequest.present, PageFlags.contains_sdiff_present]
      | setFlags a flags => simpa [PageRequest.apply, PageRequest.address, PageRequest.mapped?,
          PageRequest.present] using ih.1
    · rw [requestsOn_cons_of_not_on hon]
      split
      · rename_i hroot
        rwa [PageRequest.apply_of_ne fun hpage => hon ⟨hroot, hpage⟩]
      · exact ih

/-- If nothing below 4096 was mapped, no page has frame 0 mapped. -/
theorem le_start_of_mapped? (hhigh : ∀ c ∈ log, c.root = r → ∀ target a flags,
      c.request = .map target a flags → 4096 ≤ target.value.toNat) {f : PhysicalFrame}
    (hmapped : PageRequest.mapped? (requestsOn log r page) = some f) : 4096 ≤ f.start := by
  obtain ⟨target, a, flags, hmem, rfl⟩ := PageRequest.exists_map_of_mapped? hmapped
  obtain ⟨c, hc, hrequest⟩ := List.mem_map.mp hmem
  rw [List.mem_filter, decide_eq_true_eq] at hc
  have hle := hhigh c hc.1 hc.2.1 target a flags hrequest
  change 4096 ≤ 4096 * (target.value.toNat / 4096)
  omega

end Histories

namespace SpaceRun

variable {τ : Type} [FrameSource τ] {Keeps : List PhysicalFrame → World τ → Prop} {p : FourLevel}
  {s : SpaceRun τ} {w : World τ} {used : List PhysicalFrame} {root : RootTable}

omit [FrameSource τ] in
/-- An address translates as the requests about its page say. -/
theorem Sound.translate_eq (h : Sound Keeps p s) (hroot : root.frame ∈ s.roots)
    (v : VirtualAddress) :
    p.translate s.memory root v =
      .ok (if PageRequest.present (requestsOn s.log root.frame v.page) then
        some ⟨.ofNat (((PageRequest.mapped? (requestsOn s.log root.frame v.page)).getD
          (.ofIndex 0)).start + v.value.toNat % 4096)⟩ else none) := by
  obtain ⟨hframe, hpresent⟩ := pageMapOf_eq s.log root.frame v.page
  rw [h.translate_pageMapOf hroot, PageMap.translate, hframe, hpresent]

/-- Changing the flags of a page is one more request about it, if it goes through. -/
theorem requestsOn_setFlags {v : VirtualAddress} {flags : PageFlags}
    (hdone : ((p.setFlags root v flags).run s.world).1 = .done ()) :
    requestsOn (s.perform p (.change root (.setFlags v flags))).log root.frame v.page =
      .setFlags v flags :: requestsOn s.log root.frame v.page := by
  have hlog : (s.perform p (.change root (.setFlags v flags))).log =
      ⟨root.frame, .setFlags v flags⟩ :: s.log := by
    rw [perform, PageRequest.run, hdone]
    rfl
  rw [hlog]
  exact requestsOn_cons_of_on ⟨rfl, rfl⟩

/-- A request that does not go through leaves no record. -/
theorem log_setFlags_of_not_done {v : VirtualAddress} {flags : PageFlags}
    (hnot : ((p.setFlags root v flags).run s.world).1 ≠ .done ()) :
    (s.perform p (.change root (.setFlags v flags))).log = s.log := by
  rw [perform, PageRequest.run]
  cases hdone : ((p.setFlags root v flags).run s.world).1.done? with
  | none => rfl
  | some u => exact absurd (Outcome.eq_done hdone) hnot

end SpaceRun

open PageRequest

/-- What the flags of a page without a mapping do. Take a page that was never mapped, or whose mapping
was taken away later, after any run of requests on any number of address spaces. If a request for
flags on the page goes through, the page does not translate afterwards unless `present` is among the
flags; then its addresses translate to those with the same place in frame 0. If the request does not
go through, they translate as before. So in an address space in which nothing below 4096 was mapped,
an address translates into frame 0 if and only if its page has no mapping and the last request about
the page set flags with `present`. -/
theorem presence_without_mapping {τ : Type} [FrameSource τ]
    {Keeps : List PhysicalFrame → World τ → Prop} (hs : FrameSource.Lawful τ Keeps) {p : FourLevel}
    {w : World τ} {used : List PhysicalFrame} (hk : Keeps used w) {s : SpaceRun τ}
    (hr : SpaceRun.Reachable p w s) {root : RootTable} (hroot : root.frame ∈ s.roots) :
    (∀ (v u : VirtualAddress) (flags : PageFlags), u.page = v.page →
      mapped? (requestsOn s.log root.frame v.page) = none →
      (((p.setFlags root v flags).run s.world).1 = .done () →
        p.translate (s.perform p (.change root (.setFlags v flags))).memory root u =
          .ok (if flags.contains .present then some ⟨.ofNat (u.value.toNat % 4096)⟩ else none)) ∧
      (((p.setFlags root v flags).run s.world).1 ≠ .done () →
        p.translate (s.perform p (.change root (.setFlags v flags))).memory root u =
          p.translate s.memory root u)) ∧
    ((∀ c ∈ s.log, c.root = root.frame → ∀ target a flags, c.request = .map target a flags →
        4096 ≤ target.value.toNat) →
      ∀ v : VirtualAddress, (∃ target, p.translate s.memory root v = .ok (some target) ∧
        target.value.toNat < 4096) ↔
          mapped? (requestsOn s.log root.frame v.page) = none ∧
          ∃ a flags, (requestsOn s.log root.frame v.page).head? = some (.setFlags a flags) ∧
            flags.contains .present = true) := by
  have hsound := hr.sound hs hk
  have hfirst : PhysicalFrame.start (.ofIndex 0) = 0 := rfl
  constructor
  · intro v u flags hpage hnone
    have hsound' := (hr.step (.change root (.setFlags v flags)) hroot).sound hs hk
    have hroot' : root.frame ∈ (s.perform p (.change root (.setFlags v flags))).roots := by
      rwa [SpaceRun.roots_change]
    constructor
    · intro hdone
      rw [hsound'.translate_eq hroot', hpage, SpaceRun.requestsOn_setFlags hdone]
      simp only [present, mapped?, hnone, Option.getD_none, hfirst, Nat.zero_add]
    · intro hnot
      rw [hsound'.translate_eq hroot', SpaceRun.log_setFlags_of_not_done hnot,
        hsound.translate_eq hroot]
  · intro hhigh v
    rw [hsound.translate_eq hroot]
    constructor
    · rintro ⟨target, htranslate, hlow⟩
      by_cases hpresent : present (requestsOn s.log root.frame v.page) = true
      · rw [if_pos hpresent] at htranslate
        cases hmapped : mapped? (requestsOn s.log root.frame v.page) with
        | none => exact ⟨rfl, (present_iff_of_not_mapped hmapped).mp hpresent⟩
        | some f =>
          have hle := le_start_of_mapped? hhigh hmapped
          have hstop := f.stop_le
          rw [hmapped, Option.getD_some] at htranslate
          cases htranslate
          rw [UInt64.toNat_ofNat'] at hlow
          omega
      · rw [if_neg hpresent] at htranslate
        cases htranslate
    · rintro ⟨hnone, hflags⟩
      rw [(present_iff_of_not_mapped hnone).mpr hflags, hnone]
      refine ⟨_, rfl, ?_⟩
      rw [Option.getD_none, hfirst, UInt64.toNat_ofNat']
      omega

namespace TwoRegions

/-- An address space with two mapped pages, one of which loses its mapping afterwards. -/
def withdrawn : SpaceRun FrameAllocator :=
  ((((⟨⟨machine, allocator⟩, [], []⟩ : SpaceRun FrameAllocator).perform paging .newRoot).perform paging
    (.change root (.map ⟨0x1D000⟩ ⟨0x40202000⟩ ⟨3⟩))).perform paging
      (.change root (.map ⟨0x1E000⟩ ⟨0x40203000⟩ ⟨1⟩))).perform paging
        (.change root (.unmap ⟨0x40202008⟩))

theorem withdrawn_roots : root.frame ∈ withdrawn.roots :=
  List.mem_singleton_self _

theorem withdrawn_reachable : SpaceRun.Reachable paging ⟨machine, allocator⟩ withdrawn := by
  have hroot : root.frame ∈ [root.frame] := List.mem_singleton_self _
  have empty : SpaceRun.Reachable paging ⟨machine, allocator⟩ _ := .step .newRoot .start trivial
  have first := empty.step (.change root (.map ⟨0x1D000⟩ ⟨0x40202000⟩ ⟨3⟩)) hroot
  have second := first.step (.change root (.map ⟨0x1E000⟩ ⟨0x40203000⟩ ⟨1⟩)) hroot
  exact second.step (.change root (.unmap ⟨0x40202008⟩)) hroot

/-- What is recorded, and that the flags of the page without a mapping can be set. -/
theorem withdrawn_run : withdrawn.log =
      [⟨root.frame, .unmap ⟨0x40202008⟩⟩, ⟨root.frame, .map ⟨0x1E000⟩ ⟨0x40203000⟩ ⟨1⟩⟩,
        ⟨root.frame, .map ⟨0x1D000⟩ ⟨0x40202000⟩ ⟨3⟩⟩] ∧
    ∀ flags ∈ [⟨2⟩, ⟨3⟩],
      ((paging.setFlags root ⟨0x40202000⟩ flags).run withdrawn.world).1.done? = some () := by
  decide +kernel

theorem withdrawn_mapped? :
    mapped? (requestsOn withdrawn.log root.frame (VirtualAddress.page ⟨0x40202000⟩)) = none ∧
    mapped? (requestsOn withdrawn.log root.frame (VirtualAddress.page ⟨0x40203ABC⟩)) =
      some (.ofIndex 0x1E) := by
  obtain ⟨hlog, -⟩ := withdrawn_run
  rw [hlog]
  decide

theorem withdrawn_high : ∀ c ∈ withdrawn.log, ∀ target a flags, c.request = .map target a flags →
    4096 ≤ target.value.toNat := by
  obtain ⟨hlog, -⟩ := withdrawn_run
  rw [hlog, List.forall_mem_cons, List.forall_mem_cons, List.forall_mem_singleton]
  refine ⟨?_, ?_, ?_⟩ <;> intro target a flags hmap <;> cases hmap <;> decide

theorem page_withdrawn : VirtualAddress.page ⟨0x40202ABC⟩ = VirtualAddress.page ⟨0x40202000⟩ := by
  decide

end TwoRegions

/-- The page that lost its mapping gets flags with and without `present`. The page that kept it does
not translate into frame 0. -/
theorem presence_without_mapping_of_two_regions :
    TwoRegions.paging.translate (TwoRegions.withdrawn.perform TwoRegions.paging
        (.change TwoRegions.root (.setFlags ⟨0x40202000⟩ ⟨3⟩))).memory TwoRegions.root
          ⟨0x40202ABC⟩ = .ok (some ⟨0xABC⟩) ∧
    TwoRegions.paging.translate (TwoRegions.withdrawn.perform TwoRegions.paging
        (.change TwoRegions.root (.setFlags ⟨0x40202000⟩ ⟨2⟩))).memory TwoRegions.root
          ⟨0x40202ABC⟩ = .ok none ∧
    ¬ ∃ target, TwoRegions.paging.translate TwoRegions.withdrawn.memory TwoRegions.root
      ⟨0x40203ABC⟩ = .ok (some target) ∧ target.value.toNat < 4096 := by
  obtain ⟨hset, hframe⟩ := presence_without_mapping FrameAllocator.lawful
    (FrameAllocator.lends_init TwoRegions.init_eq) TwoRegions.withdrawn_reachable
    TwoRegions.withdrawn_roots
  obtain ⟨-, hdone⟩ := TwoRegions.withdrawn_run
  obtain ⟨hnone, hkept⟩ := TwoRegions.withdrawn_mapped?
  refine ⟨(hset _ _ ⟨3⟩ TwoRegions.page_withdrawn hnone).1 (Outcome.eq_done (hdone _ (by simp))),
    (hset _ _ ⟨2⟩ TwoRegions.page_withdrawn hnone).1 (Outcome.eq_done (hdone _ (by simp))), ?_⟩
  rw [hframe fun c hc _ => TwoRegions.withdrawn_high c hc, hkept]
  rintro ⟨hnone, -⟩
  cases hnone

/-- A page whose mapping was taken away does not translate; once its flags are set, it translates into
frame 0, although nothing below 4096 was mapped. -/
theorem flags_make_page_present :
    ∃ s, SpaceRun.Reachable TwoRegions.paging ⟨TwoRegions.machine, TwoRegions.allocator⟩ s ∧
      TwoRegions.root.frame ∈ s.roots ∧
      (∀ c ∈ s.log, ∀ target a flags, c.request = .map target a flags →
        4096 ≤ target.value.toNat) ∧
      (requestsOn s.log TwoRegions.root.frame (VirtualAddress.page ⟨0x40202ABC⟩)).head? =
        some (.unmap ⟨0x40202008⟩) ∧
      TwoRegions.paging.translate s.memory TwoRegions.root ⟨0x40202ABC⟩ = .ok none ∧
      TwoRegions.paging.translate (s.perform TwoRegions.paging
        (.change TwoRegions.root (.setFlags ⟨0x40202000⟩ ⟨3⟩))).memory TwoRegions.root
          ⟨0x40202ABC⟩ = .ok (some ⟨0xABC⟩) := by
  obtain ⟨hlog, hdone⟩ := TwoRegions.withdrawn_run
  have hlends := FrameAllocator.lends_init TwoRegions.init_eq
  have hsound := SpaceRun.Reachable.sound TwoRegions.withdrawn_reachable FrameAllocator.lawful hlends
  have hsound' := SpaceRun.Reachable.sound (.step (.change TwoRegions.root
    (.setFlags ⟨0x40202000⟩ ⟨3⟩)) TwoRegions.withdrawn_reachable TwoRegions.withdrawn_roots)
    FrameAllocator.lawful hlends
  have hroots := TwoRegions.withdrawn_roots
  rw [← SpaceRun.roots_change TwoRegions.paging TwoRegions.withdrawn TwoRegions.root
    (.setFlags ⟨0x40202000⟩ ⟨3⟩)] at hroots
  refine ⟨_, TwoRegions.withdrawn_reachable, TwoRegions.withdrawn_roots, TwoRegions.withdrawn_high,
    ?_, ?_, ?_⟩
  · rw [hlog]
    decide
  · rw [hsound.translate_eq TwoRegions.withdrawn_roots, hlog]
    rfl
  · have hset := Outcome.eq_done (hdone ⟨3⟩ (by simp))
    rw [hsound'.translate_eq hroots, TwoRegions.page_withdrawn, SpaceRun.requestsOn_setFlags hset,
      hlog]
    rfl

end MemoryManager
