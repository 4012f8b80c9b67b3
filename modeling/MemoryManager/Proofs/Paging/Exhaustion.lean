import MemoryManager.Proofs.Paging.Ranges
import MemoryManager.Proofs.Paging.Supply

namespace MemoryManager

namespace FourLevel

open Memory

variable {τ ε α : Type} {Keeps : List PhysicalFrame → World τ → Prop} {p : FourLevel}
  {roots used new : List PhysicalFrame} {root : RootTable} {r : PhysicalFrame}
  {on : List TableIndex → Prop} {m : Memory} {w w' : World τ} {pm : PageMap}
  {lent : World τ → Finset PhysicalFrame} {links : List Linking} {e : PagingError}

/-- All addresses on a page have the frame and the rights that `q` names. -/
def ShowsPage (p : FourLevel) (m : Memory) (root : RootTable) (page : Fin (2 ^ 36)) (q : Page) :
    Prop :=
  ∀ v : VirtualAddress, v.page = page →
    (m.entryAt root.frame (positions v) (leafIndex v)).Shows q ∧
    p.translate m root v = .ok (if q.flags.contains .present then
      some ⟨.ofNat (q.frame.start + v.value.toNat % 4096)⟩ else none)

theorem Shows.page (h : Shows m root.frame pm) (hf : Forest p m roots used)
    (hroot : root.frame ∈ roots) (page : Fin (2 ^ 36)) : p.ShowsPage m root page (pm page) := by
  rintro v rfl
  exact ⟨h v, translate_of_shows hf hroot h v⟩

/-- What an action has taken from the source is linked, empty, from the entry that leads to it. -/
theorem Supplies.linked {result : Outcome ε α × World τ}
    (h : Supplies (FrameSource.Tracks Keeps lent used (lent w)) p roots used r on w result new)
    (hf : Forest p w.machine.memory roots used)
    (hexplains : Explains links roots w.machine.memory result.2.machine.memory)
    (hcalm : ∀ e, result.1 ≠ .stopped e) {f : PhysicalFrame} (hafter : f ∈ lent result.2)
    (hbefore : f ∉ lent w) :
    ∃ l ∈ links, l.table = f ∧ result.2.machine.memory.Links roots ⟨r, l.parent, l.index⟩ f ∧
      ∀ j, l.memory.entry f j = .zero := by
  have hnew : f ∈ new := (h.drawn_iff hcalm f).mp ⟨hafter, hbefore⟩
  obtain ⟨js, -, hfinds⟩ := h.grafts.found f hnew
  exact hfinds.linked_new (fun hold => h.grafts.fresh f hnew (hf.used hold)) hexplains

variable [FrameSource τ]

/-- What several requests on one address space link, up to the first that does not go through. -/
def runLinkings (p : FourLevel) (root : RootTable) : List PageRequest → World τ → List Linking
  | [], _ => []
  | q :: reqs, w =>
    p.requestLinkings root q w ++
      match (q.run p root).run w with
      | (.done (), w') => runLinkings p root reqs w'
      | _ => []

theorem explains_runRequests (hs : FrameSource.Lawful τ Keeps) (reqs : List PageRequest)
    (hk : Keeps used w) (hf : Forest p w.machine.memory roots used) (hroot : root.frame ∈ roots) :
    Explains (p.runLinkings root reqs w) roots w.machine.memory
      ((runRequests p root reqs).run w).2.machine.memory := by
  induction reqs generalizing used w with
  | nil => exact .refl roots _
  | cons q reqs ih =>
    have hone := explains_request hs hk hf hroot q
    obtain ⟨used₁, hk₁, hf₁, -⟩ := request_spec hs hk hf hroot q rfl
    rw [runLinkings, runRequests_cons, Action.run_bind]
    rcases hrun : (q.run p root).run w with ⟨o, w₁⟩
    rw [hrun] at hone hk₁ hf₁
    cases o with
    | refused e => exact hone.trans (.refl roots _) id
    | stopped e => exact hone.trans (.refl roots _) id
    | done u =>
      obtain ⟨_, hrest⟩ := runRequests_supplied hs reqs hk₁ hf₁ hroot
      exact hone.trans (ih hk₁ hf₁) hrest.grafts.kept

/-- How things are where a request for the address `a` found no frame for a table. Every frame handed
out since the state `w` is a table of the address space: it is linked from one of its entries, and was
empty when it was linked. The source has no frame, and the error names the first level on the way to
the address whose table is missing. -/
structure RanOut (lent : World τ → Finset PhysicalFrame) (roots : List PhysicalFrame)
    (root : RootTable) (a : VirtualAddress) (links : List Linking) (w : World τ) (e : PagingError)
    (w' : World τ) : Prop where
  linked : ∀ f ∈ lent w', f ∉ lent w → ∃ l ∈ links, l.table = f ∧
    w'.machine.memory.Links roots ⟨root.frame, l.parent, l.index⟩ f ∧
      ∀ j, l.memory.entry f j = .zero
  exhausted : Exhausted w'
  level : ∃ level, e = .outOfMemory (.atLevel level) ∧
    FirstMissing w'.machine.memory root.frame a level

/-- Requests are refused only where the source is exhausted. -/
theorem runRequests_ranOut (hs : FrameSource.Lawful τ Keeps)
    (hrec : FrameSource.Records τ Keeps lent) (hk : Keeps used w)
    (hf : Forest p w.machine.memory roots used) (hroot : root.frame ∈ roots)
    (before after : List PageRequest) {q : PageRequest} {w₁ : World τ}
    (hbefore : (runRequests p root before).run w = (.done (), w₁))
    (hq : (q.run p root).run w₁ = (.refused e, w')) :
    RanOut lent roots root q.address (p.runLinkings root (before ++ q :: after) w) w e w' := by
  have hrun : (runRequests p root (before ++ q :: after)).run w = (.refused e, w') :=
    (Action.run_forM_append hbefore _).trans (Action.run_bind_refused hq)
  obtain ⟨new, hnew⟩ := runRequests_supplied (hs.tracks hrec used (lent w)) (before ++ q :: after)
    (.start hk) hf hroot
  have hexplains := explains_runRequests hs (before ++ q :: after) hk hf hroot
  obtain ⟨new₁, hnew₁⟩ := runRequests_supplied hs before hk hf hroot
  rw [hrun] at hnew hexplains
  rw [hbefore] at hnew₁
  obtain ⟨hsource, hlevel⟩ := request_refused hs hrec (hnew₁.keeps nofun) hnew₁.forest hroot hq
  exact ⟨fun f hafter hold => hnew.linked hf hexplains nofun hafter hold, hsource, hlevel⟩

end FourLevel

namespace AddressSpaces

/-- The requests before one of those that map pages are those that map the pages before. -/
theorem pageRequests_eq_append {target : PhysicalAddress} {a : VirtualAddress} {flags : PageFlags}
    {n : Nat} {before after : List PageRequest} {q : PageRequest}
    (h : pageRequests target a flags 0 n = before ++ q :: after) :
    ∃ j < n, before = pageRequests target a flags 0 j ∧
      q = .map ⟨target.value + .ofNat j * pageSize⟩ (a.add (.ofNat j * pageSize)) flags := by
  obtain ⟨ks, ls, hrange, hbefore, hrest⟩ := List.map_eq_append_iff.mp h
  obtain ⟨k, ls', rfl, hk, -⟩ := List.map_eq_cons_iff.mp hrest
  obtain ⟨j, hj, rfl, hls⟩ := List.range'_eq_append_iff.mp hrange
  obtain ⟨rfl, hpos, -⟩ := List.range'_eq_cons_iff.mp hls.symm
  refine ⟨j, by omega, hbefore.symm, ?_⟩
  rw [← hk, Nat.zero_add, Nat.mul_one]

end AddressSpaces

open AddressSpaces FourLevel

/-- Running out of frames for tables is clean, whatever source they come from and wherever it strikes.
If mapping a range is refused, then for a page of the range no frame was left for a table: the pages
before it are mapped as requested, every other page of every address space translates as before, every
frame taken is a table of the address space that was empty when it was linked, and the error names the
first level whose table is missing on the way to the page. If a single request is refused, no page of
any address space translates to anything else than before, and the rest holds as well. -/
theorem exhaustion_is_clean {τ : Type} [FrameSource τ] {Keeps : List PhysicalFrame → World τ → Prop}
    (hs : FrameSource.Lawful τ Keeps) {lent : World τ → Finset PhysicalFrame}
    (hrec : FrameSource.Records τ Keeps lent) {P : Paging} {p : FourLevel}
    (hP : P.fourLevel? = some p) {w : World τ} {used : List PhysicalFrame} (hk : Keeps used w)
    {s : SpaceRun τ} (hr : SpaceRun.Reachable p w s) {root : RootTable}
    (hroot : root.frame ∈ s.roots) {e : PagingError} {w' : World τ} :
    (∀ {target : PhysicalAddress} {a : VirtualAddress} {size : UInt64} {flags : PageFlags},
      target.value.toNat + size.toNat ≤ 2 ^ 63 → size.toNat < 2 ^ 48 →
      (mapRange P root target a size flags).run s.world = (.refused e, w') →
      ∃ j < (size.toNat + 4095) / 4096,
        (∀ i < j, p.ShowsPage w'.machine.memory root (a.add (.ofNat i * pageSize)).page
          ⟨.ofIndex (target.value.toNat / 4096 + i), flags⟩) ∧
        (∀ other : RootTable, other.frame ∈ s.roots → ∀ v : VirtualAddress,
          (other.frame = root.frame → ∀ i < j, (a.add (.ofNat i * pageSize)).page ≠ v.page) →
          p.translate w'.machine.memory other v = p.translate s.memory other v) ∧
        RanOut lent s.roots root (a.add (.ofNat j * pageSize))
          (p.runLinkings root (rangeRequests target a size flags) s.world) s.world e w') ∧
    ∀ {q : PageRequest}, (q.run p root).run s.world = (.refused e, w') →
      (∀ other : RootTable, other.frame ∈ s.roots → ∀ v,
        p.translate w'.machine.memory other v = p.translate s.memory other v) ∧
      RanOut lent s.roots root q.address (p.requestLinkings root q s.world) s.world e w' := by
  have hsound := hr.sound hs hk
  obtain ⟨used₀, hk₀, hf₀⟩ := hsound.tables
  refine ⟨fun {target a size flags} hlow hspan hrun => ?_, fun {q} hrun => ⟨?_, ?_⟩⟩
  · rw [run_mapRange hP (hrun ▸ nofun)] at hrun
    obtain ⟨before, q, after, w₁, hreqs, hbefore, hq⟩ := Action.run_forM_eq_refused hrun
    obtain ⟨j, hj, rfl, rfl⟩ := pageRequests_eq_append hreqs
    -- the state after the refusal is reachable too, with the pages before page `j` recorded
    obtain ⟨s₁, hs₁, rfl, hroots, hlog⟩ := hr.runRequests hroot hbefore
    have hend := (hs₁.refused (hroots ▸ hroot) hq).sound hs hk
    rw [hroots, hlog] at hend
    obtain ⟨used₁, -, hf₁⟩ := hend.tables
    have hshows := hend.shows root.frame hroot
    rw [pageMapOf_append] at hshows
    refine ⟨j, hj, fun i hi => ?_, fun other hother v hne => ?_, ?_⟩
    · have hpage := hshows.page hf₁ hroot (a.add (.ofNat i * pageSize)).page
      rwa [foldl_pageRequests (by omega) hi, frame_add (by omega)] at hpage
    · have hafter := hend.translate_pageMapOf hother v
      rw [SpaceRun.memory] at hafter
      rw [hafter, hsound.translate_pageMapOf hother v]
      by_cases hon : other.frame = root.frame
      · rw [hon, pageMapOf_append, PageMap.translate, foldl_pageRequests_of_ne (hne hon),
          PageMap.translate]
      · rw [pageMapOf_append_of_ne (Ne.symm hon)]
    · rw [hreqs]
      exact runRequests_ranOut hs hrec hk₀ hf₀ hroot _ after hbefore hq
  · intro other hother v
    have hend := (hr.refused hroot hrun).sound hs hk
    exact (hend.translate_pageMapOf hother v).trans (hsound.translate_pageMapOf hother v).symm
  · have hranOut := runRequests_ranOut hs hrec hk₀ hf₀ hroot [] [] rfl hrun
    rwa [List.nil_append, runLinkings, hrun, List.append_nil] at hranOut

namespace FourFrames

/-- Four frames: one for a root and three for the tables of one page. -/
def world : World FrameCounter :=
  ⟨⟨.zeroed, #[], #[]⟩, { next := 1, limit := 5 }⟩

theorem keeps_world : FrameCounter.Keeps [] world :=
  ⟨by decide, fun _ hu => absurd hu List.not_mem_nil⟩

def root : RootTable :=
  ⟨.ofIndex 1, ⟨0xFFFF800000001000⟩⟩

def fresh : SpaceRun FrameCounter :=
  (⟨world, [], []⟩ : SpaceRun FrameCounter).perform TwoRegions.paging .newRoot

theorem fresh_reachable : SpaceRun.Reachable TwoRegions.paging world fresh :=
  .step .newRoot .start trivial

theorem root_mem : root.frame ∈ fresh.roots :=
  List.mem_singleton_self _

/-- Two pages are to be mapped that do not share the last table. -/
def ranged : World FrameCounter :=
  ((mapRange TwoRegions.anyPaging root ⟨0x1D000⟩ ⟨0x401FF000⟩ 0x2000 ⟨3⟩).run fresh.world).2

theorem mapRange_eq : (mapRange TwoRegions.anyPaging root ⟨0x1D000⟩ ⟨0x401FF000⟩ 0x2000 ⟨3⟩).run
    fresh.world = (.refused (.outOfMemory (.atLevel .pt)), ranged) :=
  Prod.ext (by decide +kernel) (by rw [ranged])

/-- The first of them is mapped. -/
def full : SpaceRun FrameCounter :=
  fresh.perform TwoRegions.paging (.change root (.map ⟨0x1D000⟩ ⟨0x401FF000⟩ ⟨3⟩))

theorem full_reachable : SpaceRun.Reachable TwoRegions.paging world full :=
  fresh_reachable.step _ root_mem

theorem root_mem_full : root.frame ∈ full.roots := by
  rw [full, SpaceRun.roots_change]
  exact root_mem

/-- The second one is to be unmapped then. -/
def denied : World FrameCounter :=
  ((PageRequest.unmap ⟨0x40200000⟩).run TwoRegions.paging root).run full.world |>.2

theorem unmap_eq : ((PageRequest.unmap ⟨0x40200000⟩).run TwoRegions.paging root).run full.world =
    (.refused (.outOfMemory (.atLevel .pt)), denied) :=
  Prod.ext (by decide +kernel) (by rw [denied])

end FourFrames

/-- There is a frame for all tables of the first page, but none for the last table of the second
one. -/
theorem exhaustion_is_clean_of_four_frames :
    TwoRegions.paging.translate FourFrames.ranged.machine.memory FourFrames.root ⟨0x40200ABC⟩ =
        .ok none ∧
      (∃ l : Linking, l.table = .ofIndex 4 ∧ FourFrames.ranged.machine.memory.Links
        [FourFrames.root.frame] ⟨FourFrames.root.frame, l.parent, l.index⟩ (.ofIndex 4)) ∧
      TwoRegions.paging.translate FourFrames.denied.machine.memory FourFrames.root ⟨0x401FFABC⟩ =
        .ok (some ⟨0x1DABC⟩) := by
  obtain ⟨j, hj, -, hothers, hranOut⟩ := (exhaustion_is_clean FrameCounter.lawful
    FrameCounter.records (P := TwoRegions.anyPaging) (p := TwoRegions.paging) rfl
      FourFrames.keeps_world FourFrames.fresh_reachable FourFrames.root_mem).1 (by decide)
        (by decide) FourFrames.mapRange_eq
  obtain ⟨hsame, -⟩ := (exhaustion_is_clean FrameCounter.lawful FrameCounter.records
    (P := TwoRegions.anyPaging) (p := TwoRegions.paging) rfl FourFrames.keeps_world
      FourFrames.full_reachable FourFrames.root_mem_full).2 FourFrames.unmap_eq
  refine ⟨?_, ?_, ?_⟩
  · rw [hothers FourFrames.root FourFrames.root_mem ⟨0x40200ABC⟩ fun _ i hi => ?_]
    · decide +kernel
    · -- the address is not on the first page
      have hpages : ((0x2000 : UInt64).toNat + 4095) / 4096 = 2 := rfl
      obtain rfl : i = 0 := by omega
      decide
  · obtain ⟨l, -, htable, hlinks, -⟩ := hranOut.linked (.ofIndex 4) (by decide +kernel)
      (by decide +kernel)
    exact ⟨l, htable, hlinks⟩
  · rw [hsame FourFrames.root FourFrames.root_mem_full]
    decide +kernel

end MemoryManager
