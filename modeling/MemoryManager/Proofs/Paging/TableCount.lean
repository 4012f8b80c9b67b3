import Mathlib.Data.Finset.Card
import MemoryManager.Proofs.Paging.Supply

namespace MemoryManager

namespace Memory

open FourLevel

variable {p : FourLevel} {m n : Memory} {roots roots' used new : List PhysicalFrame}
  {r : PhysicalFrame} {as : List VirtualAddress} {a : VirtualAddress}
  {tables : Finset PhysicalFrame}

/-- A table has all tables on the way to it above it. -/
theorem Finds.of_prefix {is js : List TableIndex} {t : PhysicalFrame} (h : m.Finds roots r js t)
    (hpre : is <+: js) : ∃ u, m.Finds roots r is u := by
  obtain ⟨hroot, hlen, htable⟩ := h
  obtain ⟨ks, rfl⟩ := hpre
  rw [tableAt_append] at htable
  obtain ⟨u, hu, -⟩ := Option.bind_eq_some_iff.mp htable
  rw [List.length_append] at hlen
  exact ⟨u, hroot, by omega, hu⟩

/-- The tables of the address space below `r` are in the frames `tables`, one for every position on
the way to one of the addresses `as`. -/
structure Spans (m : Memory) (roots : List PhysicalFrame) (r : PhysicalFrame)
    (as : List VirtualAddress) (tables : Finset PhysicalFrame) : Prop where
  mem_iff : ∀ f, f ∈ tables ↔ ∃ js, m.Finds roots r js f
  found_iff : ∀ js, (∃ f, m.Finds roots r js f) ↔ js = [] ∨ ∃ a ∈ as, js <+: positions a

theorem Spans.root_mem (h : m.Spans roots r as tables) : r ∈ roots := by
  obtain ⟨f, hf⟩ := (h.found_iff []).mpr (.inl rfl)
  exact hf.root

theorem Spans.congr (h : m.Spans roots r as tables)
    (hsame : ∀ js f, n.Finds roots' r js f ↔ m.Finds roots r js f) :
    n.Spans roots' r as tables := by
  refine ⟨fun f => ?_, fun js => ?_⟩
  · simp only [hsame, h.mem_iff]
  · simp only [hsame, h.found_iff]

/-- A fresh root has no tables below it. -/
theorem NewRoot.spans {f : PhysicalFrame} (h : NewRoot m n used f) (hf : Forest p m roots used) :
    n.Spans (f :: roots) f [] {f} := by
  have hfinds {js : List TableIndex} {u : PhysicalFrame} :
      n.Finds (f :: roots) f js u ↔ js = [] ∧ u = f := by
    rw [hf.finds_plant h, or_iff_right]
    · simp only [true_and]
    · exact fun hold => h.fresh (hf.used (finds_root hold.root))
  refine ⟨fun u => ?_, fun js => ?_⟩
  · rw [Finset.mem_singleton]
    simp only [hfinds, exists_eq_left]
  · simp only [hfinds, exists_eq_right, List.not_mem_nil, false_and, exists_false, or_false]

/-- What was put on the way to an address that is now led all the way counts as its tables. -/
theorem Spans.grafts (h : m.Spans roots r as tables) (hf : Forest p n roots (new ++ used))
    (hg : m.Grafts n roots used r (OnWay a) new) {t : PhysicalFrame}
    (hend : n.Finds roots r (positions a) t) :
    n.Spans roots r (a :: as) (tables ∪ new.toFinset) := by
  refine ⟨fun f => ?_, fun js => ?_⟩
  · rw [Finset.mem_union, List.mem_toFinset, h.mem_iff]
    constructor
    · rintro (⟨js, hjs⟩ | hnew)
      · exact ⟨js, hg.kept hjs⟩
      · obtain ⟨js, -, hjs⟩ := hg.found f hnew
        exact ⟨js, hjs⟩
    · rintro ⟨js, hjs⟩
      exact (hg.only hjs).imp_left fun hold => ⟨js, hold⟩
  · rw [List.exists_mem_cons_iff]
    constructor
    · rintro ⟨f, hjs⟩
      rcases hg.only hjs with hold | hnew
      · exact ((h.found_iff js).mp ⟨f, hold⟩).imp_right .inr
      · -- a table that is new is found in one way only
        obtain ⟨ks, hway, hks⟩ := hg.found f hnew
        obtain ⟨-, rfl⟩ := hf.unique hjs hks
        exact .inr (.inl hway.2)
    · rintro (rfl | hpre | hold)
      · exact ⟨r, finds_root hend.root⟩
      · exact hend.of_prefix hpre
      · obtain ⟨f, hf⟩ := (h.found_iff js).mpr (.inr hold)
        exact ⟨f, hg.kept hf⟩

/-- The different ways over `k` positions to tables for the addresses. -/
def ways (as : List VirtualAddress) (k : Nat) : Finset (List TableIndex) :=
  (as.map fun a => (positions a).take k).toFinset

theorem mem_ways {js : List TableIndex} {k : Nat} (hk : k ≤ 3) :
    js ∈ ways as k ↔ js.length = k ∧ ∃ a ∈ as, js <+: positions a := by
  rw [ways, List.mem_toFinset, List.mem_map]
  constructor
  · rintro ⟨a, ha, rfl⟩
    exact ⟨List.length_take_of_le hk, a, ha, List.take_prefix k _⟩
  · rintro ⟨rfl, a, ha, hpre⟩
    exact ⟨a, ha, (List.prefix_iff_eq_take.mp hpre).symm⟩

/-- Ways may be counted by anything that tells them apart. -/
theorem card_ways {γ : Type} [DecidableEq γ] {k : Nat} {way : VirtualAddress → γ}
    {g : γ → List TableIndex} (hinj : Function.Injective g)
    (h : ∀ a, g (way a) = (positions a).take k) :
    (ways as k).card = (as.map way).toFinset.card := by
  rw [← Finset.card_image_of_injective _ hinj]
  congr 1
  ext js
  simp only [ways, List.mem_toFinset, Finset.mem_image, List.mem_map, exists_exists_and_eq_and, h]

theorem disjoint_ways {k l : Nat} (hkl : k ≠ l) (hk : k ≤ 3) (hl : l ≤ 3) :
    Disjoint (ways as k) (ways as l) := by
  rw [Finset.disjoint_left]
  intro js hjs hjs'
  exact hkl (((mem_ways hk).mp hjs).1.symm.trans ((mem_ways hl).mp hjs').1)

theorem Spans.card_eq (h : m.Spans roots r as tables) (hf : Forest p m roots used) :
    tables.card = 1 + (ways as 1).card + (ways as 2).card + (ways as 3).card := by
  -- positions and tables correspond
  obtain ⟨all, hall⟩ : ∃ all, all = insert [] (ways as 1 ∪ (ways as 2 ∪ ways as 3)) := ⟨_, rfl⟩
  have hmem (js : List TableIndex) : js ∈ all ↔ ∃ f, m.Finds roots r js f := by
    rw [h.found_iff, hall]
    simp only [Finset.mem_insert, Finset.mem_union, mem_ways (show 1 ≤ 3 by decide),
      mem_ways (show 2 ≤ 3 by decide), mem_ways (Nat.le_refl 3), ← or_and_right]
    refine or_congr_right' fun hne => and_iff_right_of_imp ?_
    rintro ⟨a, -, hpre⟩
    have hle : js.length ≤ 3 := hpre.length_le
    have hpos := List.length_pos_iff.mpr hne
    omega
  have htables : tables = all.image fun js => (m.tableAt r js).getD r := by
    ext f
    rw [h.mem_iff, Finset.mem_image]
    refine exists_congr fun js => ?_
    rw [hmem]
    constructor
    · intro hjs
      exact ⟨⟨f, hjs⟩, by rw [hjs.table, Option.getD_some]⟩
    · rintro ⟨⟨u, hu⟩, hf⟩
      rw [hu.table, Option.getD_some] at hf
      exact hf ▸ hu
  have hinj : Set.InjOn (fun js => (m.tableAt r js).getD r) all := by
    intro js hjs ks hks heq
    obtain ⟨u, hu⟩ := (hmem js).mp hjs
    obtain ⟨v, hv⟩ := (hmem ks).mp hks
    simp only [hu.table, hv.table, Option.getD_some] at heq
    exact (hf.unique hu (heq ▸ hv)).2
  have hnil : [] ∉ ways as 1 ∪ (ways as 2 ∪ ways as 3) := by
    simp only [Finset.mem_union, mem_ways (show 1 ≤ 3 by decide), mem_ways (show 2 ≤ 3 by decide),
      mem_ways (Nat.le_refl 3), List.length_nil]
    omega
  rw [htables, Finset.card_image_of_injOn hinj, hall, Finset.card_insert_of_notMem hnil,
    Finset.card_union_of_disjoint, Finset.card_union_of_disjoint]
  · omega
  · exact disjoint_ways (by decide) (by decide) (by decide)
  · exact Finset.disjoint_union_right.mpr ⟨disjoint_ways (by decide) (by decide) (by decide),
      disjoint_ways (by decide) (by decide) (by decide)⟩

end Memory

namespace SpaceRun

open FourLevel Memory

variable {τ : Type} [FrameSource τ] {Keeps : List PhysicalFrame → World τ → Prop}
  {lent : World τ → Finset PhysicalFrame} {p : FourLevel} {s : SpaceRun τ} {w : World τ}
  {used : List PhysicalFrame} {r : PhysicalFrame} {root : RootTable} {as : List VirtualAddress}
  {tables : Finset PhysicalFrame} {count : Nat}

/-- The frames that the source hands out between two states. -/
def drawn (lent : World τ → Finset PhysicalFrame) (s t : SpaceRun τ) : Finset PhysicalFrame :=
  lent t.world \ lent s.world

/-- Runs in which the address space below `r` is created and then serves requests that all go
through, with the addresses of these requests and with the number of frames drawn for them and for
the root. Requests on other address spaces may come in between, however they end. -/
inductive Served (lent : World τ → Finset PhysicalFrame) (p : FourLevel) (w : World τ)
    (r : PhysicalFrame) : SpaceRun τ → List VirtualAddress → Nat → Prop
  | created {s : SpaceRun τ} {root : RootTable} (hs : Reachable p w s) (hroot : root.frame = r)
      (hdone : (p.newRoot.run s.world).1 = .done root) :
      Served lent p w r (s.perform p .newRoot) [] (drawn lent s (s.perform p .newRoot)).card
  | served {s : SpaceRun τ} {as : List VirtualAddress} {count : Nat} {root : RootTable}
      (q : PageRequest) (h : Served lent p w r s as count) (hroot : root.frame = r)
      (hdone : ((q.run p root).run s.world).1 = .done ()) :
      Served lent p w r (s.perform p (.change root q)) (q.address :: as)
        (count + (drawn lent s (s.perform p (.change root q))).card)
  | beside {s : SpaceRun τ} {as : List VirtualAddress} {count : Nat} (q : SpaceRequest)
      (h : Served lent p w r s as count) (hq : s.Allowed q) (hon : ¬ q.On r) :
      Served lent p w r (s.perform p q) as count

/-- The frame for a root is the only one that is drawn to create an address space. -/
theorem Sound.spans_newRoot (hs : FrameSource.Lawful τ Keeps)
    (hrec : FrameSource.Records τ Keeps lent) (h : Sound Keeps p s)
    (hdone : (p.newRoot.run s.world).1 = .done root) :
    (s.perform p .newRoot).memory.Spans (s.perform p .newRoot).roots root.frame []
      (drawn lent s (s.perform p .newRoot)) := by
  obtain ⟨used, hk, hf⟩ := h.tables
  have hrun : p.newRoot.run s.world = (.done root, (p.newRoot.run s.world).2) := Prod.ext hdone rfl
  obtain ⟨htracks, -, hplanted⟩ := newRoot_spec (hs.tracks hrec used (lent s.world)) (.start hk) hf
    hrun
  have hdrawn : drawn lent s (s.perform p .newRoot) = {root.frame} := by
    ext f
    rw [drawn, Finset.mem_sdiff, Finset.mem_singleton, SpaceRun.perform, htracks.drawn_iff,
      List.mem_cons]
    constructor
    · rintro ⟨hf, hold⟩
      exact hf.resolve_right hold
    · rintro rfl
      exact ⟨.inl rfl, hplanted.fresh⟩
  have hroots : (s.perform p .newRoot).roots = root.frame :: s.roots := by
    rw [perform_newRoot hrun]
    rfl
  rw [hdrawn, hroots]
  exact hplanted.spans hf

/-- A request that goes through draws the frames for the tables that are missing on the way to its
address, and no others. -/
theorem Sound.spans_change (hs : FrameSource.Lawful τ Keeps)
    (hrec : FrameSource.Records τ Keeps lent) (h : Sound Keeps p s)
    (hspans : s.memory.Spans s.roots root.frame as tables) {q : PageRequest}
    (hdone : ((q.run p root).run s.world).1 = .done ()) :
    Disjoint tables (drawn lent s (s.perform p (.change root q))) ∧
      (s.perform p (.change root q)).memory.Spans s.roots root.frame (q.address :: as)
        (tables ∪ drawn lent s (s.perform p (.change root q))) := by
  obtain ⟨used, hk, hf⟩ := h.tables
  have hroot := hspans.root_mem
  obtain ⟨new, hnew⟩ := request_supplied (hs.tracks hrec used (lent s.world)) (.start hk) hf hroot q
  have hdrawn : drawn lent s (s.perform p (.change root q)) = new.toFinset := by
    ext f
    rw [drawn, Finset.mem_sdiff, List.mem_toFinset]
    exact hnew.drawn_iff (hdone ▸ nofun) f
  obtain ⟨t, hend⟩ := request_arrives hs hk hf hroot (Prod.ext hdone rfl)
  rw [hdrawn]
  refine ⟨?_, hspans.grafts hnew.forest hnew.grafts hend⟩
  rw [Finset.disjoint_left]
  intro f hold hmem
  obtain ⟨js, hjs⟩ := (hspans.mem_iff f).mp hold
  exact hnew.grafts.fresh f (List.mem_toFinset.mp hmem) (hf.used hjs)

/-- A request on another address space, or for a new one, leaves the tables below `r` where they
are. -/
theorem Sound.finds_beside (hs : FrameSource.Lawful τ Keeps) (h : Sound Keeps p s)
    (hr : r ∈ s.roots) {q : SpaceRequest} (hq : s.Allowed q) (hon : ¬ q.On r)
    (js : List TableIndex) (f : PhysicalFrame) :
    (s.perform p q).memory.Finds (s.perform p q).roots r js f ↔ s.memory.Finds s.roots r js f := by
  obtain ⟨used, hk, hf⟩ := h.tables
  cases q with
  | newRoot =>
    rcases hrun : p.newRoot.run s.world with ⟨o, w'⟩
    obtain ⟨-, -, -, hgrows, hold⟩ := newRoot_tends hs hk hf hrun rfl
    rw [perform_newRoot hrun]
    constructor
    · intro hjs
      by_cases hne : js = []
      · subst hne
        cases hjs.table
        exact finds_root hr
      · exact hold hjs hne
    · exact fun hjs => (hgrows.tables hjs).mono (List.subset_append_right _ _)
  | change root q =>
    obtain ⟨new, hnew⟩ := request_supplied hs hk hf hq q
    constructor
    · intro hjs
      refine (hnew.grafts.only hjs).resolve_right fun hmem => ?_
      obtain ⟨ks, -, hks⟩ := hnew.grafts.found f hmem
      exact hon (hnew.forest.unique hks hjs).1
    · exact hnew.grafts.kept

/-- The frames drawn for an address space are the ones that its tables are in. -/
theorem Served.spans (hs : FrameSource.Lawful τ Keeps) (hrec : FrameSource.Records τ Keeps lent)
    (hk : Keeps used w) (h : Served lent p w r s as count) :
    Sound Keeps p s ∧ ∃ tables, s.memory.Spans s.roots r as tables ∧ tables.card = count := by
  induction h with
  | created hreach hroot hdone =>
    have hsound := hreach.sound hs hk
    subst hroot
    exact ⟨hsound.newRoot hs, _, hsound.spans_newRoot hs hrec hdone, rfl⟩
  | served q _ hroot hdone ih =>
    obtain ⟨hsound, tables, hspans, hcard⟩ := ih
    subst hroot
    obtain ⟨hdisjoint, hspans'⟩ := hsound.spans_change hs hrec hspans hdone
    refine ⟨hsound.change hs hspans.root_mem q, _, hspans', ?_⟩
    rw [Finset.card_union_of_disjoint hdisjoint, hcard]
  | beside q _ hq hon ih =>
    obtain ⟨hsound, tables, hspans, hcard⟩ := ih
    exact ⟨hsound.perform hs hq, tables,
      hspans.congr (hsound.finds_beside hs hspans.root_mem hq hon), hcard⟩

end SpaceRun

open FourLevel Memory

/-- Tables are shared wherever they can be, and none is created twice. If all requests on an address
space go through, then whatever their order, however often an address comes back, and whatever is done
on other address spaces in between, the frames drawn for it are one for the root, one for every
top-level position, one for every pair of positions at the upper two levels, and one for every triple
of positions at the upper three levels that the addresses of the requests select. -/
theorem tables_drawn {τ : Type} [FrameSource τ] {Keeps : List PhysicalFrame → World τ → Prop}
    (hs : FrameSource.Lawful τ Keeps) {lent : World τ → Finset PhysicalFrame}
    (hrec : FrameSource.Records τ Keeps lent) {p : FourLevel} {w : World τ}
    {used : List PhysicalFrame} (hk : Keeps used w) {r : PhysicalFrame} {s : SpaceRun τ}
    {as : List VirtualAddress} {count : Nat} (h : SpaceRun.Served lent p w r s as count) :
    count = 1 + (as.map fun a => TableIndex.select a .pml4).toFinset.card +
      (as.map fun a => (TableIndex.select a .pml4, TableIndex.select a .pdpt)).toFinset.card +
      (as.map fun a => (TableIndex.select a .pml4, TableIndex.select a .pdpt,
        TableIndex.select a .pd)).toFinset.card := by
  obtain ⟨hsound, tables, hspans, rfl⟩ := h.spans hs hrec hk
  obtain ⟨used', -, hf⟩ := hsound.tables
  rw [hspans.card_eq hf]
  congr 1
  · congr 1
    · congr 1
      exact card_ways (g := fun i => [i]) (fun i j h => List.cons.inj h |>.1)
        fun a => rfl
    · exact card_ways (g := fun i => [i.1, i.2])
        (fun i j h => by simpa [Prod.ext_iff] using h) fun a => rfl
  · exact card_ways (g := fun i => [i.1, i.2.1, i.2.2])
      (fun i j h => by simpa [Prod.ext_iff] using h) fun a => rfl

/-- Two of the four addresses share all tables, a third one shares all but the last; another address
space is created in between. -/
theorem tables_drawn_of_two_regions :
    ∃ s count, SpaceRun.Served FrameAllocator.marked TwoRegions.paging
        ⟨TwoRegions.machine, TwoRegions.allocator⟩ TwoRegions.root.frame s
        [⟨0x8000000000⟩, ⟨0x40403000⟩, ⟨0x40202000⟩, ⟨0x40203008⟩] count ∧ count = 8 := by
  have start : SpaceRun.Served FrameAllocator.marked TwoRegions.paging
      ⟨TwoRegions.machine, TwoRegions.allocator⟩ TwoRegions.root.frame _ [] _ :=
    .created .start rfl (by rw [TwoRegions.newRoot_eq])
  have hroot : TwoRegions.root.frame = TwoRegions.root.frame := rfl
  have first := start.served (.setFlags ⟨0x40203008⟩ ⟨3⟩) hroot rfl
  have second := first.served (.map ⟨0x1D000⟩ ⟨0x40202000⟩ ⟨3⟩) hroot rfl
  have other := second.beside .newRoot trivial id
  have third := other.served (.unmap ⟨0x40403000⟩) hroot rfl
  have fourth := third.served (.map ⟨0x1E000⟩ ⟨0x8000000000⟩ ⟨1⟩) hroot rfl
  refine ⟨_, _, fourth, ?_⟩
  rw [tables_drawn FrameAllocator.lawful FrameAllocator.records
    (FrameAllocator.lends_init TwoRegions.init_eq) fourth]
  decide

end MemoryManager
