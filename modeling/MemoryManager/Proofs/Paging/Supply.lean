import Mathlib.Data.Finset.Dedup
import MemoryManager.Proofs.Paging.Changes

namespace MemoryManager

/-- The source keeps a record of the frames that it has handed out: those it hands out are added, and
nothing its clients do changes the record. It answers every time, if need be that there is none. -/
structure FrameSource.Records (τ : Type) [FrameSource τ]
    (Keeps : List PhysicalFrame → World τ → Prop) (lent : World τ → Finset PhysicalFrame) :
    Prop where
  answers : ∀ {used : List PhysicalFrame} {w w' : World τ} {e : PagingError}, Keeps used w →
    (FrameSource.take : Action (World τ) PagingError _).run w ≠ (.refused e, w')
  take : ∀ {used : List PhysicalFrame} {w w' : World τ}
    {o : Outcome PagingError (Option PhysicalFrame)}, Keeps used w →
    (FrameSource.take : Action (World τ) PagingError _).run w = (o, w') →
    (∀ f ∈ o.taken, f ∉ lent w) ∧ ∀ f, f ∈ lent w' ↔ f ∈ o.taken ∨ f ∈ lent w
  beside : ∀ {used : List PhysicalFrame} {w w' : World τ}, Keeps used w → w'.part = w.part →
    (∀ x, ¬ Memory.InFrames used x → w'.machine.memory.byte x = w.machine.memory.byte x) →
    lent w' = lent w

theorem PhysicalFrame.mem_map_ofIndex {numbers : List Nat} (h : ∀ i ∈ numbers, i < 2 ^ 52)
    {f : PhysicalFrame} : f ∈ numbers.map ofIndex ↔ f.index ∈ numbers := by
  rw [List.mem_map]
  constructor
  · rintro ⟨i, hi, rfl⟩
    rwa [show (ofIndex i).index = i from Nat.mod_eq_of_lt (h i hi)]
  · intro hf
    exact ⟨f.index, hf, f.ofIndex_index⟩

namespace FrameAllocator

/-- The frames whose bits are set. -/
def marked (w : World FrameAllocator) : Finset PhysicalFrame :=
  (((List.range w.part.totalFrames).filter fun i => w.part.bitmap.test w.machine.memory i).map
    PhysicalFrame.ofIndex).toFinset

theorem mem_marked {w : World FrameAllocator} (hp : w.part.Placed) {f : PhysicalFrame} :
    f ∈ marked w ↔
      f.index < w.part.totalFrames ∧ w.part.bitmap.test w.machine.memory f.index = true := by
  have htotal := hp.total_lt
  rw [marked, List.mem_toFinset, PhysicalFrame.mem_map_ofIndex, List.mem_filter, List.mem_range]
  intro i hi
  have hlt := List.mem_range.mp (List.mem_filter.mp hi).1
  omega

theorem records : FrameSource.Records FrameAllocator Lends marked := by
  refine ⟨?_, ?_, ?_⟩
  · intro used w w' e hk hrun
    rcases take_cases PagingError w.part w.machine hk.toPlaced with htake | ⟨first, t, htake, -⟩ <;>
      cases htake.symm.trans hrun
  · intro used w w' o hk hrun
    rcases take_cases PagingError w.part w.machine hk.toPlaced with htake | ⟨first, t, htake, hg⟩
    · obtain ⟨rfl, rfl⟩ := Prod.mk.inj (htake.symm.trans hrun)
      exact ⟨fun f hf => absurd hf List.not_mem_nil, fun f =>
        (or_iff_right List.not_mem_nil).symm⟩
    · obtain ⟨rfl, rfl⟩ := Prod.mk.inj (htake.symm.trans hrun)
      have hindex := hg.index_ofIndex hk.toPlaced
      have hclear := hg.clear first (Nat.le_refl _) (Nat.lt_succ_self _)
      refine ⟨fun f hf => ?_, fun f => ?_⟩
      · rw [List.mem_singleton.mp hf, mem_marked hk.toPlaced, hindex, hclear]
        exact fun h => Bool.false_ne_true h.2
      · have hafter : f ∈ marked ⟨{ w.machine with memory := t }, w.part⟩ ↔
            f.index < w.part.totalFrames ∧ w.part.bitmap.test t f.index = true :=
          mem_marked (w := ⟨{ w.machine with memory := t }, w.part⟩) hk.toPlaced
        have hfirst : f ∈ [first].map PhysicalFrame.ofIndex ↔ f.index = first := by
          rw [PhysicalFrame.mem_map_ofIndex, List.mem_singleton]
          intro i hi
          rw [List.mem_singleton.mp hi]
          exact hg.first_lt hk.toPlaced
        rw [hafter, mem_marked hk.toPlaced]
        refine Iff.trans ?_ (or_congr_left hfirst.symm)
        constructor
        · rintro ⟨hlt, hset⟩
          rw [hg.test_eq hlt] at hset
          split at hset
          · exact .inl (by omega)
          · exact .inr ⟨hlt, hset⟩
        · rintro (hnew | ⟨hlt, hset⟩)
          · rw [hnew]
            obtain ⟨hlt, -, hset⟩ := hg.owned hk.toSound (Nat.le_refl first) (Nat.lt_succ_self first)
            exact ⟨hlt, hset⟩
          · exact ⟨hlt, hg.test_of_set hlt hset⟩
  · intro used w w' hk hpart hbytes
    have hk' := hk.beside hpart hbytes
    ext f
    rw [mem_marked hk.toPlaced, mem_marked hk'.toPlaced, hpart]
    exact and_congr_right fun hlt => by rw [hk.test_beside hbytes hlt]

end FrameAllocator

namespace FrameCounter

/-- The frames with numbers below the next one. -/
def passed (w : World FrameCounter) : Finset PhysicalFrame :=
  ((List.range w.part.next.toNat).map PhysicalFrame.ofIndex).toFinset

theorem mem_passed {w : World FrameCounter} (hnext : w.part.next.toNat ≤ 2 ^ 52)
    {f : PhysicalFrame} : f ∈ passed w ↔ f.index < w.part.next.toNat := by
  rw [passed, List.mem_toFinset, PhysicalFrame.mem_map_ofIndex, List.mem_range]
  intro i hi
  have hlt := List.mem_range.mp hi
  omega

theorem records : FrameSource.Records FrameCounter Keeps passed := by
  refine ⟨?_, ?_, ?_⟩
  · intro used w w' e _ hrun
    rcases take_cases PagingError w with ⟨-, htake⟩ | ⟨-, htake⟩ <;> cases htake.symm.trans hrun
  · intro used w w' o hk hrun
    have hlimit := hk.1
    rcases take_cases PagingError w with ⟨-, htake⟩ | ⟨hlt, htake⟩
    · obtain ⟨rfl, rfl⟩ := Prod.mk.inj (htake.symm.trans hrun)
      exact ⟨fun f hf => absurd hf List.not_mem_nil, fun f =>
        (or_iff_right List.not_mem_nil).symm⟩
    · obtain ⟨rfl, rfl⟩ := Prod.mk.inj (htake.symm.trans hrun)
      obtain ⟨hnext, hindex⟩ := toNat_next hlimit hlt
      have hbound : w.part.next.toNat < w.part.limit.toNat := UInt64.lt_iff_toNat_lt.mp hlt
      refine ⟨fun f hf => ?_, fun f => ?_⟩
      · rw [List.mem_singleton.mp hf, mem_passed (by omega), hindex]
        exact Nat.lt_irrefl _
      · have hafter : f ∈ passed (counted w) ↔ f.index < w.part.next.toNat + 1 := by
          rw [← hnext]
          exact mem_passed (w := counted w) (by rw [counted, hnext]; omega)
        have hfirst : f ∈ [w.part.next.toNat].map PhysicalFrame.ofIndex ↔
            f.index = w.part.next.toNat := by
          rw [PhysicalFrame.mem_map_ofIndex, List.mem_singleton]
          intro i hi
          have heq := List.mem_singleton.mp hi
          omega
        rw [hafter, mem_passed (by omega)]
        refine Iff.trans ?_ (or_congr_left hfirst.symm)
        omega
  · intro used w w' _ hpart _
    rw [passed, passed, hpart]

end FrameCounter

namespace FrameSource

variable {τ : Type} [FrameSource τ] {Keeps : List PhysicalFrame → World τ → Prop}
  {lent : World τ → Finset PhysicalFrame} {old used : List PhysicalFrame}
  {base : Finset PhysicalFrame} {w : World τ}

/-- Since a state in which the frames `old` were used and the frames `base` handed out, the source has
handed out exactly the frames that are used in addition. -/
structure Tracks (Keeps : List PhysicalFrame → World τ → Prop)
    (lent : World τ → Finset PhysicalFrame) (old : List PhysicalFrame) (base : Finset PhysicalFrame)
    (used : List PhysicalFrame) (w : World τ) : Prop where
  keeps : Keeps used w
  kept : old ⊆ used
  fresh : ∀ f ∈ used, f ∉ old → f ∉ base
  record : ∀ f, f ∈ lent w ↔ f ∈ base ∨ f ∈ used ∧ f ∉ old

omit [FrameSource τ] in
theorem Tracks.start (hk : Keeps used w) : Tracks Keeps lent used (lent w) used w :=
  ⟨hk, List.Subset.refl used, fun _ hf hold => absurd hf hold,
    fun _ => (or_iff_left fun h => h.2 h.1).symm⟩

omit [FrameSource τ] in
theorem Tracks.drawn_iff (h : Tracks Keeps lent old base used w) (f : PhysicalFrame) :
    f ∈ lent w ∧ f ∉ base ↔ f ∈ used ∧ f ∉ old := by
  rw [h.record]
  constructor
  · intro hparts
    exact hparts.1.resolve_left hparts.2
  · intro hparts
    exact ⟨.inr hparts, h.fresh f hparts.1 hparts.2⟩

/-- Whoever uses a lawful source with a record can keep track of what it hands out, and what is known
of clients of lawful sources then holds with the track kept. -/
theorem Lawful.tracks (hs : Lawful τ Keeps) (hrec : Records τ Keeps lent)
    (old : List PhysicalFrame) (base : Finset PhysicalFrame) :
    Lawful τ (Tracks Keeps lent old base) := by
  refine ⟨?_, ?_⟩
  · intro used w w' o h hrun
    obtain ⟨hfresh, hkeeps, hbytes⟩ := hs.take h.keeps hrun
    obtain ⟨hnew, hrecord⟩ := hrec.take h.keeps hrun
    refine ⟨hfresh, ⟨hkeeps, List.subset_append_of_subset_right _ h.kept, ?_, ?_⟩, hbytes⟩
    · intro f hf hold hbase
      rcases List.mem_append.mp hf with hf | hf
      · exact hnew f hf ((h.record f).mpr (.inl hbase))
      · exact h.fresh f hf hold hbase
    · intro f
      have hold : f ∈ o.taken → f ∉ old := fun hf hmem => hfresh f hf (h.kept hmem)
      rw [hrecord, h.record, List.mem_append]
      tauto
  · intro used w w' h hpart hbytes
    refine ⟨hs.beside h.keeps hpart hbytes, h.kept, h.fresh, ?_⟩
    rw [hrec.beside h.keeps hpart hbytes]
    exact h.record

end FrameSource

namespace Memory

variable {m n k : Memory} {roots used new more : List PhysicalFrame} {r : PhysicalFrame}
  {on on' : List TableIndex → Prop}

/-- From `m` to `n` the frames `new`, which nobody used, became tables below `r`, at positions with
the property `on`. No other table is new, and none is gone. -/
structure Grafts (m n : Memory) (roots used : List PhysicalFrame) (r : PhysicalFrame)
    (on : List TableIndex → Prop) (new : List PhysicalFrame) : Prop where
  fresh : ∀ f ∈ new, f ∉ used
  found : ∀ f ∈ new, ∃ js, on js ∧ n.Finds roots r js f
  kept : ∀ {r' js u}, m.Finds roots r' js u → n.Finds roots r' js u
  only : ∀ {r' js u}, n.Finds roots r' js u → m.Finds roots r' js u ∨ u ∈ new

theorem Grafts.of_finds_iff
    (h : ∀ {r' js u}, n.Finds roots r' js u ↔ m.Finds roots r' js u) :
    m.Grafts n roots used r on [] :=
  ⟨fun _ hf => absurd hf List.not_mem_nil, fun _ hf => absurd hf List.not_mem_nil, h.mpr,
    fun hu => .inl (h.mp hu)⟩

theorem Grafts.mono (h : m.Grafts n roots used r on new) (hon : ∀ js, on js → on' js) :
    m.Grafts n roots used r on' new := by
  refine ⟨h.fresh, fun f hf => ?_, h.kept, h.only⟩
  obtain ⟨js, hjs, hfinds⟩ := h.found f hf
  exact ⟨js, hon js hjs, hfinds⟩

theorem Grafts.trans (h : m.Grafts k roots used r on new)
    (h' : k.Grafts n roots (new ++ used) r on more) :
    m.Grafts n roots used r on (more ++ new) := by
  refine ⟨fun f hf hused => ?_, fun f hf => ?_, fun hu => h'.kept (h.kept hu), fun hu => ?_⟩
  · rcases List.mem_append.mp hf with hf | hf
    · exact h'.fresh f hf (List.mem_append_right new hused)
    · exact h.fresh f hf hused
  · rcases List.mem_append.mp hf with hf | hf
    · exact h'.found f hf
    · obtain ⟨js, hjs, hfinds⟩ := h.found f hf
      exact ⟨js, hjs, h'.kept hfinds⟩
  · rcases h'.only hu with hu | hu
    · exact (h.only hu).imp_right fun hnew => List.mem_append_right more hnew
    · exact .inr (List.mem_append_left new hu)

end Memory

namespace FourLevel

open Memory

variable {τ ε α β : Type} {Keeps : List PhysicalFrame → World τ → Prop} {p : FourLevel}
  {roots used new : List PhysicalFrame} {r t : PhysicalFrame} {is : List TableIndex}
  {i : TableIndex} {on on' : List TableIndex → Prop} {root : RootTable} {w w' : World τ}

/-- What an action on the address space below `r` that starts in `w` does with frames, where it ends
with `result`: those it puts below `r` as tables are `new`, and unless it is stopped these are all that
it takes. -/
structure Supplies (Keeps : List PhysicalFrame → World τ → Prop) (p : FourLevel)
    (roots used : List PhysicalFrame) (r : PhysicalFrame) (on : List TableIndex → Prop) (w : World τ)
    (result : Outcome ε α × World τ) (new : List PhysicalFrame) : Prop where
  grafts : w.machine.memory.Grafts result.2.machine.memory roots used r on new
  forest : Forest p result.2.machine.memory roots (new ++ used)
  keeps : (∀ e, result.1 ≠ .stopped e) → Keeps (new ++ used) result.2

theorem Supplies.mono {result : Outcome ε α × World τ}
    (h : Supplies Keeps p roots used r on w result new) (hon : ∀ js, on js → on' js) :
    Supplies Keeps p roots used r on' w result new :=
  ⟨h.grafts.mono hon, h.forest, h.keeps⟩

/-- An action in two parts does with frames what its parts do. -/
theorem Supplies.bind {x : Action (World τ) ε α} {f : α → Action (World τ) ε β}
    (h : Supplies Keeps p roots used r on w (x.run w) new)
    (hnext : ∀ a w₁, x.run w = (.done a, w₁) → Keeps (new ++ used) w₁ →
      Forest p w₁.machine.memory roots (new ++ used) →
      ∃ more, Supplies Keeps p roots (new ++ used) r on w₁ ((f a).run w₁) more) :
    ∃ all, Supplies Keeps p roots used r on w ((x >>= f).run w) all := by
  rw [Action.run_bind]
  rcases hx : x.run w with ⟨o, w₁⟩
  rw [hx] at h
  cases o with
  | refused e => exact ⟨new, h.grafts, h.forest, fun _ => h.keeps nofun⟩
  | stopped e => exact ⟨new, h.grafts, h.forest, fun hcalm => absurd rfl (hcalm e)⟩
  | done a =>
    obtain ⟨more, hmore⟩ := hnext a w₁ hx (h.keeps nofun) h.forest
    refine ⟨more ++ new, h.grafts.trans hmore.grafts, ?_, ?_⟩ <;> rw [List.append_assoc]
    · exact hmore.forest
    · exact hmore.keeps

/-- The frames that the source has handed out while an action was going on are those that it put below
the root. -/
theorem Supplies.drawn_iff {lent : World τ → Finset PhysicalFrame}
    {result : Outcome ε α × World τ}
    (h : Supplies (FrameSource.Tracks Keeps lent used (lent w)) p roots used r on w result new)
    (hcalm : ∀ e, result.1 ≠ .stopped e) (f : PhysicalFrame) :
    f ∈ lent result.2 ∧ f ∉ lent w ↔ f ∈ new := by
  rw [(h.keeps hcalm).drawn_iff, List.mem_append]
  constructor
  · intro hparts
    exact hparts.1.resolve_right hparts.2
  · intro hf
    exact ⟨.inl hf, h.grafts.fresh f hf⟩

theorem Descends.supplies {o : Outcome PagingError PhysicalFrame}
    (h : Descends Keeps p roots used r is t i w o w') (hk : Keeps used w)
    (hf : Forest p w.machine.memory roots used) :
    ∃ new, Supplies Keeps p roots used r (· = is ++ [i]) w (o, w') new := by
  cases h with
  | found => exact ⟨[], .of_finds_iff Iff.rfl, hf, fun _ => hk⟩
  | @linked f _ hkeeps hnew hreach =>
    refine ⟨[f], ⟨?_, ?_, ?_, ?_⟩, hf.link hnew hreach, fun _ => hkeeps⟩
    · intro g hg
      rw [List.mem_singleton.mp hg]
      exact hnew.fresh
    · intro g hg
      rw [List.mem_singleton.mp hg]
      exact ⟨_, rfl, (hf.finds_link hnew).mpr (.inr ⟨rfl, rfl, rfl⟩)⟩
    · exact fun hu => (hf.finds_link hnew).mpr (.inl hu)
    · intro r' js u hu
      refine ((hf.finds_link hnew).mp hu).imp_right fun hparts => ?_
      rw [hparts.2.2]
      exact List.mem_singleton_self f
  | refused hkeeps _ hsame =>
    exact ⟨[], .of_finds_iff (hf.finds_congr hsame), (hf.congr hsame).1, fun _ => hkeeps⟩
  | stopped more hkeeps hsame =>
    exact ⟨[], .of_finds_iff (hf.finds_congr hsame), (hf.congr hsame).1,
      fun hcalm => absurd rfl (hcalm _)⟩

variable [FrameSource τ]

/-- A walk puts what it takes on its way. -/
theorem descendAll_supplied (hs : FrameSource.Lawful τ Keeps) (a : VirtualAddress)
    (steps : List (TableIndex × Level)) (hk : Keeps used w)
    (hf : Forest p w.machine.memory roots used) (ht : w.machine.memory.Finds roots r is t)
    (hlen : is.length + steps.length ≤ 3) :
    ∃ new, Supplies Keeps p roots used r (fun js => js ≠ [] ∧ js <+: is ++ steps.map Prod.fst) w
      ((steps.foldlM (p.descend a) t).run w) new := by
  induction steps generalizing used is t w with
  | nil => exact ⟨[], .of_finds_iff Iff.rfl, hf, fun _ => hk⟩
  | cons step steps ih =>
    rw [List.length_cons] at hlen
    have hstep := descend_cases hs hk hf ht (by omega) a step
    obtain ⟨-, -, hfinds⟩ := hstep.tends hk hf ht (by omega)
    obtain ⟨new, hnew⟩ := hstep.supplies hk hf
    have hway : is ++ (step :: steps).map Prod.fst = is ++ [step.1] ++ steps.map Prod.fst := by
      rw [List.map_cons, List.append_cons]
    rw [List.foldlM_cons, hway]
    refine Supplies.bind (hnew.mono ?_) fun u w₁ hrun hk₁ hf₁ => ih hk₁ hf₁ ?_ ?_
    · rintro js rfl
      exact ⟨by simp, List.prefix_append _ _⟩
    · have hnext := hfinds u (by rw [hrun])
      rwa [hrun] at hnext
    · rw [List.length_append, List.length_singleton]
      omega

/-- Positions of tables on the way to an address, below the root. -/
def OnWay (a : VirtualAddress) (js : List TableIndex) : Prop :=
  js ≠ [] ∧ js <+: positions a

theorem finish_supplies (hs : FrameSource.Lawful τ Keeps) (hk : Keeps used w)
    (hf : Forest p w.machine.memory roots used) {q : PageRequest}
    (ht : w.machine.memory.Finds roots r (positions q.address) t) :
    Supplies Keeps p roots used r on w ((finish q t).run w) [] := by
  rcases finish_cases q t w with ⟨f, hstopped⟩ | ⟨e, requests, hdone⟩
  · rw [hstopped]
    exact ⟨.of_finds_iff Iff.rfl, hf, fun _ => hk⟩
  · rw [hdone]
    refine ⟨.of_finds_iff (hf.finds_setLeaf ht rfl), hf.setLeaf ht rfl, fun _ => ?_⟩
    refine hs.beside hk rfl fun x hx => ?_
    exact byte_setEntry _ _ _ fun hxt => hx ⟨t, hf.used ht, hxt⟩

/-- A request puts what it takes on the way to its address. -/
theorem request_supplied (hs : FrameSource.Lawful τ Keeps) (hk : Keeps used w)
    (hf : Forest p w.machine.memory roots used) (hroot : root.frame ∈ roots) (q : PageRequest) :
    ∃ new, Supplies Keeps p roots used root.frame (OnWay q.address) w ((q.run p root).run w)
      new := by
  obtain ⟨new, hnew⟩ := descendAll_supplied hs q.address (path q.address) hk hf
    (finds_root hroot) (Nat.le_refl 3)
  rw [← run_leafTable hf hroot] at hnew
  rw [run_eq]
  refine Supplies.bind hnew fun t w₁ hrun hk₁ hf₁ => ⟨[], finish_supplies hs hk₁ hf₁ ?_⟩
  obtain ⟨_, -, htable⟩ := leafTable_spec hs hk hf hroot q.address hrun
  exact htable t rfl

/-- After a request that goes through, there is a last table on the way to its address. -/
theorem request_arrives (hs : FrameSource.Lawful τ Keeps) (hk : Keeps used w)
    (hf : Forest p w.machine.memory roots used) (hroot : root.frame ∈ roots) {q : PageRequest}
    (hrun : (q.run p root).run w = (.done (), w')) :
    ∃ t, w'.machine.memory.Finds roots root.frame (positions q.address) t := by
  rw [run_eq] at hrun
  obtain ⟨t, w₁, hwalk, hfinish⟩ := Action.run_bind_eq_done hrun
  obtain ⟨used₁, ⟨hk₁, hf₁, -⟩, htable⟩ := leafTable_spec hs hk hf hroot q.address hwalk
  have ht := htable t rfl
  have hsupplies : Supplies Keeps p roots used₁ root.frame (OnWay q.address) w₁
      ((finish q t).run w₁) [] := finish_supplies hs hk₁ hf₁ ht
  rw [hfinish] at hsupplies
  exact ⟨t, hsupplies.grafts.kept ht⟩

theorem runRequests_supplied (hs : FrameSource.Lawful τ Keeps) (reqs : List PageRequest)
    (hk : Keeps used w) (hf : Forest p w.machine.memory roots used) (hroot : root.frame ∈ roots) :
    ∃ new, Supplies Keeps p roots used root.frame (· ≠ []) w ((runRequests p root reqs).run w)
      new := by
  induction reqs generalizing used w with
  | nil => exact ⟨[], .of_finds_iff Iff.rfl, hf, fun _ => hk⟩
  | cons q reqs ih =>
    obtain ⟨new, hnew⟩ := request_supplied hs hk hf hroot q
    exact Supplies.bind (hnew.mono fun _ hjs => hjs.1) fun _ _ _ hk₁ hf₁ => ih hk₁ hf₁

/-- The first table that is missing on the way to an address is one of this level. -/
def FirstMissing (m : Memory) (r : PhysicalFrame) (a : VirtualAddress) (level : Level) : Prop :=
  ∃ before i after, path a = before ++ (i, level) :: after ∧
    ∃ t, m.tableAt r (before.map Prod.fst) = some t ∧ (m.entry t i).present = false

section Refusals

variable {lent : World τ → Finset PhysicalFrame} {e : PagingError} {level : Level}

/-- The source had no frame to give. -/
def Exhausted (w : World τ) : Prop :=
  ∃ w₀, (FrameSource.take : Action (World τ) PagingError _).run w₀ = (.done none, w)

theorem createTable_refused (hrec : FrameSource.Records τ Keeps lent) (hk : Keeps used w)
    (hrun : (p.createTable level).run w = (.refused e, w')) :
    e = .outOfMemory (.atLevel level) ∧ Exhausted w' := by
  rcases Action.run_bind_eq_refused hrun with htake | ⟨f?, w₁, htake, hrest⟩
  · exact absurd htake (hrec.answers hk)
  · cases f? with
    | none =>
      cases hrest
      exact ⟨rfl, w, htake⟩
    | some f =>
      rcases Action.run_bind_eq_refused hrest with hreach | ⟨_, _, -, hstore⟩
      · exact absurd hreach Action.run_value_ne_refused
      · cases hstore

omit [FrameSource τ] in
theorem run_arrive_ne_refused : (do p.reach t; pure t : Action (World τ) PagingError _).run w ≠
    (.refused e, w') := by
  intro hrun
  rcases Action.run_bind_eq_refused hrun with hreach | ⟨_, _, -, hpure⟩
  · exact Action.run_value_ne_refused hreach
  · cases hpure

omit [FrameSource τ] in
theorem run_link_ne_refused {a : VirtualAddress} {step : TableIndex × Level} {f : PhysicalFrame} :
    (link a t step f : Action (World τ) PagingError Unit).run w ≠ (.refused e, w') := by
  intro hrun
  rcases Action.run_bind_eq_refused hrun with hvalue | ⟨_, _, -, hstore⟩
  · exact Action.run_value_ne_refused hvalue
  · cases hstore

/-- A step is refused only where there is no frame for the table that is missing. -/
theorem descend_refused (hrec : FrameSource.Records τ Keeps lent) (hk : Keeps used w)
    {a : VirtualAddress} {step : TableIndex × Level}
    (hrun : (p.descend a t step).run w = (.refused e, w')) :
    e = .outOfMemory (.atLevel step.2) ∧ Exhausted w' ∧
      (w.machine.memory.entry t step.1).present = false := by
  cases hpresent : (w.machine.memory.entry t step.1).present with
  | true =>
    rw [run_descend_of_present p a hpresent] at hrun
    exact absurd hrun run_arrive_ne_refused
  | false =>
    rw [run_descend_of_missing p a hpresent] at hrun
    rcases Action.run_bind_eq_refused hrun with hcreate | ⟨f, w₁, -, hrest⟩
    · obtain ⟨he, hsource⟩ := createTable_refused hrec hk hcreate
      exact ⟨he, hsource, rfl⟩
    · rcases Action.run_bind_eq_refused hrest with hlink | ⟨_, w₂, -, harrive⟩
      · exact absurd hlink run_link_ne_refused
      · exact absurd harrive run_arrive_ne_refused

/-- A walk is refused at the first table that is missing. -/
theorem descendAll_refused (hs : FrameSource.Lawful τ Keeps)
    (hrec : FrameSource.Records τ Keeps lent) (a : VirtualAddress)
    (steps : List (TableIndex × Level)) (hk : Keeps used w)
    (hf : Forest p w.machine.memory roots used) (ht : w.machine.memory.Finds roots r is t)
    (hlen : is.length + steps.length ≤ 3)
    (hrun : (steps.foldlM (p.descend a) t).run w = (.refused e, w')) :
    Exhausted w' ∧ ∃ before i level after, steps = before ++ (i, level) :: after ∧
      e = .outOfMemory (.atLevel level) ∧
      ∃ u, w'.machine.memory.Finds roots r (is ++ before.map Prod.fst) u ∧
        (w'.machine.memory.entry u i).present = false := by
  induction steps generalizing used is t w with
  | nil => cases hrun
  | cons step steps ih =>
    rw [List.length_cons] at hlen
    have hstep := descend_cases hs hk hf ht (by omega) a step
    rw [List.foldlM_cons] at hrun
    rcases Action.run_bind_eq_refused hrun with hone | ⟨next, w₁, hone, hrest⟩
    · obtain ⟨he, hsource, hmissing⟩ := descend_refused hrec hk hone
      rw [hone] at hstep
      cases hstep with
      | refused _ _ hsame =>
        refine ⟨hsource, [], step.1, step.2, steps, rfl, he, t, ?_, ?_⟩
        · rw [List.map_nil, List.append_nil]
          exact (hf.finds_congr hsame).mpr ht
        · rw [hsame t (hf.used ht), hmissing]
    · obtain ⟨used₁, h₁, hfinds⟩ := hstep.tends hk hf ht (by omega)
      rw [hone] at h₁ hfinds
      have hshort : (is ++ [step.1]).length + steps.length ≤ 3 := by
        rw [List.length_append, List.length_singleton]
        omega
      obtain ⟨hsource, before, i, level, after, rfl, he, u, hu, hmissing⟩ :=
        ih h₁.keeps h₁.forest (hfinds next rfl) hshort hrest
      refine ⟨hsource, step :: before, i, level, after, rfl, he, u, ?_, hmissing⟩
      rwa [List.map_cons, List.append_cons]

omit [FrameSource τ] in
theorem finish_ne_refused (q : PageRequest) : (finish q t).run w ≠ (.refused e, w') := by
  intro hrun
  rcases finish_cases q t w with ⟨f, hstopped⟩ | ⟨e, requests, hdone⟩
  · cases hstopped.symm.trans hrun
  · cases hdone.symm.trans hrun

/-- A request is refused only where the source has no frame for the first table that is missing. -/
theorem request_refused (hs : FrameSource.Lawful τ Keeps) (hrec : FrameSource.Records τ Keeps lent)
    (hk : Keeps used w) (hf : Forest p w.machine.memory roots used) (hroot : root.frame ∈ roots)
    {q : PageRequest} (hrun : (q.run p root).run w = (.refused e, w')) :
    Exhausted w' ∧ ∃ level, e = .outOfMemory (.atLevel level) ∧
      FirstMissing w'.machine.memory root.frame q.address level := by
  rw [run_eq] at hrun
  rcases Action.run_bind_eq_refused hrun with hwalk | ⟨t, w₁, -, hfinish⟩
  · rw [run_leafTable hf hroot] at hwalk
    obtain ⟨hsource, before, i, level, after, hpath, he, u, hu, hmissing⟩ :=
      descendAll_refused hs hrec q.address (path q.address) hk hf (finds_root hroot)
        (Nat.le_refl 3) hwalk
    exact ⟨hsource, level, he, before, i, after, hpath, u, hu.table, hmissing⟩
  · exact absurd hfinish (finish_ne_refused q)

end Refusals

end FourLevel

end MemoryManager
