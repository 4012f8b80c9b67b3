import MemoryManager.Proofs.Paging.Isolation

namespace MemoryManager

/-- A request that went through, and the root of the address space that it changed. -/
structure Change where
  root : PhysicalFrame
  request : PageRequest

/-- The plain map that the recorded requests, the newest first, make of an address space. -/
def pageMapOf : List Change → PhysicalFrame → PageMap
  | [], _ => .empty
  | c :: log, r => if c.root = r then c.request.apply (pageMapOf log r) else pageMapOf log r

theorem pageMapOf_eq_empty {log : List Change} {r : PhysicalFrame} (h : ∀ c ∈ log, c.root ≠ r) :
    pageMapOf log r = .empty := by
  induction log with
  | nil => rfl
  | cons c log ih =>
    rw [List.forall_mem_cons] at h
    rw [pageMapOf, if_neg h.1, ih h.2]

/-- What several requests on one address space make of its plain map. -/
theorem pageMapOf_append (r : PhysicalFrame) (reqs : List PageRequest) (log : List Change) :
    pageMapOf ((reqs.map (Change.mk r)).reverse ++ log) r =
      reqs.foldl PageRequest.apply (pageMapOf log r) := by
  induction reqs generalizing log with
  | nil => rfl
  | cons q reqs ih =>
    rw [List.map_cons, List.reverse_cons, List.append_assoc, List.singleton_append, ih, pageMapOf,
      if_pos rfl, List.foldl_cons]

theorem pageMapOf_append_of_ne {r r' : PhysicalFrame} (hne : r ≠ r') (reqs : List PageRequest)
    (log : List Change) : pageMapOf ((reqs.map (Change.mk r)).reverse ++ log) r' =
      pageMapOf log r' := by
  induction reqs generalizing log with
  | nil => rfl
  | cons q reqs ih =>
    rw [List.map_cons, List.reverse_cons, List.append_assoc, List.singleton_append, ih, pageMapOf,
      if_neg hne]

namespace FourLevel

open Memory

variable {τ : Type} [FrameSource τ] {Keeps : List PhysicalFrame → World τ → Prop} {p : FourLevel}
  {roots used : List PhysicalFrame} {root : RootTable} {r : PhysicalFrame} {m n : Memory}
  {w w' : World τ} {pm : PageMap}

theorem Shows.congr (h : Shows m r pm)
    (hn : ∀ is, is.length = 3 → ∀ i, n.entryAt r is i = m.entryAt r is i) : Shows n r pm := by
  intro a
  rw [hn (positions a) rfl]
  exact h a

/-- A request that does not go through changes no leaf entry. -/
theorem grows_of_not_done (hs : FrameSource.Lawful τ Keeps) (hk : Keeps used w)
    (hf : Forest p w.machine.memory roots used) (hroot : root.frame ∈ roots) {q : PageRequest}
    (h : ((q.run p root).run w).1.done? = none) :
    Grows roots w.machine.memory ((q.run p root).run w).2.machine.memory := by
  rw [run_eq, Action.run_bind] at h ⊢
  rcases hwalk : (p.leafTable root q.address).run w with ⟨o, w₁⟩
  obtain ⟨_, ⟨-, -, hgrows⟩, -⟩ := leafTable_spec hs hk hf hroot q.address hwalk
  rw [hwalk] at h
  cases o with
  | refused e => exact hgrows
  | stopped e => exact hgrows
  | done t =>
    dsimp only at h ⊢
    rcases finish_cases q t w₁ with ⟨f, hstopped⟩ | ⟨e, requests, hdone⟩
    · rw [hstopped]
      exact hgrows
    · rw [hdone] at h
      cases h

end FourLevel

/-- Address spaces that take their tables from one source: the root tables created so far, and the
requests that went through, the newest first. -/
structure SpaceRun (τ : Type) where
  world : World τ
  roots : List PhysicalFrame
  log : List Change

namespace SpaceRun

open FourLevel Memory

variable {τ : Type} [FrameSource τ] {Keeps : List PhysicalFrame → World τ → Prop} {p : FourLevel}
  {s : SpaceRun τ} {w w' : World τ} {used : List PhysicalFrame} {r : PhysicalFrame}

def memory (s : SpaceRun τ) : Memory :=
  s.world.machine.memory

def perform (p : FourLevel) (s : SpaceRun τ) : SpaceRequest → SpaceRun τ
  | .newRoot =>
    ⟨(p.newRoot.run s.world).2, (p.newRoot.run s.world).1.done?.toList.map RootTable.frame ++ s.roots,
      s.log⟩
  | .change root q =>
    ⟨((q.run p root).run s.world).2, s.roots,
      (((q.run p root).run s.world).1.done?.toList.map fun _ => ⟨root.frame, q⟩) ++ s.log⟩

theorem perform_newRoot {o : Outcome PagingError RootTable}
    (hrun : p.newRoot.run s.world = (o, w')) : s.perform p .newRoot =
      ⟨w', o.done?.toList.map RootTable.frame ++ s.roots, s.log⟩ := by
  rw [perform, hrun]

theorem roots_change (p : FourLevel) (s : SpaceRun τ) (root : RootTable) (q : PageRequest) :
    (s.perform p (.change root q)).roots = s.roots := rfl

/-- A request to change an address space is about one that was created. -/
def Allowed (s : SpaceRun τ) : SpaceRequest → Prop
  | .newRoot => True
  | .change root _ => root.frame ∈ s.roots

/-- The states that runs of allowed requests lead to, however each of them ends. -/
inductive Reachable (p : FourLevel) (w : World τ) : SpaceRun τ → Prop
  | start : Reachable p w ⟨w, [], []⟩
  | step {s : SpaceRun τ} (q : SpaceRequest) (hs : Reachable p w s) (hq : s.Allowed q) :
      Reachable p w (s.perform p q)

/-- The invariant: the tables are a forest in frames that the source has handed out, and every
address space says what its recorded requests mean. -/
structure Sound (Keeps : List PhysicalFrame → World τ → Prop) (p : FourLevel) (s : SpaceRun τ) :
    Prop where
  tables : ∃ used, Keeps used s.world ∧ Forest p s.memory s.roots used
  shows : ∀ r ∈ s.roots, Shows s.memory r (pageMapOf s.log r)
  logged : ∀ c ∈ s.log, c.root ∈ s.roots

omit [FrameSource τ] in
theorem Sound.start (hk : Keeps used w) : Sound Keeps p ⟨w, [], []⟩ :=
  ⟨⟨used, hk, .nil p _ used⟩, fun _ hr => absurd hr List.not_mem_nil,
    fun _ hc => absurd hc List.not_mem_nil⟩

theorem Sound.newRoot (hs : FrameSource.Lawful τ Keeps) (h : Sound Keeps p s) :
    Sound Keeps p (s.perform p .newRoot) := by
  obtain ⟨⟨used, hk, hf⟩, hshows, hlogged⟩ := h
  rcases hrun : p.newRoot.run s.world with ⟨o, w'⟩
  obtain ⟨-, hfresh, htables, hgrows, -⟩ := newRoot_tends hs hk hf hrun rfl
  rw [perform_newRoot hrun]
  refine ⟨htables, fun r hr => ?_, fun c hc => List.mem_append_right _ (hlogged c hc)⟩
  rcases List.mem_append.mp hr with hnew | hold
  · -- nothing is recorded about a root that nobody used before
    have hnone : ∀ c ∈ s.log, c.root ≠ r := by
      intro c hc heq
      exact hfresh r hnew (heq ▸ hf.used (finds_root (hlogged c hc)))
    obtain ⟨root, hroot, rfl⟩ := List.mem_map.mp hnew
    obtain rfl := Outcome.eq_done (Option.mem_toList.mp hroot)
    obtain ⟨-, -, hplanted⟩ := newRoot_spec hs hk hf hrun
    rw [pageMapOf_eq_empty hnone]
    intro a
    rw [memory, Forest.entryAt_plant hplanted]
    exact PageEntry.shows_zero
  · exact (hshows r hold).congr (hgrows.leaves r hold)

theorem Sound.change (hs : FrameSource.Lawful τ Keeps) (h : Sound Keeps p s) {root : RootTable}
    (hroot : root.frame ∈ s.roots) (q : PageRequest) :
    Sound Keeps p (s.perform p (.change root q)) := by
  obtain ⟨⟨used, hk, hf⟩, hshows, hlogged⟩ := h
  obtain ⟨used', hk', hf', hspares⟩ := request_spec hs hk hf hroot q rfl
  refine ⟨⟨used', hk', hf'⟩, fun r hr => ?_, ?_⟩
  · by_cases hon : r = root.frame
    · subst hon
      rw [perform]
      cases hdone : ((q.run p root).run s.world).1.done? with
      | none =>
        exact (hshows _ hroot).congr ((grows_of_not_done hs hk hf hroot hdone).leaves _ hroot)
      | some u =>
        have hrun : (q.run p root).run s.world = (.done (), ((q.run p root).run s.world).2) :=
          Prod.ext (Outcome.eq_done hdone) rfl
        have hchanged := (hshows _ hroot).request hs hk hf hroot hrun
        rwa [Option.toList_some, List.map_singleton, List.singleton_append, pageMapOf, if_pos rfl]
    · have hsame : pageMapOf (s.perform p (.change root q)).log r = pageMapOf s.log r := by
        rw [perform]
        cases ((q.run p root).run s.world).1.done? with
        | none => rfl
        | some u =>
          rw [Option.toList_some, List.map_singleton, List.singleton_append, pageMapOf,
            if_neg (Ne.symm hon)]
      rw [hsame]
      exact (hshows r hr).congr (hspares.leaves r hr hon)
  · intro c hc
    rcases List.mem_append.mp hc with hnew | hold
    · obtain ⟨_, -, rfl⟩ := List.mem_map.mp hnew
      exact hroot
    · exact hlogged c hold

omit [FrameSource τ] in
/-- Addresses translate as the recorded requests mean. -/
theorem Sound.translate_pageMapOf (h : Sound Keeps p s) {root : RootTable}
    (hroot : root.frame ∈ s.roots) (a : VirtualAddress) :
    p.translate s.memory root a = .ok ((pageMapOf s.log root.frame).translate a) := by
  obtain ⟨used, -, hf⟩ := h.tables
  exact translate_of_shows hf hroot (h.shows root.frame hroot) a

/-- Every allowed request keeps the invariant. -/
theorem Sound.perform (hs : FrameSource.Lawful τ Keeps) (h : Sound Keeps p s) {q : SpaceRequest}
    (hq : s.Allowed q) : Sound Keeps p (s.perform p q) := by
  cases q with
  | newRoot => exact h.newRoot hs
  | change root q => exact h.change hs hq q

/-- Every address space says what its recorded requests mean. -/
theorem Reachable.sound (hr : Reachable p w s) (hs : FrameSource.Lawful τ Keeps)
    (hk : Keeps used w) : Sound Keeps p s := by
  induction hr with
  | start => exact .start hk
  | step q _ hq ih => exact ih.perform hs hq

/-- Several requests on one address space that all go through are all recorded. -/
theorem Reachable.runRequests (hr : Reachable p w s) {root : RootTable}
    (hroot : root.frame ∈ s.roots) {reqs : List PageRequest}
    (hrun : (runRequests p root reqs).run s.world = (.done (), w')) :
    ∃ t, Reachable p w t ∧ t.world = w' ∧ t.roots = s.roots ∧
      t.log = (reqs.map (Change.mk root.frame)).reverse ++ s.log := by
  induction reqs generalizing s with
  | nil =>
    cases hrun
    exact ⟨s, hr, rfl, rfl, rfl⟩
  | cons q reqs ih =>
    obtain ⟨_, w₁, hone, hrest⟩ := Action.run_bind_eq_done hrun
    have hstep := hr.step (.change root q) hroot
    rw [SpaceRun.perform, hone] at hstep
    obtain ⟨t, ht, hworld, hroots, hlog⟩ := ih hstep hroot hrest
    refine ⟨t, ht, hworld, hroots, hlog.trans ?_⟩
    rw [List.map_cons, List.reverse_cons, List.append_assoc]
    rfl

/-- A request that is refused is not recorded. -/
theorem Reachable.refused (hr : Reachable p w s) {root : RootTable} (hroot : root.frame ∈ s.roots)
    {q : PageRequest} {e : PagingError} (hrun : (q.run p root).run s.world = (.refused e, w')) :
    Reachable p w ⟨w', s.roots, s.log⟩ := by
  have hstep := hr.step (.change root q) hroot
  rwa [SpaceRun.perform, hrun] at hstep

end SpaceRun

end MemoryManager
