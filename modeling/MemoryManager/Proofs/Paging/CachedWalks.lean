import MemoryManager.Proofs.Paging.Rights
import MemoryManager.Proofs.Paging.Silence

namespace MemoryManager

/-- What a walk to a page gives: the frame that the leaf entry names, and the rights. -/
abbrev Grant : Type := PhysicalFrame × Rights

/-- What a processor that walks to an address now may do there, if the page is present. -/
def Memory.grant? (m : Memory) (root : PhysicalFrame) (a : VirtualAddress) : Option Grant :=
  let rights := Rights.ofEntries (m.walk root a)
  if rights.present then (m.walk root a).getLast?.map fun e => (e.frame, rights) else none

/-- What the plain map grants on a page. -/
def Page.grant? (q : Page) : Option Grant :=
  if q.flags.contains .present then some (q.frame, .ofFlags q.flags) else none

theorem Memory.present_walk (m : Memory) (root : PhysicalFrame) (a : VirtualAddress) :
    (Rights.ofEntries (m.walk root a)).present =
      (m.entryAt root (FourLevel.positions a) (FourLevel.leafIndex a)).present := by
  change (m.walkEntries root _).all PageEntry.present = _
  rw [all_present_walkEntries, tableAt_concat]
  cases ht : m.tableAt root (FourLevel.positions a) with
  | none =>
    rw [entryAt_of_none ht]
    rfl
  | some t =>
    rw [entryAt_of_some ht, Option.bind_some, child?]
    cases (m.entry t (FourLevel.leafIndex a)).present <;> rfl

/-- A walk grants what the recorded requests mean. -/
theorem SpaceRun.Sound.grant?_eq {τ : Type}
    {Keeps : List PhysicalFrame → World τ → Prop} {p : FourLevel} {s : SpaceRun τ}
    (h : Sound Keeps p s) (hopen : s.memory.Permissive s.roots) {root : PhysicalFrame}
    (hroot : root ∈ s.roots) (a : VirtualAddress) :
    s.memory.grant? root a = (pageMapOf s.log root a.page).grant? := by
  have hpresent := (s.memory.present_walk root a).trans (h.shows root hroot a).present
  rw [Page.grant?]
  split
  · rename_i hmapped
    obtain ⟨above, e, hwalk, habove, hshows⟩ := h.walk hopen hroot hmapped
    have hleaf : e.present = true := hshows.present.trans hmapped
    rw [Memory.grant?, if_pos (hpresent.trans hmapped), hwalk, List.getLast?_concat,
      Rights.ofEntries_append habove, hshows.rights_eq hleaf, Option.map_some, hshows.frame]
  · rename_i hmissing
    rw [← hpresent] at hmissing
    exact if_neg hmissing

/-- A walk that the processor has cached: to which page, what it gave, and how many requests had
gone through before. -/
structure CachedWalk where
  page : Fin (2 ^ 36)
  grant : Grant
  stamp : Nat
  deriving DecidableEq

/-- The walks that a processor has cached, and the root table at which they began. -/
structure WalkCache where
  active : Option PhysicalFrame := none
  walks : List CachedWalk := []

namespace WalkCache

/-- A new root table makes the processor forget all walks, an invalidation those to one page. -/
def answer (c : WalkCache) : MmuRequest → WalkCache
  | .activate v => { active := some (.containing ⟨v⟩) }
  | .invalidate a => { c with walks := c.walks.filter fun k => k.page ≠ a.page }

def answerAll (c : WalkCache) (rs : List MmuRequest) : WalkCache :=
  rs.foldl answer c

end WalkCache

/-- The requests to the memory-management unit after the first `n`. -/
def World.requestsFrom {τ : Type} (w : World τ) (n : Nat) : List MmuRequest :=
  w.requests.toList.drop n

/-- Address spaces, and a processor that uses the active one. -/
structure CachedRun (τ : Type) where
  spaces : SpaceRun τ
  cache : WalkCache

/-- A request on address spaces, one to make an address space the active one, or a walk of the
processor. -/
inductive CpuStep where
  | request (q : SpaceRequest)
  | activate (root : RootTable)
  | walk (a : VirtualAddress)

namespace CachedRun

open FourLevel

variable {τ : Type} [FrameSource τ]

/-- The requests that went through after the walk. -/
def since (s : CachedRun τ) (k : CachedWalk) : List Change :=
  s.spaces.log.take (s.spaces.log.length - k.stamp)

def perform (p : FourLevel) (s : CachedRun τ) : CpuStep → CachedRun τ
  | .request q =>
    let t := s.spaces.perform p q
    ⟨t, s.cache.answerAll (t.world.requestsFrom s.spaces.world.requests.size)⟩
  | .activate root =>
    let w := ((p.activate root : Action (World τ) Empty Unit).run s.spaces.world).2
    ⟨{ s.spaces with world := w },
      s.cache.answerAll (w.requestsFrom s.spaces.world.requests.size)⟩
  | .walk a =>
    match s.cache.active with
    | none => s
    | some r =>
      match s.spaces.memory.grant? r a with
      | none => s
      | some g =>
        ⟨s.spaces, { s.cache with walks := ⟨a.page, g, s.spaces.log.length⟩ :: s.cache.walks }⟩

/-- Requests are about address spaces that were created. -/
def Allowed (s : CachedRun τ) : CpuStep → Prop
  | .request q => s.spaces.Allowed q
  | .activate root => root.frame ∈ s.spaces.roots
  | .walk _ => True

/-- The states that runs of allowed steps lead to, from a processor without cached walks. -/
inductive Reachable (p : FourLevel) (w : World τ) : CachedRun τ → Prop
  | start : Reachable p w ⟨⟨w, [], []⟩, {}⟩
  | step {s : CachedRun τ} (q : CpuStep) (hs : Reachable p w s) (hq : s.Allowed q) :
      Reachable p w (s.perform p q)

end CachedRun

theorem RootRegister.containing_valueFor {r : RootRegister} {f : PhysicalFrame} {v : UInt64}
    (h : r.valueFor f = .ok v) : PhysicalFrame.containing ⟨v⟩ = f := by
  cases r with
  | wide =>
    cases h
    exact f.containing_base
  | cr3 =>
    rw [valueFor, Cr3.ofRoot, BitField.put] at h
    split at h
    · rename_i hle
      cases h
      have hlt : (UInt64.ofNat f.index).toNat < 1 <<< 40 := Cr3.rootField.lt_of_le_max hle
      have hindex : (UInt64.ofNat f.index).toNat = f.index := by
        have := f.index_lt
        rw [UInt64.toNat_ofNat']
        omega
      have hbits : (Cr3.rootField.write 0 (.ofNat f.index)).toNat = f.index * 4096 := by
        rw [BitField.write, UInt64.zero_and, UInt64.zero_or, UInt64.toNat_shiftLeft, hindex,
          Nat.shiftLeft_eq, show Cr3.rootField.shift.toNat % 64 = 12 from rfl]
        omega
      ext
      change (Cr3.rootField.write 0 (.ofNat f.index)).toNat / 4096 = f.index
      omega
    · cases h

/-- What a request that goes through asks of the memory-management unit. -/
def PageRequest.invalidations : PageRequest → List MmuRequest
  | unmap a => [.invalidate a]
  | _ => []

namespace FourLevel

open Memory

variable {τ : Type} [FrameSource τ]

/-- A request asks for an invalidation only if it takes a mapping away, and only once that is done. -/
theorem requests_run
    (htake : (FrameSource.take : Action (World τ) PagingError (Option PhysicalFrame)).Silent)
    (p : FourLevel) (root : RootTable) (q : PageRequest) (w : World τ) :
    ((q.run p root).run w).2.requests.toList = w.requests.toList ++
      if ((q.run p root).run w).1.done?.isSome then q.invalidations else [] := by
  have hsilent := silent_leafTable htake p root q.address w
  rw [run_eq, Action.run_bind]
  rcases hrun : (p.leafTable root q.address).run w with ⟨o, w₁⟩
  have hwalk : w₁.requests = w.requests := by
    rw [hrun] at hsilent
    exact hsilent
  cases o with
  | refused e => simp [Outcome.done?, hwalk]
  | stopped e => simp [Outcome.done?, hwalk]
  | done t =>
    cases q with
    | map target a flags =>
      have hfinish : (finish (.map target a flags) t : Action (World τ) PagingError Unit).Silent :=
        World.silent_load.bind fun _ => .bind (.value _) fun _ => World.silent_store _
      simp [PageRequest.invalidations, hfinish w₁, hwalk]
    | unmap a =>
      have hdone : ((finish (.unmap a) t : Action (World τ) PagingError Unit).run w₁).1 =
          .done () := rfl
      have hpush : ((finish (.unmap a) t : Action (World τ) PagingError Unit).run w₁).2.requests =
          w₁.requests.push (.invalidate a) := rfl
      simp [PageRequest.invalidations, Outcome.done?, hdone, hpush, hwalk]
    | setFlags a flags =>
      have hfinish : (finish (.setFlags a flags) t : Action (World τ) PagingError Unit).Silent :=
        World.silent_load.bind fun _ => World.silent_store _
      simp [PageRequest.invalidations, hfinish w₁, hwalk]

omit [FrameSource τ] in
/-- Making an address space the active one is one request, or stops before it is made. -/
theorem activate_cases {ε : Type} {p : FourLevel} {root : RootTable} {w w' : World τ}
    (hrun : ((p.activate root : Action (World τ) ε Unit).run w).2 = w') :
    w' = w ∨ (w'.part = w.part ∧ w'.machine.memory = w.machine.memory ∧
      ∃ v, PhysicalFrame.containing ⟨v⟩ = root.frame ∧
        w'.requests = w.requests.push (.activate v)) := by
  cases hvalue : p.register.valueFor root.frame with
  | error e =>
    rw [activate, hvalue] at hrun
    exact .inl hrun.symm
  | ok v =>
    rw [activate, hvalue] at hrun
    obtain rfl := hrun
    exact .inr ⟨rfl, rfl, v, RootRegister.containing_valueFor hvalue, rfl⟩

end FourLevel

/-- A request that sets no flags on a page changes it only by taking its mapping away. -/
theorem PageRequest.apply_eq {q : PageRequest} {page : Fin (2 ^ 36)}
    (hflags : q.flagsFor? page = none)
    (hkept : ∀ a, .invalidate a ∈ q.invalidations → page ≠ a.page) (pm : PageMap) :
    q.apply pm page = pm page := by
  cases q with
  | map target a flags =>
    rw [flagsFor?, ite_eq_right_iff] at hflags
    exact Function.update_of_ne (fun heq => by cases hflags heq.symm) _ _
  | unmap a => exact Function.update_of_ne (hkept a (List.mem_singleton_self _)) _ _
  | setFlags a flags =>
    rw [flagsFor?, ite_eq_right_iff] at hflags
    exact Function.update_of_ne (fun heq => by cases hflags heq.symm) _ _

namespace WalkCache

variable {c : WalkCache} {k : CachedWalk}

theorem active_invalidations (c : WalkCache) (q : PageRequest) :
    (c.answerAll q.invalidations).active = c.active := by
  cases q <;> rfl

theorem mem_walks_invalidations {q : PageRequest} :
    k ∈ (c.answerAll q.invalidations).walks ↔
      k ∈ c.walks ∧ ∀ a, .invalidate a ∈ q.invalidations → k.page ≠ a.page := by
  cases q <;> simp [answerAll, answer, PageRequest.invalidations]

end WalkCache

/-- The invariant is about memory and the source of frames, and not about what was asked of the
memory-management unit. -/
theorem SpaceRun.Sound.of_same {τ : Type} [FrameSource τ]
    {Keeps : List PhysicalFrame → World τ → Prop} {p : FourLevel} {s : SpaceRun τ} {w : World τ}
    (h : Sound Keeps p s) (hs : FrameSource.Lawful τ Keeps) (hpart : w.part = s.world.part)
    (hmemory : w.machine.memory = s.world.machine.memory) :
    Sound Keeps p { s with world := w } := by
  obtain ⟨⟨used, hk, hf⟩, hshows, hlogged⟩ := h
  refine ⟨⟨used, hs.beside hk hpart fun x _ => by rw [hmemory], ?_⟩, ?_, hlogged⟩
  · rwa [SpaceRun.memory, hmemory]
  · rwa [SpaceRun.memory, hmemory]

namespace CachedRun

open FourLevel

variable {τ : Type} [FrameSource τ] {Keeps : List PhysicalFrame → World τ → Prop} {p : FourLevel}
  {s : CachedRun τ} {w : World τ} {used : List PhysicalFrame}

theorem perform_newRoot
    (htake : (FrameSource.take : Action (World τ) PagingError (Option PhysicalFrame)).Silent)
    (p : FourLevel) (s : CachedRun τ) :
    s.perform p (.request .newRoot) = ⟨s.spaces.perform p .newRoot, s.cache⟩ := by
  have hsilent : (s.spaces.perform p .newRoot).world.requests = s.spaces.world.requests :=
    silent_newRoot htake p s.spaces.world
  have hnone : (s.spaces.perform p .newRoot).world.requestsFrom s.spaces.world.requests.size =
      [] := by
    rw [World.requestsFrom, hsilent]
    exact List.drop_length
  rw [perform, hnone]
  rfl

theorem perform_change
    (htake : (FrameSource.take : Action (World τ) PagingError (Option PhysicalFrame)).Silent)
    (p : FourLevel) (s : CachedRun τ) (root : RootTable) (q : PageRequest) :
    s.perform p (.request (.change root q)) =
      ⟨s.spaces.perform p (.change root q), s.cache.answerAll
        (if ((q.run p root).run s.spaces.world).1.done?.isSome then q.invalidations else [])⟩ := by
  have hrequests : (s.spaces.perform p (.change root q)).world.requestsFrom
      s.spaces.world.requests.size =
        if ((q.run p root).run s.spaces.world).1.done?.isSome then q.invalidations else [] := by
    have hall : (s.spaces.perform p (.change root q)).world.requests.toList = _ :=
      requests_run htake p root q s.spaces.world
    rw [World.requestsFrom, hall]
    exact List.drop_left
  rw [perform, hrequests]

/-- The invariant: what is cached about a page is what the plain map of the active address space
says, unless a request has set flags on the page since. -/
structure Sound (Keeps : List PhysicalFrame → World τ → Prop) (p : FourLevel) (s : CachedRun τ) :
    Prop where
  spaces : s.spaces.Sound Keeps p
  permissive : s.spaces.memory.Permissive s.spaces.roots
  active : ∀ r ∈ s.cache.active, r ∈ s.spaces.roots
  stamped : ∀ k ∈ s.cache.walks, k.stamp ≤ s.spaces.log.length
  current : ∀ k ∈ s.cache.walks, ∃ r ∈ s.cache.active,
    (∀ c ∈ s.since k, c.root = r → c.request.flagsFor? k.page = none) →
      (pageMapOf s.spaces.log r k.page).grant? = some k.grant

omit [FrameSource τ] in
theorem Sound.start (hk : Keeps used w) : Sound Keeps p ⟨⟨w, [], []⟩, {}⟩ :=
  ⟨.start hk, fun _ _ _ hfinds => absurd hfinds Memory.not_finds_nil,
    fun _ hr => absurd hr (Option.not_mem_none _), fun _ hk => absurd hk List.not_mem_nil,
    fun _ hk => absurd hk List.not_mem_nil⟩

theorem Sound.newRoot (hs : FrameSource.Lawful τ Keeps)
    (htake : (FrameSource.take : Action (World τ) PagingError (Option PhysicalFrame)).Silent)
    (h : Sound Keeps p s) : Sound Keeps p (s.perform p (.request .newRoot)) := by
  rw [perform_newRoot htake]
  refine ⟨h.spaces.newRoot hs, h.spaces.permissive hs h.permissive (q := .newRoot) trivial, ?_,
    h.stamped, h.current⟩
  exact fun r hr => List.mem_append_right _ (h.active r hr)

theorem Sound.change (hs : FrameSource.Lawful τ Keeps)
    (htake : (FrameSource.take : Action (World τ) PagingError (Option PhysicalFrame)).Silent)
    (h : Sound Keeps p s) {root : RootTable} (hroot : root.frame ∈ s.spaces.roots)
    (q : PageRequest) : Sound Keeps p (s.perform p (.request (.change root q))) := by
  have hspaces := h.spaces.change hs hroot q
  have hpermissive := h.spaces.permissive hs h.permissive (q := .change root q) hroot
  rw [perform_change htake]
  cases hdone : ((q.run p root).run s.spaces.world).1.done? with
  | none =>
    have hlog : (s.spaces.perform p (.change root q)).log = s.spaces.log := by
      rw [SpaceRun.perform, hdone]
      rfl
    refine ⟨hspaces, hpermissive, h.active, ?_, ?_⟩
    · rw [hlog]
      exact h.stamped
    · simp only [since, hlog]
      exact h.current
  | some u =>
    have hlog : (s.spaces.perform p (.change root q)).log = ⟨root.frame, q⟩ :: s.spaces.log := by
      rw [SpaceRun.perform, hdone]
      rfl
    rw [Option.isSome_some, if_pos rfl]
    refine ⟨hspaces, hpermissive, ?_, ?_, ?_⟩
    · rw [WalkCache.active_invalidations]
      exact h.active
    · intro k hk
      rw [hlog, List.length_cons]
      exact Nat.le_succ_of_le (h.stamped k (WalkCache.mem_walks_invalidations.mp hk).1)
    · intro k hk
      obtain ⟨hold, hkept⟩ := WalkCache.mem_walks_invalidations.mp hk
      obtain ⟨r, hr, hcurrent⟩ := h.current k hold
      refine ⟨r, by rwa [WalkCache.active_invalidations], fun hquiet => ?_⟩
      simp only [since, hlog, List.length_cons, Nat.succ_sub (h.stamped k hold),
        List.take_succ_cons, List.forall_mem_cons] at hquiet
      obtain ⟨hfirst, hrest⟩ := hquiet
      rw [hlog, pageMapOf]
      split
      · rename_i hon
        rw [PageRequest.apply_eq (hfirst hon) hkept]
        exact hcurrent hrest
      · exact hcurrent hrest

theorem Sound.activate (hs : FrameSource.Lawful τ Keeps) (h : Sound Keeps p s) {root : RootTable}
    (hroot : root.frame ∈ s.spaces.roots) : Sound Keeps p (s.perform p (.activate root)) := by
  rw [CachedRun.perform]
  generalize hrun : ((p.activate root : Action (World τ) Empty Unit).run s.spaces.world).2 = w'
  rcases activate_cases hrun with rfl | ⟨hpart, hmemory, v, hv, hpush⟩
  · rw [World.requestsFrom, Array.size, List.drop_length]
    exact h
  · have hone : w'.requestsFrom s.spaces.world.requests.size = [.activate v] := by
      rw [World.requestsFrom, hpush, Array.toList_push]
      exact List.drop_left
    have hforget : s.cache.answerAll [.activate v] = { active := some root.frame } := by
      rw [← hv]
      rfl
    rw [hone, hforget]
    refine ⟨h.spaces.of_same hs hpart hmemory, ?_, fun r hr => ?_,
      fun _ hk => absurd hk List.not_mem_nil, fun _ hk => absurd hk List.not_mem_nil⟩
    · rw [SpaceRun.memory, hmemory]
      exact h.permissive
    · obtain rfl := Option.mem_some.mp hr
      exact hroot

theorem Sound.walk (h : Sound Keeps p s) (a : VirtualAddress) :
    Sound Keeps p (s.perform p (.walk a)) := by
  cases hactive : s.cache.active with
  | none => simpa only [CachedRun.perform, hactive] using h
  | some r =>
    cases hgrant : s.spaces.memory.grant? r a with
    | none => simpa only [CachedRun.perform, hactive, hgrant] using h
    | some g =>
      have hr : r ∈ s.cache.active := hactive
      have hperform : s.perform p (.walk a) = ⟨s.spaces, { s.cache with
          walks := ⟨a.page, g, s.spaces.log.length⟩ :: s.cache.walks }⟩ := by
        simp only [CachedRun.perform, hactive, hgrant]
      rw [hperform]
      refine ⟨h.spaces, h.permissive, h.active, ?_, ?_⟩
      · exact List.forall_mem_cons.mpr ⟨Nat.le_refl _, h.stamped⟩
      · refine List.forall_mem_cons.mpr ⟨⟨r, hr, fun _ => ?_⟩, h.current⟩
        rw [← hgrant]
        exact (h.spaces.grant?_eq h.permissive (h.active r hr) a).symm

/-- Every allowed step keeps the invariant. -/
theorem Sound.perform (hs : FrameSource.Lawful τ Keeps)
    (htake : (FrameSource.take : Action (World τ) PagingError (Option PhysicalFrame)).Silent)
    (h : Sound Keeps p s) {q : CpuStep} (hq : s.Allowed q) : Sound Keeps p (s.perform p q) := by
  cases q with
  | request q =>
    cases q with
    | newRoot => exact h.newRoot hs htake
    | change root q => exact h.change hs htake hq q
  | activate root => exact h.activate hs hq
  | walk a => exact h.walk a

theorem Reachable.sound (hr : Reachable p w s) (hs : FrameSource.Lawful τ Keeps)
    (htake : (FrameSource.take : Action (World τ) PagingError (Option PhysicalFrame)).Silent)
    (hk : Keeps used w) : Sound Keeps p s := by
  induction hr with
  | start => exact .start hk
  | step q _ hq ih => exact ih.perform hs htake hq

end CachedRun

namespace FourLevel

open Memory

variable {τ : Type} [FrameSource τ] {p : FourLevel} {roots used : List PhysicalFrame}
  {root : RootTable} {w : World τ}

/-- The mapping of a mapped page can always be taken away. -/
theorem unmap_done (hf : Forest p w.machine.memory roots used) (hroot : root.frame ∈ roots)
    {a : VirtualAddress} {target : PhysicalAddress}
    (h : p.translate w.machine.memory root a = .ok (some target)) :
    ((p.unmap root a).run w).1 = .done () := by
  rw [translate, leafTable?_eq hf hroot] at h
  cases ht : w.machine.memory.tableAt root.frame (positions a) with
  | none =>
    rw [ht] at h
    cases h
  | some t =>
    rw [unmap, Action.run_bind_done (run_leafTable_of_tableAt hf hroot ht)]
    rfl

end FourLevel

/-- What a processor has cached of the walks in the active address space, after any run of requests,
activations and walks. Only `unmap` asks for an invalidation, once it has gone through, which it
always does on a mapped page; afterwards nothing is cached about the page. `map` and `setFlags` ask
for none, so a cached walk is what a walk would give now only as long as neither has gone through on
the page since. -/
theorem cached_walks_current {τ : Type} [FrameSource τ]
    {Keeps : List PhysicalFrame → World τ → Prop} (hs : FrameSource.Lawful τ Keeps)
    (htake : (FrameSource.take : Action (World τ) PagingError (Option PhysicalFrame)).Silent)
    {p : FourLevel} {w : World τ} {used : List PhysicalFrame} (hk : Keeps used w) {s : CachedRun τ}
    (hr : CachedRun.Reachable p w s) :
    (∀ k ∈ s.cache.walks, ∃ r ∈ s.cache.active,
      (∀ c ∈ s.since k, c.root = r → c.request.flagsFor? k.page = none) →
        ∀ a : VirtualAddress, a.page = k.page → s.spaces.memory.grant? r a = some k.grant) ∧
    (∀ (root : RootTable) (q : PageRequest),
      ((q.run p root).run s.spaces.world).2.requests.toList = s.spaces.world.requests.toList ++
        if ((q.run p root).run s.spaces.world).1.done?.isSome then q.invalidations else []) ∧
    ∀ root : RootTable, root.frame ∈ s.spaces.roots → ∀ (a : VirtualAddress) (target),
      p.translate s.spaces.memory root a = .ok (some target) →
        ((p.unmap root a).run s.spaces.world).1 = .done () ∧
        ∀ k ∈ (s.perform p (.request (.change root (.unmap a)))).cache.walks, k.page ≠ a.page := by
  have h := hr.sound hs htake hk
  refine ⟨fun k hmem => ?_, fun root q => FourLevel.requests_run htake p root q _, ?_⟩
  · obtain ⟨r, hactive, hcurrent⟩ := h.current k hmem
    refine ⟨r, hactive, fun hquiet a ha => ?_⟩
    rw [h.spaces.grant?_eq h.permissive (h.active r hactive), ha]
    exact hcurrent hquiet
  · intro root hroot a target htranslate
    obtain ⟨used', -, hf⟩ := h.spaces.tables
    have hdone := FourLevel.unmap_done hf hroot htranslate
    refine ⟨hdone, fun k hmem => ?_⟩
    have hsome : ((PageRequest.run p root (.unmap a)).run s.spaces.world).1.done?.isSome := by
      rw [PageRequest.run, hdone]
      rfl
    rw [CachedRun.perform_change htake, if_pos hsome] at hmem
    exact (WalkCache.mem_walks_invalidations.mp hmem).2 a (List.mem_singleton_self _)

namespace TwoRegions

/-- A processor has walked to a page that may be written to. -/
def walked : CachedRun FrameAllocator :=
  (((((⟨⟨⟨machine, allocator⟩, [], []⟩, {}⟩ : CachedRun FrameAllocator).perform paging
    (.request .newRoot)).perform paging
      (.request (.change root (.map ⟨0x1D000⟩ ⟨0x40202000⟩ ⟨3⟩)))).perform paging
        (.activate root)).perform paging (.walk ⟨0x40202008⟩))

/-- Another page is mapped. -/
def joined : CachedRun FrameAllocator :=
  walked.perform paging (.request (.change root (.map ⟨0x1E000⟩ ⟨0x40203000⟩ ⟨1⟩)))

theorem joined_reachable : CachedRun.Reachable paging ⟨machine, allocator⟩ joined := by
  have hroot : root.frame ∈ [root.frame] := List.mem_singleton_self _
  have empty : CachedRun.Reachable paging ⟨machine, allocator⟩ _ :=
    .step (.request .newRoot) .start trivial
  have mapped := empty.step (.request (.change root (.map ⟨0x1D000⟩ ⟨0x40202000⟩ ⟨3⟩))) hroot
  have walked := (mapped.step (.activate root) hroot).step (.walk ⟨0x40202008⟩) trivial
  exact walked.step (.request (.change root (.map ⟨0x1E000⟩ ⟨0x40203000⟩ ⟨1⟩))) hroot

/-- What the processor has cached. -/
def held : CachedWalk :=
  ⟨VirtualAddress.page ⟨0x40202008⟩, (.ofIndex 0x1D, ⟨true, true, false, false⟩), 1⟩

theorem joined_cache :
    joined.cache.active = some root.frame ∧ joined.cache.walks = [held] ∧
      ∀ c ∈ joined.since held, c.root = root.frame → c.request.flagsFor? held.page = none := by
  decide +kernel

end TwoRegions

/-- Mapping the next page leaves the cached walk as good as a new one, and taking the mapping away
leaves no cached walk to the page. -/
theorem cached_walks_current_of_two_regions :
    TwoRegions.joined.cache.walks = [TwoRegions.held] ∧
      TwoRegions.joined.spaces.memory.grant? TwoRegions.root.frame ⟨0x40202ABC⟩ =
        some TwoRegions.held.grant ∧
      ∀ k ∈ (TwoRegions.joined.perform TwoRegions.paging
          (.request (.change TwoRegions.root (.unmap ⟨0x40202000⟩)))).cache.walks,
        k.page ≠ VirtualAddress.page ⟨0x40202000⟩ := by
  obtain ⟨hactive, hwalks, hquiet⟩ := TwoRegions.joined_cache
  obtain ⟨hcurrent, -, hunmap⟩ := cached_walks_current FrameAllocator.lawful
    FrameAllocator.silent_take (FrameAllocator.lends_init TwoRegions.init_eq)
    TwoRegions.joined_reachable
  have hpage : VirtualAddress.page ⟨0x40202ABC⟩ = TwoRegions.held.page := by decide +kernel
  have hroot : TwoRegions.root.frame ∈ TwoRegions.joined.spaces.roots := by decide +kernel
  have htranslate : TwoRegions.paging.translate TwoRegions.joined.spaces.memory TwoRegions.root
      ⟨0x40202000⟩ = .ok (some ⟨0x1D000⟩) := by
    decide +kernel
  refine ⟨hwalks, ?_, (hunmap _ hroot _ _ htranslate).2⟩
  obtain ⟨r, hr, hgrant⟩ := hcurrent TwoRegions.held (hwalks ▸ List.mem_singleton_self _)
  obtain rfl := Option.some.inj (hactive.symm.trans hr)
  exact hgrant hquiet _ hpage

namespace TwoRegions

/-- The page that was walked to may no longer be written to. -/
def restricted : CachedRun FrameAllocator :=
  walked.perform paging (.request (.change root (.setFlags ⟨0x40202000⟩ ⟨1⟩)))

/-- The page that was walked to is in another frame. -/
def replaced : CachedRun FrameAllocator :=
  walked.perform paging (.request (.change root (.map ⟨0x1E000⟩ ⟨0x40202000⟩ ⟨3⟩)))

end TwoRegions

/-- A processor goes on writing to a page that it may only read, and to a frame that the page has
left. -/
theorem stale_walks_survive :
    TwoRegions.restricted.cache.walks.map CachedWalk.grant =
        [(.ofIndex 0x1D, ⟨true, true, false, false⟩)] ∧
      TwoRegions.restricted.spaces.memory.grant? TwoRegions.root.frame ⟨0x40202000⟩ =
        some (.ofIndex 0x1D, ⟨true, false, false, false⟩) ∧
      TwoRegions.replaced.cache.walks.map CachedWalk.grant =
        [(.ofIndex 0x1D, ⟨true, true, false, false⟩)] ∧
      TwoRegions.replaced.spaces.memory.grant? TwoRegions.root.frame ⟨0x40202000⟩ =
        some (.ofIndex 0x1E, ⟨true, true, false, false⟩) := by
  decide +kernel

end MemoryManager
