import MemoryManager.Proofs.Paging.Changes

namespace MemoryManager

/-- What a processor may do with a page. -/
@[ext] structure Rights where
  present : Bool
  writable : Bool
  user : Bool
  executable : Bool
  deriving DecidableEq

namespace Rights

/-- The rights that a request asks for. -/
def ofFlags (flags : PageFlags) : Rights where
  present := flags.contains .present
  writable := flags.contains .writable
  user := flags.contains .user
  executable := flags.contains .executable

/-- The rights that a walk over the entries gives: a right must be granted at every level, and one
entry is enough to deny execution. -/
def ofEntries (es : List PageEntry) : Rights where
  present := es.all PageEntry.present
  writable := es.all PageEntry.writable
  user := es.all PageEntry.user
  executable := es.all fun e => !e.noExecute

end Rights

/-- An entry that denies nothing and names a table or a page of 4 KiB. -/
structure PageEntry.Open (e : PageEntry) : Prop where
  writable : e.writable = true
  user : e.user = true
  largePage : e.largePage = false
  noExecute : e.noExecute = false

/-- Present entries that deny nothing leave the rights to the rest of a walk. -/
theorem Rights.ofEntries_append {above : List PageEntry}
    (h : ∀ e ∈ above, e.present = true ∧ e.Open) (es : List PageEntry) :
    ofEntries (above ++ es) = ofEntries es := by
  have hpresent : above.all PageEntry.present = true :=
    List.all_eq_true.mpr fun e he => (h e he).1
  have hwritable : above.all PageEntry.writable = true :=
    List.all_eq_true.mpr fun e he => (h e he).2.writable
  have huser : above.all PageEntry.user = true :=
    List.all_eq_true.mpr fun e he => (h e he).2.user
  have hexecute : (above.all fun e => !e.noExecute) = true :=
    List.all_eq_true.mpr fun e he => by rw [(h e he).2.noExecute, Bool.not_false]
  simp only [ofEntries, List.all_append, hpresent, hwritable, huser, hexecute, Bool.true_and]

/-- A present leaf entry grants what the plain map says. -/
theorem PageEntry.Shows.rights_eq {e : PageEntry} {q : Page} (h : e.Shows q)
    (hpresent : e.present = true) : Rights.ofEntries [e] = Rights.ofFlags q.flags := by
  obtain ⟨hwritable, huser, hexecute, -⟩ := h.rights hpresent
  simp only [Rights.ofEntries, Rights.ofFlags, List.all_cons, List.all_nil, Bool.and_true,
    h.present, hwritable, huser, hexecute, Bool.not_not]

theorem PageEntry.open_of_tableLink {f : PhysicalFrame} {e : PageEntry}
    (h : PageEntry.tableLink f = .ok e) : e.Open := by
  obtain ⟨e', he', -, -, hwritable, huser, hlarge, hexecute⟩ := tableLink_ok (lt_of_tableLink h)
  rw [h] at he'
  cases he'
  exact ⟨hwritable, huser, hlarge, hexecute⟩

namespace Memory

variable {m : Memory} {t u : PhysicalFrame} {is : List TableIndex}

/-- The entries that a processor reads on its way over the positions. -/
def walkEntries (m : Memory) (t : PhysicalFrame) : List TableIndex → List PageEntry
  | [] => []
  | i :: is => m.entry t i :: walkEntries m (m.entry t i).frame is

/-- The entries that a processor reads on its way to an address, from the root table on. -/
def walk (m : Memory) (root : PhysicalFrame) (a : VirtualAddress) : List PageEntry :=
  m.walkEntries root (FourLevel.positions a ++ [FourLevel.leafIndex a])

theorem walkEntries_concat (h : m.tableAt t is = some u) (i : TableIndex) :
    m.walkEntries t (is ++ [i]) = m.walkEntries t is ++ [m.entry u i] := by
  induction is generalizing t with
  | nil =>
    cases h
    rfl
  | cons j is ih =>
    rw [tableAt_cons, child?] at h
    split at h
    · rw [List.cons_append, walkEntries, ih h, walkEntries, List.cons_append]
    · cases h

/-- A walk leads to a table if all entries on it are present. -/
theorem all_present_walkEntries (m : Memory) (t : PhysicalFrame) (is : List TableIndex) :
    (m.walkEntries t is).all PageEntry.present = (m.tableAt t is).isSome := by
  induction is generalizing t with
  | nil => rfl
  | cons i is ih =>
    rw [walkEntries, List.all_cons, ih, tableAt_cons, child?]
    cases (m.entry t i).present <;> rfl

/-- Every entry that leads to a table of the address spaces is open. -/
def Permissive (m : Memory) (roots : List PhysicalFrame) : Prop :=
  ∀ r is t, m.Finds roots r is t → is.length < 3 → ∀ i, (m.entry t i).present = true →
    (m.entry t i).Open

/-- The entries above the last level of a walk are open. -/
theorem Permissive.walkEntries {roots : List PhysicalFrame} (h : m.Permissive roots)
    (hfinds : m.Finds roots t is u) : ∀ e ∈ m.walkEntries t is, e.present = true ∧ e.Open := by
  induction is using List.reverseRecOn generalizing u with
  | nil => exact fun e he => absurd he List.not_mem_nil
  | append_singleton is i ih =>
    obtain ⟨parent, hparent, ⟨_, hlen, hfinds'⟩, hpresent, -⟩ := hfinds.links
    have habove := hfinds.length
    rw [List.length_append, List.length_singleton] at habove
    rw [walkEntries_concat hparent.table]
    intro e he
    rcases List.mem_append.mp he with he | he
    · exact ih hparent e he
    · obtain rfl := List.mem_singleton.mp he
      exact ⟨hpresent, h _ _ _ hparent (by omega) i hpresent⟩

end Memory

namespace FourLevel

open Memory

variable {τ : Type} [FrameSource τ] {Keeps : List PhysicalFrame → World τ → Prop} {p : FourLevel}
  {roots used : List PhysicalFrame} {r t f : PhysicalFrame} {is : List TableIndex} {i : TableIndex}
  {root : RootTable} {m n : Memory} {w w' : World τ}

theorem Forest.permissive_congr (hf : Forest p m roots used) (h : m.Permissive roots)
    (hn : ∀ u ∈ used, ∀ j, n.entry u j = m.entry u j) : n.Permissive roots := by
  intro r is t hfinds hlen i hpresent
  have hold := (hf.finds_congr hn).mp hfinds
  rw [hn t (hf.used hold)] at hpresent ⊢
  exact h _ _ _ hold hlen i hpresent

theorem Forest.permissive_link (hf : Forest p m roots used) (h : m.Permissive roots)
    (hnew : NewTable m n roots used r is t i f) (hopen : (n.entry t i).Open) :
    n.Permissive roots := by
  intro r' js u hfinds hlen j hpresent
  rcases (hf.finds_link hnew).mp hfinds with hold | ⟨-, -, rfl⟩
  · by_cases hsame : u = t ∧ j = i
    · obtain ⟨rfl, rfl⟩ := hsame
      exact hopen
    · rw [hnew.others u (hf.used hold) j hsame] at hpresent ⊢
      exact h _ _ _ hold hlen j hpresent
  · rw [hnew.zero] at hpresent
    cases hpresent

theorem Forest.permissive_plant (hf : Forest p m roots used) (h : m.Permissive roots)
    (hnew : NewRoot m n used f) : n.Permissive (f :: roots) := by
  intro r is t hfinds hlen i hpresent
  rcases (hf.finds_plant hnew).mp hfinds with hold | ⟨-, -, rfl⟩
  · rw [hnew.others t (hf.used hold)] at hpresent ⊢
    exact h _ _ _ hold hlen i hpresent
  · rw [hnew.zero] at hpresent
    cases hpresent

theorem Forest.permissive_setLeaf (hf : Forest p m roots used) (h : m.Permissive roots)
    (ht : m.Finds roots r is t) (hleaf : is.length = 3) (e : PageEntry) :
    (m.setEntry t i e).Permissive roots := by
  intro r' js u hfinds hlen j hpresent
  have hold := (hf.finds_setLeaf ht hleaf).mp hfinds
  have hsame : (m.setEntry t i e).entry u j = m.entry u j := by
    rw [entry_setEntry, if_neg]
    intro heq
    obtain ⟨rfl, -⟩ := heq
    obtain ⟨-, rfl⟩ := hf.unique hold ht
    omega
  rw [hsame] at hpresent ⊢
  exact h _ _ _ hold hlen j hpresent

/-- A step that gets to a table although the entry was not present has written a link. -/
theorem open_of_descend {a : VirtualAddress} {step : TableIndex × Level}
    (hmissing : (w.machine.memory.entry t step.1).present = false)
    (hdone : (p.descend a t step).run w = (.done f, w')) :
    (w'.machine.memory.entry t step.1).Open := by
  obtain ⟨w₁, link, -, hlink, hmemory⟩ := linked_of_descend hmissing hdone
  rw [hmemory, entry_setEntry, if_pos ⟨rfl, rfl⟩]
  exact PageEntry.open_of_tableLink hlink

theorem permissive_descend (hs : FrameSource.Lawful τ Keeps) (hk : Keeps used w)
    (hf : Forest p w.machine.memory roots used) (h : w.machine.memory.Permissive roots)
    (ht : w.machine.memory.Finds roots r is t) (habove : is.length < 3) (a : VirtualAddress)
    (step : TableIndex × Level) :
    ((p.descend a t step).run w).2.machine.memory.Permissive roots := by
  have hstep := descend_cases hs hk hf ht habove a step
  rcases hone : (p.descend a t step).run w with ⟨o, w₁⟩
  rw [hone] at hstep
  dsimp only at hstep
  cases hstep with
  | found => exact h
  | refused _ _ hsame => exact hf.permissive_congr h hsame
  | stopped _ _ hsame => exact hf.permissive_congr h hsame
  | linked _ hnew _ => exact hf.permissive_link h hnew (open_of_descend hnew.missing hone)

theorem permissive_descendAll (hs : FrameSource.Lawful τ Keeps) (a : VirtualAddress)
    (steps : List (TableIndex × Level)) (hk : Keeps used w)
    (hf : Forest p w.machine.memory roots used) (h : w.machine.memory.Permissive roots)
    (ht : w.machine.memory.Finds roots r is t) (hlen : is.length + steps.length ≤ 3) :
    ((steps.foldlM (p.descend a) t).run w).2.machine.memory.Permissive roots := by
  induction steps generalizing used is t w with
  | nil => exact h
  | cons step steps ih =>
    rw [List.length_cons] at hlen
    obtain ⟨used₁, h₁, hfinds⟩ := descend_tends hs hk hf ht (by omega) a step
    have hone := permissive_descend hs hk hf h ht (by omega) a step
    rw [List.foldlM_cons, Action.run_bind]
    rcases hrun : (p.descend a t step).run w with ⟨o, w₁⟩
    rw [hrun] at h₁ hfinds hone
    cases o with
    | refused e => exact hone
    | stopped e => exact hone
    | done next =>
      refine ih h₁.keeps h₁.forest hone (hfinds next rfl) ?_
      rw [List.length_append, List.length_singleton]
      omega

theorem permissive_request (hs : FrameSource.Lawful τ Keeps) (hk : Keeps used w)
    (hf : Forest p w.machine.memory roots used) (h : w.machine.memory.Permissive roots)
    (hroot : root.frame ∈ roots) (q : PageRequest) :
    ((q.run p root).run w).2.machine.memory.Permissive roots := by
  have hwalk := permissive_descendAll hs q.address (path q.address) hk hf h (finds_root hroot)
    (Nat.le_refl 3)
  rw [← run_leafTable hf hroot] at hwalk
  rcases run_cases p root q w with hsame | ⟨t, w₁, e, hdone, -, hmemory⟩
  · rw [hsame]
    exact hwalk
  · obtain ⟨_, ⟨-, hf', -⟩, htable⟩ := leafTable_spec hs hk hf hroot q.address hdone
    rw [hdone] at hwalk
    rw [hmemory]
    exact hf'.permissive_setLeaf hwalk (htable t rfl) rfl e

end FourLevel

/-- The flags that a request sets on a page, if it sets any. -/
def PageRequest.flagsFor? (page : Fin (2 ^ 36)) : PageRequest → Option PageFlags
  | map _ a flags => if a.page = page then some flags else none
  | unmap _ => none
  | setFlags a flags => if a.page = page then some flags else none

/-- The flags that the last recorded request to set any on a page set. -/
def lastFlags? (log : List Change) (r : PhysicalFrame) (page : Fin (2 ^ 36)) : Option PageFlags :=
  log.findSome? fun c => if c.root = r then c.request.flagsFor? page else none

/-- A request sets the flags of a page, or takes its presence away, or leaves the page alone. -/
theorem PageRequest.flags_apply (q : PageRequest) (pm : PageMap) (page : Fin (2 ^ 36)) :
    q.flagsFor? page = some (q.apply pm page).flags ∨
    (q.apply pm page).flags.contains .present = false ∨
    (q.flagsFor? page = none ∧ q.apply pm page = pm page) := by
  by_cases hpage : q.address.page = page
  · subst hpage
    cases q with
    | map target a flags => simp [flagsFor?, apply, address]
    | unmap a => simp [apply, address, PageFlags.contains_sdiff_present]
    | setFlags a flags => simp [flagsFor?, apply, address]
  · refine .inr (.inr ⟨?_, apply_of_ne hpage⟩)
    cases q with
    | map target a flags => exact if_neg hpage
    | unmap a => rfl
    | setFlags a flags => exact if_neg hpage

/-- Only requests that set flags make a page present. -/
theorem lastFlags?_of_present {log : List Change} {r : PhysicalFrame} {page : Fin (2 ^ 36)}
    (h : (pageMapOf log r page).flags.contains .present = true) :
    lastFlags? log r page = some (pageMapOf log r page).flags := by
  induction log with
  | nil =>
    change PageFlags.empty.contains .present = true at h
    exact absurd h (by decide)
  | cons c log ih =>
    rw [lastFlags?, List.findSome?_cons, ← lastFlags?]
    rw [pageMapOf] at h ⊢
    by_cases hroot : c.root = r
    · rw [if_pos hroot] at h ⊢
      rw [if_pos hroot]
      rcases c.request.flags_apply (pageMapOf log r) page with hset | hclear | ⟨hnone, hsame⟩
      · rw [hset]
      · rw [hclear] at h
        cases h
      · rw [hsame] at h ⊢
        rw [hnone]
        exact ih h
    · rw [if_neg hroot] at h ⊢
      rw [if_neg hroot]
      exact ih h

namespace SpaceRun

open FourLevel Memory

variable {τ : Type} [FrameSource τ] {Keeps : List PhysicalFrame → World τ → Prop} {p : FourLevel}
  {s : SpaceRun τ} {w : World τ} {used : List PhysicalFrame} {r : PhysicalFrame}

theorem Sound.permissive (hs : FrameSource.Lawful τ Keeps) (h : Sound Keeps p s)
    (hopen : s.memory.Permissive s.roots) {q : SpaceRequest} (hq : s.Allowed q) :
    (s.perform p q).memory.Permissive (s.perform p q).roots := by
  obtain ⟨⟨used, hk, hf⟩, -, -⟩ := h
  cases q with
  | newRoot =>
    rcases newRoot_cases hs hk p with ⟨root, hdone, -, hnew, -⟩ | ⟨more, hnone, -, hsame⟩
    · have hroots : (s.perform p .newRoot).roots = root.frame :: s.roots := by
        rw [SpaceRun.perform, hdone]
        rfl
      rw [hroots]
      exact hf.permissive_plant hopen hnew
    · have hroots : (s.perform p .newRoot).roots = s.roots := by
        rw [SpaceRun.perform, hnone]
        rfl
      rw [hroots]
      exact hf.permissive_congr hopen hsame
  | change root q => exact permissive_request hs hk hf hopen hq q

theorem Reachable.permissive (hr : Reachable p w s) (hs : FrameSource.Lawful τ Keeps)
    (hk : Keeps used w) : s.memory.Permissive s.roots := by
  induction hr with
  | start => exact fun _ _ _ hfinds => absurd hfinds not_finds_nil
  | step q hr hq ih => exact (hr.sound hs hk).permissive hs ih hq

omit [FrameSource τ] in
/-- The walk to a mapped page passes only present and open entries on its way to the leaf entry, which
says what the recorded requests mean. -/
theorem Sound.walk (h : Sound Keeps p s) (hopen : s.memory.Permissive s.roots)
    {root : PhysicalFrame} (hroot : root ∈ s.roots) {a : VirtualAddress}
    (hpresent : (pageMapOf s.log root a.page).flags.contains .present = true) :
    ∃ above e, s.memory.walk root a = above ++ [e] ∧ (∀ e ∈ above, e.present = true ∧ e.Open) ∧
      e.Shows (pageMapOf s.log root a.page) := by
  have hshows := h.shows root hroot a
  cases ht : s.memory.tableAt root (positions a) with
  | none =>
    rw [entryAt_of_none ht] at hshows
    rw [← hshows.present] at hpresent
    cases hpresent
  | some t =>
    rw [entryAt_of_some ht] at hshows
    exact ⟨_, _, walkEntries_concat ht _, hopen.walkEntries ⟨hroot, Nat.le_refl 3, ht⟩, hshows⟩

end SpaceRun

/-- The rights on a page are the requested ones. After any run of requests on any number of address
spaces, however each of them ended, and whatever source their tables come from as long as that hands
out frames nobody uses: if a page is mapped, the rights that the four entries on the walk to it give
together are those of the last request that set flags on the page and went through, and no entry on
the walk names a large page. -/
theorem effective_rights {τ : Type} [FrameSource τ] {Keeps : List PhysicalFrame → World τ → Prop}
    (hs : FrameSource.Lawful τ Keeps) {p : FourLevel} {w : World τ} {used : List PhysicalFrame}
    (hk : Keeps used w) {s : SpaceRun τ} (hr : SpaceRun.Reachable p w s) {root : RootTable}
    (hroot : root.frame ∈ s.roots) {a : VirtualAddress} {target : PhysicalAddress}
    (htranslate : p.translate s.memory root a = .ok (some target)) :
    (∃ flags, lastFlags? s.log root.frame a.page = some flags ∧ flags.contains .present = true ∧
      Rights.ofEntries (s.memory.walk root.frame a) = Rights.ofFlags flags) ∧
    ∀ e ∈ s.memory.walk root.frame a, e.largePage = false := by
  have hsound := hr.sound hs hk
  obtain ⟨used', -, hf⟩ := hsound.tables
  have hpresent : (pageMapOf s.log root.frame a.page).flags.contains .present = true := by
    have hplain := FourLevel.translate_of_shows hf hroot (hsound.shows _ hroot) a
    rw [htranslate, PageMap.translate] at hplain
    by_contra habsent
    rw [if_neg habsent] at hplain
    cases hplain
  obtain ⟨above, e, hwalk, habove, hshows⟩ := hsound.walk (hr.permissive hs hk) hroot hpresent
  have hleaf : e.present = true := hshows.present.trans hpresent
  rw [hwalk]
  refine ⟨⟨_, lastFlags?_of_present hpresent, hpresent, ?_⟩, fun e' he' => ?_⟩
  · rw [Rights.ofEntries_append habove, hshows.rights_eq hleaf]
  · rcases List.mem_append.mp he' with he' | he'
    · exact (habove e' he').2.largePage
    · rw [List.mem_singleton.mp he', (hshows.rights hleaf).2.2.2]

namespace TwoRegions

/-- An address space with two mapped pages, one of which gets other rights afterwards. -/
def granted : SpaceRun FrameAllocator :=
  ((((⟨⟨machine, allocator⟩, [], []⟩ : SpaceRun FrameAllocator).perform paging .newRoot).perform paging
    (.change root (.map ⟨0x1D000⟩ ⟨0x40202000⟩ ⟨3⟩))).perform paging
      (.change root (.map ⟨0x1E000⟩ ⟨0x40203000⟩ ⟨1⟩))).perform paging
        (.change root (.setFlags ⟨0x40202008⟩ ⟨13⟩))

theorem granted_roots : granted.roots = [root.frame] := rfl

theorem granted_reachable : SpaceRun.Reachable paging ⟨machine, allocator⟩ granted := by
  have hroot : root.frame ∈ [root.frame] := List.mem_singleton_self _
  have empty : SpaceRun.Reachable paging ⟨machine, allocator⟩ _ := .step .newRoot .start trivial
  have first := empty.step (.change root (.map ⟨0x1D000⟩ ⟨0x40202000⟩ ⟨3⟩)) hroot
  have second := first.step (.change root (.map ⟨0x1E000⟩ ⟨0x40203000⟩ ⟨1⟩)) hroot
  exact second.step (.change root (.setFlags ⟨0x40202008⟩ ⟨13⟩)) hroot

/-- The first page's flags are those that it got last. -/
theorem granted_flags :
    lastFlags? granted.log root.frame (VirtualAddress.page ⟨0x40202ABC⟩) = some ⟨13⟩ := by
  decide +kernel

end TwoRegions

/-- The page may be used by everyone and executed, but no longer written to. -/
theorem effective_rights_of_two_regions :
    TwoRegions.paging.translate TwoRegions.granted.memory TwoRegions.root ⟨0x40202ABC⟩ =
        .ok (some ⟨0x1DABC⟩) ∧
      Rights.ofEntries (TwoRegions.granted.memory.walk TwoRegions.root.frame ⟨0x40202ABC⟩) =
        ⟨true, false, true, true⟩ := by
  have htranslate : TwoRegions.paging.translate TwoRegions.granted.memory TwoRegions.root
      ⟨0x40202ABC⟩ = .ok (some ⟨0x1DABC⟩) := by
    decide +kernel
  have hroot : TwoRegions.root.frame ∈ TwoRegions.granted.roots :=
    TwoRegions.granted_roots ▸ List.mem_singleton_self _
  obtain ⟨⟨flags, hflags, -, hrights⟩, -⟩ := effective_rights FrameAllocator.lawful
    (FrameAllocator.lends_init TwoRegions.init_eq) TwoRegions.granted_reachable hroot htranslate
  rw [TwoRegions.granted_flags] at hflags
  cases hflags
  exact ⟨htranslate, hrights⟩

end MemoryManager
