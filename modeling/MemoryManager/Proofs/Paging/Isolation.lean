import MemoryManager.Proofs.Paging.Requests

namespace MemoryManager

/-- A table at the moment it is linked: the memory just before, the entry that is going to lead to
the table, and the table's frame. -/
structure Linking where
  memory : Memory
  parent : PhysicalFrame
  index : TableIndex
  table : PhysicalFrame

/-- Between the memories `m` and `n` the table was created for the missing entry, empty and in a frame
that was not used, and then linked: `n` is the recorded memory with that entry set. -/
structure Linking.Leads (l : Linking) (used : List PhysicalFrame) (m n : Memory) : Prop where
  missing : (m.entry l.parent l.index).present = false
  created : Memory.NewRoot m l.memory used l.table
  stored : ∃ e, PageEntry.tableLink l.table = .ok e ∧
    n = l.memory.setEntry l.parent l.index e

open FourLevel in
theorem Linking.Leads.newTable {l : Linking} {p : FourLevel} {m n : Memory}
    {roots used : List PhysicalFrame} {r : PhysicalFrame} {is : List TableIndex}
    (h : l.Leads used m n) (hf : Forest p m roots used) (ht : m.Finds roots r is l.parent)
    (habove : is.length < 3) : m.NewTable n roots used r is l.parent l.index l.table := by
  obtain ⟨e, hlink, rfl⟩ := h.stored
  rcases tableLink_cases l.table with ⟨e', hlink', hframe, hpresent⟩ | ⟨fault, hfault⟩
  · cases hlink.symm.trans hlink'
    exact newTable_setEntry hf ht habove h.missing h.created hpresent hframe
  · cases hlink.symm.trans hfault

namespace FourLevel

open Memory

section Links

variable {τ : Type} [FrameSource τ]

/-- What a step of a walk links: the table it creates, if the entry is not present. -/
def linkingAt (p : FourLevel) (a : VirtualAddress) (t : PhysicalFrame) (step : TableIndex × Level)
    (w : World τ) : List Linking :=
  if (w.machine.memory.entry t step.1).present then []
  else
    match (p.createTable step.2).run w with
    | (.done f, w₁) =>
      match (link a t step f : Action (World τ) PagingError Unit).run w₁ with
      | (.done (), _) => [⟨w₁.machine.memory, t, step.1, f⟩]
      | _ => []
    | _ => []

/-- What a walk links, step by step. -/
def linkings (p : FourLevel) (a : VirtualAddress) :
    List (TableIndex × Level) → PhysicalFrame → World τ → List Linking
  | [], _, _ => []
  | step :: steps, t, w =>
    p.linkingAt a t step w ++
      match (p.descend a t step).run w with
      | (.done next, w') => p.linkings a steps next w'
      | _ => []

/-- The record explains which tables are there in the memory `n` and were not in `m`: each was
linked, empty, from the entry that leads to it. -/
structure Explains (links : List Linking) (roots : List PhysicalFrame) (m n : Memory) : Prop where
  zero : ∀ l ∈ links, ∀ j, l.memory.entry l.table j = .zero
  linked : ∀ {r js u}, n.Finds roots r js u → m.Finds roots r js u ∨
    ∃ l ∈ links, l.table = u ∧ ∃ ks, js = ks ++ [l.index] ∧ n.Finds roots r ks l.parent

variable {Keeps : List PhysicalFrame → World τ → Prop} {p : FourLevel}
  {roots used : List PhysicalFrame} {r t f : PhysicalFrame} {is : List TableIndex} {i : TableIndex}
  {root : RootTable} {m n k : Memory} {w w' : World τ} {links more : List Linking}

omit [FrameSource τ] in
theorem Explains.refl (roots : List PhysicalFrame) (m : Memory) : Explains [] roots m m :=
  ⟨fun _ hl => absurd hl List.not_mem_nil, .inl⟩

omit [FrameSource τ] in
theorem Explains.trans (h : Explains links roots m k) (h' : Explains more roots k n)
    (hgrows : ∀ {r is t}, k.Finds roots r is t → n.Finds roots r is t) :
    Explains (links ++ more) roots m n := by
  refine ⟨fun l hl => (List.mem_append.mp hl).elim (h.zero l) (h'.zero l), ?_⟩
  intro r js u hu
  rcases h'.linked hu with hu | ⟨l, hl, hrest⟩
  · rcases h.linked hu with hu | ⟨l, hl, htable, ks, hks, hparent⟩
    · exact .inl hu
    · exact .inr ⟨l, List.mem_append_left _ hl, htable, ks, hks, hgrows hparent⟩
  · exact .inr ⟨l, List.mem_append_right _ hl, hrest⟩

/-- A step records nothing and leaves the tables as they are, or it records the table that it links,
and then its memory is the recorded one with the entry set. -/
theorem linkingAt_cases (hs : FrameSource.Lawful τ Keeps) (hk : Keeps used w) (a : VirtualAddress)
    (t : PhysicalFrame) (step : TableIndex × Level) :
    (p.linkingAt a t step w = [] ∧ ∀ u ∈ used, ∀ j,
      ((p.descend a t step).run w).2.machine.memory.entry u j = w.machine.memory.entry u j) ∨
    ∃ l, p.linkingAt a t step w = [l] ∧ l.parent = t ∧ l.index = step.1 ∧
      l.Leads used w.machine.memory ((p.descend a t step).run w).2.machine.memory := by
  cases hpresent : (w.machine.memory.entry t step.1).present with
  | true =>
    rw [run_descend_of_present p a hpresent, state_arrive]
    exact .inl ⟨if_pos hpresent, fun _ _ _ => rfl⟩
  | false =>
    have hcreate := createTable_cases (p := p) hs hk step.2
    rcases hrun : (p.createTable step.2).run w with ⟨o, w₁⟩
    rw [hrun] at hcreate
    rw [run_descend_of_missing p a hpresent, Action.run_bind, linkingAt, hpresent, hrun]
    cases hcreate with
    | refused _ hsame => exact .inl ⟨rfl, hsame⟩
    | stopped _ _ hsame => exact .inl ⟨rfl, hsame⟩
    | @done f _ _ hroot _ =>
      rcases tableLink_cases f with ⟨e, hlink, -⟩ | ⟨e, hlink⟩
      · right
        dsimp only
        rw [run_link hlink, Action.run_bind_done (run_link hlink a step w₁), state_arrive]
        exact ⟨_, rfl, rfl, rfl, hpresent, hroot, e, hlink, rfl⟩
      · left
        dsimp only
        rw [run_link_error hlink, Action.run_bind_stopped (run_link_error hlink a step w₁)]
        exact ⟨rfl, hroot.others⟩

theorem explains_descend (hs : FrameSource.Lawful τ Keeps) (hk : Keeps used w)
    (hf : Forest p w.machine.memory roots used) (ht : w.machine.memory.Finds roots r is t)
    (habove : is.length < 3) (a : VirtualAddress) (step : TableIndex × Level) :
    Explains (p.linkingAt a t step w) roots w.machine.memory
      ((p.descend a t step).run w).2.machine.memory := by
  rcases linkingAt_cases (p := p) hs hk a t step with ⟨hnone, hsame⟩ | ⟨l, hone, rfl, -, hleads⟩
  · rw [hnone]
    exact ⟨fun l hl => absurd hl List.not_mem_nil, fun hu => .inl ((hf.finds_congr hsame).mp hu)⟩
  · have hnew := hleads.newTable hf ht habove
    rw [hone]
    refine ⟨List.forall_mem_singleton.mpr hleads.created.zero, ?_⟩
    intro r' js u hu
    rcases (hf.finds_link hnew).mp hu with hold | ⟨rfl, rfl, rfl⟩
    · exact .inl hold
    · right
      refine ⟨l, List.mem_singleton_self l, rfl, is, rfl, ?_⟩
      exact (hf.finds_link hnew).mpr (.inl ht)

/-- Every table that a walk adds is one that it links. -/
theorem explains_descendAll (hs : FrameSource.Lawful τ Keeps) (a : VirtualAddress)
    (steps : List (TableIndex × Level)) (hk : Keeps used w)
    (hf : Forest p w.machine.memory roots used) (ht : w.machine.memory.Finds roots r is t)
    (hlen : is.length + steps.length ≤ 3) :
    Explains (p.linkings a steps t w) roots w.machine.memory
      ((steps.foldlM (p.descend a) t).run w).2.machine.memory := by
  induction steps generalizing used is t w with
  | nil => exact .refl roots _
  | cons step steps ih =>
    rw [List.length_cons] at hlen
    obtain ⟨used₁, h₁, hfinds⟩ := descend_tends hs hk hf ht (by omega) a step
    have hone := explains_descend hs hk hf ht (by omega) a step
    rw [linkings, List.foldlM_cons, Action.run_bind]
    rcases hrun : (p.descend a t step).run w with ⟨o, w₁⟩
    rw [hrun] at h₁ hfinds hone
    cases o with
    | refused e => exact hone.trans (.refl roots _) id
    | stopped e => exact hone.trans (.refl roots _) id
    | done next =>
      have hshort : (is ++ [step.1]).length + steps.length ≤ 3 := by
        rw [List.length_append, List.length_singleton]
        omega
      have hnext := hfinds next rfl
      obtain ⟨_, h₂, -⟩ := descendAll_spec hs a steps h₁.keeps h₁.forest hnext hshort rfl
      exact hone.trans (ih h₁.keeps h₁.forest hnext hshort) h₂.grows.tables

/-- What a request links. -/
def requestLinkings (p : FourLevel) (root : RootTable) (q : PageRequest) (w : World τ) :
    List Linking :=
  p.linkings q.address (path q.address) root.frame w

theorem explains_request (hs : FrameSource.Lawful τ Keeps) (hk : Keeps used w)
    (hf : Forest p w.machine.memory roots used) (hroot : root.frame ∈ roots) (q : PageRequest) :
    Explains (p.requestLinkings root q w) roots w.machine.memory
      ((q.run p root).run w).2.machine.memory := by
  have hwalk := explains_descendAll hs q.address (path q.address) hk hf (finds_root hroot)
    (Nat.le_refl 3)
  rw [← run_leafTable hf hroot] at hwalk
  rcases run_cases p root q w with hsame | ⟨t, w₁, e, hdone, -, hmemory⟩
  · rw [hsame]
    exact hwalk
  · obtain ⟨_, ⟨-, hf', -⟩, htable⟩ := leafTable_spec hs hk hf hroot q.address hdone
    have ht := htable t rfl
    rw [hdone] at hwalk
    have hset : Explains [] roots w₁.machine.memory
        (w₁.machine.memory.setEntry t (leafIndex q.address) e) :=
      ⟨fun _ hl => absurd hl List.not_mem_nil,
        fun hu => .inl ((hf'.finds_setLeaf ht rfl).mp hu)⟩
    have hall := hwalk.trans hset fun hu => (hf'.finds_setLeaf ht rfl).mpr hu
    rw [List.append_nil, ← hmemory] at hall
    exact hall

end Links

end FourLevel

namespace Memory

variable {m : Memory} {roots : List PhysicalFrame} {r t : PhysicalFrame} {is : List TableIndex}
  {i : TableIndex}

/-- An entry that may lead to a table: its address space, its own table and its position there. -/
structure LinkPosition where
  root : PhysicalFrame
  parent : PhysicalFrame
  index : TableIndex

/-- The entry is one of a table above the last level of its address space, and leads to the table
`t`. -/
structure Links (m : Memory) (roots : List PhysicalFrame) (l : LinkPosition) (t : PhysicalFrame) :
    Prop where
  parent : ∃ is, is.length < 3 ∧ m.Finds roots l.root is l.parent
  present : (m.entry l.parent l.index).present = true
  frame : (m.entry l.parent l.index).frame = t

theorem Finds.links (h : m.Finds roots r (is ++ [i]) t) :
    ∃ parent, m.Finds roots r is parent ∧ m.Links roots ⟨r, parent, i⟩ t := by
  obtain ⟨hroot, hlen, htable⟩ := h
  rw [List.length_append, List.length_singleton] at hlen
  rw [tableAt_concat] at htable
  obtain ⟨parent, hparent, hchild⟩ := Option.bind_eq_some_iff.mp htable
  have hfinds : m.Finds roots r is parent := ⟨hroot, by omega, hparent⟩
  rw [child?] at hchild
  split at hchild
  · rename_i hpresent
    exact ⟨parent, hfinds, ⟨is, by omega, hfinds⟩, hpresent, Option.some.inj hchild⟩
  · cases hchild

/-- A table that is new was linked, empty, from the entry that leads to it. -/
theorem Finds.linked_new {n : Memory} {links : List Linking} {js : List TableIndex}
    (ht : n.Finds roots r js t) (hnew : ¬ m.Finds roots r js t)
    (h : FourLevel.Explains links roots m n) :
    ∃ l ∈ links, l.table = t ∧ n.Links roots ⟨r, l.parent, l.index⟩ t ∧
      ∀ j, l.memory.entry t j = .zero := by
  obtain ⟨l, hl, rfl, ks, rfl, hparent⟩ := (h.linked ht).resolve_left hnew
  obtain ⟨parent, hparent', hlinks⟩ := ht.links
  cases hparent.table.symm.trans hparent'.table
  exact ⟨l, hl, rfl, hlinks, h.zero l hl⟩

theorem Links.finds {l : LinkPosition} (h : m.Links roots l t) :
    ∃ is, m.Finds roots l.root is l.parent ∧ m.Finds roots l.root (is ++ [l.index]) t := by
  obtain ⟨⟨is, habove, hparent⟩, hpresent, hframe⟩ := h
  have hnext := hparent.next habove hpresent
  rw [hframe] at hnext
  exact ⟨is, hparent, hnext⟩

end Memory

namespace FourLevel.Forest

open Memory

variable {p : FourLevel} {m : Memory} {roots used : List PhysicalFrame} {r t : PhysicalFrame}
  {is : List TableIndex} {i : TableIndex}

theorem not_links_root (hf : Forest p m roots used) (hr : r ∈ roots) (l : LinkPosition) :
    ¬ m.Links roots l r := by
  intro hl
  obtain ⟨is, -, hfinds⟩ := hl.finds
  obtain ⟨-, his⟩ := hf.unique hfinds (finds_root hr)
  exact List.append_ne_nil_of_right_ne_nil is (List.cons_ne_nil _ _) his

theorem links_unique (hf : Forest p m roots used) {l l' : LinkPosition} (h : m.Links roots l t)
    (h' : m.Links roots l' t) : l = l' := by
  obtain ⟨is, hparent, hfinds⟩ := h.finds
  obtain ⟨is', hparent', hfinds'⟩ := h'.finds
  obtain ⟨root, parent, index⟩ := l
  obtain ⟨root', parent', index'⟩ := l'
  obtain ⟨rfl, hsame⟩ := hf.unique hfinds hfinds'
  obtain ⟨rfl, hindex⟩ := List.append_inj' hsame rfl
  cases hindex
  cases hparent.table.symm.trans hparent'.table
  rfl

theorem existsUnique_links (hf : Forest p m roots used) (h : m.Finds roots r is t)
    (hne : is ≠ []) : ∃! l, m.Links roots l t := by
  obtain ⟨ks, i, his⟩ := (List.eq_nil_or_concat is).resolve_left hne
  rw [his, List.concat_eq_append] at h
  obtain ⟨parent, -, hlinks⟩ := h.links
  exact ⟨_, hlinks, fun l hl => hf.links_unique hl hlinks⟩

end FourLevel.Forest

/-- A request to create an address space or to change one. -/
inductive SpaceRequest where
  | newRoot
  | change (root : RootTable) (q : PageRequest)

/-- Whether a request is about the address space below `r`. -/
def SpaceRequest.On (r : PhysicalFrame) : SpaceRequest → Prop
  | newRoot => False
  | change root _ => root.frame = r

/-- Address spaces that share the frame allocator: the root tables created so far, and the tables
linked. -/
structure Spaces where
  world : World FrameAllocator
  roots : List PhysicalFrame
  links : List Linking

namespace Spaces

open FrameAllocator FourLevel Memory

def memory (s : Spaces) : Memory :=
  s.world.machine.memory

def perform (p : FourLevel) (s : Spaces) : SpaceRequest → Spaces
  | .newRoot =>
    ⟨(p.newRoot.run s.world).2, (p.newRoot.run s.world).1.done?.toList.map RootTable.frame ++ s.roots,
      s.links⟩
  | .change root q =>
    ⟨((q.run p root).run s.world).2, s.roots, s.links ++ p.requestLinkings root q s.world⟩

@[simp] theorem roots_change (p : FourLevel) (s : Spaces) (root : RootTable) (q : PageRequest) :
    (s.perform p (.change root q)).roots = s.roots := rfl

/-- A request to change an address space is about one that was created. -/
def Allowed (s : Spaces) : SpaceRequest → Prop
  | .newRoot => True
  | .change root _ => root.frame ∈ s.roots

/-- The states that runs of allowed requests lead to, however each of them ends. -/
inductive Reachable (p : FourLevel) (w : World FrameAllocator) : Spaces → Prop
  | start : Reachable p w ⟨w, [], []⟩
  | step {s : Spaces} (q : SpaceRequest) (hs : Reachable p w s) (hq : s.Allowed q) :
      Reachable p w (s.perform p q)

/-- The invariant: the tables are a forest in frames that the allocator has handed out, and the
record explains all of them. -/
structure Sound (p : FourLevel) (a : FrameAllocator) (s : Spaces) : Prop where
  nodup : s.roots.Nodup
  tables : ∃ used, LendsBeside a [] .zeroed used s.world ∧ Forest p s.memory s.roots used
  recorded : Explains s.links s.roots .zeroed s.memory

variable {p : FourLevel} {a : FrameAllocator} {s : Spaces} {w : World FrameAllocator}

theorem Sound.start (h : Lends [] w) (hpart : w.part = a) : Sound p a ⟨w, [], []⟩ := by
  refine ⟨List.nodup_nil, ⟨[], ⟨h, hpart, ?_, ?_, ?_⟩, .nil p _ []⟩, ⟨?_, ?_⟩⟩
  · exact fun i hi => absurd hi List.not_mem_nil
  · exact fun u hu => absurd hu List.not_mem_nil
  · exact fun x hx => absurd hx List.not_mem_nil
  · exact fun l hl => absurd hl List.not_mem_nil
  · exact fun hu => absurd hu not_finds_nil

theorem perform_newRoot (p : FourLevel) (s : Spaces) {o : Outcome PagingError RootTable}
    {w' : World FrameAllocator} (hrun : p.newRoot.run s.world = (o, w')) :
    s.perform p .newRoot = ⟨w', o.done?.toList.map RootTable.frame ++ s.roots, s.links⟩ := by
  rw [Spaces.perform, hrun]

theorem mem_roots_perform (p : FourLevel) (q : SpaceRequest) {r : PhysicalFrame}
    (hr : r ∈ s.roots) : r ∈ (s.perform p q).roots := by
  cases q with
  | newRoot => exact List.mem_append_right _ hr
  | change root q => exact hr

/-- Every allowed request keeps the tables a forest in frames that the allocator has handed out, and
changes no leaf entry of the address spaces that it is not about. -/
theorem perform_spec {others : List Nat} {m : Memory} {used : List PhysicalFrame}
    (hk : LendsBeside a others m used s.world) (hf : Forest p s.memory s.roots used)
    {q : SpaceRequest} (hq : s.Allowed q) :
    (∃ used', LendsBeside a others m used' (s.perform p q).world ∧
      Forest p (s.perform p q).memory (s.perform p q).roots used') ∧
    ∀ r ∈ s.roots, ¬ q.On r → ∀ is, is.length = 3 → ∀ i,
      (s.perform p q).memory.entryAt r is i = s.memory.entryAt r is i := by
  have hs := lawful_beside a others m
  cases q with
  | newRoot =>
    rcases hrun : p.newRoot.run s.world with ⟨o, w'⟩
    obtain ⟨-, -, htables, hgrows, -⟩ := newRoot_tends hs hk hf hrun rfl
    rw [perform_newRoot p s hrun]
    exact ⟨htables, fun r hr _ => hgrows.leaves r hr⟩
  | change root q =>
    obtain ⟨used', hk', hf', hspares⟩ := request_spec hs hk hf hq q rfl
    exact ⟨⟨used', hk', hf'⟩, fun r hr hon => hspares.leaves r hr fun heq => hon heq.symm⟩

/-- Every allowed request keeps the invariant. -/
theorem Sound.perform (h : Sound p a s) {q : SpaceRequest} (hq : s.Allowed q) :
    Sound p a (s.perform p q) := by
  obtain ⟨hnodup, ⟨used, hk, hf⟩, hrecorded⟩ := h
  obtain ⟨htables, -⟩ := perform_spec hk hf hq
  have hs := lawful_beside a [] .zeroed
  cases q with
  | newRoot =>
    rcases hrun : p.newRoot.run s.world with ⟨o, w'⟩
    generalize hnew : o.done?.toList.map RootTable.frame = new
    obtain ⟨hone, hfresh, -, hgrows, hold⟩ := newRoot_tends hs hk hf hrun hnew.symm
    rw [perform_newRoot p s hrun, hnew] at htables ⊢
    refine ⟨?_, htables, hrecorded.zero, ?_⟩
    · refine List.nodup_append.mpr ⟨hone, hnodup, ?_⟩
      intro r hr r' hr' heq
      obtain rfl := heq
      exact hfresh r hr (hf.used (finds_root hr'))
    · intro r js u hu
      by_cases hjs : js = []
      · subst hjs
        exact .inl hu.of_nil
      · rcases hrecorded.linked (hold hu hjs) with hz | ⟨l, hl, htable, ks, hks, hparent⟩
        · exact .inl (hz.mono (List.subset_append_right _ _))
        · exact .inr ⟨l, hl, htable, ks, hks,
            (hgrows.tables hparent).mono (List.subset_append_right _ _)⟩
  | change root q =>
    obtain ⟨-, -, -, hspares⟩ := request_spec hs hk hf hq q rfl
    exact ⟨hnodup, htables, hrecorded.trans (explains_request hs hk hf hq q) hspares.tables⟩

theorem Reachable.sound (hs : Reachable p w s) (h : Lends [] w) (hpart : w.part = a) :
    Sound p a s := by
  induction hs with
  | start => exact .start h hpart
  | step q _ hq ih => exact ih.perform hq

theorem Sound.translate_perform (h : Sound p a s) {q : SpaceRequest} (hq : s.Allowed q)
    {other : RootTable} (hother : other.frame ∈ s.roots) (hon : ¬ q.On other.frame)
    (va : VirtualAddress) :
    p.translate (s.perform p q).memory other va = p.translate s.memory other va := by
  obtain ⟨used, hk, hf⟩ := h.tables
  obtain ⟨⟨used', -, hf'⟩, hleaves⟩ := perform_spec hk hf hq
  exact translate_congr hf hf' hother (mem_roots_perform p q hother)
    (hleaves other.frame hother hon) va

/-- A table below a root was empty when the entry that leads to it was written. -/
theorem Sound.linked_empty (h : Sound p a s) {r t : PhysicalFrame} {is : List TableIndex}
    (ht : s.memory.Finds s.roots r is t) (hne : is ≠ []) :
    ∃ l ∈ s.links, l.table = t ∧ s.memory.Links s.roots ⟨r, l.parent, l.index⟩ t ∧
      ∀ j, l.memory.entry t j = .zero := by
  refine ht.linked_new (fun hzero => ?_) h.recorded
  -- in zeroed memory there is nothing below a root
  have htable := hzero.table
  rw [tableAt_zero (fun j => entry_zeroed r j), if_neg hne] at htable
  cases htable

end Spaces

/-- Address spaces that share the frame allocator are isolated, whatever was done with the allocator
before the first of them was created and however the requests on them ended. The roots are distinct,
and no entry above the last level leads to one; every other table is linked from exactly one entry of
exactly one address space, and was empty when it was linked; all tables are marked allocated; and no
request changes a translation of an address space that it is not about. -/
theorem address_spaces_isolated {boot : BootInfo} {a : FrameAllocator} {m₀ m : Machine}
    (hinit : (FrameAllocator.init boot).run m₀ = (.done a, m)) {h : Holding}
    (hh : Holding.Reachable a m h) {p : FourLevel} {s : Spaces}
    (hs : Spaces.Reachable p ⟨h.machine, a⟩ s) :
    s.roots.Nodup ∧ (∀ r ∈ s.roots, ∀ l, ¬ s.memory.Links s.roots l r) ∧
    (∀ r is t, s.memory.Finds s.roots r is t → is ≠ [] →
      (∃! l, s.memory.Links s.roots l t) ∧
      ∃ l ∈ s.links, l.table = t ∧ s.memory.Links s.roots ⟨r, l.parent, l.index⟩ t ∧
        ∀ j, l.memory.entry t j = .zero) ∧
    (∀ r is t, s.memory.Finds s.roots r is t →
      t.index < a.totalFrames ∧ a.isAllocated s.memory t = true) ∧
    ∀ q, s.Allowed q → ∀ other : RootTable, other.frame ∈ s.roots → ¬ q.On other.frame →
      ∀ va, p.translate (s.perform p q).memory other va = p.translate s.memory other va := by
  have hlends : FrameAllocator.Lends [] ⟨h.machine, a⟩ :=
    ⟨(hh.ledger hinit).toSound, fun _ hu => absurd hu List.not_mem_nil⟩
  have hsound := hs.sound hlends rfl
  obtain ⟨used, hk, hf⟩ := hsound.tables
  refine ⟨hsound.nodup, fun r hr => hf.not_links_root hr, ?_, ?_, ?_⟩
  · intro r is t ht hne
    exact ⟨hf.existsUnique_links ht hne, hsound.linked_empty ht hne⟩
  · intro r is t ht
    obtain ⟨hlt, -, hset⟩ := hk.held t (hf.used ht)
    rw [hk.part] at hlt hset
    refine ⟨hlt, ?_⟩
    rw [FrameAllocator.isAllocated, Spaces.memory, hset, Bool.or_true]
  · intro q hq other hother hon va
    exact hsound.translate_perform hq hother hon va

namespace TwoRegions

def secondRoot : RootTable :=
  ⟨.ofIndex 3, ⟨0xFFFF800000003000⟩⟩

/-- Two address spaces. -/
def spaces : Spaces :=
  (Spaces.perform paging ⟨⟨machine, allocator⟩, [], []⟩ .newRoot).perform paging .newRoot

theorem mem_roots : root.frame ∈ spaces.roots ∧ secondRoot.frame ∈ spaces.roots := by
  decide +kernel

end TwoRegions

/-- Two address spaces map one address to different frames, and one of them takes the mapping away
again. -/
theorem address_spaces_isolated_of_two_regions :
    ∃ s, Spaces.Reachable TwoRegions.paging ⟨TwoRegions.machine, TwoRegions.allocator⟩ s ∧
      TwoRegions.paging.translate s.memory TwoRegions.root ⟨0x40202ABC⟩ = .ok (some ⟨0x1DABC⟩) ∧
      TwoRegions.paging.translate (s.perform TwoRegions.paging
          (.change TwoRegions.secondRoot (.unmap ⟨0x40202000⟩))).memory TwoRegions.root
          ⟨0x40202ABC⟩ = .ok (some ⟨0x1DABC⟩) := by
  obtain ⟨hroot, hsecond⟩ := TwoRegions.mem_roots
  have h₁ : Spaces.Reachable TwoRegions.paging ⟨TwoRegions.machine, TwoRegions.allocator⟩
      TwoRegions.spaces :=
    (Spaces.Reachable.start.step .newRoot trivial).step .newRoot trivial
  have h₂ := h₁.step (.change TwoRegions.root (.map ⟨0x1D000⟩ ⟨0x40202000⟩ ⟨3⟩)) hroot
  have h₃ := h₂.step (.change TwoRegions.secondRoot (.map ⟨0x1E000⟩ ⟨0x40202000⟩ ⟨1⟩))
    (by rwa [Spaces.Allowed, Spaces.roots_change])
  have htranslate : TwoRegions.paging.translate ((TwoRegions.spaces.perform TwoRegions.paging
      (.change TwoRegions.root (.map ⟨0x1D000⟩ ⟨0x40202000⟩ ⟨3⟩))).perform TwoRegions.paging
        (.change TwoRegions.secondRoot (.map ⟨0x1E000⟩ ⟨0x40202000⟩ ⟨1⟩))).memory TwoRegions.root
          ⟨0x40202ABC⟩ = .ok (some ⟨0x1DABC⟩) := by
    decide +kernel
  have hother : TwoRegions.secondRoot.frame ≠ TwoRegions.root.frame := by decide
  refine ⟨_, h₃, htranslate, ?_⟩
  rw [← htranslate]
  refine (address_spaces_isolated TwoRegions.init_eq .start h₃).2.2.2.2
    (.change TwoRegions.secondRoot (.unmap ⟨0x40202000⟩)) ?_ TwoRegions.root ?_ hother _
  · rwa [Spaces.Allowed, Spaces.roots_change, Spaces.roots_change]
  · rwa [Spaces.roots_change, Spaces.roots_change]

end MemoryManager
