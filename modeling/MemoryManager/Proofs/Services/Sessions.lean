import MemoryManager.Proofs.Services.Requests
import MemoryManager.Proofs.Sharing.Subsystems

namespace MemoryManager

open MemoryManager.Action FrameAllocator FourLevel Memory

/-- The services of a running kernel, and what their callers have of them: frames, address spaces by
their root tables, and memory of the heap, which lies in frames of its own. -/
structure Session where
  services : Services
  held : List Nat
  roots : List PhysicalFrame
  heapFrames : List Nat
  live : List Allocation

/-- A request to the services that may change more than the reports, or a write of a caller. -/
inductive ServiceRequest where
  | initSpaces
  | initHeap
  | allocFrames (pages : UInt64)
  | freeFrames (r : FrameRange)
  | newRoot
  | destroyRoot (root : RootTable)
  | activate (root : RootTable)
  | change (root : RootTable) (q : PageRequest)
  | mapRange (root : RootTable) (target : PhysicalAddress) (a : VirtualAddress) (size : UInt64)
      (flags : PageFlags)
  | alloc (size : UInt64)
  | free (a : VirtualAddress)
  | allocLayout (l : Layout)
  | allocZeroed (l : Layout)
  | freeLayout (a : VirtualAddress)
  | realloc (a : VirtualAddress) (old new : Layout)
  | write (m : Memory)

namespace Session

abbrev machine (s : Session) : Machine :=
  s.services.machine

abbrev memory (s : Session) : Memory :=
  s.machine.memory

/-- Who uses which frames. -/
def sharing (s : Session) : Sharing :=
  ⟨s.machine, s.held, s.roots, s.services.heap.content.map fun h => ⟨h, s.heapFrames, s.live⟩⟩

/-- What the heap has handed out for a request of `size` bytes, if it has. -/
def handedOut (size : UInt64) : Outcome Empty VirtualAddress → List Allocation
  | .done a =>
    if a = .null then [] else ((KernelHeap.roundedSize? size).map (Allocation.mk a)).toList
  | _ => []

/-- A caller asks the heap for memory. -/
def obtaining (p : FrameAllocator) (s : Session) (size : UInt64) (x : Request VirtualAddress) :
    Session :=
  let r := x.run s.services
  { s with
    services := r.2
    heapFrames := s.heapFrames ++ HeapState.gained p s.memory r.2.machine.memory
    live := s.live ++ handedOut size r.1 }

/-- A caller gives memory back to the heap. -/
def releasing (s : Session) (a : VirtualAddress) (x : Request Unit) : Session :=
  { s with services := (x.run s.services).2, live := s.live.filter fun b => b.address ≠ a }

def perform (boot : BootInfo) (p : FrameAllocator) (s : Session) : ServiceRequest → Session
  | .initSpaces =>
    let t := ((Services.initSpaces boot).run s.services).2
    { s with
      services := t
      roots := t.spaces.content.toList.map (fun v => v.kernelRoot.frame) ++ s.roots }
  | .initHeap =>
    let t := (Services.initHeap.run s.services).2
    { s with services := t, heapFrames := HeapState.gained p s.memory t.machine.memory, live := [] }
  | .allocFrames pages =>
    let r := (Services.allocFrames pages).run s.services
    { s with
      services := r.2
      held := (r.1.done?.elim [] fun r => List.range' r.first.index r.pages.toNat) ++ s.held }
  | .freeFrames r =>
    { s with
      services := ((Services.freeFrames r).run s.services).2
      held := s.held.filter fun i => ¬ (FrameRequest.free r).Gives i }
  | .newRoot =>
    let r := Services.newRoot.run s.services
    { s with services := r.2, roots := r.1.done?.toList.map RootTable.frame ++ s.roots }
  | .destroyRoot root =>
    let r := (Services.destroyRoot root).run s.services
    match r.1 with
    | .done _ =>
      { s with
        services := r.2
        held := s.held.filter fun i =>
          i ∉ (lowerFrames s.memory root.frame).map PhysicalFrame.index
        roots := s.roots.filter fun t => t ≠ root.frame }
    | _ => { s with services := r.2 }
  | .activate root => { s with services := ((Services.activate root).run s.services).2 }
  | .change root q => { s with services := ((q.serve root).run s.services).2 }
  | .mapRange root target a size flags =>
    { s with services := ((Services.mapRange root target a size flags).run s.services).2 }
  | .alloc size => s.obtaining p size (Services.alloc size)
  | .free a => s.releasing a (Services.free a)
  | .allocLayout l => s.obtaining p l.size (Services.allocLayout l)
  | .allocZeroed l =>
    { s.obtaining p l.size (Services.allocLayout l) with
      services := ((Services.allocZeroed l).run s.services).2 }
  | .freeLayout a => s.releasing a (Services.freeLayout a)
  | .realloc a old new =>
    let r := (Services.realloc a old new).run s.services
    let t := { s.obtaining p new.size (Services.allocLayout new) with services := r.2 }
    match r.1 with
    | .done b => if b = .null then t else { t with live := t.live.filter fun c => c.address ≠ a }
    | _ => t
  | .write m => { s with services := { s.services with machine := { s.machine with memory := m } } }

/-- What callers may do: each stage of the start is run once; frames, address spaces and memory are
given back by those who have them, an address space once all that it maps is held; and nobody writes
to anything else. -/
def Allowed (s : Session) : ServiceRequest → Prop
  | .initSpaces => s.services.spaces.content = none
  | .initHeap => s.services.heap.content = none
  | .freeFrames r => ∀ i, (FrameRequest.free r).Gives i → i ∈ s.held
  | .destroyRoot root => root.frame ∈ s.roots ∧ ∀ is f, is.length = 4 →
    s.memory.tableAt root.frame is = some f → f.index ∈ s.held
  | .change root _ => root.frame ∈ s.roots
  | .mapRange root _ _ _ _ => root.frame ∈ s.roots
  | .free a => a = .null ∨ ∃ b ∈ s.live, b.address = a
  | .freeLayout a => a = .null ∨ ∃ b ∈ s.live, b.address = a
  | .realloc a _ _ => ∃ b ∈ s.live, b.address = a
  | .write m => ∀ x, ¬ s.sharing.Writable x → m.byte x = s.memory.byte x
  | _ => True

/-- The states that runs of allowed requests lead to, however each of them ends, once the frame
allocator has been started. -/
inductive Reachable (boot : BootInfo) (p : FrameAllocator) : Session → Prop
  | start {m : Machine} {S : Services}
      (hrun : (Services.initFrames boot).run { machine := m } = (.done .ok, S))
      (hframes : S.frames.content = some p) : Reachable boot p ⟨S, [], [], [], []⟩
  | step {s : Session} (q : ServiceRequest) (hs : Reachable boot p s) (hq : s.Allowed q) :
      Reachable boot p (s.perform boot p q)

/-- The invariant: the frames are shared out, the slots are filled in order, and what the start of the
address spaces mapped could be mapped. -/
structure Sound (boot : BootInfo) (p : FrameAllocator) (s : Session) : Prop where
  frames : s.services.frames = ⟨"PMM", some p⟩
  spacesName : s.services.spaces.name = "VMM"
  heapName : s.services.heap.name = "kernel heap"
  spaces : ∀ v ∈ s.services.spaces.content, v.paging = p.paging ∧ AddressSpaces.Bootable boot
  roots : s.services.spaces.content = none → s.roots = []
  unbounded : p.directMap.last = none
  shared : Sharing.Sound p.fourLevel p s.sharing

variable {boot : BootInfo} {p : FrameAllocator} {s : Session} {S : Services} {h : KernelHeap}
  {v : AddressSpaces}

theorem heap_sharing (s : Session) (hheap : s.services.heap.content = some h) :
    s.sharing.heap = some ⟨h, s.heapFrames, s.live⟩ := by
  rw [sharing, hheap, Option.map_some]

namespace Sound

theorem content_frames (hs : s.Sound boot p) : s.services.frames.content = some p := by
  rw [hs.frames]

theorem heapSound (hs : s.Sound boot p) (hheap : s.services.heap.content = some h) :
    ∃ cs, HeapState.Sound p ⟨⟨s.machine, h⟩, s.heapFrames, s.live⟩ cs :=
  hs.shared.heap _ (s.heap_sharing hheap)

/-- A request that changes the machine, and neither a slot nor the heap. -/
theorem of_machine (hs : s.Sound boot p) {m m₁ : Machine} {held : List Nat}
    {roots : List PhysicalFrame} (hS : S = { s.services with machine := m })
    (hroots : s.services.spaces.content = none → roots = [])
    (h : Sharing.Sound p.fourLevel p { s.sharing with machine := m₁, held := held, roots := roots })
    (hm : m.memory = m₁.memory) :
    Sound boot p { s with services := S, held := held, roots := roots } := by
  subst hS
  exact ⟨hs.frames, hs.spacesName, hs.heapName, hs.spaces, hroots, hs.unbounded, h.of_same_memory hm⟩

/-- A request to the heap. -/
theorem of_heap (hs : s.Sound boot p) {m m₁ : Machine} {frames : List Nat} {live : List Allocation}
    (hS : S = { s.services with machine := m, heap := ⟨s.services.heap.name, some h⟩ })
    (hshared : Sharing.Sound p.fourLevel p ⟨m₁, s.held, s.roots, some ⟨h, frames, live⟩⟩)
    (hm : m.memory = m₁.memory) :
    Sound boot p { s with services := S, heapFrames := frames, live := live } := by
  subst hS
  exact ⟨hs.frames, hs.spacesName, hs.heapName, hs.spaces, hs.roots, hs.unbounded,
    hshared.of_same_memory hm⟩

/-- Without a heap, what one has got and handed out is nothing. -/
theorem of_no_heap (hs : s.Sound boot p) (hnone : s.services.heap.content = none)
    (frames : List Nat) (live : List Allocation) :
    Sound boot p { s with heapFrames := frames, live := live } := by
  have hshared := hs.shared
  rw [sharing, hnone, Option.map_none] at hshared
  refine ⟨hs.frames, hs.spacesName, hs.heapName, hs.spaces, hs.roots, hs.unbounded, ?_⟩
  rw [sharing, hnone, Option.map_none]
  exact hshared

/-- The tables of the address spaces, in frames that the allocator has handed out for them. -/
theorem tables (hs : s.Sound boot p) :
    ∃ used, LendsBeside p (s.sharing.others p) s.memory used ⟨s.machine, p⟩ ∧
      Forest p.fourLevel s.memory s.roots used :=
  hs.shared.tables

theorem exists_spaces (hs : s.Sound boot p) {r : PhysicalFrame} (hr : r ∈ s.roots) :
    ∃ v, s.services.spaces.content = some v ∧ v.paging = p.paging := by
  cases hspaces : s.services.spaces.content with
  | none =>
    rw [hs.roots hspaces] at hr
    exact absurd hr List.not_mem_nil
  | some v => exact ⟨v, rfl, (hs.spaces v hspaces).1⟩

theorem allocFrames (hs : s.Sound boot p) (pages : UInt64) :
    Sound boot p (s.perform boot p (.allocFrames pages)) := by
  obtain ⟨hdone, hmemory, -⟩ : _ ∧ _ :=
    Machine.onRefusal_halt (p.alloc pages) .frames .frames s.machine
  have hrun := Services.run_allocFrames hs.content_frames pages
  have hgrants : (FrameRequest.alloc pages).grants p s.machine =
      ((p.alloc pages).run s.machine).1.done?.elim [] fun r =>
        List.range' r.first.index r.pages.toNat := by
    rw [FrameRequest.grants]
    cases ((p.alloc pages).run s.machine).1 <;> rfl
  have hshared := (hs.shared.perform (q := .frames (.alloc pages)) fun i hi => absurd hi id).1
  rw [Sharing.perform, Holding.filter_not_gives fun _ => id] at hshared
  rw [perform, hrun]
  dsimp only
  rw [show ((p.allocOrHalt pages : Action Machine Empty _).run s.machine).1.done? = _ from hdone,
    ← hgrants]
  exact hs.of_machine rfl hs.roots hshared hmemory

theorem freeFrames (hs : s.Sound boot p) {r : FrameRange}
    (hq : ∀ i, (FrameRequest.free r).Gives i → i ∈ s.held) :
    Sound boot p (s.perform boot p (.freeFrames r)) := by
  have hshared := (hs.shared.perform (q := .frames (.free r)) hq).1
  exact hs.of_machine (Services.run_freeFrames hs.content_frames r) hs.roots hshared rfl

theorem newRoot (hs : s.Sound boot p) : Sound boot p (s.perform boot p .newRoot) := by
  cases hspaces : s.services.spaces.content with
  | none =>
    have hrun : Services.newRoot.run s.services = _ := Services.run_withSpaces_of_none hspaces _
    rw [perform, hrun]
    exact hs
  | some v =>
    have hrun := Services.run_newRoot hs.content_frames hspaces (hs.spaces v hspaces).1
    rw [Services.run_withFrames] at hrun
    obtain ⟨hdone, -, hmemory, -⟩ : _ ∧ _ :=
      AddressSpaces.orHalt_same p.fourLevel.newRoot (World.mk s.machine p)
    have hshared := (hs.shared.perform (q := .space .newRoot) trivial).1
    rw [perform, hrun]
    dsimp only
    rw [hdone]
    exact hs.of_machine rfl (fun hnone => absurd (hspaces.symm.trans hnone)
      (Option.some_ne_none v)) hshared hmemory

theorem activate (hs : s.Sound boot p) (root : RootTable) :
    Sound boot p (s.perform boot p (.activate root)) := by
  cases hspaces : s.services.spaces.content with
  | none =>
    rw [perform, Services.run_activate_of_none hspaces]
    exact hs
  | some v =>
    obtain ⟨m, hstate, hmemory⟩ := Services.run_activate hspaces root
    exact hs.of_machine hstate hs.roots hs.shared hmemory

/-- A request that changes one address space. -/
theorem of_confined (hs : s.Sound boot p) {r : PhysicalFrame}
    {x : Action (World FrameAllocator) PagingError Unit} {y : Request Unit}
    (hx : x.Confined (LendsBeside p (s.sharing.others p) s.memory) p.fourLevel s.roots r)
    (hrun : y.run s.services =
      (Services.withFrames p (AddressSpaces.orHalt x)).run s.services) :
    Sound boot p { s with services := (y.run s.services).2 } := by
  obtain ⟨-, -, hmemory, -⟩ : _ ∧ _ := AddressSpaces.orHalt_same x (World.mk s.machine p)
  obtain ⟨used, hk, hf⟩ := hs.tables
  obtain ⟨used', hk', hf', -⟩ := hx hk hf
  rw [World.eq_of_part hk'.part] at hk'
  exact hs.of_machine (congrArg Prod.snd hrun) hs.roots (hs.shared.of_tables hk' hf') hmemory

theorem change (hs : s.Sound boot p) {root : RootTable} (hroot : root.frame ∈ s.roots)
    (q : PageRequest) : Sound boot p (s.perform boot p (.change root q)) := by
  obtain ⟨v, hspaces, hpaging⟩ := hs.exists_spaces hroot
  refine hs.of_confined (r := root.frame) (fun used w hk hf => ?_)
    (Services.run_serve hs.content_frames hspaces hpaging root q)
  exact request_spec (lawful_beside p _ _) hk hf hroot q rfl

theorem mapRange (hs : s.Sound boot p) {root : RootTable} (hroot : root.frame ∈ s.roots)
    (target : PhysicalAddress) (a : VirtualAddress) (size : UInt64) (flags : PageFlags) :
    Sound boot p (s.perform boot p (.mapRange root target a size flags)) := by
  obtain ⟨v, hspaces, hpaging⟩ := hs.exists_spaces hroot
  exact hs.of_confined
    (AddressSpaces.confined_mapRange (lawful_beside p _ _) rfl hroot target a size flags)
    (Services.run_mapRange hs.content_frames hspaces hpaging root target a size flags)

theorem destroyRoot (hs : s.Sound boot p) {root : RootTable}
    (hq : s.Allowed (.destroyRoot root)) : Sound boot p (s.perform boot p (.destroyRoot root)) := by
  obtain ⟨v, hspaces, hpaging⟩ := hs.exists_spaces hq.1
  by_cases hkernel : root = v.kernelRoot
  · have hrun : (v.destroy root : Action (World FrameAllocator) Empty Unit).run ⟨s.machine, p⟩ =
        (.stopped (.halted .spaces .kernelRoot), ⟨{ s.machine with
          reports := s.machine.reports.push (.halting .spaces .kernelRoot) }, p⟩) := by
      rw [AddressSpaces.destroy, if_pos hkernel]
      rfl
    rw [perform, Services.run_destroyRoot hs.content_frames hspaces hrun]
    exact hs.of_machine rfl hs.roots hs.shared rfl
  · have hplaced := hs.shared.backed.toSound.toPlaced
    obtain ⟨-, m, hrun, -⟩ := p.paging.destroy_ends hplaced hs.unbounded root s.machine
    have hdestroy : (v.destroy root : Action (World FrameAllocator) Empty Unit).run
        ⟨s.machine, p⟩ = (.done (), ⟨m, p⟩) := by
      rw [AddressSpaces.destroy, if_neg hkernel, hpaging, hrun]
    have hshared := (hs.shared.perform (q := .destroy root) hq).1
    have hrun' : (p.fourLevel.destroy root : Action (World FrameAllocator) Empty Unit).run
        ⟨s.sharing.machine, p⟩ = (.done (), ⟨m, p⟩) := hrun
    rw [Sharing.perform, hrun'] at hshared
    rw [perform, Services.run_destroyRoot hs.content_frames hspaces hdestroy]
    exact hs.of_machine rfl (fun hnone => absurd (hspaces.symm.trans hnone)
      (Option.some_ne_none v)) hshared rfl

theorem write (hs : s.Sound boot p) {m : Memory}
    (hq : ∀ x, ¬ s.sharing.Writable x → m.byte x = s.memory.byte x) :
    Sound boot p (s.perform boot p (.write m)) := by
  have hshared := (hs.shared.perform (q := .frames (.elsewhere { s.machine with memory := m })) hq).1
  rw [Sharing.perform_elsewhere] at hshared
  exact hs.of_machine rfl hs.roots hshared rfl

/-- A request for memory is not served and changes nothing, or the heap hands out a block. -/
theorem alloc_cases (hs : s.Sound boot p) (hheap : s.services.heap.content = some h)
    (size : UInt64) :
    (∃ o, (KernelHeap.alloc p size).run ⟨s.machine, h⟩ = (o, ⟨s.machine, h⟩) ∧ o.done? = none) ∨
    ∃ a n w, (KernelHeap.alloc p size).run ⟨s.machine, h⟩ = (.done a, w) ∧
      a ≠ .null ∧ KernelHeap.roundedSize? size = some n ∧
      Sharing.Sound p.fourLevel p ⟨w.machine, s.held, s.roots,
        some ⟨w.part, s.heapFrames ++ HeapState.gained p s.memory w.machine.memory,
          s.live ++ [⟨a, n⟩]⟩⟩ := by
  have hshare := s.heap_sharing hheap
  obtain ⟨cs, hsound⟩ := hs.shared.heap _ hshare
  rcases KernelHeap.alloc_cases hsound.formed hsound.backed size with
    ⟨e, hrun⟩ | hrun | ⟨n, new, l, c, r, w, hround, hrun, hserves, -⟩
  · exact .inl ⟨_, hrun, rfl⟩
  · exact .inl ⟨_, hrun, rfl⟩
  · refine .inr ⟨c.payload, n, w, hrun, HeapState.served_ne_null hserves, hround, ?_⟩
    have hshared := (hs.shared.perform (q := .alloc size) trivial).1
    rw [Sharing.perform, Sharing.onHeap, hshare] at hshared
    dsimp only [HeapState.perform] at hshared
    have hrun' : (KernelHeap.alloc p size).run
        (HeapShare.on ⟨h, s.heapFrames, s.live⟩ s.sharing.machine).world =
          (.done c.payload, w) := hrun
    rw [hrun'] at hshared
    simp only [HeapState.handedOut, hround, Option.map_some, Option.toList_some] at hshared
    exact hshared

theorem handedOut_done {a : VirtualAddress} {size n : UInt64} (ha : a ≠ .null)
    (hround : KernelHeap.roundedSize? size = some n) : handedOut size (.done a) = [⟨a, n⟩] := by
  rw [handedOut, if_neg ha, hround]
  rfl

theorem handedOut_of_null {size : UInt64} {o : Outcome Empty VirtualAddress}
    (ho : ∀ a, o = .done a → a = .null) : handedOut size o = [] := by
  cases o with
  | done a => exact if_pos (ho a rfl)
  | refused e => rfl
  | stopped f => rfl

theorem unserved (hs : s.Sound boot p) {m : Machine} {size : UInt64}
    {o : Outcome Empty VirtualAddress} (hS : S = { s.services with machine := m })
    (hm : m.memory = s.memory) (ho : handedOut size o = []) :
    Sound boot p { s with
      services := S
      heapFrames := s.heapFrames ++ HeapState.gained p s.memory S.machine.memory
      live := s.live ++ handedOut size o } := by
  subst hS
  rw [ho, hm, HeapState.gained_self, List.append_nil, List.append_nil]
  exact hs.of_machine rfl hs.roots hs.shared hm

theorem alloc (hs : s.Sound boot p) (size : UInt64) :
    Sound boot p (s.perform boot p (.alloc size)) := by
  rw [perform, obtaining]
  cases hheap : s.services.heap.content with
  | none =>
    rw [Services.run_alloc_of_none hheap]
    exact hs.unserved rfl rfl rfl
  | some h =>
    obtain ⟨hdone, hpart, hmemory, -⟩ := @World.onRefusal_halt HeapError Empty _ _
      (KernelHeap.alloc p size) .heap .heap ⟨s.machine, h⟩
    rw [Services.run_alloc hs.content_frames hheap, Services.run_withHeap hheap,
      KernelHeap.allocOrHalt]
    generalize Action.run _ (World.mk s.machine h) = r at hdone hpart hmemory ⊢
    obtain ⟨o, w'⟩ := r
    rcases hs.alloc_cases hheap size with ⟨o', hrun, ho⟩ | ⟨a, n, w, hrun, hne, hround, hshared⟩
    · rw [hrun] at hdone hpart hmemory
      refine hs.unserved (m := w'.machine) ?_ hmemory ?_
      · rw [hpart, ← hheap]
      · rw [ho] at hdone
        cases o with
        | done a => cases hdone
        | _ => rfl
    · rw [hrun] at hdone hpart hmemory
      obtain rfl := Outcome.eq_done hdone
      dsimp only
      rw [handedOut_done hne hround, hmemory, hpart]
      exact hs.of_heap rfl hshared hmemory

/-- A request by layout changes nothing and gets nothing but null, or the heap hands out a block. -/
theorem allocLayout_cases (hs : s.Sound boot p) (l : Layout) :
    (∃ o, (Services.allocLayout l).run s.services = (o, s.services) ∧
      ∀ a, o = .done a → a = .null) ∨
    ∃ a n h T, (Services.allocLayout l).run s.services = (.done a, T) ∧ a ≠ .null ∧
      KernelHeap.roundedSize? l.size = some n ∧ T.heap.content = some h ∧
      Sound boot p { s with
        services := T
        heapFrames := s.heapFrames ++ HeapState.gained p s.memory T.machine.memory
        live := s.live ++ [⟨a, n⟩] } := by
  by_cases hnull : granule < l.align ∨ s.services.heap.content = none
  · exact .inl ⟨_, Services.run_allocLayout_null hnull, fun a ha => (Outcome.done.inj ha).symm⟩
  · obtain ⟨halign, hsome⟩ := not_or.mp hnull
    obtain ⟨h, hheap⟩ := Option.ne_none_iff_exists'.mp hsome
    have hput : ({ s.services with machine := s.machine, heap := ⟨s.services.heap.name, some h⟩ } :
        Services) = s.services := by
      rw [← hheap]
    rw [Services.run_allocLayout hs.content_frames hheap halign, Services.run_withHeap hheap]
    rcases hs.alloc_cases hheap l.size with
      ⟨o, hrun, ho⟩ | ⟨a, n, w, hrun, hne, hround, hshared⟩
    · left
      rw [hrun, hput]
      cases o with
      | done a => cases ho
      | refused e => exact ⟨_, rfl, fun a ha => (Outcome.done.inj ha).symm⟩
      | stopped f => exact ⟨_, rfl, fun a ha => by cases ha⟩
    · rw [hrun]
      exact .inr ⟨a, n, w.part, _, rfl, hne, hround, rfl, hs.of_heap rfl hshared rfl⟩

theorem allocLayout (hs : s.Sound boot p) (l : Layout) :
    Sound boot p (s.perform boot p (.allocLayout l)) := by
  rw [perform, obtaining]
  rcases hs.allocLayout_cases l with ⟨o, hrun, ho⟩ | ⟨a, n, h, T, hrun, hne, hround, -, hsound⟩
  · rw [hrun]
    exact hs.unserved rfl rfl (handedOut_of_null ho)
  · rw [hrun, handedOut_done hne hround]
    exact hsound

/-- Whoever has a block of the heap may write to its payload. -/
theorem write_payload (hs : s.Sound boot p) (hheap : s.services.heap.content = some h)
    {a : Allocation} (ha : a ∈ s.live) {m : Memory}
    (hm : ∀ x, ¬ a.Holds h.directMap x → m.byte x = s.memory.byte x) :
    Sound boot p (s.perform boot p (.write m)) := by
  refine hs.write fun x hx => hm x fun hholds => hx (.inr ?_)
  exact ⟨_, s.heap_sharing hheap, a, ha, hholds⟩

theorem allocZeroed (hs : s.Sound boot p) (l : Layout) :
    Sound boot p (s.perform boot p (.allocZeroed l)) := by
  rw [perform, obtaining]
  rcases hs.allocLayout_cases l with ⟨o, hrun, ho⟩ | ⟨a, n, h, T, hrun, hne, hround, hheap, hsound⟩
  · rw [hrun, Services.run_allocZeroed_null hrun ho]
    exact hs.unserved rfl rfl (handedOut_of_null ho)
  · rw [hrun, Services.run_allocZeroed hrun hne hheap, handedOut_done hne hround]
    refine hsound.write_payload hheap (a := ⟨a, n⟩) (by simp) fun x hx => ?_
    obtain ⟨-, -, hle⟩ := KernelHeap.roundedSize?_spec hround
    rw [Memory.byte_fill, if_neg]
    intro hin
    exact hx ⟨hin.1, by dsimp only; omega⟩

/-- What is live can be given back. -/
theorem release (hs : s.Sound boot p) (hheap : s.services.heap.content = some h)
    {a : VirtualAddress} (ha : ∃ b ∈ s.live, b.address = a) :
    ∃ T, (Services.withHeap h (KernelHeap.release a) : Request Unit).run s.services =
        (.done (), T) ∧
      Sound boot p { s with services := T, live := s.live.filter fun b => b.address ≠ a } := by
  obtain ⟨b, hb, rfl⟩ := ha
  have hshare := s.heap_sharing hheap
  obtain ⟨cs, hsound⟩ := hs.shared.heap _ hshare
  obtain ⟨c, hc, hused, hpayload, -⟩ := hsound.block hb
  obtain ⟨l, r, rfl⟩ := List.append_of_mem hc
  obtain ⟨t, tail, hrun, -⟩ := KernelHeap.release_spec Empty hsound.formed hused
  have hdone : ((KernelHeap.release b.address : Action (World KernelHeap) Empty Unit).run
      ⟨s.machine, h⟩).1 = .done () := by
    rw [← hpayload]
    exact congrArg Prod.fst hrun
  have hshared := (hs.shared.perform (q := .release b.address) ⟨_, hshare, b, hb, rfl⟩).1
  rw [Sharing.perform, Sharing.onHeap, hshare] at hshared
  rw [Services.run_withHeap hheap, hdone]
  exact ⟨_, rfl, hs.of_heap rfl hshared rfl⟩

theorem live_filter_null (hs : s.Sound boot p) (hheap : s.services.heap.content = some h) :
    (s.live.filter fun b => b.address ≠ .null) = s.live := by
  refine List.filter_eq_self.mpr fun b hb => decide_eq_true ?_
  obtain ⟨cs, hsound⟩ := hs.heapSound hheap
  obtain ⟨c, hc, -, hpayload, -⟩ := hsound.block hb
  rw [← hpayload]
  exact hsound.formed.payload_ne_null hc

/-- Whoever gives memory back gives it to the heap, if there is one. Null is ignored. -/
theorem releasing (hs : s.Sound boot p) {x : Request Unit} {a : VirtualAddress}
    (ha : a = .null ∨ ∃ b ∈ s.live, b.address = a)
    (hnone : s.services.heap.content = none → (x.run s.services).2 = s.services)
    (hsome : ∀ h, s.services.heap.content = some h →
      x.run s.services = (Services.withHeap h (KernelHeap.release a)).run s.services) :
    Sound boot p (s.releasing a x) := by
  rw [Session.releasing]
  cases hheap : s.services.heap.content with
  | none =>
    rw [hnone hheap]
    exact hs.of_no_heap hheap _ _
  | some h =>
    rw [hsome h hheap]
    rcases ha with rfl | ha
    · have hrun : (Services.withHeap h (KernelHeap.release .null) : Request Unit).run s.services =
          (.done (), s.services) := by
        rw [Services.run_withHeap hheap]
        change (_, { s.services with machine := s.machine, heap := ⟨s.services.heap.name, some h⟩ }) = _
        rw [← hheap]
        rfl
      rw [hrun, hs.live_filter_null hheap]
      exact hs
    · obtain ⟨T, hrun, hsound⟩ := hs.release hheap ha
      rw [hrun]
      exact hsound

theorem free (hs : s.Sound boot p) {a : VirtualAddress} (hq : s.Allowed (.free a)) :
    Sound boot p (s.perform boot p (.free a)) :=
  hs.releasing hq (fun hnone => by rw [Services.run_free_of_none hnone])
    fun _ hsome => Services.run_free hsome a

theorem freeLayout (hs : s.Sound boot p) {a : VirtualAddress} (hq : s.Allowed (.freeLayout a)) :
    Sound boot p (s.perform boot p (.freeLayout a)) :=
  hs.releasing hq (fun hnone => by rw [Services.run_freeLayout_of_none hnone])
    fun _ hsome => Services.run_freeLayout hsome a

theorem realloc (hs : s.Sound boot p) {a : VirtualAddress} (old : Layout) {new : Layout}
    (hq : s.Allowed (.realloc a old new)) : Sound boot p (s.perform boot p (.realloc a old new)) := by
  rw [perform, obtaining]
  rcases hs.allocLayout_cases new with
    ⟨o, hrun, ho⟩ | ⟨b, n, h, T, hrun, hne, hround, hheap, hsound⟩
  · rw [hrun, Services.run_realloc_null hrun ho]
    have hout : handedOut new.size o = [] := handedOut_of_null ho
    have hsame := hs.unserved (S := s.services) rfl rfl hout
    cases o with
    | done b =>
      dsimp only
      rw [if_pos (ho b rfl)]
      exact hsame
    | _ => exact hsame
  · obtain ⟨c, hc, rfl⟩ := hq
    obtain ⟨-, -, hle⟩ := KernelHeap.roundedSize?_spec hround
    have hmin : (min old.size new.size).toNat ≤ n.toNat :=
      Nat.le_trans (UInt64.le_iff_toNat_le.mp (Std.min_le_right ..)) hle
    obtain ⟨m, hm⟩ : ∃ m, m = T.machine.memory.copy (h.directMap.physical c.address).value.toNat
        (h.directMap.physical b).value.toNat (min old.size new.size).toNat := ⟨_, rfl⟩
    have hwritten := hsound.write_payload hheap (a := ⟨b, n⟩) (by simp) (m := m) fun x hx => by
      rw [hm, Memory.copy, Memory.byte_write, if_neg]
      intro hin
      rw [Memory.bytes, List.length_map, List.length_range] at hin
      exact hx ⟨hin.1, by dsimp only; omega⟩
    obtain ⟨U, hfree, hfreed⟩ := hwritten.release (a := c.address) hheap
      ⟨c, List.mem_append_left _ hc, rfl⟩
    have hgiven := (Services.run_freeLayout (S := { T with machine := { T.machine with memory := m } })
      hheap c.address).trans hfree
    rw [hm] at hgiven
    rw [hrun, Services.run_realloc hrun hne hheap hgiven, handedOut_done hne hround]
    dsimp only
    rw [if_neg hne]
    exact hfreed

/-- A new heap would find frames that are in order, whatever there is already. -/
theorem backed_nil (hs : s.Sound boot p) : KernelHeap.Backed p p.directMap s.memory [] :=
  ⟨hs.shared.backed.toSound, rfl, List.nodup_nil, fun _ hi => absurd hi List.not_mem_nil,
    hs.shared.backed.null_set⟩

theorem initHeap (hs : s.Sound boot p) (hq : s.services.heap.content = none) :
    Sound boot p (s.perform boot p .initHeap) := by
  have hnone : s.sharing.heap = none := by
    rw [sharing, hq, Option.map_none]
  have hshared := (hs.shared.perform (q := .createHeap) hnone).1
  rw [perform]
  rcases KernelHeap.init_cases hs.backed_nil with ⟨e, hrun, -⟩ | ⟨h, m, -, -, -, hrun, -⟩
  · rw [Services.run_initHeap_of_refused hs.content_frames hrun]
    have hs' := hs.of_no_heap hq (HeapState.gained p s.memory s.memory) []
    exact hs'.of_machine rfl hs.roots hs'.shared rfl
  · have hrun' : (KernelHeap.init p).run s.sharing.machine = (.done h, m) := hrun
    rw [Services.run_initHeap_of_none hs.content_frames hq hrun]
    rw [Sharing.perform, hrun'] at hshared
    exact hs.of_heap rfl hshared rfl

theorem initSpaces (hs : s.Sound boot p) (hq : s.services.spaces.content = none) :
    Sound boot p (s.perform boot p .initSpaces) := by
  obtain ⟨used, hk, -⟩ := hs.tables
  rcases hrun : (AddressSpaces.init p.paging boot).run (World.mk s.machine p) with ⟨o, w⟩
  obtain ⟨used', hk', hf'⟩ := AddressSpaces.keeps_init
    (lawful_beside p (s.sharing.others p) s.memory) (P := p.paging) (p := p.fourLevel) rfl hk hrun
  have hbuilt := hs.shared.of_tables (m := w.machine) (World.eq_of_part hk'.part ▸ hk') hf'
  rw [perform]
  cases hdone : o.done? with
  | some v =>
    obtain rfl := Outcome.eq_done hdone
    rw [Services.run_initSpaces_of_none hs.content_frames hq hrun, hs.roots hq, List.append_nil]
    have hpaging := (AddressSpaces.kernelRoot_of_init hrun).1
    have hboot := AddressSpaces.bootable_of_init (p := p.fourLevel) rfl hrun
    refine ⟨hs.frames, hs.spacesName, hs.heapName, ?_, fun hnone => ?_, hs.unbounded, hbuilt⟩
    · intro v' hv'
      obtain rfl := Option.mem_some_iff.mp hv'
      exact ⟨hpaging, hboot⟩
    · cases hnone
  | none =>
    obtain ⟨f, m, hstage, hmemory, -⟩ :=
      Services.run_initSpaces_of_not_done hs.content_frames hrun hdone
    rw [hdone] at hbuilt
    rw [hstage, hs.roots hq, List.append_nil]
    dsimp only
    rw [hq]
    exact hs.of_machine rfl (fun _ => rfl) hbuilt hmemory

/-- Every allowed request keeps the invariant. -/
theorem perform (hs : s.Sound boot p) {q : ServiceRequest} (hq : s.Allowed q) :
    Sound boot p (s.perform boot p q) := by
  cases q with
  | initSpaces => exact hs.initSpaces hq
  | initHeap => exact hs.initHeap hq
  | allocFrames pages => exact hs.allocFrames pages
  | freeFrames r => exact hs.freeFrames hq
  | newRoot => exact hs.newRoot
  | destroyRoot root => exact hs.destroyRoot hq
  | activate root => exact hs.activate root
  | change root q => exact hs.change hq q
  | mapRange root target a size flags => exact hs.mapRange hq target a size flags
  | alloc size => exact hs.alloc size
  | free a => exact hs.free hq
  | allocLayout l => exact hs.allocLayout l
  | allocZeroed l => exact hs.allocZeroed l
  | freeLayout a => exact hs.freeLayout hq
  | realloc a old new => exact hs.realloc old hq
  | write m => exact hs.write hq

theorem start {m₀ m : Machine} (hinit : (FrameAllocator.init boot).run m₀ = (.done p, m))
    (hnull : ¬ p.Available boot.map p.directMap.nullFrame) :
    Sound boot p ⟨{ machine := m, frames := ⟨"PMM", some p⟩ }, [], [], [], []⟩ := by
  obtain ⟨-, -, hdirect, -⟩ := place_spec (init_eq_done hinit).1
  refine ⟨rfl, rfl, rfl, fun v hv => absurd hv (Option.not_mem_none v), fun _ => rfl, ?_,
    Sharing.Sound.start hinit hnull⟩
  rw [hdirect]

end Sound

/-- No frame that may be handed out appears at the null address: the loader promises a direct map that
reaches all usable memory. -/
theorem Reachable.sound (hs : Reachable boot p s)
    (hnull : ¬ p.Available boot.map p.directMap.nullFrame) : Sound boot p s := by
  induction hs with
  | start hrun hframes =>
    obtain ⟨-, q, m, hinit, rfl⟩ := Services.run_initFrames_eq_done hrun
    obtain rfl := Option.some.inj hframes
    exact .start hinit hnull
  | step q _ hq ih => exact ih.perform hq

theorem Reachable.booted (hs : Reachable boot p s) : boot.bootloader.supported = true ∧
    ∃ m₀ m, (FrameAllocator.init boot).run m₀ = (.done p, m) := by
  induction hs with
  | @start m₀ S hrun hframes =>
    obtain ⟨hsupported, q, m, hinit, rfl⟩ := Services.run_initFrames_eq_done hrun
    obtain rfl := Option.some.inj hframes
    exact ⟨hsupported, m₀, m, hinit⟩
  | step q _ hq ih => exact ih

end Session

end MemoryManager
