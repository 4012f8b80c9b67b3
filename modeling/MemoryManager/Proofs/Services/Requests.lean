import MemoryManager.Proofs.Paging.Building

namespace MemoryManager

open MemoryManager.Action

variable {δ ε α τ : Type}

/-- To halt on a refusal adds a report to what the action did, and nothing else. -/
theorem Machine.onRefusal_halt (x : Action Machine δ α) (subsystem : Subsystem)
    (cause : δ → HaltCause) (m : Machine) :
    let y : Action Machine ε α := x.onRefusal fun e => Machine.halt subsystem (cause e)
    (y.run m).1.done? = (x.run m).1.done? ∧ (y.run m).2.memory = (x.run m).2.memory ∧
      (y.run m).2.requests = (x.run m).2.requests := by
  intro y
  have hrun : y.run m = _ := run_onRefusal x _ m
  rw [hrun]
  rcases x.run m with ⟨o, t⟩
  cases o <;> exact ⟨rfl, rfl, rfl⟩

theorem World.onRefusal_halt (x : Action (World τ) δ α) (subsystem : Subsystem)
    (cause : δ → HaltCause) (w : World τ) :
    let y : Action (World τ) ε α := x.onRefusal fun e => World.halt subsystem (cause e)
    (y.run w).1.done? = (x.run w).1.done? ∧ (y.run w).2.part = (x.run w).2.part ∧
      (y.run w).2.machine.memory = (x.run w).2.machine.memory ∧
      (y.run w).2.requests = (x.run w).2.requests := by
  intro y
  have hrun : y.run w = _ := run_onRefusal x _ w
  rw [hrun]
  rcases x.run w with ⟨o, t⟩
  cases o <;> exact ⟨rfl, rfl, rfl, rfl⟩

theorem World.eq_of_part {w : World τ} {part : τ} (h : w.part = part) : w = ⟨w.machine, part⟩ :=
  World.ext rfl h

theorem AddressSpaces.orHalt_same (x : Action (World τ) PagingError α) (w : World τ) :
    let y : Action (World τ) ε α := orHalt x
    (y.run w).1.done? = (x.run w).1.done? ∧ (y.run w).2.part = (x.run w).2.part ∧
      (y.run w).2.machine.memory = (x.run w).2.machine.memory ∧
      (y.run w).2.requests = (x.run w).2.requests :=
  World.onRefusal_halt x .spaces .paging w

namespace Services

variable {S : Services} {p : FrameAllocator} {v : AddressSpaces} {h : KernelHeap} {slot : Slot τ}

theorem run_frameAllocator (hframes : S.frames.content = some p) :
    (frameAllocator : Action Services ε _).run S = (.done p, S) := by
  simp only [frameAllocator, Slot.get, hframes, run_bind, run_get, run_value_ok]

theorem run_addressSpaces (hspaces : S.spaces.content = some v) :
    (addressSpaces : Action Services ε _).run S = (.done v, S) := by
  simp only [addressSpaces, Slot.get, hspaces, run_bind, run_get, run_value_ok]

theorem run_addressSpaces_of_none (hspaces : S.spaces.content = none) :
    (addressSpaces : Action Services ε _).run S = (.stopped (.uninitialized S.spaces.name), S) := by
  simp only [addressSpaces, Slot.get, hspaces, run_bind, run_get, run_value_error]

theorem run_kernelHeap (hheap : S.heap.content = some h) :
    (kernelHeap : Action Services ε _).run S = (.done h, S) := by
  simp only [kernelHeap, Slot.get, hheap, run_bind, run_get, run_value_ok]

theorem run_kernelHeap_of_none (hheap : S.heap.content = none) :
    (kernelHeap : Action Services ε _).run S = (.stopped (.uninitialized S.heap.name), S) := by
  simp only [kernelHeap, Slot.get, hheap, run_bind, run_get, run_value_error]

theorem run_onMachine (x : Action Machine ε α) (S : Services) :
    (onMachine x).run S =
      ((x.run S.machine).1, { S with machine := (x.run S.machine).2 }) := (rfl)

theorem run_withFrames (p : FrameAllocator) (x : Action (World FrameAllocator) ε α)
    (S : Services) :
    (withFrames p x).run S =
      ((x.run ⟨S.machine, p⟩).1, { S with machine := (x.run ⟨S.machine, p⟩).2.machine }) := (rfl)

theorem run_withFrames_of_done {x : Action (World FrameAllocator) PagingError α} {a : α}
    {w : World FrameAllocator} (hrun : x.run ⟨S.machine, p⟩ = (.done a, w)) :
    (withFrames p (AddressSpaces.orHalt x) : Action Services ε α).run S =
      (.done a, { S with machine := w.machine }) := by
  rw [run_withFrames, AddressSpaces.orHalt, run_onRefusal, hrun]

theorem run_withHeap (hheap : S.heap.content = some h) (x : Action (World KernelHeap) ε α) :
    (withHeap h x).run S =
      ((x.run ⟨S.machine, h⟩).1, { S with
        machine := (x.run ⟨S.machine, h⟩).2.machine
        heap := ⟨S.heap.name, some (x.run ⟨S.machine, h⟩).2.part⟩ }) := by
  rw [withHeap, run_within, Slot.put, hheap, Option.map_some]

theorem run_withSpaces (hframes : S.frames.content = some p) (hspaces : S.spaces.content = some v)
    (x : AddressSpaces → Action (World FrameAllocator) Empty α) :
    (withSpaces x).run S =
      (((x v).run ⟨S.machine, p⟩).1,
        { S with machine := ((x v).run ⟨S.machine, p⟩).2.machine }) := by
  rw [withSpaces, run_bind_done (run_addressSpaces hspaces),
    run_bind_done (run_frameAllocator hframes), run_withFrames]

theorem run_withSpaces_of_none (hspaces : S.spaces.content = none)
    (x : AddressSpaces → Action (World FrameAllocator) Empty α) :
    (withSpaces x).run S = (.stopped (.uninitialized S.spaces.name), S) := by
  rw [withSpaces, run_bind_stopped (run_addressSpaces_of_none hspaces)]

theorem run_install_of_none {subsystem : Subsystem} {slot : Services → Slot τ}
    (put : Services → Slot τ → Services) (value : τ) (hslot : (slot S).content = none) :
    (install subsystem slot put value).run S = (.done (), put S ⟨(slot S).name, some value⟩) := by
  have hfill : (slot S).install? value = some ⟨(slot S).name, some value⟩ := by
    rw [Slot.install?, Slot.isInstalled, hslot]
    rfl
  rw [install, run_bind_done (run_get S), hfill, run_modify]

/-- Filling a slot twice is the end. -/
theorem run_install_of_some {subsystem : Subsystem} {slot : Services → Slot τ}
    (put : Services → Slot τ → Services) (value : τ) {old : τ}
    (hslot : (slot S).content = some old) :
    (install subsystem slot put value).run S =
      (.stopped (.halted subsystem (.initializedTwice (slot S).name)),
        { S with machine := { S.machine with
          reports := S.machine.reports.push
            (.halting subsystem (.initializedTwice (slot S).name)) } }) := by
  have hfull : (slot S).install? value = none := by
    rw [Slot.install?_eq_none_iff, Slot.isInstalled, hslot]
    rfl
  rw [install, run_bind_done (run_get S), hfull]
  rfl

theorem run_orHalt_of_done {x : Action Machine δ α} {subsystem : Subsystem} {cause : δ → HaltCause}
    {a : α} {m : Machine} (hrun : x.run S.machine = (.done a, m)) :
    (onMachine (x.onRefusal fun e => Machine.halt subsystem (cause e)) : Action Services ε α).run S =
      (.done a, { S with machine := m }) := by
  rw [run_onMachine, run_onRefusal, hrun]

theorem run_orHalt_eq_done {x : Action Machine δ α} {subsystem : Subsystem} {cause : δ → HaltCause}
    {a : α} {T : Services}
    (hrun : (onMachine (x.onRefusal fun e => Machine.halt subsystem (cause e)) :
      Action Services ε α).run S = (.done a, T)) :
    ∃ m, x.run S.machine = (.done a, m) ∧ T = { S with machine := m } := by
  rw [run_onMachine, run_onRefusal] at hrun
  rcases hx : x.run S.machine with ⟨o, m⟩
  rw [hx] at hrun
  cases o with
  | done b =>
    cases hrun
    exact ⟨m, rfl, rfl⟩
  | refused e => cases hrun
  | stopped f => cases hrun

theorem run_orHalt_of_refused {x : Action Machine δ α} {subsystem : Subsystem}
    {cause : δ → HaltCause} {e : δ} {m : Machine} (hrun : x.run S.machine = (.refused e, m)) :
    (onMachine (x.onRefusal fun e => Machine.halt subsystem (cause e)) : Action Services ε α).run S =
      (.stopped (.halted subsystem (cause e)), { S with machine := { m with
        reports := m.reports.push (.halting subsystem (cause e)) } }) := by
  rw [run_onMachine, run_onRefusal, hrun]
  rfl

/-- A stage of the start: a part of the memory manager is built, and installed. -/
theorem run_stage_of_none (subsystem : Subsystem) (slot : Services → Slot τ)
    (put : Services → Slot τ → Services) {value : τ} {T : Services} {x : Request τ}
    (hrun : x.run S = (.done value, T)) (hslot : (slot T).content = none) :
    (do
      let v ← x
      install subsystem slot put v
      pure .ok : Request Status).run S = (.done .ok, put T ⟨(slot T).name, some value⟩) := by
  rw [run_bind_done hrun, run_bind_done (run_install_of_none put value hslot), run_pure]

theorem run_stage_of_some (subsystem : Subsystem) (slot : Services → Slot τ)
    (put : Services → Slot τ → Services) {value old : τ} {T : Services} {x : Request τ}
    (hrun : x.run S = (.done value, T)) (hslot : (slot T).content = some old) :
    (do
      let v ← x
      install subsystem slot put v
      pure .ok : Request Status).run S =
      (.stopped (.halted subsystem (.initializedTwice (slot T).name)),
        { T with machine := { T.machine with
          reports := T.machine.reports.push
            (.halting subsystem (.initializedTwice (slot T).name)) } }) := by
  rw [run_bind_done hrun, run_bind_stopped (run_install_of_some put value hslot)]

/-- The frame allocator can be started with a supported boot protocol only. -/
theorem run_initFrames (boot : BootInfo) (S : Services) :
    (initFrames boot).run S =
      if boot.bootloader.supported then
        (do
          let p ← onMachine (FrameAllocator.initOrHalt boot)
          install .frames Services.frames (fun s f => { s with frames := f }) p
          pure .ok : Request Status).run S
      else (.stopped (.halted .frames .bootProtocol), { S with machine := { S.machine with
        reports := S.machine.reports.push (.halting .frames .bootProtocol) } }) := by
  rw [initFrames]
  cases boot.bootloader.supported <;> rfl

theorem run_initFrames_eq_done {boot : BootInfo} {m₀ : Machine}
    (hrun : (initFrames boot).run { machine := m₀ } = (.done .ok, S)) :
    boot.bootloader.supported = true ∧ ∃ p m, (FrameAllocator.init boot).run m₀ = (.done p, m) ∧
      S = { machine := m, frames := ⟨"PMM", some p⟩ } := by
  rw [run_initFrames] at hrun
  split at hrun
  · rename_i hsupported
    refine ⟨hsupported, ?_⟩
    obtain ⟨p, T, hbuild, hrest⟩ := run_bind_eq_done hrun
    obtain ⟨m, hinit, rfl⟩ := run_orHalt_eq_done hbuild
    rw [run_bind_done (run_install_of_none _ p rfl)] at hrest
    cases hrest
    exact ⟨p, m, hinit, rfl⟩
  · cases hrun

theorem run_initFrames_of_some {boot : BootInfo} (hsupported : boot.bootloader.supported = true)
    {old : FrameAllocator} (hframes : S.frames.content = some old) {m : Machine}
    (hrun : (FrameAllocator.init boot).run S.machine = (.done p, m)) :
    (initFrames boot).run S = (.stopped (.halted .frames (.initializedTwice S.frames.name)),
      { S with machine := { m with
        reports := m.reports.push (.halting .frames (.initializedTwice S.frames.name)) } }) := by
  rw [run_initFrames, if_pos hsupported]
  exact run_stage_of_some .frames Services.frames _ (run_orHalt_of_done hrun) hframes

theorem run_initHeap_of_refused (hframes : S.frames.content = some p) {e : HeapError} {m : Machine}
    (hrun : (KernelHeap.init p).run S.machine = (.refused e, m)) :
    initHeap.run S = (.stopped (.halted .heap (.heap e)), { S with machine := { m with
      reports := m.reports.push (.halting .heap (.heap e)) } }) := by
  rw [initHeap, run_bind_done (run_frameAllocator hframes)]
  exact run_bind_stopped (run_orHalt_of_refused hrun)

theorem run_initHeap_of_none (hframes : S.frames.content = some p) (hheap : S.heap.content = none)
    {m : Machine} (hrun : (KernelHeap.init p).run S.machine = (.done h, m)) :
    initHeap.run S = (.done .ok, { S with machine := m, heap := ⟨S.heap.name, some h⟩ }) := by
  rw [initHeap, run_bind_done (run_frameAllocator hframes)]
  exact run_stage_of_none .heap Services.heap _ (run_orHalt_of_done hrun) hheap

theorem run_initHeap_of_some (hframes : S.frames.content = some p) {old : KernelHeap}
    (hheap : S.heap.content = some old) {m : Machine}
    (hrun : (KernelHeap.init p).run S.machine = (.done h, m)) :
    initHeap.run S = (.stopped (.halted .heap (.initializedTwice S.heap.name)),
      { S with machine := { m with
        reports := m.reports.push (.halting .heap (.initializedTwice S.heap.name)) } }) := by
  rw [initHeap, run_bind_done (run_frameAllocator hframes)]
  exact run_stage_of_some .heap Services.heap _ (run_orHalt_of_done hrun) hheap

theorem run_allocFrames (hframes : S.frames.content = some p) (pages : UInt64) :
    (allocFrames pages).run S =
      (((p.allocOrHalt pages).run S.machine).1,
        { S with machine := ((p.allocOrHalt pages : Action Machine Empty _).run S.machine).2 }) := by
  rw [allocFrames, run_bind_done (run_frameAllocator hframes), run_onMachine]

theorem run_freeFrames (hframes : S.frames.content = some p) (r : FrameRange) :
    ((freeFrames r).run S).2 = { S with machine := ((p.free r).run S.machine).2 } := by
  rw [freeFrames, run_bind_done (run_frameAllocator hframes), run_bind, run_onMachine, run_attempt]
  rcases (p.free r).run S.machine with ⟨o, t⟩
  cases o <;> rfl

theorem run_activate_of_none (hspaces : S.spaces.content = none) (root : RootTable) :
    (activate root).run S = (.stopped (.uninitialized S.spaces.name), S) := by
  rw [activate, run_bind_stopped (run_addressSpaces_of_none hspaces)]

/-- Activating an address space changes no memory. -/
theorem run_activate (hspaces : S.spaces.content = some v) (root : RootTable) :
    ∃ m : Machine, ((activate root).run S).2 = { S with machine := m } ∧
      m.memory = S.machine.memory := by
  rw [activate, run_bind_done (run_addressSpaces hspaces), run_within]
  refine ⟨_, rfl, ?_⟩
  unfold Paging.activate
  split
  · rename_i f _
    rw [FourLevel.activate, run_bind]
    cases f.register.valueFor root.frame <;> rfl
  · rfl

theorem run_alloc (hframes : S.frames.content = some p) (hheap : S.heap.content = some h)
    (size : UInt64) :
    (alloc size).run S = (withHeap h (KernelHeap.allocOrHalt p size)).run S := by
  rw [alloc, run_bind_done (run_kernelHeap hheap), run_bind_done (run_frameAllocator hframes)]

theorem run_alloc_of_none (hheap : S.heap.content = none) (size : UInt64) :
    (alloc size).run S = (.stopped (.uninitialized S.heap.name), S) := by
  rw [alloc, run_bind_stopped (run_kernelHeap_of_none hheap)]

theorem run_free (hheap : S.heap.content = some h) (a : VirtualAddress) :
    (free a).run S = (withHeap h (KernelHeap.release a)).run S := by
  rw [free, run_bind_done (run_kernelHeap hheap)]

theorem run_free_of_none (hheap : S.heap.content = none) (a : VirtualAddress) :
    (free a).run S = (.stopped (.uninitialized S.heap.name), S) := by
  rw [free, run_bind_stopped (run_kernelHeap_of_none hheap)]

theorem run_freeLayout (hheap : S.heap.content = some h) (a : VirtualAddress) :
    (freeLayout a).run S = (withHeap h (KernelHeap.release a)).run S := by
  rw [freeLayout, run_bind_done (run_get S), hheap]

theorem run_freeLayout_of_none (hheap : S.heap.content = none) (a : VirtualAddress) :
    (freeLayout a).run S = (.done (), S) := by
  rw [freeLayout, run_bind_done (run_get S), hheap, run_pure]

/-- A layout that the heap cannot align gets null, and so does every layout before there is a heap. -/
theorem run_allocLayout_null {l : Layout} (hnone : granule < l.align ∨ S.heap.content = none) :
    (allocLayout l).run S = (.done .null, S) := by
  unfold allocLayout
  split
  · rfl
  · rename_i halign
    rw [run_bind_done (run_get S), hnone.resolve_left halign, run_pure]

theorem run_allocLayout (hframes : S.frames.content = some p) (hheap : S.heap.content = some h)
    {l : Layout} (halign : ¬ granule < l.align) :
    (allocLayout l).run S =
      match (withHeap h (KernelHeap.alloc p l.size)).run S with
      | (.done a, T) => (.done a, T)
      | (.refused _, T) => (.done .null, T)
      | (.stopped f, T) => (.stopped f, T) := by
  rw [allocLayout, if_neg halign, run_bind_done (run_get S), hheap]
  simp only
  rw [run_bind_done (run_frameAllocator hframes), run_bind, run_attempt]
  rcases (withHeap h (KernelHeap.alloc p l.size)).run S with ⟨o, T⟩
  cases o <;> rfl

theorem run_allocZeroed_null {l : Layout} {T : Services} {o : Outcome Empty VirtualAddress}
    (hrun : (allocLayout l).run S = (o, T)) (ho : ∀ a, o = .done a → a = .null) :
    (allocZeroed l).run S = (o, T) := by
  cases o with
  | done a =>
    obtain rfl := ho a rfl
    rw [allocZeroed, run_bind_done hrun]
    rfl
  | refused e => rw [allocZeroed, run_bind_refused hrun]
  | stopped f => rw [allocZeroed, run_bind_stopped hrun]

theorem run_allocZeroed {l : Layout} {T : Services} {a : VirtualAddress}
    (hrun : (allocLayout l).run S = (.done a, T)) (ha : a ≠ .null)
    (hheap : T.heap.content = some h) :
    (allocZeroed l).run S = (.done a, { T with machine := { T.machine with
      memory := T.machine.memory.fill (h.directMap.physical a).value.toNat l.size.toNat 0 } }) := by
  rw [allocZeroed, run_bind_done hrun, if_pos ha, run_bind_done (run_kernelHeap hheap)]
  rfl

theorem run_realloc_null {a : VirtualAddress} {old new : Layout} {T : Services}
    {o : Outcome Empty VirtualAddress} (hrun : (allocLayout new).run S = (o, T))
    (ho : ∀ b, o = .done b → b = .null) : (realloc a old new).run S = (o, T) := by
  cases o with
  | done b =>
    obtain rfl := ho b rfl
    rw [realloc, run_bind_done hrun]
    rfl
  | refused e => rw [realloc, run_bind_refused hrun]
  | stopped f => rw [realloc, run_bind_stopped hrun]

theorem run_realloc {a b : VirtualAddress} {old new : Layout} {T U : Services}
    (hrun : (allocLayout new).run S = (.done b, T)) (hb : b ≠ .null)
    (hheap : T.heap.content = some h)
    (hfree : (freeLayout a).run { T with machine := { T.machine with
      memory := T.machine.memory.copy (h.directMap.physical a).value.toNat
        (h.directMap.physical b).value.toNat (min old.size new.size).toNat } } = (.done (), U)) :
    (realloc a old new).run S = (.done b, U) := by
  rw [realloc, run_bind_done hrun, if_pos hb]
  simp only
  rw [run_bind_done (run_kernelHeap hheap), run_bind_done (run_onMachine _ T), Machine.run_store]
  exact run_bind_done hfree

end Services

/-- The service that changes an address space as the request says. -/
def PageRequest.serve (root : RootTable) : PageRequest → Request Unit
  | map target a flags => Services.map root target a flags
  | unmap a => Services.unmap root a
  | setFlags a flags => Services.setFlags root a flags

/-- The paging of a kernel that has its frames from `p`. -/
def FrameAllocator.paging (p : FrameAllocator) : Paging :=
  ⟨.x86_64, p.directMap, .cr3⟩

def FrameAllocator.fourLevel (p : FrameAllocator) : FourLevel :=
  ⟨p.directMap, .cr3⟩

namespace Services

variable {S : Services} {p : FrameAllocator} {v : AddressSpaces}

theorem run_serve (hframes : S.frames.content = some p) (hspaces : S.spaces.content = some v)
    (hpaging : v.paging = p.paging) (root : RootTable) (q : PageRequest) :
    (q.serve root).run S =
      (withFrames p (AddressSpaces.orHalt (q.run p.fourLevel root))).run S := by
  rw [run_withFrames]
  cases q <;>
  · refine (run_withSpaces hframes hspaces _).trans ?_
    rw [hpaging]
    rfl

theorem run_newRoot (hframes : S.frames.content = some p) (hspaces : S.spaces.content = some v)
    (hpaging : v.paging = p.paging) :
    newRoot.run S = (withFrames p (AddressSpaces.orHalt p.fourLevel.newRoot)).run S := by
  refine (run_withSpaces hframes hspaces _).trans ?_
  rw [hpaging]
  rfl

/-- A start of the address spaces that does not go through is stopped, by a halt if it was refused. -/
theorem run_initSpaces_of_not_done (hframes : S.frames.content = some p) {boot : BootInfo}
    {o : Outcome PagingError AddressSpaces} {w : World FrameAllocator}
    (hrun : (AddressSpaces.init p.paging boot).run ⟨S.machine, p⟩ = (o, w)) (ho : o.done? = none) :
    ∃ f m, (initSpaces boot).run S = (.stopped f, { S with machine := m }) ∧
      m.memory = w.machine.memory ∧ m.requests = w.requests ∧
      (o = .stopped f ∨ ∃ e, f = .halted .spaces (.paging e)) := by
  rw [initSpaces, run_bind_done (run_frameAllocator hframes)]
  have hbuild : (withFrames p (AddressSpaces.orHalt (AddressSpaces.init p.paging boot)) :
      Request AddressSpaces).run S = _ := run_withFrames p _ S
  rw [AddressSpaces.orHalt, run_onRefusal, hrun] at hbuild
  cases o with
  | done v => cases ho
  | refused e => exact ⟨_, _, run_bind_stopped hbuild, rfl, rfl, .inr ⟨e, rfl⟩⟩
  | stopped f => exact ⟨_, _, run_bind_stopped hbuild, rfl, rfl, .inl rfl⟩

theorem run_initSpaces_of_none (hframes : S.frames.content = some p)
    (hspaces : S.spaces.content = none) {boot : BootInfo} {w : World FrameAllocator}
    (hrun : (AddressSpaces.init p.paging boot).run ⟨S.machine, p⟩ = (.done v, w)) :
    (initSpaces boot).run S =
      (.done .ok, { S with machine := w.machine, spaces := ⟨S.spaces.name, some v⟩ }) := by
  rw [initSpaces, run_bind_done (run_frameAllocator hframes)]
  exact run_stage_of_none .spaces Services.spaces _ (run_withFrames_of_done hrun) hspaces

theorem run_initSpaces_of_some (hframes : S.frames.content = some p) {old : AddressSpaces}
    (hspaces : S.spaces.content = some old) {boot : BootInfo} {w : World FrameAllocator}
    (hrun : (AddressSpaces.init p.paging boot).run ⟨S.machine, p⟩ = (.done v, w)) :
    (initSpaces boot).run S = (.stopped (.halted .spaces (.initializedTwice S.spaces.name)),
      { S with machine := { w.machine with
        reports := w.machine.reports.push
          (.halting .spaces (.initializedTwice S.spaces.name)) } }) := by
  rw [initSpaces, run_bind_done (run_frameAllocator hframes)]
  exact run_stage_of_some .spaces Services.spaces _ (run_withFrames_of_done hrun) hspaces

theorem run_mapRange (hframes : S.frames.content = some p) (hspaces : S.spaces.content = some v)
    (hpaging : v.paging = p.paging) (root : RootTable) (target : PhysicalAddress)
    (a : VirtualAddress) (size : UInt64) (flags : PageFlags) :
    (mapRange root target a size flags).run S = (withFrames p (AddressSpaces.orHalt
      (AddressSpaces.mapRange p.paging root target a size flags))).run S := by
  rw [mapRange, run_withSpaces hframes hspaces, hpaging, run_withFrames]

end Services

end MemoryManager
