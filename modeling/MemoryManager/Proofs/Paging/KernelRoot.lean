import MemoryManager.Proofs.Frames.Custody
import MemoryManager.Proofs.Paging.KernelSpace
import MemoryManager.Proofs.Paging.Teardown
import MemoryManager.Services

namespace MemoryManager

namespace Action

variable {σ ε α β : Type}

/-- The action ends with a value, whatever state it starts in. -/
def Ends (x : Action σ ε α) : Prop :=
  ∀ s, ∃ a t, x.run s = (.done a, t)

theorem Ends.bind {x : Action σ ε α} {f : α → Action σ ε β} (hx : x.Ends)
    (hf : ∀ a, (f a).Ends) : (x >>= f).Ends := by
  intro s
  obtain ⟨a, t, hrun⟩ := hx s
  rw [run_bind_done hrun]
  exact hf a t

theorem Ends.forM {f : α → Action σ ε Unit} (hf : ∀ a, (f a).Ends) (l : List α) :
    (l.forM f).Ends := by
  induction l with
  | nil => exact fun s => ⟨(), s, rfl⟩
  | cons a l ih => exact (hf a).bind fun _ => ih

end Action

open MemoryManager.Action FrameAllocator

theorem FrameAllocator.ends_give (f : PhysicalFrame) :
    (FrameSource.give f : Action (World FrameAllocator) Empty Unit).Ends := by
  intro w
  have hrun := run_give w.part f w.machine
  have hrelease : ∀ e, ((w.part.release f.index 1).run w.machine).1 ≠ .stopped e := by
    intro e he
    simp only [release, run_bind, Machine.run_load] at he
    split at he <;> cases he
  rcases h : (w.part.release f.index 1).run w.machine with ⟨o, t⟩
  rw [h] at hrun hrelease
  cases o with
  | stopped e => exact absurd rfl (hrelease e)
  | refused e => exact ⟨(), _, hrun⟩
  | done u => exact ⟨(), _, hrun⟩

namespace FourLevel

/-- A direct map of all physical memory reaches every table. -/
theorem ends_reach {σ ε : Type} {p : FourLevel} (hlast : p.directMap.last = none)
    (t : PhysicalFrame) : (p.reach t : Action σ ε Unit).Ends := by
  intro s
  refine ⟨(), s, ?_⟩
  rw [reach, DirectMap.reach, hlast]
  rfl

theorem ends_releaseBelow {p : FourLevel} (hlast : p.directMap.last = none) (depth : Nat)
    (t : PhysicalFrame) (count : Nat) :
    (p.releaseBelow depth t count : Action (World FrameAllocator) Empty Unit).Ends := by
  have hpresent {t : PhysicalFrame} {count : Nat}
      {visit : PageEntry → Action (World FrameAllocator) Empty Unit}
      (hvisit : ∀ e, (visit e).Ends) : (forPresent t count visit).Ends := by
    refine Ends.forM (fun i => ?_) _
    refine Ends.bind (fun w => ⟨_, w, rfl⟩) fun m => ?_
    dsimp only
    split
    · exact hvisit _
    · exact fun w => ⟨(), w, rfl⟩
  induction depth generalizing t count with
  | zero => exact hpresent fun e => ends_give e.frame
  | succ depth ih =>
    exact hpresent fun e => (ends_reach hlast e.frame).bind fun _ =>
      (ih e.frame tableEntries).bind fun _ => ends_give e.frame

end FourLevel

namespace Paging

variable {a : FrameAllocator} {p : Paging} {root other : RootTable}

/-- The teardown of an address space reads the frame of its root table, not the window. -/
theorem destroy_congr {τ ε : Type} [FrameSource τ] (h : root.frame = other.frame) :
    (p.destroy root : Action (World τ) ε Unit) = p.destroy other := by
  simp only [destroy, FourLevel.destroy, h]

/-- Whatever memory holds, the teardown ends, and the last frame that it gives back is the root
table's. -/
theorem destroy_ends (hp : a.Placed) (hlast : p.directMap.last = none) (root : RootTable)
    (m : Machine) : ∃ m₁ m' : Machine,
      (p.destroy root : Action (World FrameAllocator) Empty Unit).run ⟨m, a⟩ = (.done (), ⟨m', a⟩) ∧
        a.GivenBack [root.frame] m₁.memory m'.memory := by
  unfold destroy
  cases hfour : p.fourLevel? with
  | none =>
    obtain ⟨m', hrun, hgiven⟩ := run_give_one hp root.frame m
    exact ⟨m, m', hrun, hgiven⟩
  | some f =>
    have hf : f.directMap.last = none := by
      rw [fourLevel?] at hfour
      split at hfour
      · cases hfour
        exact hlast
      · cases hfour
    have hends := (FourLevel.ends_reach hf root.frame).bind fun _ =>
      FourLevel.ends_releaseBelow hf 3 root.frame lowerHalfEntries
    have honly := (OnlyGives.reach f root.frame).bind fun _ =>
      OnlyGives.releaseBelow hp f 3 root.frame lowerHalfEntries
    obtain ⟨⟨⟩, w, hbelow⟩ := hends ⟨m, a⟩
    obtain ⟨-, m₁, -, hstate⟩ := honly m
    obtain rfl : w = ⟨m₁, a⟩ := by rw [← hstate, hbelow]
    obtain ⟨m', hrun, hgiven⟩ := run_give_one hp root.frame m₁
    refine ⟨m₁, m', ?_, hgiven⟩
    change (f.destroy root).run ⟨m, a⟩ = _
    rw [FourLevel.destroy, ← bind_assoc, run_bind_done hbelow, hrun]

/-- A new root table is in a frame that was just taken. -/
theorem taken_of_newRoot {τ : Type} [FrameSource τ] {w w' : World τ}
    (hrun : p.newRoot.run w = (.done root, w')) :
    ∃ w₁, (FrameSource.take : Action (World τ) PagingError _).run w =
      (.done (some root.frame), w₁) := by
  unfold newRoot at hrun
  cases hfour : p.fourLevel? with
  | none =>
    simp only [hfour] at hrun
    obtain ⟨f, w₁, htake, hrest⟩ := run_bind_eq_done hrun
    cases f with
    | none => cases hrest
    | some f =>
      obtain ⟨v, w₂, -, hrest⟩ := run_bind_eq_done hrest
      cases hrest
      exact ⟨w₁, htake⟩
  | some fl =>
    simp only [hfour] at hrun
    obtain ⟨f, w₁, hcreate, hrest⟩ := run_bind_eq_done hrun
    obtain ⟨v, w₂, -, hrest⟩ := run_bind_eq_done hrest
    cases hrest
    obtain ⟨g, w₃, htake, hrest⟩ := run_bind_eq_done hcreate
    cases g with
    | none => cases hrest
    | some g =>
      obtain ⟨u, w₄, -, hrest⟩ := run_bind_eq_done hrest
      cases hrest
      exact ⟨w₃, htake⟩

/-- The allocator tracks the frame of a new root table, and does not reserve it. -/
theorem newRoot_tracked {m : Machine} (hs : a.Sound m.memory) {w' : World FrameAllocator}
    (hrun : (p.newRoot : Action (World FrameAllocator) PagingError RootTable).run ⟨m, a⟩ =
      (.done root, w')) :
    root.frame.index < a.totalFrames ∧ a.isReserved root.frame.index = false := by
  obtain ⟨w₁, htake⟩ := taken_of_newRoot hrun
  rcases take_cases PagingError a m hs.toPlaced with hnone | ⟨first, t, hsome, hg⟩
  · rw [hnone] at htake
    cases htake
  · have hframe : PhysicalFrame.ofIndex first = root.frame := by
      rw [hsome] at htake
      exact Option.some.inj (Outcome.done.inj (Prod.mk.inj htake).1)
    obtain ⟨hlt, hres, -⟩ := hg.owned hs (Nat.le_refl first) (Nat.lt_succ_self first)
    rw [← hframe, hg.index_ofIndex hs.toPlaced]
    exact ⟨hlt, hres⟩

end Paging

namespace AddressSpaces

theorem kernelRoot_of_init {τ : Type} [FrameSource τ] {p : Paging} {boot : BootInfo}
    {s : AddressSpaces} {w w' : World τ} (hrun : (init p boot).run w = (.done s, w')) :
    s.paging = p ∧ ∃ w₁, p.newRoot.run w = (.done s.kernelRoot, w₁) := by
  obtain ⟨root, w₁, hbuild, hstart⟩ := run_bind_eq_done hrun
  obtain ⟨_, w₂, hroot, hfurnish⟩ := run_bind_eq_done hbuild
  obtain ⟨rfl, -⟩ := furnish_eq_done hfurnish
  obtain ⟨_, w₃, -, hrest⟩ := run_bind_eq_done hstart
  obtain ⟨_, w₄, -, hpure⟩ := run_bind_eq_done hrest
  cases hpure
  exact ⟨rfl, w₂, hroot⟩

/-- By a handle with another window the kernel's root table is given back like any other one. -/
theorem destroy_other {a : FrameAllocator} {s : AddressSpaces} {root : RootTable}
    (hframe : root.frame = s.kernelRoot.frame) (hwindow : root.window ≠ s.kernelRoot.window)
    (hp : a.Placed) (hlast : s.paging.directMap.last = none)
    (hlt : s.kernelRoot.frame.index < a.totalFrames)
    (hres : a.isReserved s.kernelRoot.frame.index = false) (t : Machine) :
    ∃ t' : Machine, (s.destroy root : Action (World FrameAllocator) Empty Unit).run ⟨t, a⟩ =
        (.done (), ⟨t', a⟩) ∧
      a.bitmap.test t'.memory s.kernelRoot.frame.index = false := by
  have hother : root ≠ s.kernelRoot := fun heq => hwindow (congrArg RootTable.window heq)
  obtain ⟨m₁, t', hrun, hgiven⟩ := s.paging.destroy_ends hp hlast s.kernelRoot t
  rw [destroy, if_neg hother, Paging.destroy_congr hframe]
  refine ⟨t', hrun, ?_⟩
  rw [← Bool.not_eq_true, hgiven.bits _ (Nat.lt_of_lt_of_le hlt a.total_le_size)]
  exact fun hset => hset.2 ⟨hlt, hres, _, List.mem_singleton_self _, rfl⟩

end AddressSpaces

/-- A request to give an address space back goes to the manager of address spaces. -/
theorem Services.run_destroyRoot {S : Services} {a : FrameAllocator} {s : AddressSpaces}
    (hframes : S.frames.content = some a) (hspaces : S.spaces.content = some s) {root : RootTable}
    {o : Outcome Empty Unit} {w : World FrameAllocator}
    (hrun : (s.destroy root).run ⟨S.machine, a⟩ = (o, w)) :
    (destroyRoot root).run S = (o, { S with machine := w.machine }) := by
  simp only [destroyRoot, withSpaces, addressSpaces, frameAllocator, withFrames, Slot.get, hframes,
    hspaces, run_bind, run_get, run_value_ok, run_within, hrun]

/-- The kernel's root table is guarded by its window. Whatever the state, giving it back by the
handle that the start made stops everything, with a report and no other effect. By a handle with
another window the table is torn down as any other one: with a direct map of all physical memory the
teardown ends, and the frame of the kernel's root table is free. A request for it does the same. -/
theorem destroy_kernelRoot_frame {boot told : BootInfo} {a : FrameAllocator} {m₀ m : Machine}
    (hinit : (FrameAllocator.init boot).run m₀ = (.done a, m)) {c : Custody}
    (hc : Custody.Reachable a m c) {p : Paging} {s : AddressSpaces} {w : World FrameAllocator}
    (hs : (AddressSpaces.init p told).run ⟨c.machine, a⟩ = (.done s, w)) {root : RootTable}
    (hframe : root.frame = s.kernelRoot.frame) (t : Machine) :
    (root.window = s.kernelRoot.window →
      (s.destroy root : Action (World FrameAllocator) Empty Unit).run ⟨t, a⟩ =
        (.stopped (.halted .spaces .kernelRoot),
          ⟨{ t with reports := t.reports.push (.halting .spaces .kernelRoot) }, a⟩)) ∧
    (root.window ≠ s.kernelRoot.window →
      (s.destroy root : Action (World FrameAllocator) Empty Unit).run ⟨t, a⟩ =
        (p.destroy s.kernelRoot).run ⟨t, a⟩ ∧
      (p.directMap.last = none → ∃ t' : Machine,
        (s.destroy root : Action (World FrameAllocator) Empty Unit).run ⟨t, a⟩ =
          (.done (), ⟨t', a⟩) ∧
        a.bitmap.test t'.memory s.kernelRoot.frame.index = false)) ∧
    ∀ (S : Services) (o : Outcome Empty Unit) (w' : World FrameAllocator), S.machine = t →
      S.frames.content = some a → S.spaces.content = some s →
      (s.destroy root).run ⟨t, a⟩ = (o, w') →
      (Services.destroyRoot root).run S = (o, { S with machine := w'.machine }) := by
  have hsound := (hc.accounted hinit).toSound
  obtain ⟨rfl, w₁, hroot⟩ := AddressSpaces.kernelRoot_of_init hs
  obtain ⟨hlt, hres⟩ := Paging.newRoot_tracked hsound hroot
  refine ⟨fun hwindow => ?_, fun hwindow => ?_, ?_⟩
  · rw [AddressSpaces.destroy, if_pos (RootTable.ext hframe hwindow)]
    rfl
  · have hother : root ≠ s.kernelRoot := fun heq => hwindow (congrArg RootTable.window heq)
    refine ⟨?_, fun hlast =>
      s.destroy_other hframe hwindow hsound.toPlaced hlast hlt hres t⟩
    rw [AddressSpaces.destroy, if_neg hother, Paging.destroy_congr hframe]
  · rintro S o w' rfl hframes hspaces hrun
    exact Services.run_destroyRoot hframes hspaces hrun

namespace OneRegion

/-- A report of one region of free RAM. -/
def boot : BootInfo where
  map := [⟨⟨0⟩, 0x6000, .usable⟩]
  directOffset := 0xFFFF800000000000

def allocator : FrameAllocator where
  bitmapFrame := .ofIndex 1
  totalFrames := 6
  directMap := { offset := 0xFFFF800000000000 }

def machine : Machine :=
  ((FrameAllocator.init boot).run ⟨.zeroed, #[], #[]⟩).2

theorem init_eq : (FrameAllocator.init boot).run ⟨.zeroed, #[], #[]⟩ = (.done allocator, machine) :=
  Prod.ext rfl rfl

def paging : Paging :=
  ⟨.x86_64, allocator.directMap, .cr3⟩

def spaces : AddressSpaces :=
  ⟨paging, ⟨.ofIndex 2, ⟨0xFFFF800000002000⟩⟩⟩

def started : World FrameAllocator :=
  ((AddressSpaces.init paging boot).run ⟨machine, allocator⟩).2

theorem init_spaces_eq :
    (AddressSpaces.init paging boot).run ⟨machine, allocator⟩ = (.done spaces, started) := by
  have hdone : ((AddressSpaces.init paging boot).run
      (⟨machine, allocator⟩ : World FrameAllocator)).1.done? = some spaces := by
    decide +kernel
  exact Prod.ext (Outcome.eq_done hdone) (by rw [started])

/-- The kernel's root table, with another window. -/
def otherHandle : RootTable :=
  ⟨spaces.kernelRoot.frame, ⟨0⟩⟩

end OneRegion

/-- The one handle stops everything, the other one tears the table down. -/
theorem destroy_kernelRoot_frame_of_one_region :
    (OneRegion.spaces.destroy OneRegion.spaces.kernelRoot :
        Action (World FrameAllocator) Empty Unit).run
          ⟨OneRegion.started.machine, OneRegion.allocator⟩ =
      (.stopped (.halted .spaces .kernelRoot),
        ⟨{ OneRegion.started.machine with
          reports := OneRegion.started.machine.reports.push (.halting .spaces .kernelRoot) },
          OneRegion.allocator⟩) ∧
    ∃ t : Machine, (OneRegion.spaces.destroy OneRegion.otherHandle :
        Action (World FrameAllocator) Empty Unit).run
          ⟨OneRegion.started.machine, OneRegion.allocator⟩ = (.done (), ⟨t, OneRegion.allocator⟩) ∧
      OneRegion.allocator.bitmap.test t.memory 2 = false := by
  have hwindow : OneRegion.otherHandle.window ≠ OneRegion.spaces.kernelRoot.window := by decide
  constructor
  · exact (destroy_kernelRoot_frame OneRegion.init_eq .start OneRegion.init_spaces_eq rfl
      OneRegion.started.machine).1 rfl
  · have hframe : OneRegion.otherHandle.frame = OneRegion.spaces.kernelRoot.frame := rfl
    exact ((destroy_kernelRoot_frame OneRegion.init_eq .start OneRegion.init_spaces_eq hframe
      OneRegion.started.machine).2.1 hwindow).2 rfl

/-- Giving the kernel's root table back by a handle with another window stops nothing, and frees its
frame. -/
theorem kernelRoot_destroyed :
    OneRegion.otherHandle.frame = OneRegion.spaces.kernelRoot.frame ∧
    OneRegion.allocator.bitmap.test OneRegion.started.machine.memory 2 = true ∧
    ∃ t : Machine, (OneRegion.spaces.destroy OneRegion.otherHandle :
        Action (World FrameAllocator) Empty Unit).run
          ⟨OneRegion.started.machine, OneRegion.allocator⟩ = (.done (), ⟨t, OneRegion.allocator⟩) ∧
      OneRegion.allocator.bitmap.test t.memory 2 = false := by
  have hplaced : OneRegion.allocator.Placed := (init_spec OneRegion.init_eq).1
  have hwindow : OneRegion.otherHandle.window ≠ OneRegion.spaces.kernelRoot.window := by decide
  have hframe : OneRegion.otherHandle.frame = OneRegion.spaces.kernelRoot.frame := rfl
  obtain ⟨t, hrun, hbit⟩ := OneRegion.spaces.destroy_other hframe hwindow hplaced rfl (by decide)
    (by decide) OneRegion.started.machine
  exact ⟨hframe, by decide +kernel, t, hrun, hbit⟩

end MemoryManager
