import MemoryManager.Proofs.Frames.BootOutcome
import MemoryManager.Proofs.Services.Sessions

namespace MemoryManager

open MemoryManager.Action FrameAllocator FourLevel Memory

section Requests

variable {σ ε δ α γ : Type} {view : σ → γ}

theorem Action.Preserves.onRefusal {x : Action σ ε α} {handle : ε → Action σ δ α}
    (hx : x.Preserves view) (hhandle : ∀ e, (handle e).Preserves view) :
    (x.onRefusal handle).Preserves view := by
  intro s
  have hfirst := hx s
  rw [run_onRefusal]
  rcases hrun : x.run s with ⟨o, t⟩
  rw [hrun] at hfirst
  cases o with
  | refused e => exact (hhandle e t).trans hfirst
  | _ => exact hfirst

theorem FrameAllocator.preserves_init (boot : BootInfo) :
    (FrameAllocator.init boot).Preserves Machine.requests := by
  have hassign (b : FrameBitmap) (on : Bool) (first stop : Nat) :
      (b.assignRange on first stop : Action Machine FrameError Unit).Preserves Machine.requests :=
    fun m => by rw [FrameBitmap.run_assignRange]
  refine Preserves.bind (.value _) fun r => ?_
  cases r with
  | error e => exact .refuse e
  | ok p =>
    refine Preserves.bind ?_ fun _ => fun _ => rfl
    refine Preserves.bind (fun _ => rfl) fun _ => ?_
    refine (Preserves.forM (fun r => Preserves.bind (.value _) fun _ => hassign _ _ _ _) _).bind
      fun _ => (hassign _ _ _ _).bind fun _ => hassign _ _ _ _

theorem KernelHeap.preserves_init (p : FrameAllocator) :
    (KernelHeap.init p).Preserves Machine.requests := by
  have hclaim : (claim p initialHeapPages).Preserves Machine.requests :=
    ((p.preserves_alloc _).onRefusal fun e => .refuse _).bind fun _ =>
      Preserves.bind (.value _) fun _ => .pure _
  refine hclaim.bind fun r => Preserves.bind (.value _) fun _ => fun _ => rfl

end Requests

/-- If bits are only set, the free frames are fewer by those that were gained. -/
theorem FrameAllocator.freeFrames_add_gained {p : FrameAllocator} {m t : Memory}
    (hkept : ∀ i < p.totalFrames, p.bitmap.test m i = true → p.bitmap.test t i = true) :
    p.freeFrames t + (HeapState.gained p m t).length = p.freeFrames m := by
  have hcount : ∀ l : List Nat,
      (∀ i ∈ l, p.bitmap.test m i = true → p.bitmap.test t i = true) →
      (l.countP fun i => !p.bitmap.test t i) +
        (l.countP fun i => !p.bitmap.test m i && p.bitmap.test t i) =
          l.countP fun i => !p.bitmap.test m i := by
    intro l hl
    induction l with
    | nil => rfl
    | cons i l ih =>
      rw [List.forall_mem_cons] at hl
      have hrest := ih hl.2
      have hfirst := hl.1
      rw [List.countP_cons, List.countP_cons, List.countP_cons]
      cases hm : p.bitmap.test m i with
      | true => simp [hfirst hm, hrest]
      | false => cases p.bitmap.test t i <;> simp <;> omega
  rw [HeapState.gained, ← List.countP_eq_length_filter]
  exact hcount _ fun i hi => hkept i (List.mem_range.mp hi)

namespace Services

variable {S T : Services} {v : AddressSpaces} {h : KernelHeap}

theorem translate_congr (hspaces : T.spaces = S.spaces) {root : RootTable} {a : VirtualAddress}
    (hsame : ∀ v ∈ S.spaces.content, v.paging.translate T.machine.memory root a =
      v.paging.translate S.machine.memory root a) :
    ((translate root a).run T).1 = ((translate root a).run S).1 := by
  cases hcontent : S.spaces.content with
  | none =>
    rw [translate, run_bind_stopped (run_addressSpaces_of_none hcontent),
      run_bind_stopped (run_addressSpaces_of_none (hspaces ▸ hcontent)), hspaces]
  | some v =>
    rw [translate, run_bind_done (run_addressSpaces hcontent), run_bind_done (run_get S),
      run_bind_done (run_addressSpaces (hspaces ▸ hcontent)), run_bind_done (run_get T),
      hsame v hcontent]
    cases v.paging.translate S.machine.memory root a <;> rfl

theorem heapStats_congr (hheap : T.heap = S.heap)
    (hsame : ∀ h ∈ S.heap.content, h.blocks T.machine.memory = h.blocks S.machine.memory) :
    (heapStats.run T).1 = (heapStats.run S).1 := by
  cases hcontent : S.heap.content with
  | none =>
    rw [heapStats, run_bind_stopped (run_kernelHeap_of_none hcontent),
      run_bind_stopped (run_kernelHeap_of_none (hheap ▸ hcontent)), hheap]
  | some h =>
    rw [heapStats, run_bind_done (run_kernelHeap hcontent), run_bind_done (run_get S),
      run_bind_done (run_kernelHeap (hheap ▸ hcontent)), run_bind_done (run_get T), run_pure,
      run_pure, KernelHeap.stats, KernelHeap.stats, hsame h hcontent]

end Services

namespace Session

/-- What is in the slots stays there, no translation of an address space changes, the heap has the
same blocks and statistics, and the bytes of frames that are held or the heap's are the same. -/
structure Spared (s : Session) (t : Services) : Prop where
  frames : t.frames = s.services.frames
  spaces : t.spaces = s.services.spaces
  heap : t.heap = s.services.heap
  translations : ∀ root : RootTable, root.frame ∈ s.roots → ∀ a,
    ((Services.translate root a).run t).1 = ((Services.translate root a).run s.services).1
  blocks : ∀ h ∈ s.services.heap.content, h.blocks t.machine.memory = h.blocks s.memory
  stats : (Services.heapStats.run t).1 = (Services.heapStats.run s.services).1
  bytes : ∀ x, x / 4096 ∈ s.held ∨ x / 4096 ∈ s.sharing.heapFrames →
    t.machine.memory.byte x = s.memory.byte x

/-- The frame allocator is started again and leaves `t`: it ends everything, and the bitmap is what it
was at first. -/
structure FramesAgain (boot : BootInfo) (p : FrameAllocator) (s : Session) (t : Services) :
    Prop where
  run : (Services.initFrames boot).run s.services =
    (.stopped (.halted .frames (.initializedTwice "PMM")), t)
  spared : s.Spared t
  requests : t.machine.requests = s.machine.requests
  bits : ∀ i < p.totalFrames,
    p.bitmap.test t.machine.memory i = false ↔ p.Available boot.map i
  bytes : ∀ x, p.bitmap.Outside x → t.machine.memory.byte x = s.memory.byte x

/-- The address spaces are started again, which leaves `t` and is stopped by `f`: free frames are
taken, and nothing else is written to. If everything could be built, the new root table was made
active. -/
structure SpacesAgain (boot : BootInfo) (p : FrameAllocator) (s : Session) (f : Fault)
    (t : Services) : Prop where
  run : (Services.initSpaces boot).run s.services = (.stopped f, t)
  spared : s.Spared t
  footprint : p.Footprint (fun _ => False) (p.Fresh s.memory t.machine.memory) s.memory
    t.machine.memory
  ends : f = .halted .spaces (.initializedTwice "VMM") ∧
      (∃ (root : RootTable) (bits : UInt64),
        p.Fresh s.memory t.machine.memory root.frame.index ∧
        RootRegister.cr3.valueFor root.frame = .ok bits ∧
        t.machine.requests = s.machine.requests.push (.activate bits)) ∨
    ((∃ e, f = .halted .spaces (.paging e)) ∨ p.OutgrowsField f) ∧
      t.machine.requests = s.machine.requests

/-- The heap is created again, which leaves `t` and is stopped by `f`: nothing changes if there are
not sixteen free frames in a row; otherwise such frames are taken, and nothing else is written to. -/
structure HeapAgain (p : FrameAllocator) (s : Session) (f : Fault) (t : Services) : Prop where
  run : Services.initHeap.run s.services = (.stopped f, t)
  spared : s.Spared t
  requests : t.machine.requests = s.machine.requests
  ends : (∃ e, f = .halted .heap (.heap (.frames e))) ∧
      p.bitmap.IsFirst s.memory 16 p.totalFrames none ∧ t.machine.memory = s.memory ∨
    f = .halted .heap (.initializedTwice "kernel heap") ∧
      ∃ first, HeapState.gained p s.memory t.machine.memory = List.range' first 16 ∧
        p.freeFrames t.machine.memory + 16 = p.freeFrames s.memory ∧
        p.Footprint (fun _ => False) (p.Fresh s.memory t.machine.memory) s.memory
          t.machine.memory

variable {boot : BootInfo} {p : FrameAllocator} {s : Session} {t : Services}

/-- Whoever changes only the bitmap and frames that are free spares everyone. -/
theorem Sound.spared (hs : s.Sound boot p) {m : Machine}
    (hbytes : ∀ x, p.bitmap.Outside x → p.bitmap.test s.memory (x / 4096) = true →
      m.memory.byte x = s.memory.byte x) :
    s.Spared { s.services with machine := m } := by
  obtain ⟨used, hk, hf⟩ := hs.tables
  have hothers : ∀ x, x / 4096 ∈ s.sharing.others p → m.memory.byte x = s.memory.byte x := by
    intro x hx
    obtain ⟨-, hres, hset⟩ := hk.set _ hx
    exact hbytes x (outside_of_not_reserved hres) hset
  have htables : ∀ u ∈ used, ∀ j, m.memory.entry u j = s.memory.entry u j := by
    intro u hu j
    obtain ⟨-, hres, hset⟩ := hk.held u hu
    refine entry_congr_frame (fun x hx => ?_) j
    exact hbytes x (outside_of_not_reserved (hx ▸ hres)) (hx ▸ hset)
  obtain ⟨hf', hgrows⟩ := hf.congr htables
  have hblocks : ∀ h ∈ s.services.heap.content, h.blocks m.memory = h.blocks s.memory := by
    intro h hh
    obtain ⟨cs, hsound⟩ := hs.heapSound hh
    have hformed := hsound.formed.congr (t := m.memory) fun x hx => hothers x
      (Sharing.others_of_heap (Sharing.mem_heapFrames.mpr
        ⟨_, s.heap_sharing hh, hsound.formed.frame_of_inHeaders hx⟩))
    exact hformed.blocks_eq.trans hsound.formed.blocks_eq.symm
  refine ⟨rfl, rfl, rfl, fun root hroot a => ?_, hblocks, ?_, fun x hx => hothers x ?_⟩
  · refine Services.translate_congr (S := s.services) (T := { s.services with machine := m }) rfl
      fun v hv => ?_
    rw [(hs.spaces v hv).1]
    exact FourLevel.translate_congr hf hf' hroot hroot (hgrows.leaves _ hroot) a
  · exact Services.heapStats_congr (S := s.services) (T := { s.services with machine := m }) rfl
      hblocks
  · exact Sharing.mem_others.mpr (hx.imp_right .inl)

theorem Reachable.framesAgain (hs : Reachable boot p s)
    (hnull : ¬ p.Available boot.map p.directMap.nullFrame) : ∃ t, s.FramesAgain boot p t := by
  have hsound := hs.sound hnull
  obtain ⟨hsupported, m₀, m₁, hfirst⟩ := hs.booted
  rcases hrun : (FrameAllocator.init boot).run s.machine with ⟨o, m⟩
  -- what the start of the frame allocator comes to does not depend on the machine
  have hsame := (init_outcome_eq boot s.machine).trans (init_outcome_eq boot m₀).symm
  rw [hrun, hfirst] at hsame
  obtain rfl : o = .done p := hsame
  obtain ⟨-, hbits, hbytes⟩ := init_spec hrun
  have hrequests := preserves_init boot s.machine
  rw [hrun] at hrequests
  have hstage := Services.run_initFrames_of_some hsupported hsound.content_frames hrun
  have hname : s.services.frames.name = "PMM" := by rw [hsound.frames]
  rw [hname] at hstage
  exact ⟨_, hstage, hsound.spared fun x hx _ => hbytes x hx, hrequests, hbits, hbytes⟩

theorem Reachable.spacesAgain (hs : Reachable boot p s)
    (hnull : ¬ p.Available boot.map p.directMap.nullFrame)
    (hspaces : s.services.spaces.content ≠ none) : ∃ f t, s.SpacesAgain boot p f t := by
  have hsound := hs.sound hnull
  obtain ⟨old, hold⟩ := Option.ne_none_iff_exists'.mp hspaces
  have hboot := (hsound.spaces old hold).2
  have hp := hsound.shared.backed.toPlaced
  rcases hrun : (AddressSpaces.init p.paging boot).run (World.mk s.machine p) with ⟨o, w⟩
  obtain ⟨used, hk, hf⟩ := AddressSpaces.keeps_init (LendsFresh.lawful p s.memory) (P := p.paging)
    (p := p.fourLevel) rfl (LendsFresh.nil hsound.shared.backed.toSound) hrun
  have hft := hk.footprint
  have hspared {m : Machine} (hm : m.memory = w.machine.memory) :
      s.Spared { s.services with machine := m } := by
    refine hsound.spared fun x hx hset => ?_
    rw [hm]
    refine hft.bytes x hx fun hfresh => ?_
    have hclear := hfresh.2.1
    rw [hset] at hclear
    cases hclear
  rcases AddressSpaces.requests_init FrameAllocator.silent_take (p := p.fourLevel) rfl hrun with
    ⟨hdone, hrequests⟩ | ⟨v, bits, rfl, hbits, hrequests⟩
  · obtain ⟨f, m, hstage, hmemory, hkept, hfault⟩ :=
      Services.run_initSpaces_of_not_done hsound.content_frames hrun hdone
    rw [← hmemory] at hft
    refine ⟨f, _, hstage, hspared hmemory, hft, .inr ⟨?_, hkept.trans hrequests⟩⟩
    refine hfault.symm.imp_right fun ho => ?_
    rw [ho] at hrun
    exact (AddressSpaces.init_stops hp (p := p.fourLevel) rfl hsound.unbounded hboot).stopped hrun
  · have hstage := Services.run_initSpaces_of_some hsound.content_frames hold hrun
    rw [hsound.spacesName] at hstage
    have hroot : w.machine.memory.Finds [v.kernelRoot.frame] v.kernelRoot.frame []
        v.kernelRoot.frame := ⟨List.mem_singleton_self _, by simp, rfl⟩
    exact ⟨_, _, hstage, hspared rfl, hft,
      .inl ⟨rfl, v.kernelRoot, bits, hk.fresh (hf.used hroot), hbits, hrequests⟩⟩

theorem Reachable.heapAgain (hs : Reachable boot p s)
    (hnull : ¬ p.Available boot.map p.directMap.nullFrame)
    (hheap : s.services.heap.content ≠ none) : ∃ f t, s.HeapAgain p f t := by
  have hsound := hs.sound hnull
  obtain ⟨old, hold⟩ := Option.ne_none_iff_exists'.mp hheap
  have hft := HeapState.footprint_init hsound.backed_nil
  have hrequests := KernelHeap.preserves_init p s.machine
  rcases KernelHeap.init_cases hsound.backed_nil with
    ⟨e, hrun, hnone⟩ | ⟨h, m, u, first, c, hrun, hcreated⟩
  · have hstage := Services.run_initHeap_of_refused hsound.content_frames hrun
    exact ⟨_, _, hstage, hsound.spared fun _ _ _ => rfl, rfl, .inl ⟨⟨e, rfl⟩, hnone, rfl⟩⟩
  · have hstage := Services.run_initHeap_of_some hsound.content_frames hold hrun
    have hgained := HeapState.gained_of_granted hsound.backed_nil hcreated.granted hcreated.bits
    rw [hsound.heapName] at hstage
    rw [hrun] at hft hrequests
    simp only [HeapState.mem_gained] at hft
    refine ⟨_, _, hstage, hsound.spared fun x hx hset => hft.bytes x hx fun hfresh => ?_, hrequests,
      .inr ⟨rfl, first, hgained, ?_, hft⟩⟩
    · have hclear := hfresh.2.1
      rw [hset] at hclear
      cases hclear
    · rw [← freeFrames_add_gained fun i hi hset => hft.bits i hi hset id, hgained,
        List.length_range']

/-- The states that allowed requests and repeated stages lead to, however each of them ends. The frame
allocator is not started again: it takes over all usable memory, which nobody may be using then. -/
inductive Continued (boot : BootInfo) (p : FrameAllocator) : Session → Prop
  | reached {s : Session} (hs : Reachable boot p s) : Continued boot p s
  | step {s : Session} (q : ServiceRequest) (hs : Continued boot p s) (hq : s.Allowed q) :
      Continued boot p (s.perform boot p q)
  | spacesAgain {s : Session} (hs : Continued boot p s)
      (hspaces : s.services.spaces.content ≠ none) :
      Continued boot p { s with services := ((Services.initSpaces boot).run s.services).2 }
  | heapAgain {s : Session} (hs : Continued boot p s) (hheap : s.services.heap.content ≠ none) :
      Continued boot p { s with services := (Services.initHeap.run s.services).2 }

theorem Sound.initSpacesAgain (hs : s.Sound boot p) (hspaces : s.services.spaces.content ≠ none) :
    Sound boot p { s with services := ((Services.initSpaces boot).run s.services).2 } := by
  obtain ⟨old, hold⟩ := Option.ne_none_iff_exists'.mp hspaces
  rcases hrun : (AddressSpaces.init p.paging boot).run (World.mk s.machine p) with ⟨o, w⟩
  obtain ⟨used, hk, -⟩ := AddressSpaces.keeps_init (LendsFresh.lawful p s.memory) (P := p.paging)
    (p := p.fourLevel) rfl (LendsFresh.nil hs.shared.backed.toSound) hrun
  have hshared := hs.shared.of_fresh hk.footprint
  cases hdone : o.done? with
  | some v =>
    obtain rfl := Outcome.eq_done hdone
    rw [Services.run_initSpaces_of_some hs.content_frames hold hrun]
    exact hs.of_machine rfl hs.roots hshared rfl
  | none =>
    obtain ⟨f, m, hstage, hmemory, -⟩ :=
      Services.run_initSpaces_of_not_done hs.content_frames hrun hdone
    rw [hstage]
    exact hs.of_machine rfl hs.roots hshared hmemory

theorem Sound.initHeapAgain (hs : s.Sound boot p) (hheap : s.services.heap.content ≠ none) :
    Sound boot p { s with services := (Services.initHeap.run s.services).2 } := by
  obtain ⟨old, hold⟩ := Option.ne_none_iff_exists'.mp hheap
  rcases KernelHeap.init_cases hs.backed_nil with ⟨e, hrun, -⟩ | ⟨h, m, -, -, -, hrun, -⟩
  · rw [Services.run_initHeap_of_refused hs.content_frames hrun]
    exact hs.of_machine rfl hs.roots hs.shared rfl
  · have hft := HeapState.footprint_init hs.backed_nil
    simp only [HeapState.mem_gained, hrun] at hft
    rw [Services.run_initHeap_of_some hs.content_frames hold hrun]
    exact hs.of_machine rfl hs.roots (hs.shared.of_fresh hft) rfl

theorem Continued.sound (hs : Continued boot p s)
    (hnull : ¬ p.Available boot.map p.directMap.nullFrame) : Sound boot p s := by
  induction hs with
  | reached hs => exact hs.sound hnull
  | step q _ hq ih => exact ih.perform hq
  | spacesAgain _ hspaces ih => exact ih.initSpacesAgain hspaces
  | heapAgain _ hheap ih => exact ih.initHeapAgain hheap

end Session

/-- A stage that is run again always ends everything, and spares what callers have; but it leaves
traces, for it builds its part before the slot can refuse it. Starting the frame allocator makes the
bitmap what it was at first, so that every frame that was handed out is free again. Starting the
address spaces takes free frames, and writes to nothing else: if it comes to that, it makes its own
root table active before it is refused. Creating a heap takes sixteen frames, or nothing if so many
are not free in a row. -/
theorem repeated_stages {boot : BootInfo} {p : FrameAllocator} {s : Session}
    (hs : s.Reachable boot p) (hnull : ¬ p.Available boot.map p.directMap.nullFrame) :
    (∃ t, s.FramesAgain boot p t) ∧
    (s.services.spaces.content ≠ none → ∃ f t, s.SpacesAgain boot p f t) ∧
    (s.services.heap.content ≠ none → ∃ f t, s.HeapAgain p f t) :=
  ⟨hs.framesAgain hnull, hs.spacesAgain hnull, hs.heapAgain hnull⟩

namespace SixtyFourPages

def boot : BootInfo where
  map := [⟨⟨0⟩, 0x40000, .usable⟩]
  directOffset := 0xFFFF800000000000

def allocator : FrameAllocator where
  bitmapFrame := .ofIndex 1
  totalFrames := 64
  directMap := { offset := 0xFFFF800000000000 }

def services : Services :=
  ((Services.initFrames boot).run { machine := ⟨.zeroed, #[], #[]⟩ }).2

theorem init_eq :
    (Services.initFrames boot).run { machine := ⟨.zeroed, #[], #[]⟩ } = (.done .ok, services) :=
  Prod.ext rfl rfl

def withHeap : Session :=
  (Session.mk services [] [] [] []).perform boot allocator .initHeap

theorem reachable_withHeap : withHeap.Reachable boot allocator :=
  (Session.Reachable.start init_eq rfl).step .initHeap rfl

theorem nullFrame_not_available :
    ¬ allocator.Available boot.map allocator.directMap.nullFrame := by decide

end SixtyFourPages

namespace TenPages

def boot : BootInfo where
  map := [⟨⟨0⟩, 0xA000, .usable⟩]
  directOffset := 0xFFFF800000000000

def allocator : FrameAllocator where
  bitmapFrame := .ofIndex 1
  totalFrames := 10
  directMap := { offset := 0xFFFF800000000000 }

def services : Services :=
  ((Services.initFrames boot).run { machine := ⟨.zeroed, #[], #[]⟩ }).2

theorem init_eq :
    (Services.initFrames boot).run { machine := ⟨.zeroed, #[], #[]⟩ } = (.done .ok, services) :=
  Prod.ext rfl rfl

def withSpaces : Session :=
  (Session.mk services [] [] [] []).perform boot allocator .initSpaces

theorem reachable_withSpaces : withSpaces.Reachable boot allocator :=
  (Session.Reachable.start init_eq rfl).step .initSpaces rfl

theorem nullFrame_not_available :
    ¬ allocator.Available boot.map allocator.directMap.nullFrame := by decide

def root : RootTable :=
  ⟨.ofIndex 2, ⟨0xFFFF800000002000⟩⟩

end TenPages

/-- The heap has the same statistics after the frame allocator or the heap was started again, and the
kernel's address space the same translations after it was built again. -/
theorem repeated_stages_of_sixtyFourPages :
    (∃ t, (Services.initFrames SixtyFourPages.boot).run SixtyFourPages.withHeap.services =
        (.stopped (.halted .frames (.initializedTwice "PMM")), t) ∧
      (Services.heapStats.run t).1.done? = some ⟨65536, 65504, 0, 1, 1⟩) ∧
    (∃ f t, Services.initHeap.run SixtyFourPages.withHeap.services = (.stopped f, t) ∧
      (Services.heapStats.run t).1.done? = some ⟨65536, 65504, 0, 1, 1⟩) ∧
    ∃ f t, (Services.initSpaces TenPages.boot).run TenPages.withSpaces.services =
        (.stopped f, t) ∧
      ((Services.translate TenPages.root ⟨0xFFFF800000001234⟩).run t).1.done? =
        some (some ⟨0x1234⟩) := by
  have hstats : (Services.heapStats.run SixtyFourPages.withHeap.services).1.done? =
      some ⟨65536, 65504, 0, 1, 1⟩ := by decide +kernel
  have htranslate : ((Services.translate TenPages.root ⟨0xFFFF800000001234⟩).run
      TenPages.withSpaces.services).1.done? = some (some ⟨0x1234⟩) := by decide +kernel
  have hroot : TenPages.root.frame ∈ TenPages.withSpaces.roots := by decide +kernel
  have hspaces : TenPages.withSpaces.services.spaces.content ≠ none := by decide +kernel
  have hheap : SixtyFourPages.withHeap.services.heap.content ≠ none := by decide +kernel
  obtain ⟨⟨t, hframes⟩, -, hcreate⟩ :=
    repeated_stages SixtyFourPages.reachable_withHeap SixtyFourPages.nullFrame_not_available
  obtain ⟨f, u, hagain⟩ := hcreate hheap
  obtain ⟨-, hbuild, -⟩ :=
    repeated_stages TenPages.reachable_withSpaces TenPages.nullFrame_not_available
  obtain ⟨g, v, hbuilt⟩ := hbuild hspaces
  refine ⟨⟨t, hframes.run, ?_⟩, ⟨f, u, hagain.run, ?_⟩, g, v, hbuilt.run, ?_⟩
  · rw [hframes.spared.stats, hstats]
  · rw [hagain.spared.stats, hstats]
  · rw [hbuilt.spared.translations _ hroot, htranslate]

/-- All frames that were handed out are free again after the frame allocator was started again;
frames are lost to a heap that is not installed; and so are those of an address space that is not
installed, but active. -/
theorem repeated_stages_leave_traces :
    (SixtyFourPages.withHeap.Reachable SixtyFourPages.boot SixtyFourPages.allocator ∧
      SixtyFourPages.allocator.freeFrames SixtyFourPages.withHeap.memory = 46 ∧
      (∃ t, (Services.initFrames SixtyFourPages.boot).run SixtyFourPages.withHeap.services =
          (.stopped (.halted .frames (.initializedTwice "PMM")), t) ∧
        SixtyFourPages.allocator.freeFrames t.machine.memory = 62) ∧
      ∃ f t, Services.initHeap.run SixtyFourPages.withHeap.services = (.stopped f, t) ∧
        SixtyFourPages.allocator.freeFrames t.machine.memory = 30) ∧
    TenPages.withSpaces.Reachable TenPages.boot TenPages.allocator ∧
      TenPages.allocator.freeFrames TenPages.withSpaces.memory = 4 ∧
      TenPages.withSpaces.machine.requests = #[.activate 0x2000] ∧
      ∃ f t, (Services.initSpaces TenPages.boot).run TenPages.withSpaces.services =
          (.stopped f, t) ∧
        TenPages.allocator.freeFrames t.machine.memory = 0 ∧
        t.machine.requests = #[.activate 0x2000, .activate 0x6000] := by
  have hframes : SixtyFourPages.allocator.freeFrames ((Services.initFrames
      SixtyFourPages.boot).run SixtyFourPages.withHeap.services).2.machine.memory = 62 := by
    decide +kernel
  have hheap : SixtyFourPages.withHeap.services.heap.content ≠ none ∧
      SixtyFourPages.allocator.freeFrames
        (Services.initHeap.run SixtyFourPages.withHeap.services).2.machine.memory = 30 := by
    decide +kernel
  have hspaces : TenPages.withSpaces.services.spaces.content ≠ none ∧
      TenPages.allocator.freeFrames TenPages.withSpaces.memory = 4 ∧
      TenPages.withSpaces.machine.requests = #[.activate 0x2000] ∧
      TenPages.allocator.freeFrames ((Services.initSpaces TenPages.boot).run
        TenPages.withSpaces.services).2.machine.memory = 0 ∧
      ((Services.initSpaces TenPages.boot).run
        TenPages.withSpaces.services).2.machine.requests =
          #[.activate 0x2000, .activate 0x6000] := by
    decide +kernel
  obtain ⟨hspaces, hfree, hactive, hlost, hactivated⟩ := hspaces
  obtain ⟨t, hrun, -⟩ := SixtyFourPages.reachable_withHeap.framesAgain
    SixtyFourPages.nullFrame_not_available
  obtain ⟨f, u, hrun', -⟩ := SixtyFourPages.reachable_withHeap.heapAgain
    SixtyFourPages.nullFrame_not_available hheap.1
  obtain ⟨g, v, hrun'', -⟩ := TenPages.reachable_withSpaces.spacesAgain
    TenPages.nullFrame_not_available hspaces
  rw [hrun] at hframes
  rw [hrun'] at hheap
  rw [hrun''] at hlost hactivated
  exact ⟨⟨SixtyFourPages.reachable_withHeap, by decide +kernel, ⟨t, hrun, hframes⟩,
    f, u, hrun', hheap.2⟩, TenPages.reachable_withSpaces, hfree, hactive, g, v, hrun'', hlost,
    hactivated⟩

end MemoryManager
