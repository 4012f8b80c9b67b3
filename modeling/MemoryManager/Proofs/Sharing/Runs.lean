import MemoryManager.Proofs.Heap.Payloads
import MemoryManager.Proofs.Sharing.Footprints

namespace MemoryManager

open FrameAllocator FourLevel Memory

/-- A heap on a machine that it shares with others, the frames that it obtained, and what it handed
out. -/
structure HeapShare where
  heap : KernelHeap
  frames : List Nat
  live : List Allocation

namespace HeapShare

def on (h : HeapShare) (m : Machine) : HeapState :=
  ⟨⟨m, h.heap⟩, h.frames, h.live⟩

def of (s : HeapState) : HeapShare :=
  ⟨s.world.part, s.frames, s.live⟩

end HeapShare

/-- The clients of a frame allocator on their machine: the frames that someone holds, the root tables
of the address spaces, and the heap, once there is one. -/
structure Sharing where
  machine : Machine
  held : List Nat
  roots : List PhysicalFrame
  heap : Option HeapShare

/-- A request of one of the clients, or a write by whoever holds frames or has memory of the heap. -/
inductive SharingRequest where
  | frames (q : FrameRequest)
  | space (q : SpaceRequest)
  | destroy (root : RootTable)
  | createHeap
  | alloc (size : UInt64)
  | release (a : VirtualAddress)

namespace SharingRequest

/-- Whether the request is about the address space below `r`. -/
def On (r : PhysicalFrame) : SharingRequest → Prop
  | space q => q.On r
  | destroy root => root.frame = r
  | _ => False

/-- Whether the request is one to the heap. -/
def OnHeap : SharingRequest → Prop
  | createHeap | alloc _ | release _ => True
  | _ => False

/-- Whether the request is a write. -/
def Writes (q : SharingRequest) : Prop :=
  ∃ m, q = frames (.elsewhere m)

end SharingRequest

/-- What a frame may be used for. -/
inductive Party where
  | bitmap
  | tables
  | heap
  | holder

namespace Sharing

/-- The frame that appears at the null address, if the allocator could hand it out. Nobody may. -/
def withheld (p : FrameAllocator) : List Nat :=
  [p.directMap.nullFrame].filter fun i => i < p.totalFrames ∧ p.isReserved i = false

abbrev memory (s : Sharing) : Memory :=
  s.machine.memory

def spaces (p : FrameAllocator) (s : Sharing) : Spaces :=
  ⟨⟨s.machine, p⟩, s.roots, []⟩

def heapFrames (s : Sharing) : List Nat :=
  s.heap.elim [] HeapShare.frames

/-- The frames that no table may lie in. -/
def others (p : FrameAllocator) (s : Sharing) : List Nat :=
  s.held ++ (s.heapFrames ++ withheld p)

/-- Whether clients may write the byte. -/
def Writable (s : Sharing) (x : Nat) : Prop :=
  x / 4096 ∈ s.held ∨ ∃ h ∈ s.heap, ∃ a ∈ h.live, a.Holds h.heap.directMap x

/-- Whether the party uses frame `i`. -/
def Owns (p : FrameAllocator) (s : Sharing) : Party → Nat → Prop
  | .bitmap, i => ∃ x, x / 4096 = i ∧ ¬ p.bitmap.Outside x
  | .tables, i => ∃ r is t, s.memory.Finds s.roots r is t ∧ t.index = i
  | .heap, i => ∃ h ∈ s.heap, i ∈ h.frames
  | .holder, i => i ∈ s.held

def onHeap (p : FrameAllocator) (s : Sharing) (q : HeapRequest) : Sharing :=
  match s.heap with
  | none => s
  | some h =>
    let t := (h.on s.machine).perform p q
    { s with machine := t.world.machine, heap := some (.of t) }

def perform (fl : FourLevel) (p : FrameAllocator) (s : Sharing) : SharingRequest → Sharing
  | .frames q =>
    { s with
      machine := q.run p s.machine
      held := q.grants p s.machine ++ s.held.filter fun i => ¬ q.Gives i }
  | .space q =>
    let t := (s.spaces p).perform fl q
    { s with machine := t.world.machine, roots := t.roots }
  | .destroy root =>
    { s with
      machine := ((fl.destroy root : Action (World FrameAllocator) Empty Unit).run
        ⟨s.machine, p⟩).2.machine
      held := s.held.filter fun i => i ∉ (lowerFrames s.memory root.frame).map PhysicalFrame.index
      roots := s.roots.filter fun r => r ≠ root.frame }
  | .createHeap =>
    let t := ((KernelHeap.init p).run s.machine).2
    { s with
      machine := t
      heap := ((KernelHeap.init p).run s.machine).1.done?.map fun h =>
        ⟨h, HeapState.gained p s.memory t.memory, []⟩ }
  | .alloc size => s.onHeap p (.alloc size)
  | .release a => s.onHeap p (.release a)

/-- What clients may do: they give back only frames that they hold and memory that the heap handed
out, they write to nothing else, and an address space is given back once all that it maps is held. -/
def Allowed (p : FrameAllocator) (s : Sharing) : SharingRequest → Prop
  | .frames (.elsewhere m) => ∀ x, ¬ s.Writable x → m.memory.byte x = s.memory.byte x
  | .frames q => ∀ i, q.Gives i → i ∈ s.held
  | .space q => (s.spaces p).Allowed q
  | .destroy root => root.frame ∈ s.roots ∧ ∀ is f, is.length = 4 →
    s.memory.tableAt root.frame is = some f → f.index ∈ s.held
  | .createHeap => s.heap = none
  | .alloc _ => True
  | .release a => ∃ h ∈ s.heap, ∃ b ∈ h.live, b.address = a

/-- The states that runs of allowed requests lead to, however each of them ends. -/
inductive Reachable (fl : FourLevel) (p : FrameAllocator) (m : Machine) : Sharing → Prop
  | start : Reachable fl p m ⟨m, [], [], none⟩
  | step {s : Sharing} (q : SharingRequest) (hs : Reachable fl p m s) (hq : s.Allowed p q) :
      Reachable fl p m (s.perform fl p q)

/-- The frames are shared out: nobody else uses the frames of a table, and the other frames are used
for one thing each. -/
structure Parted (fl : FourLevel) (p : FrameAllocator) (s : Sharing) : Prop where
  nodup : (s.others p).Nodup
  tables : ∃ used, LendsBeside p (s.others p) s.memory used ⟨s.machine, p⟩ ∧
    Forest fl s.memory s.roots used

/-- The invariant. -/
structure Sound (fl : FourLevel) (p : FrameAllocator) (s : Sharing) : Prop
    extends Parted fl p s where
  heap : ∀ h ∈ s.heap, ∃ cs, (h.on s.machine).Sound p cs

/-- What a request leaves as it is: the address spaces that it is not about; the frames that stay
held; and the frames of the heap, if it is none to the heap. A write may change what is held or handed
out. -/
structure Undisturbed (q : SharingRequest) (s t : Sharing) : Prop where
  roots : ∀ r ∈ s.roots, ¬ q.On r → r ∈ t.roots
  leaves : ∀ r ∈ s.roots, ¬ q.On r → ∀ is, is.length = 3 → ∀ i,
    t.memory.entryAt r is i = s.memory.entryAt r is i
  held : ¬ q.Writes → ∀ x, x / 4096 ∈ s.held → x / 4096 ∈ t.held →
    t.memory.byte x = s.memory.byte x
  heap : ¬ q.OnHeap → t.heap = s.heap ∧ ∀ h ∈ s.heap, ∀ x, x / 4096 ∈ h.frames →
    (q.Writes → ∀ a ∈ h.live, ¬ a.Holds h.heap.directMap x) → t.memory.byte x = s.memory.byte x

variable {fl : FourLevel} {p : FrameAllocator} {s t : Sharing} {q : SharingRequest} {i : Nat}

@[simp] theorem roots_change (fl : FourLevel) (p : FrameAllocator) (s : Sharing) (root : RootTable)
    (q : PageRequest) : (s.perform fl p (.space (.change root q))).roots = s.roots := rfl

theorem allowed_change (p : FrameAllocator) (s : Sharing) (root : RootTable) (q : PageRequest) :
    s.Allowed p (.space (.change root q)) ↔ root.frame ∈ s.roots := Iff.rfl

theorem perform_elsewhere (fl : FourLevel) (p : FrameAllocator) (s : Sharing) (m : Machine) :
    s.perform fl p (.frames (.elsewhere m)) = { s with machine := m } := by
  rw [perform, Holding.filter_not_gives (q := .elsewhere m) (fun _ hg => hg)]
  rfl

theorem mem_withheld : i ∈ withheld p ↔
    i = p.directMap.nullFrame ∧ i < p.totalFrames ∧ p.isReserved i = false := by
  simp [withheld]

theorem mem_heapFrames : i ∈ s.heapFrames ↔ ∃ h ∈ s.heap, i ∈ h.frames := by
  cases hs : s.heap <;> simp [heapFrames, hs]

theorem mem_others : i ∈ s.others p ↔ i ∈ s.held ∨ i ∈ s.heapFrames ∨ i ∈ withheld p := by
  simp [others]

theorem others_of_held (hi : i ∈ s.held) : i ∈ s.others p :=
  mem_others.mpr (.inl hi)

theorem others_of_heap (hi : i ∈ s.heapFrames) : i ∈ s.others p :=
  mem_others.mpr (.inr (.inl hi))

theorem Undisturbed.refl (q : SharingRequest) (s : Sharing) : Undisturbed q s s :=
  ⟨fun _ hr _ => hr, fun _ _ _ _ _ _ => rfl, fun _ _ _ _ => rfl,
    fun _ => ⟨rfl, fun _ _ _ _ _ => rfl⟩⟩

namespace Parted

variable {given written : Nat → Prop} {m : Memory} {new : List Nat}

theorem not_held (h : Parted fl p s) (hi : i ∈ s.heapFrames ∨ i ∈ withheld p) : i ∉ s.held :=
  fun hheld => (List.nodup_append.mp h.nodup).2.2 i hheld i (List.mem_append.mpr hi) rfl

/-- The heap's frames are all handed out by the allocator. -/
theorem backed (h : Parted fl p s) :
    KernelHeap.Backed p p.directMap s.memory s.heapFrames := by
  obtain ⟨hnodup, used, hk, -⟩ := h
  have hs : p.Sound s.memory := hk.toSound
  refine ⟨hs, rfl, ?_, ?_, ?_⟩
  · exact (List.nodup_append.mp (List.nodup_append.mp hnodup).2.1).1
  · exact fun i hi => hk.set i (others_of_heap hi)
  · intro hlt
    cases hres : p.isReserved p.directMap.nullFrame with
    | true => exact hs.reserved_set _ hlt hres
    | false =>
      have hnull := mem_withheld.mpr ⟨rfl, hlt, hres⟩
      exact (hk.set _ (mem_others.mpr (.inr (.inr hnull)))).2.2

theorem not_reserved (h : Parted fl p s) (hi : i ∈ s.others p) : p.isReserved i = false := by
  obtain ⟨-, used, hk, -⟩ := h
  exact (hk.set i hi).2.1

theorem not_fresh (h : Parted fl p s) (hi : i ∈ s.others p) : ¬ p.Fresh s.memory m i := by
  obtain ⟨-, used, hk, -⟩ := h
  intro hfresh
  have hset := (hk.set i hi).2.2
  rw [hfresh.2.1] at hset
  cases hset

/-- What others use is left as it is by an operation that does not write to it. -/
theorem byte_eq (h : Parted fl p s) (hft : p.Footprint given written s.memory m) {x : Nat}
    (hx : x / 4096 ∈ s.others p) (hnot : ¬ written (x / 4096)) : m.byte x = s.memory.byte x :=
  hft.bytes x (outside_of_not_reserved (h.not_reserved hx)) hnot

/-- Fresh frames are nobody else's. -/
theorem nodup_append (h : Parted fl p s) (hnew : new.Nodup)
    (hfresh : ∀ i ∈ new, p.Fresh s.memory m i) {kept : List Nat}
    (hkept : kept.Sublist (s.others p)) : (new ++ kept).Nodup := by
  refine List.nodup_append.mpr ⟨hnew, h.nodup.sublist hkept, ?_⟩
  intro i hi j hj heq
  obtain rfl := heq
  exact h.not_fresh (hkept.subset hj) (hfresh i hi)

/-- The frames are shared out still after an operation that does not touch tables, if nobody has got
anything but fresh frames. -/
theorem of_footprint (h : Parted fl p s) (hroots : t.roots = s.roots)
    (hft : p.Footprint given written s.memory t.memory)
    (hkept : ∀ i, i ∉ s.others p → p.bitmap.test s.memory i = true → ¬ given i ∧ ¬ written i)
    (hnodup : (t.others p).Nodup)
    (hothers : ∀ i ∈ t.others p, i ∈ s.others p ∧ ¬ given i ∨ p.Fresh s.memory t.memory i) :
    Parted fl p t ∧ Grows s.roots s.memory t.memory := by
  obtain ⟨-, used, hk, hf⟩ := h
  have hsafe : ∀ u ∈ used, ¬ given u.index ∧ ¬ written u.index := fun u hu =>
    hkept u.index (hk.apart u hu) (hk.held u hu).2.2
  obtain ⟨hk', hf', hgrows⟩ := hk.pass hf hft (List.Subset.refl used) hsafe
    (List.Subset.refl s.roots) hf.used hothers
  refine ⟨⟨hnodup, used, hk', ?_⟩, hgrows⟩
  rwa [hroots]

/-- An operation that writes only to what it gives back leaves alone the heap, the frames that stay held
and the address spaces that stay, if it gives back none of their tables. -/
theorem of_given [DecidablePred given] (h : Parted fl p s)
    (hft : p.Footprint given given s.memory t.memory) (hheap : t.heap = s.heap)
    (hheld : t.held = new ++ s.held.filter fun i => ¬ given i) (hnew : new.Nodup)
    (hfresh : ∀ i ∈ new, p.Fresh s.memory t.memory i)
    (hgiven : ∀ i ∈ s.others p, i ∉ s.held → ¬ given i) (hroots : t.roots ⊆ s.roots)
    (hstay : ∀ r ∈ s.roots, ¬ q.On r → r ∈ t.roots)
    (htables : ∀ {r is u}, s.memory.Finds t.roots r is u → ¬ given u.index) :
    Parted fl p t ∧ Undisturbed q s t := by
  obtain ⟨-, used, hk, hf⟩ := id h
  have hothers : t.others p = new ++ (s.held.filter (fun i => ¬ given i) ++
      (s.heapFrames ++ withheld p)) := by
    rw [others, hheld, List.append_assoc, heapFrames, hheap, heapFrames]
  have hrest : ∀ i ∈ t.others p, i ∈ s.others p ∧ ¬ given i ∨ p.Fresh s.memory t.memory i := by
    intro i hi
    simp only [hothers, List.mem_append, List.mem_filter, decide_eq_true_eq] at hi
    rcases hi with hi | ⟨hi, hkept⟩ | hi
    · exact .inr (hfresh i hi)
    · exact .inl ⟨others_of_held hi, hkept⟩
    · have hin := mem_others.mpr (.inr hi)
      exact .inl ⟨hin, hgiven i hin (h.not_held hi)⟩
  have hkept : ∀ u ∈ used.filter fun u => ¬ given u.index, ¬ given u.index := fun u hu =>
    of_decide_eq_true (List.mem_filter.mp hu).2
  have hfinds : ∀ {r is u}, s.memory.Finds t.roots r is u →
      u ∈ used.filter fun u => ¬ given u.index := fun hu =>
    List.mem_filter.mpr ⟨hf.used (hu.mono hroots), decide_eq_true (htables hu)⟩
  obtain ⟨hk', hf', hgrows⟩ := hk.pass hf hft List.filter_sublist.subset
    (fun u hu => ⟨hkept u hu, hkept u hu⟩) hroots hfinds hrest
  refine ⟨⟨?_, _, hk', hf'⟩, hstay, fun r hr hon => hgrows.leaves r (hstay r hr hon), ?_,
    fun _ => ⟨hheap, ?_⟩⟩
  · rw [hothers]
    exact h.nodup_append hnew hfresh (List.filter_sublist.append_right _)
  · intro _ x hx hx'
    rw [hheld, List.mem_append, List.mem_filter, decide_eq_true_eq] at hx'
    rcases hx' with hx' | ⟨-, hkept⟩
    · exact absurd (hfresh _ hx') (h.not_fresh (others_of_held hx))
    · exact h.byte_eq hft (others_of_held hx) hkept
  · intro k hk x hx _
    have hframe := mem_heapFrames.mpr ⟨k, hk, hx⟩
    exact h.byte_eq hft (others_of_heap hframe)
      (hgiven _ (others_of_heap hframe) (h.not_held (.inl hframe)))

/-- A request to the frame allocator gives back nothing but what is held. -/
theorem perform_frames (h : Parted fl p s) {q : FrameRequest} (helse : ∀ m, q ≠ .elsewhere m)
    (hgives : ∀ i, q.Gives i → i ∈ s.held) :
    Parted fl p (s.perform fl p (.frames q)) ∧
      Undisturbed (.frames q) s (s.perform fl p (.frames q)) := by
  obtain ⟨-, used, hk, hf⟩ := id h
  have hs : p.Sound s.memory := hk.toSound
  obtain ⟨hgrants, hfresh⟩ := q.grants_fresh hs.toPlaced s.machine
  exact h.of_given (q.footprint hs helse) rfl rfl hgrants hfresh
    (fun i _ hi hg => hi (hgives i hg)) (List.Subset.refl s.roots) (fun r hr _ => hr)
    fun hu hg => hk.apart _ (hf.used hu) (others_of_held (hgives _ hg))

/-- Address spaces take fresh frames for their tables, and write to tables. -/
theorem perform_space (h : Parted fl p s) {q : SpaceRequest} (hq : (s.spaces p).Allowed q) :
    Parted fl p (s.perform fl p (.space q)) ∧
      Undisturbed (.space q) s (s.perform fl p (.space q)) := by
  obtain ⟨hnodup, used, hk, hf⟩ := h
  obtain ⟨⟨used', hk', hf'⟩, hleaves⟩ :=
    Spaces.perform_spec (s := s.spaces p) (p := fl) hk hf hq
  have hworld : ((s.spaces p).perform fl q).world =
      ⟨(s.perform fl p (.space q)).machine, p⟩ := World.ext rfl hk'.part
  rw [hworld] at hk'
  refine ⟨⟨hnodup, used', hk'.now, hf'⟩, ?_, hleaves, ?_, fun _ => ⟨rfl, ?_⟩⟩
  · intro r hr _
    exact Spaces.mem_roots_perform fl q hr
  · exact fun _ x hx _ => hk'.bytes x (others_of_held hx)
  · exact fun k hk x hx _ => hk'.bytes x (others_of_heap (mem_heapFrames.mpr ⟨k, hk, hx⟩))

/-- What an address space takes with it when it is given back is one of its tables, or held. -/
theorem footprint_destroy (h : Parted fl p s) {root : RootTable} (hroot : root.frame ∈ s.roots)
    (hleaf : ∀ is f, is.length = 4 → s.memory.tableAt root.frame is = some f →
      f.index ∈ s.held) :
    p.Footprint (· ∈ (lowerFrames s.memory root.frame).map PhysicalFrame.index)
      (· ∈ (lowerFrames s.memory root.frame).map PhysicalFrame.index) s.memory
      (s.perform fl p (.destroy root)).memory ∧
    ∀ f ∈ lowerFrames s.memory root.frame,
      (∃ is, s.memory.Finds s.roots root.frame is f) ∨ f.index ∈ s.held := by
  obtain ⟨-, used, hk, hf⟩ := h
  have hs : p.Sound s.memory := hk.toSound
  constructor
  · have happart : Apart s.memory s.roots root.frame := fun is f hlen hnames js hjs =>
      hk.apart f (hf.used hjs) (others_of_held (hleaf is f hlen hnames))
    have hdestroy := run_destroy hf hs.toPlaced (fun u hu => (hk.held u hu).2.1) happart hroot rfl
      (w := ⟨s.machine, p⟩) rfl rfl
    obtain ⟨m', hgives, hback⟩ :=
      run_gives hs.toPlaced (lowerFrames s.memory root.frame) s.machine
    have hrun := hdestroy.trans hgives
    have hmemory : (s.perform fl p (.destroy root)).memory = m'.memory := by
      rw [memory, perform, hrun]
    rw [hmemory]
    exact hback.footprint hs
  · intro f hmem
    obtain ⟨is, hlen, hnames⟩ := tableAt_of_mem_lowerFrames hmem
    by_cases hshort : is.length ≤ 3
    · exact .inl ⟨is, hroot, hshort, hnames⟩
    · exact .inr (hleaf is f (by omega) hnames)

/-- Giving back an address space leaves alone the others, and what is not held. -/
theorem perform_destroy (h : Parted fl p s) {root : RootTable} (hroot : root.frame ∈ s.roots)
    (hleaf : ∀ is f, is.length = 4 → s.memory.tableAt root.frame is = some f →
      f.index ∈ s.held) :
    Parted fl p (s.perform fl p (.destroy root)) ∧
      Undisturbed (.destroy root) s (s.perform fl p (.destroy root)) := by
  obtain ⟨hft, hgiven⟩ := h.footprint_destroy hroot hleaf
  obtain ⟨-, used, hk, hf⟩ := id h
  refine h.of_given hft rfl (List.nil_append _).symm List.nodup_nil
    (fun i hi => absurd hi List.not_mem_nil) ?_ List.filter_sublist.subset ?_ ?_
  · intro i hi hunheld hin
    obtain ⟨f, hmem, rfl⟩ := List.mem_map.mp hin
    rcases hgiven f hmem with ⟨is, hfinds⟩ | hheld
    · exact hk.apart f (hf.used hfinds) hi
    · exact hunheld hheld
  · intro r hr hon
    exact List.mem_filter.mpr ⟨hr, decide_eq_true fun heq => hon heq.symm⟩
  · intro r is u hu hin
    have hne := of_decide_eq_true (List.mem_filter.mp hu.root).2
    have hfinds := hu.mono List.filter_sublist.subset
    obtain ⟨f, hmem, hindex⟩ := List.mem_map.mp hin
    obtain rfl : f = u := PhysicalFrame.ext hindex
    rcases hgiven f hmem with ⟨js, hown⟩ | hheld
    · exact hne (hf.unique hfinds hown).1
    · exact hk.apart f (hf.used hfinds) (others_of_held hheld)

/-- The heap may grow, and writes only to frames that it has afterwards. -/
theorem grow (h : Parted fl p s) (hroots : t.roots = s.roots) (hheld : t.held = s.held)
    (hframes : t.heapFrames = s.heapFrames ++ new) (hnew : new.Nodup)
    (hfresh : ∀ i ∈ new, p.Fresh s.memory t.memory i)
    (hft : p.Footprint (fun _ => False) (· ∈ s.heapFrames ++ new) s.memory t.memory)
    (hq : q.OnHeap) : Parted fl p t ∧ Undisturbed q s t := by
  have hothers : (t.others p).Perm (new ++ s.others p) := by
    rw [others, others, hheld, hframes, List.append_assoc]
    exact ((List.perm_append_comm_assoc _ _ _).append_left _).trans
      (List.perm_append_comm_assoc _ _ _)
  have hnot : ∀ i ∈ s.held, i ∉ s.heapFrames ++ new := by
    intro i hi hin
    rcases List.mem_append.mp hin with hin | hin
    · exact h.not_held (.inl hin) hi
    · exact h.not_fresh (others_of_held hi) (hfresh i hin)
  have hkept : ∀ i, i ∉ s.others p → p.bitmap.test s.memory i = true →
      ¬ False ∧ i ∉ s.heapFrames ++ new := by
    intro i hi hset
    refine ⟨id, fun hin => ?_⟩
    rcases List.mem_append.mp hin with hin | hin
    · exact hi (others_of_heap hin)
    · have hclear := (hfresh i hin).2.1
      rw [hset] at hclear
      cases hclear
  have hrest : ∀ i ∈ t.others p, i ∈ s.others p ∧ ¬ False ∨ p.Fresh s.memory t.memory i := by
    intro i hi
    rcases List.mem_append.mp (hothers.mem_iff.mp hi) with hi | hi
    · exact .inr (hfresh i hi)
    · exact .inl ⟨hi, id⟩
  have hnodup := hothers.nodup_iff.mpr (h.nodup_append hnew hfresh (List.Sublist.refl _))
  obtain ⟨h', hgrows⟩ := h.of_footprint hroots hft hkept hnodup hrest
  refine ⟨h', ?_, fun r hr _ => hgrows.leaves r hr, ?_, fun hno => absurd hq hno⟩
  · rw [hroots]
    exact fun r hr _ => hr
  · intro _ x hx _
    exact h.byte_eq hft (others_of_held hx) (hnot _ hx)

end Parted

namespace Sound

open KernelHeap

variable {h : HeapShare}

theorem frames_eq (hh : h ∈ s.heap) : h.frames = s.heapFrames := by
  rw [heapFrames, Option.mem_def.mp hh]
  rfl

/-- A heap stays in order if of its frames only those bytes are written to that it handed out. -/
theorem of_parted (hs : Sound fl p s) (ht : Parted fl p t) (hheap : t.heap = s.heap)
    (hbytes : ∀ h ∈ s.heap, ∀ x, x / 4096 ∈ h.frames →
      (∀ a ∈ h.live, ¬ a.Holds h.heap.directMap x) → t.memory.byte x = s.memory.byte x) :
    Sound fl p t := by
  refine ⟨ht, fun h hh => ?_⟩
  have hb := ht.backed
  rw [← frames_eq hh] at hb
  rw [hheap] at hh
  obtain ⟨cs, hsound⟩ := hs.heap h hh
  have hdirect := hsound.backed.directMap
  rw [hdirect] at hb
  refine ⟨cs, hsound.beside (m := t.machine) (fun x hx => ?_) hb⟩
  apply hbytes h hh x (hsound.formed.frame_of_inHeaders hx)
  exact fun a ha hholds => hsound.not_inHeaders ha hholds hx

/-- Others leave a heap as it is. -/
theorem of_undisturbed (hs : Sound fl p s) (ht : Parted fl p t) (hu : Undisturbed q s t)
    (hq : ¬ q.OnHeap) : Sound fl p t := by
  obtain ⟨hheap, hbytes⟩ := hu.heap hq
  apply hs.of_parted ht hheap
  intro h hh x hx hout
  exact hbytes h hh x hx fun _ => hout

/-- Clients write to frames that they hold, and to memory that the heap handed out. -/
theorem perform_write (hs : Sound fl p s) {m : Machine}
    (hq : ∀ x, ¬ s.Writable x → m.memory.byte x = s.memory.byte x) :
    Parted fl p (s.perform fl p (.frames (.elsewhere m))) ∧
      Undisturbed (.frames (.elsewhere m)) s (s.perform fl p (.frames (.elsewhere m))) := by
  rw [perform_elsewhere]
  have hin : ∀ x, s.Writable x → x / 4096 ∈ s.held ∨ x / 4096 ∈ s.heapFrames := by
    intro x hx
    refine hx.imp_right fun hpayload => ?_
    obtain ⟨h, hh, a, ha, hholds⟩ := hpayload
    obtain ⟨cs, hsound⟩ := hs.heap h hh
    exact mem_heapFrames.mpr ⟨h, hh, hsound.frame_mem ha hholds⟩
  have hft : p.Footprint (fun _ => False) (fun i => i ∈ s.held ∨ i ∈ s.heapFrames) s.memory
      m.memory := by
    refine hs.backed.toSound.footprint_of_written (fun i hi => hs.not_reserved ?_) fun x hx =>
      hq x fun hw => hx (hin x hw)
    exact mem_others.mpr (hi.imp_right .inl)
  obtain ⟨h', hgrows⟩ := hs.of_footprint (t := { s with machine := m }) rfl hft
    (fun i hi _ => ⟨id, fun hw => hi (mem_others.mpr (hw.imp_right .inl))⟩) hs.nodup
    fun i hi => .inl ⟨hi, id⟩
  refine ⟨h', fun r hr _ => hr, fun r hr _ => hgrows.leaves r hr,
    fun hno => absurd ⟨m, rfl⟩ hno, fun _ => ⟨rfl, ?_⟩⟩
  intro h hh x hx hpayload
  refine hq x fun hw => ?_
  rcases hw with hheld | ⟨k, hk, a, ha, hholds⟩
  · exact hs.not_held (.inl (mem_heapFrames.mpr ⟨h, hh, hx⟩)) hheld
  · obtain rfl := Option.mem_unique hk hh
    exact hpayload ⟨m, rfl⟩ a ha hholds

theorem perform_createHeap (hs : Sound fl p s) (hnone : s.heap = none) :
    Sound fl p (s.perform fl p .createHeap) ∧
      Undisturbed .createHeap s (s.perform fl p .createHeap) := by
  have hframes : s.heapFrames = [] := by
    rw [heapFrames, hnone]
    rfl
  have hb := hs.backed
  rw [hframes] at hb
  have hft := HeapState.footprint_init hb
  rcases KernelHeap.init_cases hb with ⟨e, hrun, -⟩ | ⟨h, m, -, -, -, hrun, -⟩
  · have hperform : s.perform fl p .createHeap = s := by
      rw [perform, hrun]
      obtain ⟨machine, held, roots, heap⟩ := s
      obtain rfl : heap = none := hnone
      rfl
    rw [hperform]
    exact ⟨hs, .refl _ s⟩
  · have hperform : s.perform fl p .createHeap =
        ⟨m, s.held, s.roots, some ⟨h, HeapState.gained p s.memory m.memory, []⟩⟩ := by
      rw [perform, hrun]
      rfl
    rw [hrun] at hft
    rw [hperform]
    obtain ⟨h', hu⟩ := hs.grow (q := .createHeap)
      (t := ⟨m, s.held, s.roots, some ⟨h, HeapState.gained p s.memory m.memory, []⟩⟩)
      rfl rfl (by rw [hframes]; rfl) (HeapState.nodup_gained p s.memory m.memory)
      (fun i hi => HeapState.mem_gained.mp hi) (by rw [hframes]; exact hft) trivial
    refine ⟨⟨h', fun k hk => ?_⟩, hu⟩
    obtain rfl := Option.mem_some_iff.mp hk
    exact HeapState.sound_start hb hrun

/-- A request to the heap that writes only to frames which the heap has afterwards. -/
theorem perform_onHeap (hs : Sound fl p s) (hh : h ∈ s.heap) {r : HeapRequest} {u : HeapState}
    (hu : (h.on s.machine).perform p r = u) {new : List Nat} (hframes : u.frames = h.frames ++ new)
    (hnew : new.Nodup) (hfresh : ∀ i ∈ new, p.Fresh s.memory u.memory i)
    (hft : p.Footprint (fun _ => False) (· ∈ u.frames) s.memory u.memory)
    (hsound : ∃ cs, u.Sound p cs) (hq : q.OnHeap) :
    Sound fl p (s.onHeap p r) ∧ Undisturbed q s (s.onHeap p r) := by
  have honHeap : s.onHeap p r = ⟨u.world.machine, s.held, s.roots, some (.of u)⟩ := by
    rw [onHeap, Option.mem_def.mp hh, ← hu]
  rw [frames_eq hh] at hframes
  rw [hframes] at hft
  rw [honHeap]
  obtain ⟨h', hundisturbed⟩ := hs.grow (q := q)
    (t := ⟨u.world.machine, s.held, s.roots, some (.of u)⟩) rfl rfl hframes hnew hfresh hft hq
  refine ⟨⟨h', fun k hk => ?_⟩, hundisturbed⟩
  obtain rfl := Option.mem_some_iff.mp hk
  exact hsound

theorem perform_alloc (hs : Sound fl p s) (size : UInt64) :
    Sound fl p (s.perform fl p (.alloc size)) ∧
      Undisturbed (.alloc size) s (s.perform fl p (.alloc size)) := by
  cases hheap : s.heap with
  | none =>
    have hperform : s.perform fl p (.alloc size) = s := by rw [perform, onHeap, hheap]
    rw [hperform]
    exact ⟨hs, .refl _ s⟩
  | some h =>
    obtain ⟨cs, hsound⟩ := hs.heap h hheap
    exact hs.perform_onHeap hheap rfl rfl (HeapState.nodup_gained p _ _)
      (fun i hi => HeapState.mem_gained.mp hi) (hsound.footprint_alloc size)
      (hsound.perform_alloc size) trivial

theorem perform_release (hs : Sound fl p s) (hh : h ∈ s.heap) {a : Allocation} (ha : a ∈ h.live) :
    Sound fl p (s.perform fl p (.release a.address)) ∧
      Undisturbed (.release a.address) s (s.perform fl p (.release a.address)) := by
  obtain ⟨cs, hsound⟩ := hs.heap h hh
  have ha' : a ∈ (h.on s.machine).live := ha
  exact hs.perform_onHeap hh rfl (List.append_nil _).symm List.nodup_nil
    (fun i hi => absurd hi List.not_mem_nil) (hsound.footprint_release ha')
    (hsound.perform_release ha') trivial

/-- Every allowed request keeps the invariant, and leaves alone what it is not about. -/
theorem perform (hs : Sound fl p s) (hq : s.Allowed p q) :
    Sound fl p (s.perform fl p q) ∧ Undisturbed q s (s.perform fl p q) := by
  have others {q : SharingRequest} (hno : ¬ q.OnHeap)
      (h : Parted fl p (s.perform fl p q) ∧ Undisturbed q s (s.perform fl p q)) :
      Sound fl p (s.perform fl p q) ∧ Undisturbed q s (s.perform fl p q) :=
    ⟨hs.of_undisturbed h.1 h.2 hno, h.2⟩
  cases q with
  | frames q =>
    refine others id ?_
    by_cases helse : ∃ m, q = .elsewhere m
    · obtain ⟨m, rfl⟩ := helse
      exact hs.perform_write hq
    · refine hs.perform_frames (fun m hm => helse ⟨m, hm⟩) ?_
      cases q with
      | elsewhere m => exact absurd ⟨m, rfl⟩ helse
      | _ => exact hq
  | space q => exact others id (hs.perform_space hq)
  | destroy root => exact others id (hs.perform_destroy hq.1 hq.2)
  | createHeap => exact hs.perform_createHeap hq
  | alloc size => exact hs.perform_alloc size
  | release a =>
    obtain ⟨h, hh, b, hb, rfl⟩ := hq
    exact hs.perform_release hh hb

/-- Reports and requests to the memory-management unit are nobody's. -/
theorem of_same_memory (hs : Sound fl p s) {m : Machine} (hm : m.memory = s.memory) :
    Sound fl p { s with machine := m } := by
  have hq : s.Allowed p (.frames (.elsewhere m)) := fun x _ => by rw [hm]
  have h := (hs.perform hq).1
  rwa [perform_elsewhere] at h

/-- Whoever gives nothing back, and writes only to fresh frames, leaves everyone alone. -/
theorem of_fresh (hs : Sound fl p s) {m : Machine}
    (hft : p.Footprint (fun _ => False) (p.Fresh s.memory m.memory) s.memory m.memory) :
    Sound fl p { s with machine := m } := by
  have hkept : ∀ i, i ∉ s.others p → p.bitmap.test s.memory i = true →
      ¬ False ∧ ¬ p.Fresh s.memory m.memory i := by
    intro i _ hset
    refine ⟨id, fun hfresh => ?_⟩
    rw [hfresh.2.1] at hset
    cases hset
  obtain ⟨ht, -⟩ := hs.of_footprint (t := { s with machine := m }) rfl hft hkept hs.nodup
    fun i hi => .inl ⟨hi, id⟩
  apply hs.of_parted ht rfl
  intro h hh x hx _
  have hother := others_of_heap (p := p) (mem_heapFrames.mpr ⟨h, hh, hx⟩)
  exact hs.byte_eq hft hother (hs.not_fresh hother)

/-- Whoever writes only to tables, and takes fresh frames for them, leaves the heap and the frames
that are held alone. -/
theorem of_tables (hs : Sound fl p s) {m : Machine} {roots used : List PhysicalFrame}
    (hk : LendsBeside p (s.others p) s.memory used ⟨m, p⟩)
    (hf : Forest fl m.memory roots used) : Sound fl p { s with machine := m, roots := roots } := by
  have ht : Parted fl p { s with machine := m, roots := roots } := ⟨hs.nodup, used, hk.now, hf⟩
  apply hs.of_parted ht rfl
  intro h hh x hx _
  exact hk.bytes x (others_of_heap (mem_heapFrames.mpr ⟨h, hh, hx⟩))

end Sound

end Sharing

end MemoryManager
