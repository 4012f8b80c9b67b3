import MemoryManager.Paging.TableMemory
import MemoryManager.Proofs.Frames.Ownership

namespace MemoryManager

namespace Memory

variable {m n k : Memory} {used : List PhysicalFrame} {t : PhysicalFrame} {i : TableIndex}

/-- Whether the byte lies in one of the frames. -/
def InFrames (used : List PhysicalFrame) (x : Nat) : Prop :=
  ∃ u ∈ used, x / 4096 = u.index

theorem entry_congr (h : ∀ x, InFrames used x → n.byte x = m.byte x) (ht : t ∈ used)
    (i : TableIndex) : n.entry t i = m.entry t i := by
  have hi := i.isLt
  rw [entry, entry]
  congr 1
  refine word_congr _ fun k hk => h _ ⟨t, ht, ?_⟩
  simp only [entryStart, PhysicalFrame.start]
  omega

theorem entry_congr_frame (h : ∀ x, x / 4096 = t.index → n.byte x = m.byte x) (i : TableIndex) :
    n.entry t i = m.entry t i := by
  refine entry_congr (fun x hx => ?_) (List.mem_singleton_self t) i
  obtain ⟨u, hu, hindex⟩ := hx
  rw [List.mem_singleton.mp hu] at hindex
  exact h x hindex

theorem byte_zeroTable (m : Memory) {x : Nat} (hx : x / 4096 ≠ t.index) :
    (m.zeroTable t).byte x = m.byte x := by
  rw [zeroTable, byte_fill, if_neg]
  simp only [PhysicalFrame.start]
  omega

theorem byte_setEntry (m : Memory) (i : TableIndex) (e : PageEntry) {x : Nat}
    (hx : x / 4096 ≠ t.index) : (m.setEntry t i e).byte x = m.byte x := by
  have hi := i.isLt
  apply byte_setWord_of_disjoint m _ _ x
  simp only [entryStart, PhysicalFrame.start]
  omega

end Memory

/-- What a client got that asked for something which there may be none of. -/
def Outcome.taken {ε α : Type} : Outcome ε (Option α) → List α
  | .done (some a) => [a]
  | _ => []

/-- A source that hands out frames which nobody uses. `Keeps used w` says that in state `w` its
clients use the frames `used`: it hands out none of them and leaves them alone, whatever its clients
do to them. -/
structure FrameSource.Lawful (τ : Type) [FrameSource τ]
    (Keeps : List PhysicalFrame → World τ → Prop) : Prop where
  take : ∀ {used : List PhysicalFrame} {w w' : World τ}
    {o : Outcome PagingError (Option PhysicalFrame)}, Keeps used w →
    (FrameSource.take : Action (World τ) PagingError _).run w = (o, w') →
    (∀ f ∈ o.taken, f ∉ used) ∧ Keeps (o.taken ++ used) w' ∧
      ∀ x, Memory.InFrames used x → w'.machine.memory.byte x = w.machine.memory.byte x
  beside : ∀ {used : List PhysicalFrame} {w w' : World τ}, Keeps used w → w'.part = w.part →
    (∀ x, ¬ Memory.InFrames used x → w'.machine.memory.byte x = w.machine.memory.byte x) →
    Keeps used w'

namespace FrameAllocator

/-- The allocator has handed out the frames `used`. -/
structure Lends (used : List PhysicalFrame) (w : World FrameAllocator) : Prop
    extends w.part.Sound w.machine.memory where
  held : ∀ u ∈ used, u.index < w.part.totalFrames ∧ w.part.isReserved u.index = false ∧
    w.part.bitmap.test w.machine.memory u.index = true

theorem Lends.outside {used : List PhysicalFrame} {w : World FrameAllocator} (h : Lends used w)
    {x : Nat} (hx : Memory.InFrames used x) : w.part.bitmap.Outside x := by
  obtain ⟨u, hu, hindex⟩ := hx
  apply outside_of_not_reserved
  rw [hindex]
  exact (h.held u hu).2.1

theorem Lends.take {used : List PhysicalFrame} {w w' : World FrameAllocator}
    {o : Outcome PagingError (Option PhysicalFrame)} (h : Lends used w)
    (hrun : (FrameSource.take : Action (World FrameAllocator) PagingError _).run w = (o, w')) :
    (∀ f ∈ o.taken, f ∉ used) ∧ Lends (o.taken ++ used) w' ∧
      ∀ x, Memory.InFrames used x → w'.machine.memory.byte x = w.machine.memory.byte x := by
  rcases take_cases PagingError w.part w.machine h.toPlaced with htake | ⟨first, t, htake, hg⟩
  · obtain ⟨rfl, rfl⟩ := Prod.mk.inj (htake.symm.trans hrun)
    exact ⟨fun f hf => absurd hf List.not_mem_nil, h, fun _ _ => rfl⟩
  · obtain ⟨rfl, rfl⟩ := Prod.mk.inj (htake.symm.trans hrun)
    have hindex := hg.index_ofIndex h.toPlaced
    have hclear := hg.clear first (Nat.le_refl _) (Nat.lt_succ_self _)
    have hkeeps : w.part.Keeps (fun _ => False) w.machine.memory t := hg.keeps h.toSound
    refine ⟨?_, ⟨hkeeps.sound, ?_⟩, fun x hx => hg.bytes x (h.outside hx)⟩
    · intro f hf hused
      obtain ⟨-, -, hset⟩ := h.held f hused
      rw [List.mem_singleton.mp hf, hindex, hclear] at hset
      cases hset
    · intro u hu
      rcases List.mem_append.mp hu with hu | hu
      · rw [List.mem_singleton.mp hu, hindex]
        exact hg.owned h.toSound (Nat.le_refl _) (Nat.lt_succ_self _)
      · obtain ⟨hlt, hres, hset⟩ := h.held u hu
        exact ⟨hlt, hres, hkeeps.bits u.index hlt hset id⟩

/-- Writing to the frames that are handed out changes no bit. -/
theorem Lends.test_beside {used : List PhysicalFrame} {w : World FrameAllocator} {m : Memory}
    (h : Lends used w)
    (hbytes : ∀ x, ¬ Memory.InFrames used x → m.byte x = w.machine.memory.byte x) {i : Nat}
    (hi : i < w.part.totalFrames) :
    w.part.bitmap.test m i = w.part.bitmap.test w.machine.memory i :=
  test_congr (fun x hx => hbytes x fun hin => hx (h.outside hin))
    (Nat.lt_of_lt_of_le hi w.part.total_le_size)

theorem Lends.beside {used : List PhysicalFrame} {w w' : World FrameAllocator} (h : Lends used w)
    (hpart : w'.part = w.part)
    (hbytes : ∀ x, ¬ Memory.InFrames used x →
      w'.machine.memory.byte x = w.machine.memory.byte x) : Lends used w' := by
  obtain ⟨machine, part⟩ := w'
  obtain rfl : part = w.part := hpart
  refine ⟨h.toSound.congr fun x hx => hbytes x fun hin => hx (h.outside hin), fun u hu => ?_⟩
  obtain ⟨hlt, hres, hset⟩ := h.held u hu
  exact ⟨hlt, hres, (h.test_beside hbytes hlt).trans hset⟩

theorem lawful : FrameSource.Lawful FrameAllocator Lends :=
  ⟨Lends.take, Lends.beside⟩

/-- The allocator `a` has handed out the frames `used`, and to others the frames with the numbers
`others`, whose bytes are those of the memory `m`. -/
structure LendsBeside (a : FrameAllocator) (others : List Nat) (m : Memory)
    (used : List PhysicalFrame) (w : World FrameAllocator) : Prop extends Lends used w where
  part : w.part = a
  set : ∀ i ∈ others, i < a.totalFrames ∧ a.isReserved i = false ∧
    a.bitmap.test w.machine.memory i = true
  apart : ∀ u ∈ used, u.index ∉ others
  bytes : ∀ x, x / 4096 ∈ others → w.machine.memory.byte x = m.byte x

theorem LendsBeside.outside {a : FrameAllocator} {others : List Nat} {used : List PhysicalFrame}
    {m : Memory} {w : World FrameAllocator} (h : LendsBeside a others m used w) {x : Nat}
    (hx : x / 4096 ∈ others) : a.bitmap.Outside x :=
  outside_of_not_reserved (h.set _ hx).2.1

theorem LendsBeside.take {a : FrameAllocator} {others : List Nat} {used : List PhysicalFrame}
    {m : Memory} {w w' : World FrameAllocator} {o : Outcome PagingError (Option PhysicalFrame)}
    (h : LendsBeside a others m used w)
    (hrun : (FrameSource.take : Action (World FrameAllocator) PagingError _).run w = (o, w')) :
    (∀ f ∈ o.taken, f ∉ used) ∧ LendsBeside a others m (o.taken ++ used) w' ∧
      ∀ x, Memory.InFrames used x → w'.machine.memory.byte x = w.machine.memory.byte x := by
  obtain ⟨hfresh, hlends, hbytes⟩ := h.toLends.take hrun
  obtain rfl := h.part
  rcases take_cases PagingError w.part w.machine h.toPlaced with htake | ⟨first, t, htake, hg⟩
  · obtain ⟨rfl, rfl⟩ := Prod.mk.inj (htake.symm.trans hrun)
    exact ⟨hfresh, ⟨hlends, rfl, h.set, h.apart, h.bytes⟩, hbytes⟩
  · obtain ⟨rfl, rfl⟩ := Prod.mk.inj (htake.symm.trans hrun)
    refine ⟨hfresh, ⟨hlends, rfl, ?_, ?_, ?_⟩, hbytes⟩
    · intro i hi
      obtain ⟨hlt, hres, hset⟩ := h.set i hi
      exact ⟨hlt, hres, hg.test_of_set hlt hset⟩
    · intro u hu hi
      rcases List.mem_append.mp hu with hu | hu
      · have hclear := hg.clear first (Nat.le_refl _) (Nat.lt_succ_self _)
        rw [List.mem_singleton.mp hu, hg.index_ofIndex h.toPlaced] at hi
        rw [(h.set first hi).2.2] at hclear
        cases hclear
      · exact h.apart u hu hi
    · intro x hx
      rw [← h.bytes x hx]
      exact hg.bytes x (h.outside hx)

theorem LendsBeside.beside {a : FrameAllocator} {others : List Nat} {used : List PhysicalFrame}
    {m : Memory} {w w' : World FrameAllocator} (h : LendsBeside a others m used w)
    (hpart : w'.part = w.part)
    (hbytes : ∀ x, ¬ Memory.InFrames used x →
      w'.machine.memory.byte x = w.machine.memory.byte x) : LendsBeside a others m used w' := by
  obtain rfl := h.part
  refine ⟨h.toLends.beside hpart hbytes, hpart, ?_, h.apart, ?_⟩
  · intro i hi
    obtain ⟨hlt, hres, hset⟩ := h.set i hi
    exact ⟨hlt, hres, (h.test_beside hbytes hlt).trans hset⟩
  · intro x hx
    rw [← h.bytes x hx]
    refine hbytes x fun hin => ?_
    obtain ⟨u, hu, hindex⟩ := hin
    exact h.apart u hu (hindex ▸ hx)

/-- The allocator is a lawful source also for a client that is not the only one. -/
theorem lawful_beside (a : FrameAllocator) (others : List Nat) (m : Memory) :
    FrameSource.Lawful FrameAllocator (LendsBeside a others m) :=
  ⟨LendsBeside.take, LendsBeside.beside⟩

theorem lends_init {boot : BootInfo} {p : FrameAllocator} {m₀ m : Machine}
    (hinit : (FrameAllocator.init boot).run m₀ = (.done p, m)) : Lends [] ⟨m, p⟩ :=
  ⟨(Holding.ledger_init hinit).toSound, fun _ hu => absurd hu List.not_mem_nil⟩

end FrameAllocator

namespace FrameCounter

/-- A counter below the last frame that hands out none of the frames `used` any more. -/
def Keeps (used : List PhysicalFrame) (w : World FrameCounter) : Prop :=
  w.part.limit.toNat ≤ 2 ^ 52 ∧ ∀ u ∈ used, u.index < w.part.next.toNat

/-- The state after a frame was handed out. -/
def counted (w : World FrameCounter) : World FrameCounter :=
  { w with part := { w.part with next := w.part.next + 1, taken := w.part.taken + 1 } }

theorem take_cases (ε : Type) (w : World FrameCounter) :
    (¬ w.part.next < w.part.limit ∧
      (FrameSource.take : Action (World FrameCounter) ε _).run w = (.done none, w)) ∨
    (w.part.next < w.part.limit ∧ (FrameSource.take : Action (World FrameCounter) ε _).run w =
      (.done (some (.ofIndex w.part.next.toNat)), counted w)) := by
  by_cases hlt : w.part.next < w.part.limit
  · refine .inr ⟨hlt, ?_⟩
    simp only [FrameSource.take, Action.run_bind, Action.run_get, if_pos hlt, Action.run_modify,
      Action.run_pure, counted]
  · refine .inl ⟨hlt, ?_⟩
    simp only [FrameSource.take, Action.run_bind, Action.run_get, if_neg hlt, Action.run_pure]

theorem toNat_next {c : FrameCounter} (hlimit : c.limit.toNat ≤ 2 ^ 52) (hlt : c.next < c.limit) :
    (c.next + 1).toNat = c.next.toNat + 1 ∧
      (PhysicalFrame.ofIndex c.next.toNat).index = c.next.toNat := by
  rw [UInt64.lt_iff_toNat_lt] at hlt
  refine ⟨?_, Nat.mod_eq_of_lt (by omega)⟩
  rw [UInt64.toNat_add, show (1 : UInt64).toNat = 1 from rfl]
  exact Nat.mod_eq_of_lt (by omega)

theorem lawful : FrameSource.Lawful FrameCounter Keeps := by
  refine ⟨?_, ?_⟩
  · intro used w w' o hparts hrun
    obtain ⟨hlimit, hbelow⟩ := hparts
    rcases take_cases PagingError w with ⟨-, htake⟩ | ⟨hlt, htake⟩
    · obtain ⟨rfl, rfl⟩ := Prod.mk.inj (htake.symm.trans hrun)
      exact ⟨fun f hf => absurd hf List.not_mem_nil, ⟨hlimit, hbelow⟩, fun _ _ => rfl⟩
    · obtain ⟨rfl, rfl⟩ := Prod.mk.inj (htake.symm.trans hrun)
      obtain ⟨hnext, hindex⟩ := toNat_next hlimit hlt
      refine ⟨?_, ⟨hlimit, ?_⟩, fun _ _ => rfl⟩
      · intro f hf hused
        rw [List.mem_singleton.mp hf] at hused
        have hlt' := hbelow _ hused
        omega
      · intro u hu
        rw [counted, hnext]
        rcases List.mem_append.mp hu with hu | hu
        · rw [List.mem_singleton.mp hu, hindex]
          exact Nat.lt_succ_self _
        · exact Nat.lt_succ_of_lt (hbelow u hu)
  · intro used w w' hk hpart _
    rw [Keeps, hpart]
    exact hk

end FrameCounter

end MemoryManager
