import MemoryManager.Paging.FrameSource
import MemoryManager.Proofs.Frames.Transfers

namespace MemoryManager

open FrameAllocator

/-- A step of a system around a frame allocator: a request to it, or a change that anyone else makes
to the machine. `leak` gives up a handle and keeps its frames. -/
inductive FrameRequest where
  | alloc (pages : UInt64)
  | take
  | leak (r : FrameRange)
  | free (r : FrameRange)
  | give (f : PhysicalFrame)
  | elsewhere (m : Machine)

namespace FrameRequest

/-- Whether the request gives frame `i` back. -/
def Gives : FrameRequest → Nat → Prop
  | free r, i => r.first.index ≤ i ∧ i < r.first.index + r.pages.toNat
  | give f, i => f.index ≤ i ∧ i < f.index + 1
  | _, _ => False

instance (q : FrameRequest) (i : Nat) : Decidable (q.Gives i) := by
  cases q <;> unfold Gives <;> infer_instance

variable (p : FrameAllocator)

def run (m : Machine) : FrameRequest → Machine
  | alloc pages => ((p.alloc pages).run m).2
  | take =>
    ((FrameSource.take : Action (World FrameAllocator) Empty _).run ⟨m, p⟩).2.machine
  | leak _ => m
  | free r => ((p.free r).run m).2
  | give f =>
    ((FrameSource.give f : Action (World FrameAllocator) Empty _).run ⟨m, p⟩).2.machine
  | elsewhere m => m

/-- The frames that a request hands out. -/
def grants (m : Machine) : FrameRequest → List Nat
  | alloc pages =>
    match ((p.alloc pages).run m).1 with
    | .done r => List.range' r.first.index r.pages.toNat
    | _ => []
  | take =>
    match ((FrameSource.take : Action (World FrameAllocator) Empty _).run ⟨m, p⟩).1 with
    | .done (some f) => [f.index]
    | _ => []
  | _ => []

end FrameRequest

namespace FrameAllocator

variable {ε : Type} {p : FrameAllocator} {m t : Memory} {first n : Nat} {gives : Nat → Prop}

theorem run_take (p : FrameAllocator) (m : Machine) :
    (FrameSource.take : Action (World FrameAllocator) ε _).run ⟨m, p⟩ =
      match (p.alloc 1).run m with
      | (.done r, t) => (.done (some (.containing r.base)), ⟨t, p⟩)
      | (.refused _, t) => (.done none, ⟨t, p⟩)
      | (.stopped f, t) => (.stopped f, ⟨t, p⟩) := by
  simp only [FrameSource.take, Action.run_bind, Action.run_get, World.run_onMachine,
    Action.run_attempt]
  rcases (p.alloc 1).run m with ⟨o, t⟩
  cases o <;> rfl

theorem run_give (p : FrameAllocator) (f : PhysicalFrame) (m : Machine) :
    (FrameSource.give f : Action (World FrameAllocator) Empty _).run ⟨m, p⟩ =
      match (p.release f.index 1).run m with
      | (.stopped e, t) => (.stopped e, ⟨t, p⟩)
      | (_, t) => (.done (), ⟨t, p⟩) := by
  simp only [FrameSource.give, Action.run_bind, Action.run_get, World.run_onMachine,
    Action.run_attempt]
  rcases (p.release f.index 1).run m with ⟨o, t⟩
  cases o <;> rfl

/-- Taking a frame fails and changes nothing, or hands out the first free one. -/
theorem take_cases (ε : Type) (p : FrameAllocator) (m : Machine) (hp : p.Placed) :
    (FrameSource.take : Action (World FrameAllocator) ε _).run ⟨m, p⟩ = (.done none, ⟨m, p⟩) ∨
    ∃ first t, (FrameSource.take : Action (World FrameAllocator) ε _).run ⟨m, p⟩ =
      (.done (some (.ofIndex first)), ⟨{ m with memory := t }, p⟩) ∧
        p.Granted m.memory t first 1 := by
  rw [run_take]
  rcases alloc_cases p 1 hp with ⟨e, h, -⟩ | ⟨first, t, h, hg⟩
  · rw [h]
    exact .inl rfl
  · rw [h]
    refine .inr ⟨first, t, ?_, hg⟩
    simp only [FrameRange.base, PhysicalFrame.containing_base]

/-- Giving a frame back is refused and reported, or clears its bit and overwrites it. -/
theorem give_cases (p : FrameAllocator) (m : Machine) (f : PhysicalFrame) (hp : p.Placed) :
    (∃ e, (FrameSource.give f : Action (World FrameAllocator) Empty _).run ⟨m, p⟩ =
      (.done (), ⟨{ m with reports := m.reports.push (.freeIgnored f.index (f.index + 1) e) }, p⟩) ∧
        p.firstRefusal? m.memory f.index 1 = some e) ∨
    ∃ t, (FrameSource.give f : Action (World FrameAllocator) Empty _).run ⟨m, p⟩ =
      (.done (), ⟨{ m with memory := t }, p⟩) ∧ p.Released m.memory t f.index 1 := by
  rw [run_give]
  rcases release_cases p f.index 1 hp with ⟨e, h, he⟩ | ⟨t, h, hr⟩
  · rw [h]
    exact .inl ⟨e, rfl, he⟩
  · rw [h]
    exact .inr ⟨t, rfl, hr⟩

/-- Freeing a range stops if its end is no word, and is a release of its frames otherwise. -/
theorem run_free (p : FrameAllocator) (r : FrameRange) (m : Machine) :
    (p.free r).run m =
      if r.first.index + r.pages.toNat < 2 ^ 64 then (p.release r.first.index r.pages.toNat).run m
      else (.stopped (.overflow .addition), m) := by
  have hindex : (UInt64.ofNat r.first.index).toNat = r.first.index := by
    have := r.first.index_lt
    rw [UInt64.toNat_ofNat']
    omega
  change (Action.value r.stop >>= fun _ => p.release r.first.index r.pages.toNat).run m = _
  rw [FrameRange.stop, sum, hindex, show UInt64.size = 2 ^ 64 from rfl]
  split <;> rfl

/-- Memory goes on as `t` after `m`: no set bit is cleared and no byte outside of the bitmap is
changed, but for the frames that are given back. -/
structure Keeps (p : FrameAllocator) (gives : Nat → Prop) (m t : Memory) : Prop where
  sound : p.Sound t
  bits : ∀ i < p.totalFrames, p.bitmap.test m i = true → ¬ gives i → p.bitmap.test t i = true
  bytes : ∀ a, p.bitmap.Outside a → ¬ gives (a / 4096) → t.byte a = m.byte a

theorem Sound.keeps (hs : p.Sound m) : p.Keeps gives m m :=
  ⟨hs, fun _ _ hset _ => hset, fun _ _ _ => rfl⟩

theorem Granted.keeps (h : p.Granted m t first n) (hs : p.Sound m) : p.Keeps gives m t := by
  refine ⟨hs.of_granted h, ?_, fun a ha _ => h.bytes a ha⟩
  intro i hi hset _
  rw [h.bits i (Nat.lt_of_lt_of_le hi p.total_le_size), hset, ite_self]

theorem Released.keeps (h : p.Released m t first n) (hs : p.Sound m)
    (hgives : ∀ i, first ≤ i ∧ i < first + n → gives i) : p.Keeps gives m t := by
  refine ⟨hs.of_released h, ?_, ?_⟩
  · intro i hi hset hg
    rw [h.bits i (Nat.lt_of_lt_of_le hi p.total_le_size), if_neg (fun c => hg (hgives i c)), hset]
  · intro a ha hg
    rw [h.bytes a ha, if_neg (fun c => hg (hgives _ c))]

end FrameAllocator

/-- Whatever a request to the allocator asks for, it leaves alone what it does not give back. -/
theorem FrameRequest.keeps {p : FrameAllocator} {m : Machine} (hs : p.Sound m.memory)
    (q : FrameRequest) (hq : ∀ t, q ≠ .elsewhere t) :
    p.Keeps q.Gives m.memory (q.run p m).memory := by
  cases q with
  | alloc pages =>
    rw [run]
    rcases alloc_cases p pages hs.toPlaced with ⟨e, h, -⟩ | ⟨first, t, h, hg⟩
    · rw [h]
      exact hs.keeps
    · rw [h]
      exact hg.keeps hs
  | take =>
    rw [run]
    rcases take_cases Empty p m hs.toPlaced with h | ⟨first, t, h, hg⟩
    · rw [h]
      exact hs.keeps
    · rw [h]
      exact hg.keeps hs
  | leak r => exact hs.keeps
  | free r =>
    rw [run, run_free]
    split
    · rcases release_cases p r.first.index r.pages.toNat hs.toPlaced with ⟨e, h, -⟩ | ⟨t, h, hr⟩
      · rw [h]
        exact hs.keeps
      · rw [h]
        exact hr.keeps hs (fun i hi => hi)
    · exact hs.keeps
  | give f =>
    rw [run]
    rcases give_cases p m f hs.toPlaced with ⟨e, h, -⟩ | ⟨t, h, hr⟩
    · rw [h]
      exact hs.keeps
    · rw [h]
      exact hr.keeps hs (fun i hi => hi)
  | elsewhere t => exact absurd rfl (hq t)

end MemoryManager
