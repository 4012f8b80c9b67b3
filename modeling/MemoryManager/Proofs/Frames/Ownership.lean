import MemoryManager.Proofs.Frames.Requests

namespace MemoryManager

open FrameAllocator

/-- The machine, and the frames that were handed out and not given back. -/
structure Holding where
  machine : Machine
  held : List Nat

namespace Holding

variable {p : FrameAllocator} {map : MemoryMap} {s : Holding}

def perform (p : FrameAllocator) (s : Holding) (q : FrameRequest) : Holding :=
  ⟨q.run p s.machine, q.grants p s.machine ++ s.held.filter fun i => ¬ q.Gives i⟩

/-- What clients may do: they give back nothing but frames that are held, and leave the bitmap to
the allocator. -/
def Allowed (p : FrameAllocator) (s : Holding) : FrameRequest → Prop
  | .elsewhere m => ∀ a, ¬ p.bitmap.Outside a → m.memory.byte a = s.machine.memory.byte a
  | q => ∀ i, q.Gives i → i ∈ s.held

/-- The states that runs of allowed requests lead to. -/
inductive Reachable (p : FrameAllocator) (m : Machine) : Holding → Prop
  | start : Reachable p m ⟨m, []⟩
  | step {s : Holding} (q : FrameRequest) (hs : Reachable p m s) (hq : s.Allowed p q) :
      Reachable p m (s.perform p q)

/-- The invariant: the held frames are available ones, and the clear bits are those of the other
available frames. -/
structure Ledger (p : FrameAllocator) (map : MemoryMap) (s : Holding) : Prop
    extends p.Sound s.machine.memory where
  nodup : s.held.Nodup
  available : ∀ i ∈ s.held, i < p.totalFrames ∧ p.Available map i
  bits : ∀ i < p.totalFrames,
    p.bitmap.test s.machine.memory i = false ↔ p.Available map i ∧ i ∉ s.held

theorem Ledger.set_of_held (h : Ledger p map s) {i : Nat} (hi : i ∈ s.held) :
    i < p.totalFrames ∧ p.isReserved i = false ∧ p.bitmap.test s.machine.memory i = true := by
  obtain ⟨hlt, havailable⟩ := h.available i hi
  refine ⟨hlt, havailable.1, ?_⟩
  cases htest : p.bitmap.test s.machine.memory i with
  | true => rfl
  | false => exact absurd hi ((h.bits i hlt).mp htest).2

theorem ledger_init {boot : BootInfo} {m₀ m : Machine}
    (hinit : (FrameAllocator.init boot).run m₀ = (.done p, m)) : Ledger p boot.map ⟨m, []⟩ := by
  obtain ⟨hp, hbits, -⟩ := init_spec hinit
  refine ⟨⟨hp, ?_⟩, List.nodup_nil, fun i hi => absurd hi List.not_mem_nil, ?_⟩
  · intro i hi hr
    cases htest : p.bitmap.test m.memory i with
    | true => rfl
    | false =>
      have hfree := ((hbits i hi).mp htest).1
      rw [hr] at hfree
      cases hfree
  · intro i hi
    rw [hbits i hi]
    simp only [List.not_mem_nil, not_false_eq_true, and_true]

theorem Ledger.granted (h : Ledger p map s) {t : Machine} {first n : Nat}
    (hg : p.Granted s.machine.memory t.memory first n) :
    Ledger p map ⟨t, List.range' first n ++ s.held⟩ := by
  have hfree : ∀ i, first ≤ i → i < first + n → p.Available map i ∧ i ∉ s.held :=
    fun i hi lt => (h.bits i (hg.lt_total lt)).mp (hg.clear i hi lt)
  refine ⟨h.toSound.of_granted hg, ?_, ?_, ?_⟩
  · refine List.nodup_append.mpr ⟨List.nodup_range', h.nodup, ?_⟩
    intro i hi j hj heq
    obtain rfl := heq
    rw [List.mem_range'_1] at hi
    exact (hfree i hi.1 hi.2).2 hj
  · intro i hi
    rcases List.mem_append.mp hi with hi | hi
    · rw [List.mem_range'_1] at hi
      exact ⟨hg.lt_total hi.2, (hfree i hi.1 hi.2).1⟩
    · exact h.available i hi
  · intro i hi
    rw [hg.test_eq_false_iff hi, h.bits i hi, List.mem_append, not_or, and_left_comm]

theorem Ledger.released (h : Ledger p map s) {t : Machine} {first n : Nat}
    {gives : Nat → Prop} [DecidablePred gives]
    (hgives : ∀ i, gives i ↔ first ≤ i ∧ i < first + n) (hheld : ∀ i, gives i → i ∈ s.held)
    (hr : p.Released s.machine.memory t.memory first n) :
    Ledger p map ⟨t, s.held.filter fun i => ¬ gives i⟩ := by
  refine ⟨h.toSound.of_released hr, h.nodup.filter _, ?_, ?_⟩
  · intro i hi
    exact h.available i (List.mem_filter.mp hi).1
  · intro i hi
    rw [hr.test_eq_false_iff hi, h.bits i hi, List.mem_range'_1, ← hgives, List.mem_filter]
    by_cases hin : gives i
    · simp [hin, (h.available i (hheld i hin)).2]
    · simp [hin]

/-- A request that hands out nothing and gives back nothing changes no holding. -/
theorem Ledger.unchanged (h : Ledger p map s) {t : Machine} (ht : t.memory = s.machine.memory) :
    Ledger p map ⟨t, s.held⟩ := by
  obtain ⟨hs, hnodup, havailable, hbits⟩ := h
  refine ⟨?_, hnodup, havailable, ?_⟩ <;> rw [ht]
  · exact hs
  · exact hbits

theorem filter_not_gives {q : FrameRequest} (hq : ∀ i, ¬ q.Gives i) (xs : List Nat) :
    (xs.filter fun i => ¬ q.Gives i) = xs := by
  rw [List.filter_eq_self]
  intro i _
  simpa using hq i

theorem Ledger.free_accepted (h : Ledger p map s) {r : FrameRange}
    (hr : ∀ i, (FrameRequest.free r).Gives i → i ∈ s.held) :
    ∃ t, (p.free r).run s.machine = (.done (), { s.machine with memory := t }) ∧
      p.Released s.machine.memory t r.first.index r.pages.toNat := by
  have hlt : r.first.index + r.pages.toNat < 2 ^ 64 := by
    have hfirst := r.first.index_lt
    have htotal := h.total_lt
    by_cases hz : r.pages.toNat = 0
    · omega
    · have hlast := (h.available (r.first.index + r.pages.toNat - 1)
        (hr _ ⟨by omega, by omega⟩)).1
      omega
  rw [run_free, if_pos hlt]
  exact release_of_owned p h.toPlaced fun i hi lt => h.set_of_held (hr i ⟨hi, lt⟩)

theorem Ledger.give_accepted (h : Ledger p map s) {f : PhysicalFrame} (hf : f.index ∈ s.held) :
    ∃ t, (FrameSource.give f : Action (World FrameAllocator) Empty _).run ⟨s.machine, p⟩ =
      (.done (), ⟨{ s.machine with memory := t }, p⟩) ∧
        p.Released s.machine.memory t f.index 1 := by
  have howned : ∀ i, f.index ≤ i → i < f.index + 1 → i < p.totalFrames ∧
      p.isReserved i = false ∧ p.bitmap.test s.machine.memory i = true :=
    fun i hi lt => h.set_of_held (by rwa [show i = f.index by omega])
  obtain ⟨t, ht, hreleased⟩ := release_of_owned p h.toPlaced howned
  exact ⟨t, by rw [run_give, ht], hreleased⟩

/-- Every allowed request keeps the ledger right. -/
theorem Ledger.perform (h : Ledger p map s) {q : FrameRequest} (hq : s.Allowed p q) :
    Ledger p map (s.perform p q) := by
  cases q with
  | alloc pages =>
    rw [Holding.perform, filter_not_gives (q := .alloc pages) (fun _ hg => hg)]
    rcases alloc_cases p pages (m := s.machine) h.toPlaced with ⟨e, hrun, -⟩ | ⟨first, t, hrun, hg⟩
    · simp only [FrameRequest.run, FrameRequest.grants, hrun]
      exact h.unchanged rfl
    · simp only [FrameRequest.run, FrameRequest.grants, hrun, hg.index_ofIndex h.toPlaced]
      exact h.granted hg
  | take =>
    rw [Holding.perform, filter_not_gives (q := .take) (fun _ hg => hg)]
    rcases take_cases Empty p s.machine h.toPlaced with hrun | ⟨first, t, hrun, hg⟩
    · simp only [FrameRequest.run, FrameRequest.grants, hrun]
      exact h.unchanged rfl
    · simp only [FrameRequest.run, FrameRequest.grants, hrun, hg.index_ofIndex h.toPlaced]
      exact h.granted (t := { s.machine with memory := t }) hg
  | leak r =>
    rw [Holding.perform, filter_not_gives (q := .leak r) (fun _ hg => hg)]
    exact h.unchanged rfl
  | free r =>
    obtain ⟨t, hrun, hr⟩ := h.free_accepted hq
    simp only [Holding.perform, FrameRequest.run, hrun]
    exact h.released (fun i => Iff.rfl) hq hr
  | give f =>
    obtain ⟨t, hrun, hr⟩ := h.give_accepted (hq f.index ⟨Nat.le_refl _, Nat.lt_succ_self _⟩)
    simp only [Holding.perform, FrameRequest.run, hrun]
    exact h.released (fun i => Iff.rfl) hq hr
  | elsewhere m =>
    rw [Holding.perform, filter_not_gives (q := .elsewhere m) (fun _ hg => hg)]
    refine ⟨h.toSound.congr hq, h.nodup, h.available, ?_⟩
    intro i hi
    change p.bitmap.test m.memory i = false ↔ p.Available map i ∧ i ∉ s.held
    rw [test_congr hq (Nat.lt_of_lt_of_le hi p.total_le_size)]
    exact h.bits i hi

theorem Reachable.ledger {boot : BootInfo} {m₀ m : Machine}
    (hinit : (FrameAllocator.init boot).run m₀ = (.done p, m)) (hs : Reachable p m s) :
    Ledger p boot.map s := by
  induction hs with
  | start => exact ledger_init hinit
  | step q _ hq ih => exact ih.perform hq

/-- Every frame below the end is free, held, or was unavailable from the start. -/
theorem Ledger.freeFrames_add (h : Ledger p map s) :
    p.freeFrames s.machine.memory +
      (List.range p.totalFrames).countP (fun i => ¬ p.Available map i) + s.held.length =
        p.totalFrames := by
  have hall := List.length_eq_countP_add_countP (l := List.range p.totalFrames)
    fun i => p.Available map i
  have havailable := List.length_eq_countP_add_countP
    (l := (List.range p.totalFrames).filter fun i => p.Available map i) fun i => i ∈ s.held
  rw [← List.countP_eq_length_filter, List.countP_filter, List.countP_filter] at havailable
  have hheld : s.held.length =
      (List.range p.totalFrames).countP fun i => i ∈ s.held ∧ p.Available map i := by
    rw [List.countP_eq_length_filter]
    apply List.Perm.length_eq
    rw [List.perm_ext_iff_of_nodup h.nodup (List.nodup_range.filter _)]
    intro i
    rw [List.mem_filter, List.mem_range, decide_eq_true_iff]
    exact ⟨fun hi => ⟨(h.available i hi).1, hi, (h.available i hi).2⟩, fun hi => hi.2.1⟩
  have hfree : p.freeFrames s.machine.memory =
      (List.range p.totalFrames).countP fun i => i ∉ s.held ∧ p.Available map i := by
    apply List.countP_congr
    intro i hi
    have hbit := h.bits i (List.mem_range.mp hi)
    simpa [and_comm] using hbit
  rw [List.length_range] at hall
  simp only [Bool.decide_and, decide_eq_true_eq] at *
  omega

end Holding

/-- Frame ownership over whole runs. Whatever is asked of the allocator after boot, as long as
nothing is given back that is not held: the held frames are distinct, and each is one that lies
wholly inside a usable region, below the end, and is neither frame 0 nor one of the bitmap; the set
bits are exactly those of the held frames and of the frames that were never available; the free
frames are the rest; and whatever is held can be given back. -/
theorem held_frames_accounted {boot : BootInfo} {p : FrameAllocator} {m₀ m : Machine}
    (hinit : (FrameAllocator.init boot).run m₀ = (.done p, m)) {s : Holding}
    (hs : Holding.Reachable p m s) :
    (s.held.Nodup ∧ ∀ i ∈ s.held, i ≠ 0 ∧
      ¬ (p.bitmapFrame.index ≤ i ∧ i < p.bitmapFrame.index + p.bitmapFrames) ∧
      i < p.totalFrames ∧ ∃ r ∈ boot.map.usable, r.HoldsFrame i) ∧
    (∀ i < p.totalFrames,
      p.bitmap.test s.machine.memory i = true ↔ ¬ p.Available boot.map i ∨ i ∈ s.held) ∧
    p.freeFrames s.machine.memory =
      p.totalFrames - (List.range p.totalFrames).countP (fun i => ¬ p.Available boot.map i) -
        s.held.length ∧
    (∀ r : FrameRange, (∀ i, r.first.index ≤ i → i < r.first.index + r.pages.toNat → i ∈ s.held) →
      ∃ t, (p.free r).run s.machine = (.done (), { s.machine with memory := t })) ∧
    ∀ f : PhysicalFrame, f.index ∈ s.held →
      ∃ t, (FrameSource.give f : Action (World FrameAllocator) Empty _).run ⟨s.machine, p⟩ =
        (.done (), ⟨{ s.machine with memory := t }, p⟩) := by
  have h := hs.ledger hinit
  refine ⟨⟨h.nodup, ?_⟩, ?_, ?_, ?_, ?_⟩
  · intro i hi
    obtain ⟨hlt, hfree, hregion⟩ := h.available i hi
    obtain ⟨hzero, hbitmap⟩ := (p.isReserved_eq_false_iff i).mp hfree
    exact ⟨hzero, hbitmap, hlt, hregion⟩
  · intro i hi
    rw [← Bool.not_eq_false, h.bits i hi, Decidable.not_and_iff_or_not, Decidable.not_not]
  · have hsum := h.freeFrames_add
    omega
  · intro r hr
    obtain ⟨t, ht, -⟩ := h.free_accepted (r := r) (fun i hi => hr i hi.1 hi.2)
    exact ⟨t, ht⟩
  · intro f hf
    obtain ⟨t, ht, -⟩ := h.give_accepted hf
    exact ⟨t, ht⟩

/-- Two usable regions: three frames of the first and one more are taken, and one is given back. -/
theorem held_frames_accounted_of_two_regions :
    ∃ s : Holding, Holding.Reachable TwoRegions.allocator TwoRegions.machine s ∧
      s.held = [5, 2, 4] ∧ TwoRegions.allocator.freeFrames s.machine.memory = 34 := by
  have h₁ := Holding.Reachable.step (.alloc 3)
    (.start (p := TwoRegions.allocator) (m := TwoRegions.machine)) (fun _ hi => False.elim hi)
  have h₂ := h₁.step .take (fun _ hi => False.elim hi)
  have h₃ := h₂.step (.free ⟨.ofIndex 3, 1⟩) (fun i hi => by
    change 3 ≤ i ∧ i < 3 + 1 at hi
    rw [show i = 3 by omega]
    decide +kernel)
  refine ⟨_, h₃, by decide +kernel, ?_⟩
  rw [(held_frames_accounted TwoRegions.init_eq h₃).2.2.1]
  decide +kernel

end MemoryManager
