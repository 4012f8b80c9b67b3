import MemoryManager.Proofs.Frames.Custody

namespace MemoryManager

/-- Whether frame `i` is one of the run. -/
def FrameRange.Holds (r : FrameRange) (i : Nat) : Prop :=
  r.first.index ≤ i ∧ i < r.first.index + r.pages.toNat

instance (r : FrameRange) (i : Nat) : Decidable (r.Holds i) :=
  inferInstanceAs (Decidable (_ ∧ _))

namespace FrameAllocator

variable {p : FrameAllocator} {m : Memory} {first n i : Nat} {e : FrameError}

/-- Whether frame `i` is frame 0 or one that holds the bitmap. -/
def Reserves (p : FrameAllocator) (i : Nat) : Prop :=
  i = 0 ∨ (p.bitmapFrame.index ≤ i ∧ i < p.bitmapFrame.index + p.bitmapFrames)

theorem isReserved_eq_true_iff (p : FrameAllocator) (i : Nat) :
    p.isReserved i = true ↔ p.Reserves i := by
  rw [isReserved, decide_eq_true_iff, Reserves]

/-- Whether frame `i` can be given back: it is tracked and not reserved, and its bit is set. -/
structure Releasable (p : FrameAllocator) (m : Memory) (i : Nat) : Prop where
  tracked : i < p.totalFrames
  unreserved : ¬ p.Reserves i
  marked : p.bitmap.test m i = true

/-- What is said of the frame `f` that cannot be given back: that it is not tracked; if it is, that it
is reserved; if it is neither, that its bit is clear. -/
inductive Faults (p : FrameAllocator) (m : Memory) (f : PhysicalFrame) : FrameError → Prop
  | untracked (h : p.totalFrames ≤ f.index) : Faults p m f (.outOfRange f)
  | reserved (tracked : f.index < p.totalFrames) (h : p.Reserves f.index) :
      Faults p m f (.reserved f)
  | unmarked (tracked : f.index < p.totalFrames) (unreserved : ¬ p.Reserves f.index)
      (h : p.bitmap.test m f.index = false) : Faults p m f (.notAllocated f)

theorem releasable_iff (p : FrameAllocator) (m : Memory) (i : Nat) :
    p.Releasable m i ↔ p.refusal? m i = none := by
  rw [refusal?_eq_none_iff, ← Bool.not_eq_true, isReserved_eq_true_iff]
  exact ⟨fun h => ⟨h.tracked, h.unreserved, h.marked⟩, fun h => ⟨h.1, h.2.1, h.2.2⟩⟩

theorem Faults.not_releasable {f : PhysicalFrame} (h : p.Faults m f e) :
    ¬ p.Releasable m f.index := by
  intro hr
  cases h with
  | untracked h => exact absurd hr.tracked (Nat.not_lt.mpr h)
  | reserved _ h => exact hr.unreserved h
  | unmarked _ _ h =>
    rw [hr.marked] at h
    cases h

theorem faults_of_refusal? (hi : i < 2 ^ 52) (h : p.refusal? m i = some e) :
    p.Faults m (.ofIndex i) e := by
  have hindex : (PhysicalFrame.ofIndex i).index = i := Nat.mod_eq_of_lt hi
  unfold refusal? at h
  split at h
  · rename_i htotal
    cases h
    exact .untracked (by rwa [hindex])
  · rename_i htotal
    have hlt : (PhysicalFrame.ofIndex i).index < p.totalFrames := by
      rw [hindex]
      exact Nat.not_le.mp htotal
    split at h
    · rename_i hres
      cases h
      exact .reserved hlt (by rwa [hindex, ← isReserved_eq_true_iff])
    · rename_i hres
      split at h
      · rename_i hclear
        cases h
        refine .unmarked hlt ?_ ?_
        · rwa [hindex, ← isReserved_eq_true_iff]
        · rw [hindex]
          simpa using hclear
      · cases h

/-- The first refusal is that of the lowest frame which cannot be given back. -/
theorem firstRefusal?_eq_some (h : p.firstRefusal? m first n = some e) :
    ∃ i, first ≤ i ∧ i < first + n ∧ p.refusal? m i = some e ∧
      ∀ j, first ≤ j → j < i → p.Releasable m j := by
  induction n generalizing first with
  | zero => cases h
  | succ n ih =>
    rw [firstRefusal?] at h
    cases hfirst : p.refusal? m first with
    | some e' =>
      rw [hfirst] at h
      cases h
      exact ⟨first, Nat.le_refl _, by omega, hfirst, fun j hj hlt => by omega⟩
    | none =>
      rw [hfirst] at h
      obtain ⟨i, hle, hlt, hrefusal, hbelow⟩ := ih h
      refine ⟨i, by omega, by omega, hrefusal, fun j hj hji => ?_⟩
      rcases Nat.eq_or_lt_of_le hj with rfl | hgt
      · exact (p.releasable_iff m first).mpr hfirst
      · exact hbelow j hgt hji

/-- Tracked frames have numbers of 52 bits, so the lowest frame at fault is named in full. -/
theorem lowest_fault (hp : p.Placed) (hfirst : first < 2 ^ 52)
    (h : p.firstRefusal? m first n = some e) :
    ∃ f : PhysicalFrame, first ≤ f.index ∧ f.index < first + n ∧ p.Faults m f e ∧
      ∀ j, first ≤ j → j < f.index → p.Releasable m j := by
  obtain ⟨i, hle, hlt, hrefusal, hbelow⟩ := firstRefusal?_eq_some h
  have htotal := hp.total_lt
  have hi : i < 2 ^ 52 := by
    rcases Nat.eq_or_lt_of_le hle with rfl | hgt
    · exact hfirst
    · have hlast := (hbelow (i - 1) (by omega) (by omega)).tracked
      omega
  have hindex : (PhysicalFrame.ofIndex i).index = i := Nat.mod_eq_of_lt hi
  refine ⟨.ofIndex i, ?_, ?_, faults_of_refusal? hi hrefusal, ?_⟩
  · rwa [hindex]
  · rwa [hindex]
  · rwa [hindex]

theorem Released.releasable {t : Memory} (h : p.Released m t first n) (hi : first ≤ i)
    (hlt : i < first + n) : p.Releasable m i :=
  (p.releasable_iff m i).mpr ((p.refusal?_eq_none_iff m i).mpr (h.owned i hi hlt))

theorem Released.byte_eq_poison {t : Memory} (h : p.Released m t first n) {a : Nat}
    (hi : first ≤ a / 4096) (hlt : a / 4096 < first + n) : t.byte a = poison := by
  rw [h.bytes a (outside_of_not_reserved (h.owned _ hi hlt).2.1), if_pos ⟨hi, hlt⟩]

end FrameAllocator

/-- Giving a range of frames back, after any run of requests and for any range whose end is a word.
The allocator accepts the range if and only if it tracks every frame of it, reserves none, and has
the bits of all of them set. Then it clears these bits and no other, overwrites these frames, and
changes nothing else outside of the bitmap. It refuses every other range, and a refusal changes no
memory and names the lowest frame that cannot be given back, with the first reason that applies. -/
theorem free_all_or_nothing {boot : BootInfo} {p : FrameAllocator} {m₀ m : Machine}
    (hinit : (FrameAllocator.init boot).run m₀ = (.done p, m)) {s : Custody}
    (hs : Custody.Reachable p m s) {r : FrameRange}
    (hend : r.first.index + r.pages.toNat < 2 ^ 64) :
    ((∃ t, (p.free r).run s.machine = (.done (), t)) ↔
      ∀ i, r.Holds i → p.Releasable s.machine.memory i) ∧
    (∀ t, (p.free r).run s.machine = (.done (), t) →
      (∀ i < p.bitmap.size, p.bitmap.test t.memory i =
        if r.Holds i then false else p.bitmap.test s.machine.memory i) ∧
      (∀ a, r.Holds (a / 4096) → t.memory.byte a = poison) ∧
      ∀ a, p.bitmap.Outside a → ¬ r.Holds (a / 4096) →
        t.memory.byte a = s.machine.memory.byte a) ∧
    ((¬ ∃ t, (p.free r).run s.machine = (.done (), t)) →
      ∃ e t, (p.free r).run s.machine = (.refused e, t) ∧ t.memory = s.machine.memory ∧
        ∃ f : PhysicalFrame, r.Holds f.index ∧ p.Faults s.machine.memory f e ∧
          ∀ i, r.Holds i → i < f.index → p.Releasable s.machine.memory i) := by
  have hp := (hs.accounted hinit).toPlaced
  have hrun : (p.free r).run s.machine =
      (p.release r.first.index r.pages.toNat).run s.machine := by
    rw [FrameAllocator.run_free, if_pos hend]
  rw [hrun]
  rcases FrameAllocator.release_cases p r.first.index r.pages.toNat (m := s.machine) hp with
    ⟨e, hrefused, hrefusal⟩ | ⟨t, hdone, hreleased⟩
  · obtain ⟨f, hle, hlt, hfaults, hbelow⟩ :=
      FrameAllocator.lowest_fault hp r.first.index_lt hrefusal
    have hnot : ¬ ∃ t, (p.release r.first.index r.pages.toNat).run s.machine = (.done (), t) := by
      rw [hrefused]
      rintro ⟨t, ht⟩
      cases ht
    refine ⟨⟨fun h => absurd h hnot, fun hall => ?_⟩, fun t ht => absurd ⟨t, ht⟩ hnot, fun _ => ?_⟩
    · exact absurd (hall f.index ⟨hle, hlt⟩) hfaults.not_releasable
    · exact ⟨e, _, hrefused, rfl, f, ⟨hle, hlt⟩, hfaults, fun i hi => hbelow i hi.1⟩
  · have haccepted : ∃ t, (p.release r.first.index r.pages.toNat).run s.machine = (.done (), t) :=
      ⟨_, hdone⟩
    refine ⟨⟨fun _ i hi => hreleased.releasable hi.1 hi.2, fun _ => haccepted⟩, fun t' ht' => ?_,
      fun hnot => absurd haccepted hnot⟩
    rw [hdone] at ht'
    obtain ⟨-, rfl⟩ := Prod.mk.inj ht'
    refine ⟨hreleased.bits, fun a ha => hreleased.byte_eq_poison ha.1 ha.2, fun a ha hnot => ?_⟩
    rw [hreleased.bytes a ha]
    exact if_neg hnot

namespace TwoRegions

/-- Frames 2, 3 and 4 are handed out. -/
def threeTaken : Custody :=
  (⟨machine, [], []⟩ : Custody).perform allocator (.alloc 3)

theorem threeTaken_reachable : Custody.Reachable allocator machine threeTaken :=
  .step (.alloc 3) .start trivial

theorem threeTaken_bits : ∀ i ∈ List.range' 2 4, allocator.isReserved i = false ∧
    allocator.bitmap.test threeTaken.machine.memory i = decide (i < 5) := by
  decide +kernel

end TwoRegions

/-- Of four frames the last but one is free: nothing of the range is given back, and that frame is
named. -/
theorem free_all_or_nothing_of_two_regions :
    (∃ t, (TwoRegions.allocator.free ⟨.ofIndex 2, 3⟩).run TwoRegions.threeTaken.machine =
      (.done (), t)) ∧
    ∃ t, (TwoRegions.allocator.free ⟨.ofIndex 3, 4⟩).run TwoRegions.threeTaken.machine =
      (.refused (.notAllocated (.ofIndex 5)), t) ∧
        t.memory = TwoRegions.threeTaken.machine.memory := by
  have hreleasable : ∀ i, 2 ≤ i → i < 5 →
      TwoRegions.allocator.Releasable TwoRegions.threeTaken.machine.memory i := by
    intro i hi hlt
    obtain ⟨hfree, hset⟩ := TwoRegions.threeTaken_bits i (List.mem_range'_1.mpr ⟨hi, by omega⟩)
    refine ⟨Nat.lt_trans hlt (by decide), ?_, by rw [hset, decide_eq_true hlt]⟩
    rw [← FrameAllocator.isReserved_eq_true_iff, hfree]
    exact Bool.false_ne_true
  have hclear : ¬ TwoRegions.allocator.Releasable TwoRegions.threeTaken.machine.memory 5 := by
    intro h
    have hmarked := h.marked
    rw [(TwoRegions.threeTaken_bits 5 (by decide)).2] at hmarked
    cases hmarked
  obtain ⟨haccepted, -, -⟩ := free_all_or_nothing TwoRegions.init_eq TwoRegions.threeTaken_reachable
    (r := ⟨.ofIndex 2, 3⟩) (by decide)
  obtain ⟨hall, -, hrefused⟩ := free_all_or_nothing TwoRegions.init_eq
    TwoRegions.threeTaken_reachable (r := ⟨.ofIndex 3, 4⟩) (by decide)
  have hholds (i : Nat) : (FrameRange.mk (.ofIndex 3) 4).Holds i ↔ 3 ≤ i ∧ i < 7 := Iff.rfl
  refine ⟨haccepted.mpr fun i hi => hreleasable i hi.1 hi.2, ?_⟩
  have hnot := fun h => hclear (hall.mp h 5 ((hholds 5).mpr (by decide)))
  obtain ⟨e, t, hrun, hsame, f, hf, hfaults, hbelow⟩ := hrefused hnot
  rw [hholds] at hf
  have hlow : 5 ≤ f.index := Nat.le_of_not_lt fun hlt =>
    hfaults.not_releasable (hreleasable f.index (by omega) hlt)
  have hhigh : f.index ≤ 5 := Nat.le_of_not_lt fun hlt =>
    hclear (hbelow 5 ((hholds 5).mpr (by decide)) hlt)
  obtain rfl : f = .ofIndex 5 := PhysicalFrame.ext (Nat.le_antisymm hhigh hlow)
  refine ⟨t, ?_, hsame⟩
  cases hfaults with
  | untracked h => exact absurd h (by decide)
  | reserved _ h => exact absurd ((FrameAllocator.isReserved_eq_true_iff _ _).mpr h) (by decide)
  | unmarked _ _ _ => exact hrun

end MemoryManager
