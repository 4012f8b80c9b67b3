import MemoryManager.Proofs.Frames.Boot
import MemoryManager.Proofs.Frames.Search

namespace MemoryManager.FrameAllocator

/-- What holds of an allocator at all times: the bits of the reserved frames are set. -/
structure Sound (p : FrameAllocator) (m : Memory) : Prop extends p.Placed where
  reserved_set : ∀ i < p.totalFrames, p.isReserved i = true → p.bitmap.test m i = true

/-- What happens to memory when the `n` frames from `first` on are handed out: they are the first
free ones, and their bits are set. -/
structure Granted (p : FrameAllocator) (m t : Memory) (first n : Nat) : Prop where
  pos : 0 < n
  fits : first + n ≤ p.totalFrames
  clear : p.bitmap.ClearRun m n first
  least : ∀ k < first, ¬ p.bitmap.ClearRun m n k
  bits : ∀ i < p.bitmap.size,
    p.bitmap.test t i = if first ≤ i ∧ i < first + n then true else p.bitmap.test m i
  bytes : ∀ a, p.bitmap.Outside a → t.byte a = m.byte a

/-- What happens to memory when the `n` frames from `first` on are given back: each of them was
handed out, their bits are cleared, and their bytes are overwritten. -/
structure Released (p : FrameAllocator) (m t : Memory) (first n : Nat) : Prop where
  owned : ∀ i, first ≤ i → i < first + n →
    i < p.totalFrames ∧ p.isReserved i = false ∧ p.bitmap.test m i = true
  bits : ∀ i < p.bitmap.size,
    p.bitmap.test t i = if first ≤ i ∧ i < first + n then false else p.bitmap.test m i
  bytes : ∀ a, p.bitmap.Outside a → t.byte a =
    if first ≤ a / 4096 ∧ a / 4096 < first + n then poison else m.byte a

variable {p : FrameAllocator} {m t : Memory} {first n : Nat}

/-- The bytes of a frame that is not reserved lie outside of the bitmap. -/
theorem outside_of_not_reserved {a : Nat} (h : p.isReserved (a / 4096) = false) :
    p.bitmap.Outside a := by
  rw [isReserved_eq_false_iff] at h
  simp only [FrameBitmap.Outside, bitmap_frame, PhysicalFrame.start, bitmapFrames] at *
  omega

theorem Sound.not_reserved_of_clear (hs : p.Sound m) {i : Nat} (hi : i < p.totalFrames)
    (hclear : p.bitmap.test m i = false) : p.isReserved i = false := by
  cases hr : p.isReserved i with
  | false => rfl
  | true =>
    rw [hs.reserved_set i hi hr] at hclear
    cases hclear

theorem start_ofIndex {i : Nat} (hi : i < 2 ^ 52) :
    (PhysicalFrame.ofIndex i).start = 4096 * i := by
  have hindex : (PhysicalFrame.ofIndex i).index = i := Nat.mod_eq_of_lt hi
  rw [PhysicalFrame.start, hindex]

namespace Granted

theorem lt_total (h : p.Granted m t first n) {i : Nat} (hi : i < first + n) : i < p.totalFrames :=
  Nat.lt_of_lt_of_le hi h.fits

theorem first_lt (h : p.Granted m t first n) (hp : p.Placed) : first < 2 ^ 52 := by
  have hpos := h.pos
  have hfits := h.fits
  have htotal := hp.total_lt
  omega

theorem index_ofIndex (h : p.Granted m t first n) (hp : p.Placed) :
    (PhysicalFrame.ofIndex first).index = first :=
  Nat.mod_eq_of_lt (h.first_lt hp)

theorem test_eq (h : p.Granted m t first n) {i : Nat} (hi : i < p.totalFrames) :
    p.bitmap.test t i = if first ≤ i ∧ i < first + n then true else p.bitmap.test m i :=
  h.bits i (Nat.lt_of_lt_of_le hi p.total_le_size)

theorem test_of_set (h : p.Granted m t first n) {i : Nat} (hi : i < p.totalFrames)
    (hset : p.bitmap.test m i = true) : p.bitmap.test t i = true := by
  rw [h.test_eq hi, hset, ite_self]

/-- The frames that stay free are the free ones outside of the run. -/
theorem test_eq_false_iff (h : p.Granted m t first n) {i : Nat} (hi : i < p.totalFrames) :
    p.bitmap.test t i = false ↔ i ∉ List.range' first n ∧ p.bitmap.test m i = false := by
  rw [h.test_eq hi, List.mem_range'_1]
  split <;> simp [*]

/-- What was handed out can be given back: no reserved frame is ever free. -/
theorem owned (h : p.Granted m t first n) (hs : p.Sound m) {i : Nat} (hi : first ≤ i)
    (hlt : i < first + n) :
    i < p.totalFrames ∧ p.isReserved i = false ∧ p.bitmap.test t i = true := by
  have htotal := h.lt_total hlt
  refine ⟨htotal, hs.not_reserved_of_clear htotal (h.clear i hi hlt), ?_⟩
  rw [h.test_eq htotal, if_pos ⟨hi, hlt⟩]

end Granted

/-- The frames that are free after a release are those of the run and those that were free. -/
theorem Released.test_eq_false_iff (h : p.Released m t first n) {i : Nat} (hi : i < p.totalFrames) :
    p.bitmap.test t i = false ↔ i ∈ List.range' first n ∨ p.bitmap.test m i = false := by
  rw [h.bits i (Nat.lt_of_lt_of_le hi p.total_le_size), List.mem_range'_1]
  split <;> simp [*]

/-- An allocation is refused and changes nothing, or hands out the first run that is long enough. -/
theorem alloc_cases (p : FrameAllocator) (pages : UInt64) {m : Machine} (hp : p.Placed) :
    (∃ e, (p.alloc pages).run m = (.refused e, m) ∧
      (pages = 0 ∨ p.bitmap.IsFirst m.memory pages.toNat p.totalFrames none)) ∨
    ∃ first t, (p.alloc pages).run m =
      (.done ⟨.ofIndex first, pages⟩, { m with memory := t }) ∧
        p.Granted m.memory t first pages.toNat := by
  by_cases hz : pages = 0
  · refine .inl ⟨.zeroPages, ?_, .inl hz⟩
    rw [alloc, if_pos hz, Action.run_refuse]
  have hpos : 0 < pages.toNat := by
    apply Nat.pos_of_ne_zero
    intro h
    exact hz (UInt64.toNat_inj.mp h)
  have hspec := p.bitmap.firstClearRun?_spec m.memory p.totalFrames hpos
  cases hfirst : p.bitmap.firstClearRun? m.memory pages.toNat p.totalFrames with
  | none =>
    rw [hfirst] at hspec
    refine .inl ⟨.outOfMemory pages, ?_, .inr hspec⟩
    simp only [alloc, if_neg hz, Action.run_bind, Machine.run_load, hfirst, Action.run_refuse]
  | some first =>
    rw [hfirst] at hspec
    obtain ⟨hfits, hclear, hleast⟩ := hspec
    have hsize : first + pages.toNat ≤ p.bitmap.size := Nat.le_trans hfits p.total_le_size
    have hassign : (p.bitmap.assignRange true first (first + pages.toNat) :
        Action Machine FrameError Unit).run m =
          (.done (), { m with memory :=
            p.bitmap.assignRun true m.memory first (first + pages.toNat) }) := by
      rw [FrameBitmap.run_assignRange, if_neg (by omega), Nat.min_eq_left hsize]
    refine .inr ⟨first, p.bitmap.assignRun true m.memory first (first + pages.toNat), ?_, hpos, hfits,
      hclear, hleast, ?_, ?_⟩
    · simp only [alloc, if_neg hz, Action.run_bind, Machine.run_load, hfirst, hassign,
        Action.run_pure]
    · intro i _
      exact FrameBitmap.test_assignRun _ _ _ (fun j hj => hp.position_lt (by omega)) i
    · intro a ha
      exact FrameBitmap.byte_assignRun_of_outside ha _ _ hsize

theorem refusal?_eq_none_iff (p : FrameAllocator) (m : Memory) (i : Nat) :
    p.refusal? m i = none ↔
      i < p.totalFrames ∧ p.isReserved i = false ∧ p.bitmap.test m i = true := by
  unfold refusal?
  split_ifs with htotal hres htest
  · simp only [false_iff]
    omega
  · simp [hres]
  · simp_all
  · simp only [true_iff]
    exact ⟨by omega, by simpa using hres, by simpa using htest⟩

theorem firstRefusal?_eq_none_iff (p : FrameAllocator) (m : Memory) (first n : Nat) :
    p.firstRefusal? m first n = none ↔
      ∀ i, first ≤ i → i < first + n → p.refusal? m i = none := by
  induction n generalizing first with
  | zero =>
    simp only [firstRefusal?, true_iff]
    intro i hi lt
    omega
  | succ n ih =>
    rw [firstRefusal?]
    cases h : p.refusal? m first with
    | some e =>
      simp only [reduceCtorEq, false_iff]
      intro hall
      rw [hall first (Nat.le_refl _) (by omega)] at h
      cases h
    | none =>
      simp only [ih]
      constructor
      · intro hall i hi lt
        by_cases hfirst : i = first
        · rw [hfirst, h]
        · exact hall i (by omega) (by omega)
      · intro hall i hi lt
        exact hall i (by omega) (by omega)

theorem test_releaseFrame (hp : p.Placed) {i : Nat} (hi : i < p.totalFrames)
    (hr : p.isReserved i = false) {j : Nat} (hj : j < p.bitmap.size) :
    p.bitmap.test (p.releaseFrame m i) j = if j = i then false else p.bitmap.test m j := by
  have htotal := p.total_le_size
  have hlt := hp.total_lt
  have apart : ¬ ((PhysicalFrame.ofIndex i).start ≤ p.bitmap.position j ∧
      p.bitmap.position j < (PhysicalFrame.ofIndex i).start + 4096 ∧
      p.bitmap.position j < Memory.size) := by
    rw [isReserved_eq_false_iff] at hr
    rw [start_ofIndex (by omega)]
    simp only [FrameBitmap.position, FrameBitmap.size, bitmap_frame, PhysicalFrame.start,
      bitmapFrames] at *
    omega
  rw [releaseFrame, FrameBitmap.test_assign _ _ _ (hp.position_lt (by omega)), FrameBitmap.test,
    Memory.byte_fill, if_neg apart, FrameBitmap.test]

theorem byte_releaseFrame (hp : p.Placed) {i a : Nat} (hi : i < p.totalFrames)
    (ha : p.bitmap.Outside a) :
    (p.releaseFrame m i).byte a = if a / 4096 = i then poison else m.byte a := by
  have hlt := hp.total_lt
  have hsize := p.total_le_size
  have hne : a ≠ p.bitmap.position i := by
    simp only [FrameBitmap.Outside, FrameBitmap.position, FrameBitmap.size] at *
    omega
  rw [releaseFrame, FrameBitmap.byte_assign_of_ne _ _ _ hne, Memory.byte_fill,
    start_ofIndex (by omega)]
  have hmem : Memory.size = 2 ^ 64 := rfl
  by_cases c : a / 4096 = i
  · rw [if_pos (by omega), if_pos c]
  · rw [if_neg (by omega), if_neg c]

/-- Giving back frames that are not reserved clears their bits and overwrites them. -/
theorem releaseFrames_spec (hp : p.Placed)
    (h : ∀ i, first ≤ i → i < first + n → i < p.totalFrames ∧ p.isReserved i = false) :
    (∀ j < p.bitmap.size, p.bitmap.test (p.releaseFrames m first n) j =
      if first ≤ j ∧ j < first + n then false else p.bitmap.test m j) ∧
    ∀ a, p.bitmap.Outside a → (p.releaseFrames m first n).byte a =
      if first ≤ a / 4096 ∧ a / 4096 < first + n then poison else m.byte a := by
  induction n generalizing m first with
  | zero =>
    refine ⟨fun j _ => ?_, fun a _ => ?_⟩
    · rw [if_neg (by omega)]
      rfl
    · rw [if_neg (by omega)]
      rfl
  | succ n ih =>
    obtain ⟨htotal, hr⟩ := h first (Nat.le_refl _) (by omega)
    have hrest : ∀ i, first + 1 ≤ i → i < first + 1 + n →
        i < p.totalFrames ∧ p.isReserved i = false :=
      fun i hi lt => h i (by omega) (by omega)
    obtain ⟨hbits, hbytes⟩ := ih (m := p.releaseFrame m first) hrest
    refine ⟨fun j hj => ?_, fun a ha => ?_⟩
    · rw [releaseFrames, hbits j hj, test_releaseFrame hp htotal hr hj]
      by_cases c : first + 1 ≤ j ∧ j < first + 1 + n
      · rw [if_pos c, if_pos (by omega)]
      · rw [if_neg c]
        by_cases e : j = first
        · rw [if_pos e, if_pos (by omega)]
        · rw [if_neg e, if_neg (by omega)]
    · rw [releaseFrames, hbytes a ha, byte_releaseFrame hp htotal ha]
      by_cases c : first + 1 ≤ a / 4096 ∧ a / 4096 < first + 1 + n
      · rw [if_pos c, if_pos (by omega)]
      · rw [if_neg c]
        by_cases e : a / 4096 = first
        · rw [if_pos e, if_pos (by omega)]
        · rw [if_neg e, if_neg (by omega)]

/-- A release is refused, and then only reported, or gives back every frame of the run. -/
theorem release_cases (p : FrameAllocator) (first n : Nat) {m : Machine} (hp : p.Placed) :
    (∃ e, (p.release first n).run m =
      (.refused e, { m with reports := m.reports.push (.freeIgnored first (first + n) e) }) ∧
        p.firstRefusal? m.memory first n = some e) ∨
    ∃ t, (p.release first n).run m = (.done (), { m with memory := t }) ∧
      p.Released m.memory t first n := by
  cases h : p.firstRefusal? m.memory first n with
  | some e =>
    refine .inl ⟨e, ?_, rfl⟩
    simp only [release, Action.run_bind, Machine.run_load, h, Machine.run_report, Action.run_refuse]
  | none =>
    have hnone := (firstRefusal?_eq_none_iff p m.memory first n).mp h
    have howned := fun i hi lt => (p.refusal?_eq_none_iff m.memory i).mp (hnone i hi lt)
    obtain ⟨hbits, hbytes⟩ := releaseFrames_spec (m := m.memory) hp
      (fun i hi lt => ⟨(howned i hi lt).1, (howned i hi lt).2.1⟩)
    refine .inr ⟨p.releaseFrames m.memory first n, ?_, howned, hbits, hbytes⟩
    simp only [release, Action.run_bind, Machine.run_load, h, Machine.run_store]

/-- A release of frames that were handed out is accepted. -/
theorem release_of_owned (p : FrameAllocator) {m : Machine} (hp : p.Placed)
    (h : ∀ i, first ≤ i → i < first + n →
      i < p.totalFrames ∧ p.isReserved i = false ∧ p.bitmap.test m.memory i = true) :
    ∃ t, (p.release first n).run m = (.done (), { m with memory := t }) ∧
      p.Released m.memory t first n := by
  rcases release_cases p first n hp with ⟨e, -, hrefusal⟩ | hdone
  · have hnone := (firstRefusal?_eq_none_iff p m.memory first n).mpr
      (fun i hi lt => (refusal?_eq_none_iff p m.memory i).mpr (h i hi lt))
    rw [hnone] at hrefusal
    cases hrefusal
  · exact hdone

theorem Sound.of_bits_mono (hs : p.Sound m)
    (h : ∀ i < p.totalFrames, p.isReserved i = true → p.bitmap.test m i = true →
      p.bitmap.test t i = true) : p.Sound t :=
  ⟨hs.toPlaced, fun i hi hr => h i hi hr (hs.reserved_set i hi hr)⟩

theorem Sound.of_granted (hs : p.Sound m) (h : p.Granted m t first n) : p.Sound t := by
  apply hs.of_bits_mono
  intro i hi _ hset
  exact h.test_of_set hi hset

theorem Sound.of_released (hs : p.Sound m) (h : p.Released m t first n) : p.Sound t := by
  apply hs.of_bits_mono
  intro i hi hr hset
  rw [h.bits i (Nat.lt_of_lt_of_le hi p.total_le_size), if_neg, hset]
  intro c
  rw [(h.owned i c.1 c.2).2.1] at hr
  cases hr

/-- The bits of an allocator depend on the bytes of its bitmap only. -/
theorem test_congr (h : ∀ a, ¬ p.bitmap.Outside a → t.byte a = m.byte a) {i : Nat}
    (hi : i < p.bitmap.size) : p.bitmap.test t i = p.bitmap.test m i :=
  FrameBitmap.test_congr h hi

theorem Sound.congr (hs : p.Sound m) (h : ∀ a, ¬ p.bitmap.Outside a → t.byte a = m.byte a) :
    p.Sound t := by
  refine hs.of_bits_mono fun i hi _ hset => ?_
  rw [test_congr h (Nat.lt_of_lt_of_le hi p.total_le_size), hset]

end MemoryManager.FrameAllocator
