import Mathlib.Algebra.GroupWithZero.Nat
import Mathlib.Tactic.SplitIfs
import MemoryManager.Frames.Bitmap.Assignment

namespace MemoryManager

namespace FrameBitmap

/-- Whether the `n` bits from `s` on are clear. -/
def ClearRun (b : FrameBitmap) (m : Memory) (n s : Nat) : Prop :=
  ∀ i, s ≤ i → i < s + n → b.test m i = false

instance (b : FrameBitmap) (m : Memory) (n s : Nat) : Decidable (b.ClearRun m n s) :=
  decidable_of_iff (∀ i ∈ List.range' s n, b.test m i = false)
    (by simp only [ClearRun, List.mem_range'_1, and_imp])

/-- The plain search: every start is tried, from the lowest one on. -/
def plainSearch (b : FrameBitmap) (m : Memory) (n limit : Nat) : Option Nat :=
  (List.range limit).find? fun s => s + n ≤ limit ∧ b.ClearRun m n s

/-- What a search below `limit` for `n` clear bits has to answer. -/
def IsFirst (b : FrameBitmap) (m : Memory) (n limit : Nat) : Option Nat → Prop
  | some s => s + n ≤ limit ∧ b.ClearRun m n s ∧ ∀ t < s, ¬ b.ClearRun m n t
  | none => ∀ t, t + n ≤ limit → ¬ b.ClearRun m n t

/-- What the search knows at `bit`: the `run` bits from `start` on are clear, and every earlier
start is ruled out by a set bit. -/
structure Searched (b : FrameBitmap) (m : Memory) (n bit start run : Nat) : Prop where
  at_bit : start + run = bit
  short : run < n
  clear : ∀ i, start ≤ i → i < bit → b.test m i = false
  ruledOut : ∀ t < start, ∃ i, t ≤ i ∧ i < t + n ∧ b.test m i = true

variable {b : FrameBitmap} {m : Memory} {n limit bit start run : Nat}

namespace Searched

theorem initial (hn : 1 ≤ n) : b.Searched m n 0 0 0 :=
  ⟨rfl, hn, fun i _ hi => absurd hi (Nat.not_lt_zero i), fun t ht => absurd ht (Nat.not_lt_zero t)⟩

/-- Set bits from `bit` on rule out every start up to them. -/
theorem pass (h : b.Searched m n bit start run) (k : Nat)
    (hset : ∀ i, bit ≤ i → i < bit + (k + 1) → b.test m i = true) :
    b.Searched m n (bit + (k + 1)) (bit + (k + 1)) 0 := by
  refine ⟨rfl, by have := h.short; omega, fun i hi lt => absurd lt (by omega), ?_⟩
  intro t ht
  by_cases early : t < start
  · exact h.ruledOut t early
  by_cases low : t ≤ bit
  · refine ⟨bit, low, ?_, hset bit (Nat.le_refl _) (by omega)⟩
    have := h.short
    have := h.at_bit
    omega
  · exact ⟨t, (Nat.le_refl _), by have := h.short; omega, hset t (by omega) ht⟩

theorem extend (h : b.Searched m n bit start run) (hclear : b.test m bit = false)
    (hrun : run + 1 ≠ n) : b.Searched m n (bit + 1) start (run + 1) := by
  refine ⟨by have := h.at_bit; omega, by have := h.short; omega, ?_, h.ruledOut⟩
  intro i hi lt
  by_cases last : i = bit
  · rw [last, hclear]
  · exact h.clear i hi (by omega)

theorem not_clearRun (h : b.Searched m n bit start run) {t : Nat} (ht : t < start) :
    ¬ b.ClearRun m n t := by
  intro hc
  obtain ⟨i, hi, lt, hset⟩ := h.ruledOut t ht
  rw [hc i hi lt] at hset
  cases hset

/-- The run that the next clear bit completes is the first one. -/
theorem isFirst (h : b.Searched m n bit start run) (hclear : b.test m bit = false)
    (hrun : run + 1 = n) (hlimit : bit < limit) : b.IsFirst m n limit (some start) := by
  have hbit := h.at_bit
  refine ⟨by omega, ?_, fun t ht => h.not_clearRun ht⟩
  intro i hi lt
  by_cases last : i = bit
  · rw [last, hclear]
  · exact h.clear i hi (by omega)

theorem isFirst_none (h : b.Searched m n bit start run) (hlimit : limit ≤ bit) :
    b.IsFirst m n limit none := by
  intro t ht
  apply h.not_clearRun
  have := h.at_bit
  have := h.short
  omega

end Searched

theorem isFirst_scan (fuel bit start run : Nat) (h : b.Searched m n bit start run)
    (hfuel : limit ≤ bit + fuel) : b.IsFirst m n limit (b.scan m n limit fuel bit start run) := by
  induction fuel generalizing bit start run with
  | zero => exact h.isFirst_none hfuel
  | succ fuel ih =>
    unfold scan
    split_ifs with hlimit hones hset hrun
    · exact h.isFirst_none hlimit
    · apply ih _ _ _ (h.pass 7 ?_) (by omega)
      intro i hi lt
      apply test_of_byte_eq_ones
      rw [← hones.2.2, position, position]
      congr 2
      omega
    · exact ih _ _ _ (h.pass 0 fun i hi lt => by rwa [show i = bit by omega]) (by omega)
    · exact h.isFirst (by simpa using hset) hrun (by omega)
    · exact ih _ _ _ (h.extend (by simpa using hset) hrun) (by omega)

/-- The search finds the least start of a run of `n` clear bits below the limit, if there is one. -/
theorem firstClearRun?_spec (b : FrameBitmap) (m : Memory) (limit : Nat) (hn : 1 ≤ n) :
    b.IsFirst m n limit (b.firstClearRun? m n limit) :=
  isFirst_scan limit 0 0 0 (.initial hn) (by omega)

/-- Two answers that a search may give are one. -/
theorem IsFirst.eq {o o' : Option Nat} (h : b.IsFirst m n limit o) (h' : b.IsFirst m n limit o') :
    o = o' := by
  cases o with
  | none =>
    cases o' with
    | none => rfl
    | some t => exact absurd h'.2.1 (h t h'.1)
  | some s =>
    obtain ⟨hfits, hclear, hleast⟩ := h
    cases o' with
    | none => exact absurd hclear (h' s hfits)
    | some t =>
      obtain ⟨-, hclear', hleast'⟩ := h'
      rcases Nat.lt_trichotomy s t with hlt | heq | hgt
      · exact absurd hclear (hleast' s hlt)
      · rw [heq]
      · exact absurd hclear' (hleast t hgt)

theorem firstClearRun?_eq_iff (b : FrameBitmap) (m : Memory) (limit : Nat) (hn : 1 ≤ n)
    (o : Option Nat) : b.firstClearRun? m n limit = o ↔ b.IsFirst m n limit o := by
  have hspec := b.firstClearRun?_spec m limit hn
  constructor
  · rintro rfl
    exact hspec
  · exact hspec.eq

theorem isFirst_plainSearch (b : FrameBitmap) (m : Memory) (limit : Nat) (hn : 1 ≤ n) :
    b.IsFirst m n limit (b.plainSearch m n limit) := by
  cases hplain : b.plainSearch m n limit with
  | none =>
    rw [plainSearch, List.find?_range_eq_none] at hplain
    intro t ht hclear
    have hno := hplain t (by omega)
    simp [ht, hclear] at hno
  | some s =>
    rw [plainSearch, List.find?_range_eq_some] at hplain
    obtain ⟨hs, -, hbefore⟩ := hplain
    obtain ⟨hfits, hclear⟩ : s + n ≤ limit ∧ b.ClearRun m n s := by simpa using hs
    refine ⟨hfits, hclear, fun t ht hclear' => ?_⟩
    have hno := hbefore t ht
    have hfits' : t + n ≤ limit := by omega
    simp [hfits', hclear'] at hno

/-- What a search has to answer depends on the bytes of the bitmap only. -/
theorem isFirst_congr {t : Memory} (h : ∀ a, ¬ b.Outside a → t.byte a = m.byte a)
    (hlimit : limit ≤ b.size) {o : Option Nat} (hfirst : b.IsFirst m n limit o) :
    b.IsFirst t n limit o := by
  have hrun (s : Nat) (hs : s + n ≤ limit) : b.ClearRun t n s ↔ b.ClearRun m n s := by
    refine forall_congr' fun i => forall₂_congr fun _ hi => ?_
    rw [test_congr h (by omega)]
  cases o with
  | none => exact fun s hs hclear => hfirst s hs ((hrun s hs).mp hclear)
  | some s =>
    obtain ⟨hfits, hclear, hleast⟩ := hfirst
    refine ⟨hfits, (hrun s hfits).mpr hclear, fun k hk hclear' => hleast k hk ?_⟩
    exact (hrun k (by omega)).mp hclear'

end FrameBitmap

open FrameBitmap

/-- The search for `n ≥ 1` clear bits below a limit within the bitmap answers what trying every start
would answer: the least start from which `n` clear bits end at the limit or before it, if there is
one, and nothing otherwise. It depends on the bytes of the bitmap only. -/
theorem first_fit_search (b : FrameBitmap) (m : Memory) {n limit : Nat} (hn : 1 ≤ n)
    (hlimit : limit ≤ b.size) :
    b.firstClearRun? m n limit = b.plainSearch m n limit ∧
    (∀ s, b.firstClearRun? m n limit = some s ↔
      s + n ≤ limit ∧ b.ClearRun m n s ∧ ∀ t < s, ¬ b.ClearRun m n t) ∧
    (b.firstClearRun? m n limit = none ↔ ∀ t, t + n ≤ limit → ¬ b.ClearRun m n t) ∧
    ∀ m' : Memory, (∀ a, ¬ b.Outside a → m'.byte a = m.byte a) →
      b.firstClearRun? m' n limit = b.firstClearRun? m n limit := by
  have hiff := b.firstClearRun?_eq_iff m limit hn
  refine ⟨(hiff _).mpr (b.isFirst_plainSearch m limit hn), fun s => hiff (some s), hiff none, ?_⟩
  intro m' hsame
  rw [b.firstClearRun?_eq_iff m' limit hn]
  exact isFirst_congr hsame hlimit (b.firstClearRun?_spec m limit hn)

/-- Behind a byte that is passed over, bit 9 is set; the limit cuts the run behind it short. -/
theorem first_fit_search_of_two_bytes :
    (FrameBitmap.mk (.ofIndex 0) 2).firstClearRun?
        ((Memory.zeroed.setByte 0 0xFF).setByte 1 2) 3 13 = some 10 ∧
      (FrameBitmap.mk (.ofIndex 0) 2).firstClearRun?
        ((Memory.zeroed.setByte 0 0xFF).setByte 1 2) 4 13 = none := by
  rw [(first_fit_search _ _ (by decide) (by decide)).1,
    (first_fit_search _ _ (by decide) (by decide)).1]
  decide +kernel

end MemoryManager
