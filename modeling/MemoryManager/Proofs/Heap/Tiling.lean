import Mathlib.Algebra.GroupWithZero.Nat
import Mathlib.Data.List.Pairwise

namespace MemoryManager

/-- The addresses from `first` up to `stop`. -/
structure Span where
  first : Nat
  stop : Nat
  deriving DecidableEq

namespace Span

def Holds (s : Span) (x : Nat) : Prop :=
  s.first ≤ x ∧ x < s.stop

def Apart (s t : Span) : Prop :=
  s.stop ≤ t.first ∨ t.stop ≤ s.first

/-- Whether the span has room for a header and a payload. -/
def Sized (s : Span) : Prop :=
  s.first + 32 < s.stop ∧ 16 ∣ s.first ∧ 16 ∣ s.stop

variable {s t : Span} {a b c x : Nat}

theorem Apart.symm (h : s.Apart t) : t.Apart s :=
  Or.symm h

instance : Std.Symm Apart :=
  ⟨fun _ _ => Apart.symm⟩

theorem Sized.lt (h : s.Sized) : s.first < s.stop :=
  Nat.lt_of_le_of_lt (Nat.le_add_right _ _) h.1

theorem holds_split_iff (hab : a ≤ b) (hbc : b ≤ c) :
    Holds ⟨a, c⟩ x ↔ Holds ⟨a, b⟩ x ∨ Holds ⟨b, c⟩ x := by
  simp only [Holds]
  omega

theorem apart_split_iff (hab : a < b) (hbc : b < c) (ht : t.first < t.stop) :
    Apart ⟨a, c⟩ t ↔ Apart ⟨a, b⟩ t ∧ Apart ⟨b, c⟩ t := by
  simp only [Apart]
  omega

theorem sized_split_iff (hab : a + 32 < b) (hbc : b + 32 < c) (hb : 16 ∣ b) :
    Sized ⟨a, c⟩ ↔ Sized ⟨a, b⟩ ∧ Sized ⟨b, c⟩ := by
  simp only [Sized]
  omega

end Span

open MemoryManager.Span

/-- The spans cover every byte of the frames, and each of them once. -/
structure Tiling (frames : List Nat) (spans : List Span) : Prop where
  sized : ∀ s ∈ spans, s.Sized
  apart : spans.Pairwise Apart
  covers : ∀ x, (∃ s ∈ spans, s.Holds x) ↔ x / 4096 ∈ frames
  total : (spans.map fun s => s.stop - s.first).sum = 4096 * frames.length

namespace Tiling

variable {frames : List Nat} {spans l r : List Span} {a b c first n : Nat}

theorem nil : Tiling [] [] := by
  constructor <;> simp

theorem pairwise_split_iff (hab : a < b) (hbc : b < c) (hl : ∀ t ∈ l, t.first < t.stop)
    (hr : ∀ t ∈ r, t.first < t.stop) :
    (l ++ ⟨a, c⟩ :: r).Pairwise Apart ↔ (l ++ ⟨a, b⟩ :: ⟨b, c⟩ :: r).Pairwise Apart := by
  have hright : (∀ t ∈ r, Apart ⟨a, c⟩ t) ↔
      (∀ t ∈ r, Apart ⟨a, b⟩ t) ∧ ∀ t ∈ r, Apart ⟨b, c⟩ t := by
    rw [← forall₂_and]
    exact forall₂_congr fun t ht => apart_split_iff hab hbc (hr t ht)
  have hleft : ∀ s ∈ l, Apart s ⟨a, c⟩ ↔ Apart s ⟨a, b⟩ ∧ Apart s ⟨b, c⟩ := by
    intro s hs
    have h := apart_split_iff hab hbc (hl s hs)
    exact ⟨fun k => ⟨(h.mp k.symm).1.symm, (h.mp k.symm).2.symm⟩,
      fun k => (h.mpr ⟨k.1.symm, k.2.symm⟩).symm⟩
  rw [List.pairwise_append, List.pairwise_append, List.pairwise_cons, List.pairwise_cons,
    List.pairwise_cons]
  simp only [List.forall_mem_cons, hright]
  constructor
  · intro hparts
    obtain ⟨hpl, ⟨⟨hr₁, hr₂⟩, hpr⟩, hlr⟩ := hparts
    refine ⟨hpl, ⟨⟨.inl (Nat.le_refl _), hr₁⟩, hr₂, hpr⟩, fun s hs => ?_⟩
    obtain ⟨h₁, h₂⟩ := (hleft s hs).mp (hlr s hs).1
    exact ⟨h₁, h₂, (hlr s hs).2⟩
  · intro hparts
    obtain ⟨hpl, ⟨⟨-, hr₁⟩, hr₂, hpr⟩, hlr⟩ := hparts
    refine ⟨hpl, ⟨⟨hr₁, hr₂⟩, hpr⟩, fun s hs => ?_⟩
    obtain ⟨h₁, h₂, h₃⟩ := hlr s hs
    exact ⟨(hleft s hs).mpr ⟨h₁, h₂⟩, h₃⟩

/-- A span may be cut in two, and two spans next to each other may be put together. -/
theorem split_iff (hab : a + 32 < b) (hbc : b + 32 < c) (hb : 16 ∣ b) :
    Tiling frames (l ++ ⟨a, c⟩ :: r) ↔ Tiling frames (l ++ ⟨a, b⟩ :: ⟨b, c⟩ :: r) := by
  have hsized : (∀ s ∈ l ++ ⟨a, c⟩ :: r, s.Sized) ↔
      ∀ s ∈ l ++ ⟨a, b⟩ :: ⟨b, c⟩ :: r, s.Sized := by
    simp only [List.forall_mem_append, List.forall_mem_cons, sized_split_iff hab hbc hb, and_assoc]
  have hcovers : ∀ x, (∃ s ∈ l ++ ⟨a, c⟩ :: r, s.Holds x) ↔
      ∃ s ∈ l ++ ⟨a, b⟩ :: ⟨b, c⟩ :: r, s.Holds x := by
    intro x
    have hx := holds_split_iff (x := x) (a := a) (b := b) (c := c) (by omega) (by omega)
    simp only [List.mem_append, List.mem_cons, or_and_right, exists_or, exists_eq_left, hx,
      or_assoc]
  have htotal : ((l ++ ⟨a, c⟩ :: r).map fun s => s.stop - s.first).sum =
      ((l ++ ⟨a, b⟩ :: ⟨b, c⟩ :: r).map fun s => s.stop - s.first).sum := by
    simp only [List.map_append, List.map_cons, List.sum_append, List.sum_cons]
    omega
  have hapart (h : ∀ s ∈ l ++ ⟨a, c⟩ :: r, s.Sized) :=
    pairwise_split_iff (l := l) (r := r) (a := a) (b := b) (c := c) (by omega) (by omega)
      (fun t ht => (h t (List.mem_append_left _ ht)).lt)
      (fun t ht => (h t (List.mem_append_right _ (List.mem_cons_of_mem _ ht))).lt)
  constructor
  · intro h
    exact ⟨hsized.mp h.sized, (hapart h.sized).mp h.apart,
      fun x => (hcovers x).symm.trans (h.covers x), htotal.symm.trans h.total⟩
  · intro h
    have hs := hsized.mpr h.sized
    exact ⟨hs, (hapart hs).mpr h.apart, fun x => (hcovers x).trans (h.covers x),
      htotal.trans h.total⟩

/-- Fresh frames may be added as one span. -/
theorem append (h : Tiling frames spans) (hn : 0 < n)
    (hfresh : ∀ i, first ≤ i → i < first + n → i ∉ frames) :
    Tiling (frames ++ List.range' first n) (spans ++ [⟨4096 * first, 4096 * (first + n)⟩]) := by
  refine ⟨?_, ?_, ?_, ?_⟩
  · simp only [List.forall_mem_append, List.forall_mem_singleton]
    refine ⟨h.sized, ?_⟩
    simp only [Sized]
    omega
  · rw [List.pairwise_append]
    refine ⟨h.apart, List.pairwise_singleton _ _, ?_⟩
    intro s hs t ht
    rw [List.mem_singleton.mp ht]
    have hlt := (h.sized s hs).lt
    -- a byte of both spans would lie in one of the frames
    by_contra hne
    have hmem := (h.covers (max s.first (4096 * first))).mp ⟨s, hs, by
      simp only [Apart, Holds] at *
      omega⟩
    refine hfresh _ ?_ ?_ hmem <;> simp only [Apart] at hne <;> omega
  · intro x
    rw [List.mem_append, ← h.covers x, List.mem_range'_1]
    simp only [List.mem_append, List.mem_singleton, or_and_right, exists_or, exists_eq_left, Holds]
    apply or_congr Iff.rfl
    omega
  · simp only [List.map_append, List.map_cons, List.map_nil, List.sum_append, List.sum_cons,
      List.sum_nil, h.total, List.length_append, List.length_range']
    omega

theorem length_le (h : Tiling frames spans) : 32 * spans.length ≤ 4096 * frames.length := by
  rw [← h.total]
  have hsized := h.sized
  clear h
  induction spans with
  | nil => simp
  | cons s spans ih =>
    rw [List.forall_mem_cons] at hsized
    have hs := ih hsized.2
    have hlt := hsized.1.1
    simp only [List.length_cons, List.map_cons, List.sum_cons]
    omega

theorem perm (h : Tiling frames spans) {frames' : List Nat} (hp : frames.Perm frames') :
    Tiling frames' spans :=
  ⟨h.sized, h.apart, fun x => (h.covers x).trans hp.mem_iff, by rw [h.total, hp.length_eq]⟩

theorem apart_of_ne (h : Tiling frames spans) {s t : Span} (hs : s ∈ spans) (ht : t ∈ spans)
    (hne : s ≠ t) : s.Apart t :=
  h.apart.forall hs ht hne

theorem frame_mem (h : Tiling frames spans) {s : Span} (hs : s ∈ spans) {x : Nat}
    (hx : s.Holds x) : x / 4096 ∈ frames :=
  (h.covers x).mp ⟨s, hs, hx⟩

end Tiling

end MemoryManager
