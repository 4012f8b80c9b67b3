namespace MemoryManager

/-- The contents of a block of `2 ^ depth` bytes: one byte throughout, or a lower and an upper half. -/
inductive Cells where
  | uniform (value : UInt8)
  | split (lower upper : Cells)

namespace Cells

/-- The byte at offset `i` of a block whose halves have `half` bytes. -/
def get : Cells → (half : Nat) → (i : Nat) → UInt8
  | uniform v, _, _ => v
  | split l u, half, i => if i < half then l.get (half / 2) i else u.get (half / 2) (i - half)

/-- Overwrites the offsets `lo ≤ i < hi` of a block of `size = 2 ^ depth` bytes. -/
def fill (v : UInt8) : (depth size : Nat) → Cells → (lo hi : Nat) → Cells
  | 0, _, c, lo, hi => if lo = 0 ∧ 0 < hi then uniform v else c
  | depth + 1, size, c, lo, hi =>
    if lo = 0 ∧ size ≤ hi then uniform v
    else
      let half := size / 2
      match c with
      | uniform w =>
        if hi ≤ half then split (fill v depth half (uniform w) lo hi) (uniform w)
        else if half ≤ lo then
          split (uniform w) (fill v depth half (uniform w) (lo - half) (hi - half))
        else
          split (fill v depth half (uniform w) lo hi)
            (fill v depth half (uniform w) 0 (hi - half))
      | split l u =>
        if hi ≤ half then split (fill v depth half l lo hi) u
        else if half ≤ lo then split l (fill v depth half u (lo - half) (hi - half))
        else split (fill v depth half l lo hi) (fill v depth half u 0 (hi - half))

/-- A stretch is overwritten in the halves that it meets, so a block of two halves has the right
bytes if the halves have. -/
theorem get_split_fill {v : UInt8} {d : Nat}
    (hhalf : ∀ (c : Cells) (lo hi i : Nat), i < 1 <<< d →
      (fill v d (1 <<< d) c lo hi).get (1 <<< d / 2) i =
        if lo ≤ i ∧ i < hi then v else c.get (1 <<< d / 2) i)
    (l u : Cells) (lo hi : Nat) {i : Nat} (lt : i < (1 <<< d) + (1 <<< d)) :
    (if hi ≤ 1 <<< d then split (fill v d (1 <<< d) l lo hi) u
      else if 1 <<< d ≤ lo then split l (fill v d (1 <<< d) u (lo - 1 <<< d) (hi - 1 <<< d))
      else split (fill v d (1 <<< d) l lo hi)
        (fill v d (1 <<< d) u 0 (hi - 1 <<< d))).get (1 <<< d) i =
      if lo ≤ i ∧ i < hi then v else (split l u).get (1 <<< d) i := by
  by_cases low : i < 1 <<< d
  · by_cases h : hi ≤ 1 <<< d
    · simp only [if_pos h, get, if_pos low, hhalf _ _ _ _ low]
    · by_cases k : 1 <<< d ≤ lo
      · rw [if_neg h, if_pos k, if_neg (by omega)]
        simp only [get, if_pos low]
      · simp only [if_neg h, if_neg k, get, if_pos low, hhalf _ _ _ _ low]
  · have high : i - 1 <<< d < 1 <<< d := by omega
    by_cases h : hi ≤ 1 <<< d
    · rw [if_pos h, if_neg (by omega)]
      simp only [get, if_neg low]
    · by_cases k : 1 <<< d ≤ lo
      · have same : (lo - 1 <<< d ≤ i - 1 <<< d ∧ i - 1 <<< d < hi - 1 <<< d) ↔
            (lo ≤ i ∧ i < hi) := by
          omega
        simp only [if_neg h, if_pos k, get, if_neg low, hhalf _ _ _ _ high, same]
      · have same : (0 ≤ i - 1 <<< d ∧ i - 1 <<< d < hi - 1 <<< d) ↔ (lo ≤ i ∧ i < hi) := by
          omega
        simp only [if_neg h, if_neg k, get, if_neg low, hhalf _ _ _ _ high, same]

/-- Overwriting a stretch changes the bytes of the stretch and no other. -/
theorem get_fill (v : UInt8) (depth : Nat) (c : Cells) (lo hi i : Nat) (lt : i < 1 <<< depth) :
    (fill v depth (1 <<< depth) c lo hi).get (1 <<< depth / 2) i =
      if lo ≤ i ∧ i < hi then v else c.get (1 <<< depth / 2) i := by
  induction depth generalizing c lo hi i with
  | zero =>
    have : i = 0 := by simpa using lt
    subst this
    unfold fill
    by_cases h : lo = 0 ∧ 0 < hi
    · simp [h, get]
    · rw [if_neg h, if_neg (by omega)]
  | succ d ih =>
    have hs : 1 <<< (d + 1) = (1 <<< d) + (1 <<< d) := by
      rw [Nat.shiftLeft_succ]
      omega
    have hp : 1 <<< (d + 1) / 2 = 1 <<< d := by omega
    rw [hs] at lt
    unfold fill
    simp only [hp]
    by_cases whole : lo = 0 ∧ 1 <<< (d + 1) ≤ hi
    · rw [if_pos whole, if_pos (by omega)]
      rfl
    · rw [if_neg whole]
      cases c with
      | uniform w =>
        -- a block of equal bytes is one of two such halves
        apply (get_split_fill ih (uniform w) (uniform w) lo hi lt).trans
        simp [get]
      | split l u => exact get_split_fill ih l u lo hi lt

end Cells

end MemoryManager
