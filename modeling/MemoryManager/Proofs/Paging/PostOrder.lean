import Mathlib.Data.List.FinRange
import MemoryManager.Proofs.Paging.Tables

namespace MemoryManager

/-- Post-order on positions below one table: the longer of two comes first if it goes on from the
other; else the one that goes to the lower entry where they part. -/
inductive PostOrder : List TableIndex → List TableIndex → Prop
  | under (i : TableIndex) (is : List TableIndex) : PostOrder (i :: is) []
  | before {i j : TableIndex} (h : i < j) (is js : List TableIndex) : PostOrder (i :: is) (j :: js)
  | within (i : TableIndex) {is js : List TableIndex} (h : PostOrder is js) :
      PostOrder (i :: is) (i :: js)

theorem PostOrder.ne {is js : List TableIndex} (h : PostOrder is js) : is ≠ js := by
  induction h with
  | under i is => exact List.cons_ne_nil i is
  | before h is js => exact fun heq => absurd (List.cons.inj heq).1 (Fin.ne_of_lt h)
  | within i _ ih => exact fun heq => ih (List.cons.inj heq).2

namespace Memory

variable {m : Memory} {t u f : PhysicalFrame} {i : TableIndex} {is : List TableIndex}
  {depth count : Nat}

/-- The present entries below the first `count` entries of the table `t`, down to `depth` levels, in
post-order. -/
def sitesBelow (m : Memory) : (depth : Nat) → (t : PhysicalFrame) → (count : Nat) →
    List (List TableIndex)
  | 0, _, _ => []
  | depth + 1, t, count =>
    ((List.finRange 512).take count).flatMap fun i =>
      match m.child? t i with
      | some u => (sitesBelow m depth u tableEntries).map (i :: ·) ++ [[i]]
      | none => []

/-- The frames that the entries below a table name, in post-order. -/
def framesBelow (m : Memory) (depth : Nat) (t : PhysicalFrame) (count : Nat) :
    List PhysicalFrame :=
  (m.sitesBelow depth t count).filterMap (m.tableAt t)

theorem mem_take_finRange : i ∈ (List.finRange 512).take count ↔ i.val < count := by
  rw [List.mem_take_iff_getElem]
  constructor
  · intro h
    obtain ⟨k, hk, rfl⟩ := h
    rw [List.getElem_finRange]
    exact Nat.lt_of_lt_of_le hk (Nat.min_le_left _ _)
  · intro h
    have hi := i.isLt
    refine ⟨i.val, ?_, ?_⟩
    · rw [List.length_finRange]
      omega
    · rw [List.getElem_finRange]
      rfl

theorem nodup_take_finRange (count : Nat) : ((List.finRange 512).take count).Nodup :=
  (List.nodup_finRange 512).sublist (List.take_sublist count _)

theorem mem_sitesBelow : is ∈ m.sitesBelow depth t count ↔
    (∃ i ks, is = i :: ks ∧ i.val < count) ∧ is.length ≤ depth ∧ (m.tableAt t is).isSome := by
  induction depth generalizing t is count with
  | zero =>
    simp only [sitesBelow, List.not_mem_nil, false_iff]
    intro hall
    obtain ⟨⟨i, ks, rfl, -⟩, hlen, -⟩ := hall
    simp at hlen
  | succ depth ih =>
    simp only [sitesBelow, List.mem_flatMap, mem_take_finRange]
    constructor
    · intro hall
      obtain ⟨i, hi, hmem⟩ := hall
      cases hchild : m.child? t i with
      | none =>
        rw [hchild] at hmem
        cases hmem
      | some u =>
        rw [hchild, List.mem_append, List.mem_map, List.mem_singleton] at hmem
        rcases hmem with ⟨ks, hks, rfl⟩ | rfl
        · obtain ⟨-, hlen, hsome⟩ := ih.mp hks
          refine ⟨⟨i, ks, rfl, hi⟩, Nat.succ_le_succ hlen, ?_⟩
          rw [tableAt_cons, hchild]
          exact hsome
        · refine ⟨⟨i, [], rfl, hi⟩, Nat.succ_le_succ (Nat.zero_le _), ?_⟩
          rw [tableAt_cons, hchild]
          rfl
    · intro hall
      obtain ⟨⟨i, ks, rfl, hi⟩, hlen, hsome⟩ := hall
      rw [tableAt_cons] at hsome
      refine ⟨i, hi, ?_⟩
      cases hchild : m.child? t i with
      | none =>
        rw [hchild] at hsome
        cases hsome
      | some u =>
        rw [hchild] at hsome
        rw [List.mem_append, List.mem_map, List.mem_singleton]
        cases ks with
        | nil => exact .inr rfl
        | cons j ks =>
          exact .inl ⟨_, ih.mpr ⟨⟨j, ks, rfl, j.isLt⟩, Nat.le_of_succ_le_succ hlen, hsome⟩, rfl⟩

theorem head_of_mem_sitesBelow (h : is ∈ m.sitesBelow depth t count) :
    ∃ i ks, is = i :: ks :=
  let ⟨⟨i, ks, his, _⟩, _⟩ := mem_sitesBelow.mp h
  ⟨i, ks, his⟩

/-- What lies below an entry is listed before it. -/
theorem pairwise_sitesBelow (m : Memory) (depth : Nat) (t : PhysicalFrame) (count : Nat) :
    (m.sitesBelow depth t count).Pairwise PostOrder := by
  induction depth generalizing t count with
  | zero => exact List.Pairwise.nil
  | succ depth ih =>
    rw [sitesBelow, List.pairwise_flatMap]
    constructor
    · intro i _
      cases hchild : m.child? t i with
      | none => exact List.Pairwise.nil
      | some u =>
        refine List.pairwise_append.mpr ⟨?_, List.pairwise_singleton _ _, ?_⟩
        · exact List.pairwise_map.mpr ((ih u tableEntries).imp fun h => .within i h)
        · intro is his js hjs
          obtain ⟨ks, hks, rfl⟩ := List.mem_map.mp his
          obtain ⟨j, ks', rfl⟩ := head_of_mem_sitesBelow hks
          rw [List.mem_singleton.mp hjs]
          exact .within i (.under j ks')
    · -- what lies below two entries of one table parts there
      have hlt := (List.pairwise_lt_finRange 512).sublist (List.take_sublist count _)
      refine hlt.imp fun {i j} hij is his js hjs => ?_
      have head {k : TableIndex} {ks : List TableIndex}
          (h : ks ∈ match m.child? t k with
            | some u => (m.sitesBelow depth u tableEntries).map (k :: ·) ++ [[k]]
            | none => []) : ∃ rest, ks = k :: rest := by
        cases hchild : m.child? t k with
        | none =>
          rw [hchild] at h
          cases h
        | some u =>
          rw [hchild] at h
          rcases List.mem_append.mp h with h | h
          · obtain ⟨rest, -, rfl⟩ := List.mem_map.mp h
            exact ⟨rest, rfl⟩
          · exact ⟨[], List.mem_singleton.mp h⟩
      obtain ⟨rest, rfl⟩ := head his
      obtain ⟨rest', rfl⟩ := head hjs
      exact .before hij rest rest'

/-- The listing names one frame for every entry. -/
theorem map_sitesBelow (m : Memory) (depth : Nat) (t : PhysicalFrame) (count : Nat) :
    (m.sitesBelow depth t count).map (m.tableAt t) = (m.framesBelow depth t count).map some := by
  rw [framesBelow, List.map_filterMap_some_eq_filter_map_isSome, List.filter_eq_self.mpr]
  intro f hf
  obtain ⟨is, his, rfl⟩ := List.mem_map.mp hf
  exact (mem_sitesBelow.mp his).2.2

theorem framesBelow_succ (m : Memory) (depth : Nat) (t : PhysicalFrame) (count : Nat) :
    m.framesBelow (depth + 1) t count = ((List.finRange 512).take count).flatMap fun i =>
      (m.child? t i).elim [] fun u => m.framesBelow depth u tableEntries ++ [u] := by
  rw [framesBelow, sitesBelow, List.filterMap_flatMap]
  congr 1
  funext i
  cases hchild : m.child? t i with
  | none => rfl
  | some u =>
    change List.filterMap _ (_ ++ _) = m.framesBelow depth u tableEntries ++ [u]
    rw [List.filterMap_append, List.filterMap_map, framesBelow]
    congr 1
    · congr 1
      funext ks
      rw [Function.comp_apply, tableAt_cons, hchild, Option.bind_some]
    · simp [tableAt_cons, hchild]

theorem mem_framesBelow : f ∈ m.framesBelow depth t count ↔ ∃ is : List TableIndex,
    (∃ i ks, is = i :: ks ∧ i.val < count) ∧ is.length ≤ depth ∧ m.tableAt t is = some f := by
  simp only [framesBelow, List.mem_filterMap, mem_sitesBelow]
  constructor
  · intro h
    obtain ⟨is, ⟨hhead, hlen, -⟩, hf⟩ := h
    exact ⟨is, hhead, hlen, hf⟩
  · intro h
    obtain ⟨is, hhead, hlen, hf⟩ := h
    exact ⟨is, ⟨hhead, hlen, by rw [hf]; rfl⟩, hf⟩

end Memory

end MemoryManager
