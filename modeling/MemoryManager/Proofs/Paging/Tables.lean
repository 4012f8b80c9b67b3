import Mathlib.Algebra.GroupWithZero.Nat
import Mathlib.Data.List.Induction
import MemoryManager.Paging.FourLevel

namespace MemoryManager

namespace Memory

variable {m n : Memory} {t u : PhysicalFrame} {i j : TableIndex} {is js : List TableIndex}

/-- The table that an entry leads to, if it is present. -/
def child? (m : Memory) (t : PhysicalFrame) (i : TableIndex) : Option PhysicalFrame :=
  if (m.entry t i).present then some (m.entry t i).frame else none

/-- The table that a walk over the positions leads to. -/
def tableAt (m : Memory) (t : PhysicalFrame) (is : List TableIndex) : Option PhysicalFrame :=
  is.foldlM m.child? t

/-- The entry at a position of the table that a walk leads to; all zero if there is none. -/
def entryAt (m : Memory) (t : PhysicalFrame) (is : List TableIndex) (i : TableIndex) : PageEntry :=
  match m.tableAt t is with
  | some u => m.entry u i
  | none => .zero

@[simp] theorem tableAt_nil (m : Memory) (t : PhysicalFrame) : m.tableAt t [] = some t := rfl

theorem tableAt_cons (m : Memory) (t : PhysicalFrame) (i : TableIndex) (is : List TableIndex) :
    m.tableAt t (i :: is) = (m.child? t i).bind fun u => m.tableAt u is := rfl

theorem tableAt_append (m : Memory) (t : PhysicalFrame) (is js : List TableIndex) :
    m.tableAt t (is ++ js) = (m.tableAt t is).bind fun u => m.tableAt u js :=
  List.foldlM_append

theorem tableAt_concat (m : Memory) (t : PhysicalFrame) (is : List TableIndex) (i : TableIndex) :
    m.tableAt t (is ++ [i]) = (m.tableAt t is).bind fun u => m.child? u i := by
  rw [tableAt_append]
  congr 1
  funext u
  rw [tableAt_cons]
  exact Option.bind_fun_some _

theorem entryAt_of_some (h : m.tableAt t is = some u) : m.entryAt t is i = m.entry u i := by
  rw [entryAt, h]

theorem entryAt_of_none (h : m.tableAt t is = none) : m.entryAt t is i = .zero := by
  rw [entryAt, h]

theorem child?_congr (h : n.entry t i = m.entry t i) : n.child? t i = m.child? t i := by
  rw [child?, child?, h]

theorem child?_eq_none (h : (m.entry t i).present = false) : m.child? t i = none := by
  rw [child?, h]
  rfl

theorem child?_eq_some (h : (m.entry t i).present = true) :
    m.child? t i = some (m.entry t i).frame := by
  rw [child?, if_pos h]

theorem tableAt_zero (h : ∀ j, m.entry t j = .zero) (is : List TableIndex) :
    m.tableAt t is = if is = [] then some t else none := by
  cases is with
  | nil => rfl
  | cons j is =>
    rw [tableAt_cons, child?_eq_none (by rw [h]; rfl), if_neg (List.cons_ne_nil j is)]
    rfl

@[simp] theorem entry_zeroed (t : PhysicalFrame) (i : TableIndex) : zeroed.entry t i = .zero := by
  simp [entry, word, PageEntry.zero]

/-- The walk over at most three positions from one of the roots leads to the table `t`. -/
structure Finds (m : Memory) (roots : List PhysicalFrame) (r : PhysicalFrame)
    (is : List TableIndex) (t : PhysicalFrame) : Prop where
  root : r ∈ roots
  length : is.length ≤ 3
  table : m.tableAt r is = some t

theorem finds_root {roots : List PhysicalFrame} (ht : t ∈ roots) : m.Finds roots t [] t :=
  ⟨ht, Nat.zero_le 3, rfl⟩

theorem Finds.next {roots : List PhysicalFrame} {r : PhysicalFrame} (h : m.Finds roots r is t)
    (hlen : is.length < 3) (hi : (m.entry t i).present = true) :
    m.Finds roots r (is ++ [i]) (m.entry t i).frame := by
  refine ⟨h.root, ?_, ?_⟩
  · rw [List.length_append, List.length_singleton]
    omega
  · rw [tableAt_concat, h.table, Option.bind_some, child?_eq_some hi]

theorem Finds.mono {roots roots' : List PhysicalFrame} {r : PhysicalFrame}
    (h : m.Finds roots r is t) (hsub : roots ⊆ roots') : m.Finds roots' r is t :=
  ⟨hsub h.root, h.length, h.table⟩

theorem Finds.of_nil {roots : List PhysicalFrame} {r : PhysicalFrame} (h : m.Finds roots r [] t) :
    n.Finds roots r [] t := by
  obtain ⟨hroot, hlen, htable⟩ := h
  rw [tableAt_nil] at htable
  exact ⟨hroot, hlen, by rw [tableAt_nil, htable]⟩

theorem not_finds_nil {r : PhysicalFrame} : ¬ m.Finds [] r is t :=
  fun h => absurd h.root List.not_mem_nil

theorem finds_congr {roots : List PhysicalFrame}
    (h : t ∈ roots → is.length ≤ 3 → n.tableAt t is = m.tableAt t is) :
    n.Finds roots t is u ↔ m.Finds roots t is u := by
  constructor
  · intro hparts
    obtain ⟨ht, hlen, htable⟩ := hparts
    exact ⟨ht, hlen, by rwa [← h ht hlen]⟩
  · intro hparts
    obtain ⟨ht, hlen, htable⟩ := hparts
    exact ⟨ht, hlen, by rwa [h ht hlen]⟩

/-- The leaf entries of all address spaces are the same, and no table is gone. -/
structure Grows (roots : List PhysicalFrame) (m n : Memory) : Prop where
  tables : ∀ {r is t}, m.Finds roots r is t → n.Finds roots r is t
  leaves : ∀ r ∈ roots, ∀ is, is.length = 3 → ∀ i, n.entryAt r is i = m.entryAt r is i

theorem Grows.refl (roots : List PhysicalFrame) (m : Memory) : Grows roots m m :=
  ⟨id, fun _ _ _ _ _ => rfl⟩

theorem Grows.trans {k : Memory} {roots : List PhysicalFrame} (h : Grows roots k m)
    (h' : Grows roots m n) : Grows roots k n :=
  ⟨fun hf => h'.tables (h.tables hf),
    fun r hr is his i => (h'.leaves r hr is his i).trans (h.leaves r hr is his i)⟩

end Memory

open Memory

/-- The tables of the address spaces `roots` lie in the frames `used`; no table is found in two
ways; and the direct map covers all of them. -/
structure FourLevel.Forest (p : FourLevel) (m : Memory) (roots used : List PhysicalFrame) :
    Prop where
  used : ∀ {r is t}, m.Finds roots r is t → t ∈ used
  unique : ∀ {r r' is is' t}, m.Finds roots r is t → m.Finds roots r' is' t → r = r' ∧ is = is'
  reached : ∀ {r is t}, m.Finds roots r is t → ∃ v, p.directMap.reach t.base = .ok v

namespace FourLevel.Forest

variable {p : FourLevel} {m n : Memory} {roots used : List PhysicalFrame} {r r' t f : PhysicalFrame}
  {is js : List TableIndex} {i j : TableIndex}

/-- Without address spaces there are no tables. -/
theorem nil (p : FourLevel) (m : Memory) (used : List PhysicalFrame) : Forest p m [] used :=
  ⟨fun h => absurd h not_finds_nil, fun h => absurd h not_finds_nil,
    fun h => absurd h not_finds_nil⟩

theorem mono (hf : Forest p m roots used) {more : List PhysicalFrame} (h : used ⊆ more) :
    Forest p m roots more :=
  ⟨fun hr => h (hf.used hr), hf.unique, hf.reached⟩

/-- If only one entry of the tables changes, a walk that does not use it stays the same. -/
theorem tableAt_eq (hf : Forest p m roots used) (ht : m.Finds roots r is t)
    (hn : ∀ u ∈ used, ∀ j, ¬(u = t ∧ j = i) → n.entry u j = m.entry u j) (hr' : r' ∈ roots)
    (hlen : js.length ≤ 3) (hnot : ¬(r' = r ∧ is ++ [i] <+: js)) :
    n.tableAt r' js = m.tableAt r' js := by
  -- from the end of the walk, so that the entry of the last step is one of a table of the forest
  induction js using List.reverseRecOn with
  | nil => rw [tableAt_nil, tableAt_nil]
  | append_singleton js j ih =>
    rw [List.length_append, List.length_singleton] at hlen
    have hshort : ¬(r' = r ∧ is ++ [i] <+: js) := fun h =>
      hnot ⟨h.1, h.2.trans (List.prefix_append js [j])⟩
    rw [tableAt_concat, tableAt_concat, ih (by omega) hshort]
    cases hu : m.tableAt r' js with
    | none => rw [Option.bind_none, Option.bind_none]
    | some u =>
      have hfinds : m.Finds roots r' js u := ⟨hr', by omega, hu⟩
      refine child?_congr (hn u (hf.used hfinds) j ?_)
      -- only the walk over `is` finds the table with the changed entry
      intro hsame
      obtain ⟨rfl, rfl⟩ := hsame
      obtain ⟨rfl, rfl⟩ := hf.unique hfinds ht
      exact hnot ⟨rfl, List.prefix_rfl⟩

theorem tableAt_congr (hf : Forest p m roots used)
    (hn : ∀ u ∈ used, ∀ j, n.entry u j = m.entry u j) (hr : r ∈ roots) (hlen : is.length ≤ 3) :
    n.tableAt r is = m.tableAt r is := by
  have hroot : m.Finds roots r [] r := ⟨hr, by simp, rfl⟩
  induction is using List.reverseRecOn with
  | nil => rw [tableAt_nil, tableAt_nil]
  | append_singleton is i ih =>
    rw [List.length_append, List.length_singleton] at hlen
    rw [tableAt_concat, tableAt_concat, ih (by omega)]
    cases hu : m.tableAt r is with
    | none => rw [Option.bind_none, Option.bind_none]
    | some u => exact child?_congr (hn u (hf.used ⟨hr, by omega, hu⟩) i)

theorem finds_congr (hf : Forest p m roots used)
    (hn : ∀ u ∈ used, ∀ j, n.entry u j = m.entry u j) :
    n.Finds roots r is t ↔ m.Finds roots r is t :=
  Memory.finds_congr fun hr hlen => hf.tableAt_congr hn hr hlen

theorem congr (hf : Forest p m roots used) (hn : ∀ u ∈ used, ∀ j, n.entry u j = m.entry u j) :
    Forest p n roots used ∧ Grows roots m n := by
  refine ⟨⟨fun h => hf.used ((hf.finds_congr hn).mp h), ?_, ?_⟩,
    fun h => (hf.finds_congr hn).mpr h, ?_⟩
  · intro r r' is is' t h h'
    exact hf.unique ((hf.finds_congr hn).mp h) ((hf.finds_congr hn).mp h')
  · intro r is t h
    exact hf.reached ((hf.finds_congr hn).mp h)
  · intro r hr is hlen i
    rw [entryAt, entryAt, hf.tableAt_congr hn hr (by omega)]
    cases hu : m.tableAt r is with
    | none => rfl
    | some u => exact hn u (hf.used ⟨hr, by omega, hu⟩) i

end FourLevel.Forest

/-- From `m` to `n`, the table in frame `f`, all zero, is linked from entry `i` of the table `t`. -/
structure Memory.NewTable (m n : Memory) (roots used : List PhysicalFrame) (r : PhysicalFrame)
    (is : List TableIndex) (t : PhysicalFrame) (i : TableIndex) (f : PhysicalFrame) : Prop where
  parent : m.Finds roots r is t
  above : is.length < 3
  missing : (m.entry t i).present = false
  fresh : f ∉ used
  others : ∀ u ∈ used, ∀ j, ¬(u = t ∧ j = i) → n.entry u j = m.entry u j
  present : (n.entry t i).present = true
  frame : (n.entry t i).frame = f
  zero : ∀ j, n.entry f j = .zero

/-- From `m` to `n`, the table in frame `f` is cleared. -/
structure Memory.NewRoot (m n : Memory) (used : List PhysicalFrame) (f : PhysicalFrame) : Prop where
  fresh : f ∉ used
  others : ∀ u ∈ used, ∀ j, n.entry u j = m.entry u j
  zero : ∀ j, n.entry f j = .zero

namespace FourLevel.Forest

variable {p : FourLevel} {m n : Memory} {roots used : List PhysicalFrame}
  {r r' t u f : PhysicalFrame} {is js ks : List TableIndex} {i j : TableIndex} {e : PageEntry}

/-- A forest stays one if all that walks find in addition is one fresh frame, in one way. -/
theorem extend (hf : Forest p m roots used) (hfresh : f ∉ used) {roots' : List PhysicalFrame}
    (hfinds : ∀ {r' js u}, n.Finds roots' r' js u ↔
      m.Finds roots r' js u ∨ r' = r ∧ js = is ∧ u = f)
    (hreach : ∃ v, p.directMap.reach f.base = .ok v) : Forest p n roots' (f :: used) := by
  refine ⟨?_, ?_, ?_⟩
  · intro r' js u hu
    rcases hfinds.mp hu with hu | ⟨-, -, rfl⟩
    · exact List.mem_cons_of_mem _ (hf.used hu)
    · exact List.mem_cons_self
  · intro r₁ r₂ js ks u h₁ h₂
    rcases hfinds.mp h₁ with hold | ⟨rfl, rfl, rfl⟩ <;>
      rcases hfinds.mp h₂ with hold' | ⟨rfl, rfl, hu⟩
    · exact hf.unique hold hold'
    · exact absurd (hf.used hold) (hu ▸ hfresh)
    · exact absurd (hf.used hold') hfresh
    · exact ⟨rfl, rfl⟩
  · intro r' js u hu
    rcases hfinds.mp hu with hu | ⟨-, -, rfl⟩
    · exact hf.reached hu
    · exact hreach

section Link

variable (hf : Forest p m roots used) (h : NewTable m n roots used r is t i f)

include h in
theorem tableAt_missing : m.tableAt r (is ++ [i] ++ ks) = none := by
  rw [tableAt_append, tableAt_concat, h.parent.table, Option.bind_some,
    child?_eq_none h.missing]
  rfl

include hf h

theorem tableAt_new : n.tableAt r (is ++ [i] ++ ks) = if ks = [] then some f else none := by
  have hparent : n.tableAt r is = some t := by
    rw [hf.tableAt_eq h.parent h.others h.parent.root h.parent.length, h.parent.table]
    intro hparts
    obtain ⟨-, hpre⟩ := hparts
    have hle := hpre.length_le
    rw [List.length_append, List.length_singleton] at hle
    omega
  rw [tableAt_append, tableAt_concat, hparent, Option.bind_some, child?_eq_some h.present,
    h.frame, Option.bind_some, tableAt_zero h.zero]

theorem finds_link : n.Finds roots r' js u ↔
    m.Finds roots r' js u ∨ r' = r ∧ js = is ++ [i] ∧ u = f := by
  -- walks through the new entry found nothing before; all others go where they went
  by_cases hpre : r' = r ∧ is ++ [i] <+: js
  · obtain ⟨rfl, ks, rfl⟩ := hpre
    have hmissing : ¬ m.Finds roots r' (is ++ [i] ++ ks) u := fun hu => by
      have htable := hu.table
      rw [tableAt_missing h] at htable
      cases htable
    have hnil : is ++ [i] ++ ks = is ++ [i] ↔ ks = [] := by simp
    rw [hnil]
    constructor
    · intro hu
      have htable := hu.table
      rw [hf.tableAt_new h] at htable
      split at htable
      · rename_i hks
        exact .inr ⟨rfl, hks, (Option.some.inj htable).symm⟩
      · cases htable
    · intro hparts
      rcases hparts with hu | ⟨-, rfl, rfl⟩
      · exact absurd hu hmissing
      · refine ⟨h.parent.root, ?_, by rw [hf.tableAt_new h, if_pos rfl]⟩
        have habove := h.above
        simp only [List.append_nil, List.length_append, List.length_singleton]
        omega
  · have hne : ¬(r' = r ∧ js = is ++ [i] ∧ u = f) := fun hu =>
      hpre ⟨hu.1, hu.2.1 ▸ List.prefix_rfl⟩
    rw [or_iff_left hne]
    exact Memory.finds_congr fun hr hlen => hf.tableAt_eq h.parent h.others hr hlen hpre

theorem grows_link : Grows roots m n := by
  refine ⟨fun hu => (hf.finds_link h).mpr (.inl hu), ?_⟩
  intro r' hr js hlen j
  by_cases hpre : r' = r ∧ is ++ [i] <+: js
  · obtain ⟨rfl, ks, rfl⟩ := hpre
    rw [entryAt_of_none (tableAt_missing h), entryAt, hf.tableAt_new h]
    split
    · rename_i u hu
      split at hu
      · rw [← Option.some.inj hu]
        exact h.zero j
      · cases hu
    · rfl
  · rw [entryAt, entryAt, hf.tableAt_eq h.parent h.others hr (by omega) hpre]
    cases hu : m.tableAt r' js with
    | none => rfl
    | some u =>
      have hfinds : m.Finds roots r' js u := ⟨hr, by omega, hu⟩
      apply h.others u (hf.used hfinds) j
      -- the parent of a new table is too far up to hold leaf entries
      intro hsame
      obtain ⟨rfl, rfl⟩ := hsame
      obtain ⟨-, rfl⟩ := hf.unique hfinds h.parent
      exact absurd h.above (by omega)

theorem link (hreach : ∃ v, p.directMap.reach f.base = .ok v) :
    Forest p n roots (f :: used) :=
  hf.extend h.fresh (hf.finds_link h) hreach

end Link

section Plant

variable (hf : Forest p m roots used) (h : NewRoot m n used f)
include hf h

theorem finds_plant : n.Finds (f :: roots) r js u ↔
    m.Finds roots r js u ∨ r = f ∧ js = [] ∧ u = f := by
  by_cases hr : r ∈ roots
  · have hne : r ≠ f := by
      intro heq
      obtain rfl := heq
      exact h.fresh (hf.used (finds_root hr))
    rw [or_iff_left fun hu => hne hu.1]
    constructor
    · intro hparts
      obtain ⟨-, hlen, htable⟩ := hparts
      exact ⟨hr, hlen, by rwa [← hf.tableAt_congr h.others hr hlen]⟩
    · intro hparts
      obtain ⟨-, hlen, htable⟩ := hparts
      exact ⟨List.mem_cons_of_mem _ hr, hlen, by rwa [hf.tableAt_congr h.others hr hlen]⟩
  · rw [or_iff_right fun hu => hr hu.root]
    constructor
    · intro hparts
      obtain ⟨hmem, -, htable⟩ := hparts
      obtain rfl := (List.mem_cons.mp hmem).resolve_right hr
      rw [tableAt_zero h.zero] at htable
      split at htable
      · rename_i hjs
        exact ⟨rfl, hjs, (Option.some.inj htable).symm⟩
      · cases htable
    · intro hsame
      obtain ⟨rfl, rfl, rfl⟩ := hsame
      exact finds_root List.mem_cons_self

theorem plant (hreach : ∃ v, p.directMap.reach f.base = .ok v) :
    Forest p n (f :: roots) (f :: used) :=
  hf.extend h.fresh (hf.finds_plant h) hreach

omit hf in
theorem entryAt_plant (is : List TableIndex) (i : TableIndex) : n.entryAt f is i = .zero := by
  rw [entryAt, tableAt_zero h.zero]
  split
  · rename_i u hu
    split at hu
    · rw [← Option.some.inj hu]
      exact h.zero i
    · cases hu
  · rfl

end Plant

section Leaf

variable (hf : Forest p m roots used) (ht : m.Finds roots r is t) (hleaf : is.length = 3)
include hf ht hleaf

theorem tableAt_setLeaf (hr : r' ∈ roots) (hlen : js.length ≤ 3) :
    (m.setEntry t i e).tableAt r' js = m.tableAt r' js := by
  refine hf.tableAt_eq (i := i) ht ?_ hr hlen ?_
  · intro u _ j hne
    rw [entry_setEntry, if_neg]
    intro hsame
    obtain ⟨rfl, rfl⟩ := hsame
    exact hne ⟨rfl, rfl⟩
  · intro hparts
    obtain ⟨-, hpre⟩ := hparts
    have hle := hpre.length_le
    rw [List.length_append, List.length_singleton] at hle
    omega

theorem finds_setLeaf : (m.setEntry t i e).Finds roots r' js u ↔ m.Finds roots r' js u :=
  Memory.finds_congr fun hr hlen => hf.tableAt_setLeaf ht hleaf hr hlen

theorem setLeaf : Forest p (m.setEntry t i e) roots used := by
  refine ⟨?_, ?_, ?_⟩
  · intro r' js u hu
    exact hf.used ((hf.finds_setLeaf ht hleaf).mp hu)
  · intro r₁ r₂ js ks u h₁ h₂
    exact hf.unique ((hf.finds_setLeaf ht hleaf).mp h₁) ((hf.finds_setLeaf ht hleaf).mp h₂)
  · intro r' js u hu
    exact hf.reached ((hf.finds_setLeaf ht hleaf).mp hu)

/-- Changing a leaf entry changes no other leaf entry of any address space. -/
theorem entryAt_setLeaf (hr : r' ∈ roots) (hlen : js.length = 3) :
    (m.setEntry t i e).entryAt r' js j =
      if r' = r ∧ js = is ∧ j = i then e else m.entryAt r' js j := by
  rw [entryAt, hf.tableAt_setLeaf ht hleaf hr (by omega)]
  by_cases hsame : r' = r ∧ js = is
  · obtain ⟨rfl, rfl⟩ := hsame
    rw [entryAt_of_some ht.table, ht.table]
    simp only [entry_setEntry, true_and, eq_comm]
  · rw [if_neg fun h => hsame ⟨h.1, h.2.1⟩, entryAt]
    cases hu : m.tableAt r' js with
    | none => rfl
    | some u =>
      simp only [entry_setEntry]
      rw [if_neg]
      intro hsame
      obtain ⟨rfl, -⟩ := hsame
      exact hsame (hf.unique ⟨hr, by omega, hu⟩ ht)

end Leaf

end FourLevel.Forest

end MemoryManager
