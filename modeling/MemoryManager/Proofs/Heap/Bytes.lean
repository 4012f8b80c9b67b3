import Mathlib.Data.List.Basic
import Mathlib.Data.List.Chain
import Mathlib.Data.List.Infix
import Mathlib.Data.List.Nodup
import MemoryManager.Proofs.Heap.Tiling

namespace MemoryManager.Span

/-- The addresses of the span, lowest first. -/
def bytes (s : Span) : List Nat :=
  List.range' s.first (s.stop - s.first)

variable {α β : Type} {f : α → Span} {g : β → Span} {l : List α} {r : List β} {a b : α} {s : Span}
  {i j k n x : Nat}

theorem mem_bytes : x ∈ s.bytes ↔ s.Holds x := by
  rw [bytes, List.mem_range'_1, Holds]
  omega

theorem first_mem_bytes (h : s.first < s.stop) : s.first ∈ s.bytes :=
  mem_bytes.mpr ⟨Nat.le_refl _, h⟩

theorem pairwise_bytes (s : Span) : s.bytes.Pairwise (· < ·) :=
  List.pairwise_lt_range' 1

theorem bytes_append (hij : i ≤ j) (hjk : j ≤ k) : bytes ⟨i, j⟩ ++ bytes ⟨j, k⟩ = bytes ⟨i, k⟩ := by
  have hlength : k - i = (j - i) + (k - j) := by omega
  have hfirst : j = i + (j - i) := by omega
  simp only [bytes, hlength]
  rw [← List.range'_append_1, ← hfirst]

theorem bytes_eq_cons (h : s.first < s.stop) :
    s.bytes = s.first :: bytes ⟨s.first + 1, s.stop⟩ := by
  have hone : bytes ⟨s.first, s.first + 1⟩ = [s.first] := by
    simp only [bytes, Nat.add_sub_cancel_left, List.range'_one]
  exact (bytes_append (Nat.le_succ _) h).symm.trans (by rw [hone, List.singleton_append])

theorem bytes_eq_concat (h : s.first < s.stop) :
    s.bytes = bytes ⟨s.first, s.stop - 1⟩ ++ [s.stop - 1] := by
  have hone : bytes ⟨s.stop - 1, s.stop⟩ = [s.stop - 1] := by
    have hlength : s.stop - (s.stop - 1) = 1 := by omega
    simp only [bytes, hlength, List.range'_one]
  rw [← hone, bytes_append (by omega) (Nat.sub_le _ _)]

/-- The bytes of frames in a row. -/
theorem flatMap_bytes_range' (i n : Nat) :
    (List.range' i n).flatMap (fun j => bytes ⟨4096 * j, 4096 * (j + 1)⟩) =
      bytes ⟨4096 * i, 4096 * (i + n)⟩ := by
  induction n generalizing i with
  | zero => simp [bytes]
  | succ n ih =>
    rw [List.range'_succ, List.flatMap_cons, ih, Nat.add_assoc, Nat.add_comm 1 n]
    exact bytes_append (by omega) (by omega)

/-- Two neighbours of a span are neighbours in its list of bytes. -/
theorem isInfix_bytes (hlow : s.first ≤ x) (hhigh : x + 1 < s.stop) : [x, x + 1] <:+: s.bytes := by
  have hrest : bytes ⟨x, s.stop⟩ = x :: (x + 1) :: bytes ⟨x + 1 + 1, s.stop⟩ := by
    rw [bytes_eq_cons (Nat.lt_of_succ_lt hhigh), bytes_eq_cons hhigh]
  refine ⟨bytes ⟨s.first, x⟩, bytes ⟨x + 1 + 1, s.stop⟩, ?_⟩
  rw [List.append_assoc]
  exact (congrArg _ hrest.symm).trans (bytes_append hlow (by omega))

section Lists

variable (hne : ∀ a ∈ l, (f a).first < (f a).stop) (hnodup : (l.flatMap fun a => (f a).bytes).Nodup)

include hnodup in
/-- No byte belongs to two of the spans. -/
theorem eq_of_mem_bytes (ha : a ∈ l) (hb : b ∈ l) (hxa : x ∈ (f a).bytes) (hxb : x ∈ (f b).bytes) :
    a = b := by
  have hdisjoint := (List.nodup_flatMap.mp hnodup).2
  have hsymm : Std.Symm (Function.onFun List.Disjoint fun a => (f a).bytes) :=
    ⟨fun _ _ => List.disjoint_symm⟩
  by_contra hab
  exact hdisjoint.forall ha hb hab hxa hxb

include hne hnodup in
/-- The bytes go up from one span to the next if the spans do. -/
theorem pairwise_flatMap_iff : (l.flatMap fun a => (f a).bytes).Pairwise (· < ·) ↔
    l.Pairwise fun a b => (f a).first < (f b).first := by
  rw [List.pairwise_flatMap, and_iff_right fun a _ => pairwise_bytes (f a)]
  constructor
  · intro hlt
    refine hlt.imp_of_mem fun {a b} ha hb hab => ?_
    exact hab _ (first_mem_bytes (hne a ha)) _ (first_mem_bytes (hne b hb))
  · intro hlt
    refine (hlt.and (List.nodup_flatMap.mp hnodup).2).imp_of_mem fun {a b} _ hb hab x hx y hy => ?_
    -- the first byte of the second span lies behind the first span
    have hnot : ¬ (f a).Holds (f b).first := fun hin =>
      hab.2 (mem_bytes.mpr hin) (first_mem_bytes (hne b hb))
    rw [mem_bytes] at hx hy
    have hfirst := hab.1
    simp only [Holds] at *
    omega

include hne hnodup in
/-- Two spans that touch are neighbours in the list if and only if their bytes are. -/
theorem isInfix_iff (ha : a ∈ l) (hb : b ∈ l) (htouch : (f a).stop = (f b).first) :
    [a, b] <:+: l ↔ [(f a).stop - 1, (f a).stop] <:+: l.flatMap fun a => (f a).bytes := by
  have hla := bytes_eq_concat (hne a ha)
  constructor
  · intro h
    refine List.IsInfix.trans ?_ (h.flatMap fun a => (f a).bytes)
    refine ⟨bytes ⟨(f a).first, (f a).stop - 1⟩, bytes ⟨(f b).first + 1, (f b).stop⟩, ?_⟩
    rw [List.flatMap_cons, List.flatMap_singleton, hla, bytes_eq_cons (hne b hb), htouch]
    simp only [List.append_assoc, List.cons_append, List.nil_append]
  · intro h
    obtain ⟨u, v, huv⟩ := h
    obtain ⟨m, r, rfl⟩ := List.append_of_mem ha
    have hsplit : ((m ++ a :: r).flatMap fun a => (f a).bytes) =
        ((m.flatMap fun a => (f a).bytes) ++ bytes ⟨(f a).first, (f a).stop - 1⟩) ++
          ((f a).stop - 1) :: r.flatMap fun a => (f a).bytes := by
      rw [List.flatMap_append, List.flatMap_cons, hla]
      simp only [List.append_assoc, List.cons_append, List.nil_append]
    -- the last byte of the first span stands in the list once, so the next one starts what follows
    have honce := hnodup
    rw [hsplit, List.nodup_middle, List.nodup_cons, List.mem_append, not_or] at honce
    rw [hsplit, List.append_assoc, List.cons_append, List.singleton_append, eq_comm,
      List.append_cons_inj_of_notMem honce.1.1 honce.1.2] at huv
    obtain ⟨-, -, hr⟩ := huv
    cases r with
    | nil => cases hr
    | cons c r =>
      have hc : c ∈ m ++ a :: c :: r := by simp
      rw [List.flatMap_cons, bytes_eq_cons (hne c hc), List.cons_append] at hr
      have hfirst := (List.cons_eq_cons.mp hr).1
      have hcb : c = b := by
        refine eq_of_mem_bytes hnodup hc hb (first_mem_bytes (hne c hc)) ?_
        rw [hfirst, htouch]
        exact first_mem_bytes (hne b hb)
      rw [← hcb]
      exact ⟨m, r, by simp⟩

include hnodup in
/-- Two bytes in a row lie in one span, or on the two sides of a place where two spans touch. -/
theorem inside_or_touch (ha : a ∈ l) (hb : b ∈ l) (hx : x ∈ (f a).bytes)
    (hnext : x + 1 ∈ (f b).bytes) :
    x + 1 < (f a).stop ∨ (f a).stop = x + 1 ∧ (f b).first = x + 1 := by
  obtain ⟨hlow, hhigh⟩ := mem_bytes.mp hx
  obtain ⟨hlow', hhigh'⟩ := mem_bytes.mp hnext
  by_cases hinside : x + 1 < (f a).stop
  · exact .inl hinside
  · refine .inr ⟨by omega, ?_⟩
    by_contra hfirst
    have hsame := eq_of_mem_bytes hnodup ha hb hx (mem_bytes.mpr ⟨by omega, by omega⟩)
    rw [hsame] at hinside
    exact hinside hhigh'

include hne hnodup in
/-- If other spans have the same bytes in the same order, two spans that touch are neighbours in
their list if and only if those of the others that touch there are neighbours in theirs. -/
theorem isInfix_iff_of_eq (hne' : ∀ i ∈ r, (g i).first < (g i).stop)
    (heq : (l.flatMap fun a => (f a).bytes) = r.flatMap fun i => (g i).bytes) (ha : a ∈ l)
    (hb : b ∈ l) (htouch : (f a).stop = (f b).first) :
    [a, b] <:+: l ↔ ∀ i ∈ r, ∀ j ∈ r, (g i).stop = (f a).stop → (g j).first = (f a).stop →
      [i, j] <:+: r := by
  have hnodup' := hnodup
  rw [heq] at hnodup'
  rw [isInfix_iff hne hnodup ha hb htouch, heq]
  have hlt := hne a ha
  obtain ⟨x, hx⟩ := Nat.exists_eq_add_one_of_ne_zero (Nat.ne_zero_of_lt hlt)
  simp only [hx, Nat.add_sub_cancel]
  constructor
  · intro h i hi j hj hstop hfirst
    rw [isInfix_iff hne' hnodup' hi hj (hstop.trans hfirst.symm), hstop]
    exact h
  · intro h
    obtain ⟨i, hi, hlast⟩ : ∃ i ∈ r, x ∈ (g i).bytes := by
      rw [← List.mem_flatMap, ← heq]
      exact List.mem_flatMap.mpr ⟨a, ha, mem_bytes.mpr ⟨by omega, by omega⟩⟩
    obtain ⟨j, hj, hnext⟩ : ∃ j ∈ r, x + 1 ∈ (g j).bytes := by
      rw [← List.mem_flatMap, ← heq, ← hx, htouch]
      exact List.mem_flatMap.mpr ⟨b, hb, first_mem_bytes (hne b hb)⟩
    rcases inside_or_touch hnodup' hi hj hlast hnext with hinside | ⟨hstop, hfirst⟩
    · obtain ⟨u, v, rfl⟩ := List.append_of_mem hi
      rw [List.flatMap_append, List.flatMap_cons]
      exact (isInfix_bytes (mem_bytes.mp hlast).1 hinside).trans (List.infix_append' _ _ _)
    · have hpair := isInfix_iff hne' hnodup' hi hj (hstop.trans hfirst.symm)
      rw [hstop] at hpair
      exact hpair.mp (h i hi j hj hstop hfirst)

end Lists

/-- Puts a span in front of others. It takes over the first of them if that starts where it
stops. -/
def mergeInto (s : Span) : List Span → List Span
  | [] => [s]
  | t :: l => if s.stop = t.first then ⟨s.first, t.stop⟩ :: l else s :: t :: l

/-- One span for every maximal chain of spans, each of which starts where the one before it in the
list stops. -/
def merged (l : List Span) : List Span :=
  l.foldr mergeInto []

/-- Spans that hold something, none of which starts where the one before it stops. -/
structure Separate (l : List Span) : Prop where
  lt : ∀ s ∈ l, s.first < s.stop
  isChain : l.IsChain fun s t => s.stop ≠ t.first

section Merging

variable {l r : List Span} {s t : Span}

theorem Separate.nil : Separate [] :=
  ⟨fun _ hs => absurd hs List.not_mem_nil, .nil⟩

theorem separate_cons :
    Separate (s :: l) ↔ s.first < s.stop ∧ (∀ t ∈ l.head?, s.stop ≠ t.first) ∧ Separate l := by
  constructor
  · intro h
    obtain ⟨hs, hl⟩ := List.forall_mem_cons.mp h.lt
    obtain ⟨hnext, hchain⟩ := List.isChain_cons.mp h.isChain
    exact ⟨hs, hnext, hl, hchain⟩
  · intro hparts
    obtain ⟨hs, hnext, h⟩ := hparts
    exact ⟨List.forall_mem_cons.mpr ⟨hs, h.lt⟩, List.isChain_cons.mpr ⟨hnext, h.isChain⟩⟩

theorem Separate.mergeInto (h : Separate l) (hs : s.first < s.stop) :
    Separate (s.mergeInto l) ∧ (s.mergeInto l).flatMap bytes = s.bytes ++ l.flatMap bytes := by
  cases l with
  | nil => exact ⟨separate_cons.mpr ⟨hs, fun _ ht => absurd ht (Option.not_mem_none _), h⟩, rfl⟩
  | cons t l =>
    obtain ⟨ht, hnext, hl⟩ := separate_cons.mp h
    rw [Span.mergeInto]
    split
    · rename_i htouch
      refine ⟨separate_cons.mpr ⟨Nat.lt_trans hs (htouch ▸ ht), hnext, hl⟩, ?_⟩
      have hsplit : s.bytes ++ bytes ⟨s.stop, t.stop⟩ = bytes ⟨s.first, t.stop⟩ :=
        bytes_append (Nat.le_of_lt hs) (htouch ▸ Nat.le_of_lt ht)
      rw [List.flatMap_cons, List.flatMap_cons, ← List.append_assoc, ← hsplit, htouch]
    · rename_i hapart
      refine ⟨separate_cons.mpr ⟨hs, ?_, h⟩, rfl⟩
      intro u hu
      cases hu
      exact hapart

/-- Merging moves no byte, and leaves no two spans in a row that touch. -/
theorem merged_spec (hl : ∀ s ∈ l, s.first < s.stop) :
    Separate (merged l) ∧ (merged l).flatMap bytes = l.flatMap bytes := by
  induction l with
  | nil => exact ⟨.nil, rfl⟩
  | cons s l ih =>
    obtain ⟨hs, hl⟩ := List.forall_mem_cons.mp hl
    obtain ⟨hseparate, hbytes⟩ := ih hl
    obtain ⟨hstep, hstepBytes⟩ := hseparate.mergeInto hs
    exact ⟨hstep, hstepBytes.trans (by rw [hbytes, List.flatMap_cons])⟩

/-- Where the bytes after a span go on, a span would start that touches it. -/
theorem stop_le_of_bytes_eq (h : Separate (s :: l)) (hfirst : s.first = t.first) {rest : List Nat}
    (hbytes : s.bytes ++ l.flatMap bytes = t.bytes ++ rest) : t.stop ≤ s.stop := by
  obtain ⟨hs, hnext, hl⟩ := separate_cons.mp h
  by_contra hlt
  have hstop : s.stop < t.stop := Nat.not_le.mp hlt
  have hsplit : t.bytes = s.bytes ++ bytes ⟨s.stop, t.stop⟩ := by
    rw [← bytes_append (i := t.first) (j := s.stop) (hfirst ▸ Nat.le_of_lt hs) (Nat.le_of_lt hstop),
      ← hfirst]
  rw [hsplit, List.append_assoc, List.append_cancel_left_eq, bytes_eq_cons hstop] at hbytes
  cases l with
  | nil => cases hbytes
  | cons u l =>
    rw [List.flatMap_cons, bytes_eq_cons (hl.lt u List.mem_cons_self), List.cons_append,
      List.cons_append] at hbytes
    exact hnext u rfl (List.cons.inj hbytes).1.symm

/-- Separate spans are given by their bytes. -/
theorem Separate.eq_of_bytes_eq (hl : Separate l) (hr : Separate r)
    (hbytes : l.flatMap bytes = r.flatMap bytes) : l = r := by
  have hne {s : Span} {l : List Span} (h : Separate (s :: l)) : (s :: l).flatMap bytes ≠ [] := by
    rw [List.flatMap_cons, bytes_eq_cons (separate_cons.mp h).1]
    exact List.cons_ne_nil _ _
  induction l generalizing r with
  | nil =>
    cases r with
    | nil => rfl
    | cons t r => exact absurd hbytes.symm (hne hr)
  | cons s l ih =>
    cases r with
    | nil => exact absurd hbytes (hne hl)
    | cons t r =>
      obtain ⟨hs, -, hl'⟩ := separate_cons.mp hl
      obtain ⟨ht, -, hr'⟩ := separate_cons.mp hr
      rw [List.flatMap_cons, List.flatMap_cons] at hbytes
      have hfirst : s.first = t.first := by
        rw [bytes_eq_cons hs, bytes_eq_cons ht] at hbytes
        exact (List.cons.inj hbytes).1
      have hstop : s.stop = t.stop :=
        Nat.le_antisymm (stop_le_of_bytes_eq hr hfirst.symm hbytes.symm)
          (stop_le_of_bytes_eq hl hfirst hbytes)
      obtain rfl : s = t := by
        cases s
        cases t
        cases hfirst
        cases hstop
        rfl
      rw [ih hl' hr' (List.append_cancel_left hbytes)]

/-- Separate spans with the bytes of others are those, merged. -/
theorem Separate.eq_merged (hl : Separate l) (hr : ∀ s ∈ r, s.first < s.stop)
    (hbytes : l.flatMap bytes = r.flatMap bytes) : l = merged r := by
  obtain ⟨hmerged, hsame⟩ := merged_spec hr
  exact hl.eq_of_bytes_eq hmerged (hbytes.trans hsame.symm)

end Merging

end MemoryManager.Span
