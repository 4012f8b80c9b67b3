import Mathlib.Data.List.Count
import MemoryManager.Proofs.Paging.Isolation
import MemoryManager.Proofs.Paging.PostOrder

namespace MemoryManager

namespace FrameAllocator

/-- What giving the frames back one after the other does to memory: a tracked frame that is not
reserved is free afterwards, and no other frame becomes free; only bytes of the frames and of the
bitmap change. -/
structure GivenBack (a : FrameAllocator) (frames : List PhysicalFrame) (m t : Memory) : Prop where
  bits : ∀ i < a.bitmap.size, a.bitmap.test t i = true ↔ a.bitmap.test m i = true ∧
    ¬ (i < a.totalFrames ∧ a.isReserved i = false ∧ ∃ f ∈ frames, f.index = i)
  bytes : ∀ x, a.bitmap.Outside x → ¬ Memory.InFrames frames x → t.byte x = m.byte x

variable {a : FrameAllocator} {frames : List PhysicalFrame} {f t : PhysicalFrame} {m n k : Memory}

theorem GivenBack.nil (a : FrameAllocator) (m : Memory) : a.GivenBack [] m m := by
  refine ⟨fun i _ => ?_, fun _ _ _ => rfl⟩
  simp only [List.not_mem_nil, false_and, exists_false, and_false, not_false_eq_true, and_true]

theorem GivenBack.cons (h : a.GivenBack [f] m n) (h' : a.GivenBack frames n k) :
    a.GivenBack (f :: frames) m k := by
  refine ⟨fun i hi => ?_, fun x hx hout => ?_⟩
  · rw [h'.bits i hi, h.bits i hi]
    simp only [List.mem_cons, List.not_mem_nil, or_false, exists_eq_or_imp, exists_eq_left]
    by_cases c : f.index = i <;> simp only [c, and_true, and_false, true_or, false_or] <;> tauto
  · rw [h'.bytes x hx, h.bytes x hx]
    · intro hin
      obtain ⟨u, hu, hindex⟩ := hin
      exact hout ⟨u, List.mem_cons.mpr (.inl (List.mem_singleton.mp hu)), hindex⟩
    · intro hin
      obtain ⟨u, hu, hindex⟩ := hin
      exact hout ⟨u, List.mem_cons_of_mem _ hu, hindex⟩

theorem run_give_one (hp : a.Placed) (f : PhysicalFrame) (m : Machine) :
    ∃ m' : Machine, (FrameSource.give f : Action (World FrameAllocator) Empty Unit).run ⟨m, a⟩ =
      (.done (), ⟨m', a⟩) ∧ a.GivenBack [f] m.memory m'.memory := by
  rcases give_cases a m f hp with ⟨e, hrun, hrefusal⟩ | ⟨t, hrun, hr⟩
  · -- a refused frame is not tracked, reserved, or free already
    refine ⟨_, hrun, fun i _ => ?_, fun _ _ _ => rfl⟩
    refine ⟨fun hset => ⟨hset, ?_⟩, And.left⟩
    intro hfree
    obtain ⟨hlt, hres, u, hu, rfl⟩ := hfree
    obtain rfl := List.mem_singleton.mp hu
    have hnone : a.firstRefusal? m.memory u.index 1 = none := by
      refine (firstRefusal?_eq_none_iff a m.memory u.index 1).mpr fun i hi lt => ?_
      obtain rfl : i = u.index := by omega
      exact (refusal?_eq_none_iff a m.memory u.index).mpr ⟨hlt, hres, hset⟩
    rw [hnone] at hrefusal
    cases hrefusal
  · refine ⟨_, hrun, fun i hi => ?_, fun x hx hout => ?_⟩
    · obtain ⟨hlt, hres, -⟩ := hr.owned f.index (Nat.le_refl _) (Nat.lt_succ_self _)
      rw [hr.bits i hi]
      split
      · rename_i c
        obtain rfl : i = f.index := by omega
        simp [hlt, hres]
      · rename_i c
        have hne : f.index ≠ i := by omega
        simp [hne]
    · rw [hr.bytes x hx, if_neg]
      intro c
      exact hout ⟨f, List.mem_singleton_self f, by omega⟩

theorem run_gives (hp : a.Placed) (frames : List PhysicalFrame) (m : Machine) :
    ∃ m' : Machine,
      (frames.forM FrameSource.give : Action (World FrameAllocator) Empty Unit).run ⟨m, a⟩ =
        (.done (), ⟨m', a⟩) ∧ a.GivenBack frames m.memory m'.memory := by
  induction frames generalizing m with
  | nil => exact ⟨m, rfl, .nil a m.memory⟩
  | cons f frames ih =>
    obtain ⟨m₁, hone, hgiven⟩ := run_give_one hp f m
    obtain ⟨m', hrest, hgiven'⟩ := ih m₁
    exact ⟨m', (Action.run_bind_done hone).trans hrest, hgiven.cons hgiven'⟩

/-- A table that is not given back stays as it is. -/
theorem GivenBack.entry (h : a.GivenBack frames m n) (ht : t ∉ frames)
    (hres : a.isReserved t.index = false) (j : TableIndex) : n.entry t j = m.entry t j := by
  refine Memory.entry_congr_frame (fun x hx => ?_) j
  refine h.bytes x (outside_of_not_reserved (by rwa [hx])) ?_
  intro hin
  obtain ⟨v, hv, hindex⟩ := hin
  obtain rfl : t = v := PhysicalFrame.ext (hx.symm.trans hindex)
  exact ht hv

end FrameAllocator

namespace FourLevel

open Memory FrameAllocator

/-- No present leaf entry of the address space below `r` names one of its own tables. -/
def Apart (m : Memory) (roots : List PhysicalFrame) (r : PhysicalFrame) : Prop :=
  ∀ is f, is.length = 4 → m.tableAt r is = some f → ∀ js, ¬ m.Finds roots r js f

variable {p : FourLevel} {a : FrameAllocator} {m : Memory} {roots used : List PhysicalFrame}
  {r t f : PhysicalFrame} {is js : List TableIndex}

/-- Different positions of an address space name different frames if one of them names a table. -/
theorem Forest.ne_of_apart (hf : Forest p m roots used) (happart : Apart m roots r)
    (hr : r ∈ roots) (hlen : is.length ≤ 4) (hnames : m.tableAt r is = some f)
    (ht : m.Finds roots r js t) (hne : is ≠ js) : f ≠ t := by
  intro heq
  obtain rfl := heq
  by_cases hleaf : is.length = 4
  · exact happart is f hleaf hnames js ht
  · have hfinds : m.Finds roots r is f := ⟨hr, by omega, hnames⟩
    exact hne (hf.unique hfinds ht).2

/-- The tables of the address space below `r` that lie at positions of the kind `P` are in the world as
they are in the memory `m`. -/
structure Intact (a : FrameAllocator) (m : Memory) (roots : List PhysicalFrame) (r : PhysicalFrame)
    (P : List TableIndex → Prop) (w : World FrameAllocator) : Prop where
  part : w.part = a
  entries : ∀ {js u}, P js → m.Finds roots r js u → ∀ j,
    w.machine.memory.entry u j = m.entry u j

theorem Intact.mono {P Q : List TableIndex → Prop} {w : World FrameAllocator}
    (hw : Intact a m roots r P w) (h : ∀ js, Q js → P js) : Intact a m roots r Q w :=
  ⟨hw.part, fun hjs => hw.entries (h _ hjs)⟩

theorem Intact.visits {w : World FrameAllocator} (hw : Intact a m roots r (is <+: ·) w)
    (l : List TableIndex) :
    Intact a m roots r (fun js => js = is ∨ ∃ j ∈ l, is ++ [j] <+: js) w := by
  refine hw.mono fun js hjs => ?_
  rcases hjs with rfl | ⟨j, -, hpre⟩
  · exact List.prefix_rfl
  · exact (List.prefix_append is [j]).trans hpre

theorem tableAt_below {u : PhysicalFrame} {i : TableIndex} {depth : Nat}
    (ht : m.Finds roots r is t) (hlen : is.length + depth ≤ 3) (hchild : m.child? t i = some u)
    (hmem : f ∈ m.framesBelow depth u tableEntries ++ [u]) :
    ∃ ks, (is ++ [i] ++ ks).length ≤ 4 ∧ m.tableAt r (is ++ [i] ++ ks) = some f := by
  have hu : ∀ ks, m.tableAt r (is ++ [i] ++ ks) = m.tableAt u ks := fun ks => by
    rw [tableAt_append, tableAt_concat, ht.table, Option.bind_some, hchild, Option.bind_some]
  simp only [hu, List.length_append, List.length_singleton]
  rcases List.mem_append.mp hmem with hmem | hmem
  · obtain ⟨ks, -, hks, hf⟩ := mem_framesBelow.mp hmem
    exact ⟨ks, by omega, hf⟩
  · rw [List.mem_singleton.mp hmem]
    exact ⟨[], by rw [List.length_nil]; omega, rfl⟩

/-- What lies below one entry of a table lies below no other. -/
theorem not_prefix_of_visits {i : TableIndex} {l : List TableIndex} (hi : i ∉ l)
    (hjs : js = is ∨ ∃ j ∈ l, is ++ [j] <+: js) : ¬ is ++ [i] <+: js := by
  intro hpre
  rcases hjs with rfl | ⟨j, hj, hpre'⟩
  · have hle := hpre.length_le
    rw [List.length_append, List.length_singleton] at hle
    omega
  · have hsame : is ++ [i] = is ++ [j] :=
      (List.prefix_of_prefix_length_le hpre hpre' (by simp)).eq_of_length (by simp)
    obtain ⟨-, hindex⟩ := List.append_inj' hsame rfl
    cases hindex
    exact hi hj

/-- Visits the present entries of a table at the given positions. -/
def visitEach {τ ε : Type} (t : PhysicalFrame) (visit : PageEntry → Action (World τ) ε Unit)
    (l : List TableIndex) : Action (World τ) ε Unit :=
  l.forM fun i => do
    let e := (← World.load).entry t i
    if e.present then visit e

theorem forPresent_eq {τ ε : Type} (t : PhysicalFrame) (count : Nat)
    (visit : PageEntry → Action (World τ) ε Unit) :
    forPresent t count visit = visitEach t visit ((List.finRange 512).take count) := rfl

theorem run_visitEach_cons {τ ε : Type} {t : PhysicalFrame}
    {visit : PageEntry → Action (World τ) ε Unit} {i : TableIndex} {l : List TableIndex}
    {w : World τ} (w' : World τ)
    (h : (if (w.machine.memory.entry t i).present then visit (w.machine.memory.entry t i)
      else pure ()).run w = (.done (), w')) :
    (visitEach t visit (i :: l)).run w = (visitEach t visit l).run w' := by
  have hone : (do
      let e := (← World.load).entry t i
      if e.present then visit e : Action (World τ) ε Unit).run w = (.done (), w') := by
    simp only [Action.run_bind, World.run_load]
    exact h
  exact Action.run_bind_done hone

section Release

variable (hf : Forest p m roots used) (hp : a.Placed)
  (hfree : ∀ u ∈ used, a.isReserved u.index = false) (happart : Apart m roots r)
include hf hp hfree happart

/-- Giving back frames that lie at and below one position leaves alone the tables that do not. -/
theorem Intact.gives {P Q : List TableIndex → Prop} {w : World FrameAllocator}
    (hw : Intact a m roots r P w) {frames : List PhysicalFrame} (hr : r ∈ roots)
    (hframes : ∀ f ∈ frames, ∃ ks, (is ++ ks).length ≤ 4 ∧ m.tableAt r (is ++ ks) = some f)
    (hQ : ∀ js, Q js → P js ∧ ¬ is <+: js) :
    ∃ w', (frames.forM FrameSource.give : Action (World FrameAllocator) Empty Unit).run w =
      (.done (), w') ∧ Intact a m roots r Q w' := by
  obtain ⟨machine, part⟩ := w
  obtain rfl : part = a := hw.part
  obtain ⟨m', hrun, hgiven⟩ := run_gives hp frames machine
  refine ⟨_, hrun, rfl, fun {js u} hjs hu j => ?_⟩
  obtain ⟨hP, hnot⟩ := hQ js hjs
  rw [← hw.entries hP hu j]
  refine hgiven.entry ?_ (hfree u (hf.used hu)) j
  intro hmem
  obtain ⟨ks, hlen, hnames⟩ := hframes u hmem
  refine hf.ne_of_apart happart hr hlen hnames hu ?_ rfl
  intro heq
  exact hnot (heq ▸ List.prefix_append is ks)

/-- Visiting the entries of a table one after the other gives back what a listing says, if every
visit does that for its entry. -/
theorem run_visits (below : PhysicalFrame → List PhysicalFrame)
    {visit : PageEntry → Action (World FrameAllocator) Empty Unit} (ht : m.Finds roots r is t)
    (hvisit : ∀ i, (m.entry t i).present = true → ∀ w,
      Intact a m roots r (fun js => is ++ [i] <+: js) w → (visit (m.entry t i)).run w =
        ((below (m.entry t i).frame ++ [(m.entry t i).frame]).forM FrameSource.give).run w)
    (hbelow : ∀ i u, m.child? t i = some u → ∀ f ∈ below u ++ [u],
      ∃ ks, (is ++ [i] ++ ks).length ≤ 4 ∧ m.tableAt r (is ++ [i] ++ ks) = some f)
    (l : List TableIndex) (hl : l.Nodup) {w : World FrameAllocator}
    (hw : Intact a m roots r (fun js => js = is ∨ ∃ j ∈ l, is ++ [j] <+: js) w) :
    (visitEach t visit l).run w =
      ((l.flatMap fun i => (m.child? t i).elim [] fun u => below u ++ [u]).forM
        FrameSource.give).run w := by
  induction l generalizing w with
  | nil => rfl
  | cons i l ih =>
    obtain ⟨hil, hl⟩ := List.nodup_cons.mp hl
    have hentry := hw.entries (.inl rfl) ht i
    have hrest : ∀ js, (js = is ∨ ∃ j ∈ l, is ++ [j] <+: js) →
        (js = is ∨ ∃ j ∈ i :: l, is ++ [j] <+: js) := fun js hjs =>
      hjs.imp_right fun ⟨j, hj, hpre⟩ => ⟨j, List.mem_cons_of_mem i hj, hpre⟩
    cases hpresent : (m.entry t i).present with
    | false =>
      rw [run_visitEach_cons w, ih hl (hw.mono hrest), List.flatMap_cons,
        child?_eq_none hpresent, Option.elim_none, List.nil_append]
      rw [hentry, hpresent]
      exact Action.run_pure _ _
    | true =>
      have hchild := child?_eq_some hpresent
      -- below the entry nothing has been given back yet
      have hbefore : Intact a m roots r (fun js => is ++ [i] <+: js) w :=
        hw.mono fun js hjs => .inr ⟨i, List.mem_cons_self, hjs⟩
      obtain ⟨w', hgives, hafter⟩ := hw.gives hf hp hfree happart ht.root
        (hbelow i _ hchild) fun js hjs => ⟨hrest js hjs, not_prefix_of_visits hil hjs⟩
      rw [run_visitEach_cons w', ih hl hafter, List.flatMap_cons, hchild]
      · exact (Action.run_forM_append hgives _).symm
      · rw [hentry, if_pos hpresent, hvisit i hpresent w hbefore, hgives]

/-- What lies below a table is given back in post-order. -/
theorem run_releaseBelow (depth : Nat) (ht : m.Finds roots r is t) (hlen : is.length + depth = 3)
    (count : Nat) {w : World FrameAllocator} (hw : Intact a m roots r (is <+: ·) w) :
    (p.releaseBelow depth t count : Action (World FrameAllocator) Empty Unit).run w =
      ((m.framesBelow (depth + 1) t count).forM FrameSource.give).run w := by
  induction depth generalizing is t count w with
  | zero =>
    rw [framesBelow_succ, releaseBelow, forPresent_eq]
    refine run_visits hf hp hfree happart (fun u => m.framesBelow 0 u tableEntries) ht ?_
      (fun i u hchild f => tableAt_below ht (by omega) hchild) _ (nodup_take_finRange count)
      (hw.visits _)
    intro i _ w _
    exact (Action.run_forM_singleton _ _ _).symm
  | succ depth ih =>
    rw [framesBelow_succ, releaseBelow, forPresent_eq]
    refine run_visits hf hp hfree happart
      (fun u => m.framesBelow (depth + 1) u tableEntries) ht ?_
      (fun i u hchild f => tableAt_below ht (by omega) hchild) _ (nodup_take_finRange count)
      (hw.visits _)
    intro i hpresent w hbefore
    have hnext := ht.next (by omega) hpresent
    have hlen' : (is ++ [i]).length + depth = 3 := by
      rw [List.length_append, List.length_singleton]
      omega
    have hbelow := ih hnext hlen' tableEntries hbefore
    obtain ⟨v, hreach⟩ := hf.reached hnext
    obtain ⟨machine, part⟩ := w
    obtain rfl : part = a := hbefore.part
    obtain ⟨m', hgives, -⟩ :=
      run_gives hp (m.framesBelow (depth + 1) (m.entry t i).frame tableEntries) machine
    rw [Action.run_bind_done (run_reach hreach _), Action.run_bind_done (hbelow.trans hgives),
      Action.run_forM_append hgives, Action.run_forM_singleton]

/-- The lower half of an address space is given back in post-order, and the root table last. -/
theorem run_destroy {root : RootTable} (hr : root.frame ∈ roots) (hroot : root.frame = r)
    {w : World FrameAllocator} (hpart : w.part = a) (hmemory : w.machine.memory = m) :
    (p.destroy root : Action (World FrameAllocator) Empty Unit).run w =
      ((m.framesBelow 4 r lowerHalfEntries ++ [r]).forM FrameSource.give).run w := by
  subst hroot
  have hfinds : m.Finds roots root.frame [] root.frame := finds_root hr
  have hw : Intact a m roots root.frame ([] <+: ·) w :=
    ⟨hpart, fun _ _ j => by rw [hmemory]⟩
  have hbelow := run_releaseBelow hf hp hfree happart 3 hfinds rfl lowerHalfEntries hw
  obtain ⟨v, hreach⟩ := hf.reached hfinds
  obtain ⟨machine, part⟩ := w
  obtain rfl : part = a := hpart
  obtain ⟨m', hgives, -⟩ := run_gives hp (m.framesBelow 4 root.frame lowerHalfEntries) machine
  rw [destroy, Action.run_bind_done (run_reach hreach _), Action.run_bind_done (hbelow.trans hgives),
    Action.run_forM_append hgives, Action.run_forM_singleton]

end Release

/-- The positions of the lower half that lead somewhere, and the root's, in post-order. -/
def lowerSites (m : Memory) (r : PhysicalFrame) : List (List TableIndex) :=
  m.sitesBelow 4 r lowerHalfEntries ++ [[]]

/-- The frames of the lower half and the root's, in the order in which they are given back. -/
def lowerFrames (m : Memory) (r : PhysicalFrame) : List PhysicalFrame :=
  m.framesBelow 4 r lowerHalfEntries ++ [r]

theorem pairwise_lowerSites (m : Memory) (r : PhysicalFrame) :
    (lowerSites m r).Pairwise PostOrder := by
  refine List.pairwise_append.mpr ⟨m.pairwise_sitesBelow 4 r _, List.pairwise_singleton _ _, ?_⟩
  intro is his js hjs
  obtain ⟨i, ks, rfl⟩ := head_of_mem_sitesBelow his
  rw [List.mem_singleton.mp hjs]
  exact .under i ks

theorem map_lowerSites (m : Memory) (r : PhysicalFrame) :
    (lowerSites m r).map (m.tableAt r) = (lowerFrames m r).map some := by
  rw [lowerSites, lowerFrames, List.map_append, map_sitesBelow, List.map_append]
  rfl

theorem length_of_mem_lowerSites (h : is ∈ lowerSites m r) : is.length ≤ 4 := by
  rcases List.mem_append.mp h with h | h
  · exact (mem_sitesBelow.mp h).2.1
  · rw [List.mem_singleton.mp h]
    exact Nat.zero_le 4

theorem tableAt_of_mem_lowerFrames (h : f ∈ lowerFrames m r) :
    ∃ is, is.length ≤ 4 ∧ m.tableAt r is = some f := by
  have hmem : some f ∈ (lowerFrames m r).map some := List.mem_map_of_mem h
  rw [← map_lowerSites] at hmem
  obtain ⟨is, his, hnames⟩ := List.mem_map.mp hmem
  exact ⟨is, length_of_mem_lowerSites his, hnames⟩

/-- Every table of the lower half is given back once. -/
theorem count_lowerFrames (hf : Forest p m roots used) (happart : Apart m roots r)
    (his : is ∈ lowerSites m r) (ht : m.Finds roots r is t) : (lowerFrames m r).count t = 1 := by
  have hnodup : (lowerSites m r).Nodup := (pairwise_lowerSites m r).imp PostOrder.ne
  rw [← List.count_map_of_injective _ some (Option.some_injective _), ← map_lowerSites,
    List.count, List.countP_map]
  refine (List.countP_congr fun js hjs => ?_).trans (List.count_eq_one_of_mem hnodup his)
  simp only [Function.comp_apply, beq_iff_eq]
  constructor
  · intro hnames
    by_contra hne
    exact hf.ne_of_apart happart ht.root (length_of_mem_lowerSites hjs) hnames ht hne rfl
  · intro heq
    rw [heq, ht.table]

theorem mem_lowerSites : is ∈ lowerSites m r ↔
    (∀ i ∈ is.head?, i.val < 256) ∧ is.length ≤ 4 ∧ (m.tableAt r is).isSome := by
  rw [lowerSites, List.mem_append, List.mem_singleton]
  cases is with
  | nil => simp
  | cons i ks => simp [mem_sitesBelow, lowerHalfEntries]

end FourLevel

/-- Giving back an address space, whatever was done before the first one was created and however the
requests on them ended, gives back exactly its lower half: the frame of every present entry below the
first 256 root entries, in post-order, and the root table last; among them every table once. The
bitmap changes in exactly the bits of the root, of these tables and of those other frames that are
tracked and neither frame 0 nor one of the bitmap. -/
theorem destroy_exact {boot : BootInfo} {a : FrameAllocator} {m₀ m : Machine}
    (hinit : (FrameAllocator.init boot).run m₀ = (.done a, m)) {h : Holding}
    (hh : Holding.Reachable a m h) {p : FourLevel} {s : Spaces}
    (hs : Spaces.Reachable p ⟨h.machine, a⟩ s) {root : RootTable} (hroot : root.frame ∈ s.roots)
    (happart : FourLevel.Apart s.memory s.roots root.frame) :
    ∃ (sites : List (List TableIndex)) (frames : List PhysicalFrame) (m' : Machine),
      (sites ++ [[]]).Pairwise PostOrder ∧
      (∀ is, is ∈ sites ++ [[]] ↔ (∀ i ∈ is.head?, i.val < 256) ∧ is.length ≤ 4 ∧
        (s.memory.tableAt root.frame is).isSome) ∧
      (sites ++ [[]]).map (s.memory.tableAt root.frame) = frames.map some ∧
      (p.destroy root : Action (World FrameAllocator) Empty Unit).run s.world =
        (frames.forM FrameSource.give).run s.world ∧
      (p.destroy root : Action (World FrameAllocator) Empty Unit).run s.world =
        (.done (), ⟨m', a⟩) ∧
      (∀ is ∈ sites ++ [[]], ∀ t, s.memory.Finds s.roots root.frame is t →
        frames.count t = 1 ∧ t.index < a.totalFrames ∧
          a.bitmap.test s.memory t.index = true ∧ a.bitmap.test m'.memory t.index = false) ∧
      ∀ i < a.bitmap.size, (a.bitmap.test m'.memory i = true ↔ a.bitmap.test s.memory i = true ∧
        ¬ ((∃ f ∈ frames, f.index = i) ∧ i < a.totalFrames ∧ i ≠ 0 ∧
          ¬ (a.bitmapFrame.index ≤ i ∧ i < a.bitmapFrame.index + a.bitmapFrames))) := by
  have hlends : FrameAllocator.Lends [] ⟨h.machine, a⟩ :=
    ⟨(hh.ledger hinit).toSound, fun _ hu => absurd hu List.not_mem_nil⟩
  obtain ⟨used, hk, hf⟩ := (hs.sound hlends rfl).tables
  have hpart : s.world.part = a := hk.part
  have hplaced : a.Placed := hpart ▸ hk.toPlaced
  have hheld : ∀ u ∈ used, u.index < a.totalFrames ∧ a.isReserved u.index = false ∧
      a.bitmap.test s.memory u.index = true := fun u hu => by
    have := hk.held u hu
    rwa [hpart] at this
  have hdestroy := FourLevel.run_destroy hf hplaced (fun u hu => (hheld u hu).2.1) happart hroot rfl
    hpart rfl
  obtain ⟨m', hgives, hgiven⟩ :=
    FrameAllocator.run_gives hplaced (FourLevel.lowerFrames s.memory root.frame) s.world.machine
  have hworld : s.world = ⟨s.world.machine, a⟩ := by rw [← hpart]
  rw [← hworld] at hgives
  refine ⟨_, FourLevel.lowerFrames s.memory root.frame, m',
    FourLevel.pairwise_lowerSites s.memory root.frame, fun is => FourLevel.mem_lowerSites,
    FourLevel.map_lowerSites s.memory root.frame, hdestroy, hdestroy.trans hgives, ?_, ?_⟩
  · intro is his t ht
    obtain ⟨hlt, hres, hset⟩ := hheld t (hf.used ht)
    have hcount := FourLevel.count_lowerFrames hf happart his ht
    refine ⟨hcount, hlt, hset, ?_⟩
    rw [← Bool.not_eq_true, hgiven.bits t.index (Nat.lt_of_lt_of_le hlt a.total_le_size)]
    intro hafter
    exact hafter.2 ⟨hlt, hres, t, List.count_pos_iff.mp (by omega), rfl⟩
  · intro i hi
    rw [hgiven.bits i hi, FrameAllocator.isReserved_eq_false_iff]
    refine and_congr_right fun _ => not_congr ?_
    rw [← and_assoc, and_comm]

namespace FourLevel

open FrameAllocator Memory

/-- Every choice of four positions is the one of some address. -/
theorem exists_address {is : List TableIndex} (h : is.length = 4) :
    ∃ va, is = positions va ++ [leafIndex va] := by
  obtain ⟨i, j, k, l, rfl⟩ := List.length_eq_four.mp h
  have hi := i.isLt
  have hj := j.isLt
  have hk := k.isLt
  have hl := l.isLt
  have hvalue : (UInt64.ofNat (i * 2 ^ 39 + j * 2 ^ 30 + k * 2 ^ 21 + l * 2 ^ 12)).toNat =
      i * 2 ^ 39 + j * 2 ^ 30 + k * 2 ^ 21 + l * 2 ^ 12 := by
    rw [UInt64.toNat_ofNat']
    omega
  refine ⟨⟨.ofNat (i * 2 ^ 39 + j * 2 ^ 30 + k * 2 ^ 21 + l * 2 ^ 12)⟩, ?_⟩
  have hpml4 : Level.pml4.shift.toNat % 64 = 39 := rfl
  have hpdpt : Level.pdpt.shift.toNat % 64 = 30 := rfl
  have hpd : Level.pd.shift.toNat % 64 = 21 := rfl
  have hpt : Level.pt.shift.toNat % 64 = 12 := rfl
  simp only [positions, path, List.map_cons, List.map_nil, leafIndex, List.cons_append,
    List.nil_append, List.cons.injEq, and_true, Fin.ext_iff, TableIndex.val_select, hvalue, hpml4,
    hpdpt, hpd, hpt]
  omega

/-- An address space that maps nothing but frames handed out to others names none of its own
tables. -/
theorem Mirrors.apart {a : FrameAllocator} {others : List Nat} {m : Memory}
    {p : FourLevel} {root : RootTable} {pm : PageMap} {w : World FrameAllocator}
    (h : Mirrors (LendsBeside a others m) p root pm w)
    (hpm : ∀ page, (pm page).flags.contains .present = true → (pm page).frame.index ∈ others) :
    Apart w.machine.memory [root.frame] root.frame := by
  obtain ⟨⟨used, hk, hf⟩, hshows⟩ := h
  intro is f hlen hnames js hjs
  obtain ⟨va, rfl⟩ := exists_address hlen
  rw [tableAt_concat] at hnames
  obtain ⟨t, ht, hchild⟩ := Option.bind_eq_some_iff.mp hnames
  have hshow := hshows va
  rw [entryAt_of_some ht] at hshow
  rw [child?] at hchild
  split at hchild
  · rename_i hpresent
    obtain rfl := Option.some.inj hchild
    rw [hshow.present] at hpresent
    apply hk.apart _ (hf.used hjs)
    rw [hshow.frame]
    exact hpm va.page hpresent
  · cases hchild

end FourLevel

namespace TwoRegions

/-- One frame is handed out. -/
def holding : Holding :=
  Holding.perform allocator ⟨machine, []⟩ (.alloc 1)

theorem holding_reachable : Holding.Reachable allocator machine holding :=
  .step (.alloc 1) .start fun _ hi => False.elim hi

/-- An address space that maps that frame. -/
def mapping : Spaces :=
  (Spaces.perform paging ⟨⟨holding.machine, allocator⟩, [], []⟩ .newRoot).perform paging
    (.change secondRoot (.map ⟨0x2000⟩ ⟨0x40202000⟩ ⟨3⟩))

theorem newRoot_holding_eq : paging.newRoot.run ⟨holding.machine, allocator⟩ =
    (.done secondRoot, (paging.newRoot.run ⟨holding.machine, allocator⟩).2) :=
  Prod.ext rfl rfl

theorem roots_mapping : mapping.roots = [secondRoot.frame] := by
  decide +kernel

theorem mapping_reachable : Spaces.Reachable paging ⟨holding.machine, allocator⟩ mapping := by
  refine (Spaces.Reachable.start.step .newRoot trivial).step
    (.change secondRoot (.map ⟨0x2000⟩ ⟨0x40202000⟩ ⟨3⟩)) ?_
  have hroots := roots_mapping
  rw [mapping, Spaces.roots_change] at hroots
  rw [Spaces.Allowed, hroots]
  exact List.mem_singleton_self _

theorem apart_mapping : FourLevel.Apart mapping.memory mapping.roots secondRoot.frame := by
  have hheld : holding.held = [2] := by decide +kernel
  have hledger := holding_reachable.ledger init_eq
  have hset := hledger.set_of_held (i := 2) (by rw [hheld]; exact List.mem_singleton_self 2)
  have hlends : FrameAllocator.LendsBeside allocator [2] holding.machine.memory []
      ⟨holding.machine, allocator⟩ := by
    refine ⟨⟨hledger.toSound, fun u hu => absurd hu List.not_mem_nil⟩, rfl, fun i hi => ?_,
      fun u hu => absurd hu List.not_mem_nil, fun _ _ => rfl⟩
    rw [List.mem_singleton.mp hi]
    exact hset
  have hbuilt := (FourLevel.Built.start newRoot_holding_eq).request
    (.map ⟨0x2000⟩ ⟨0x40202000⟩ ⟨3⟩) rfl
  rw [roots_mapping]
  refine (hbuilt.mirrors (FrameAllocator.lawful_beside allocator [2] _)
    hlends).apart fun page hpage => ?_
  -- the plain map has one page
  by_cases hpage' : page = VirtualAddress.page ⟨0x40202000⟩
  · rw [hpage', PageRequest.apply, Function.update_self]
    exact List.mem_singleton_self _
  · rw [PageRequest.apply, Function.update_of_ne hpage'] at hpage
    exact absurd hpage (show ¬ PageFlags.empty.contains .present = true by decide)

end TwoRegions

/-- A frame that is handed out and mapped is free again after the address space is given back, and so
is the root table. -/
theorem destroy_exact_of_two_regions :
    ∃ m' : Machine, (TwoRegions.paging.destroy TwoRegions.secondRoot :
        Action (World FrameAllocator) Empty Unit).run TwoRegions.mapping.world =
          (.done (), ⟨m', TwoRegions.allocator⟩) ∧
      TwoRegions.allocator.bitmap.test TwoRegions.mapping.memory 2 = true ∧
      TwoRegions.allocator.bitmap.test m'.memory 2 = false ∧
      TwoRegions.allocator.bitmap.test m'.memory 3 = false := by
  have hroot : TwoRegions.secondRoot.frame ∈ TwoRegions.mapping.roots := by
    rw [TwoRegions.roots_mapping]
    exact List.mem_singleton_self _
  have hleaf : TwoRegions.mapping.memory.tableAt TwoRegions.secondRoot.frame [0, 1, 1, 2] =
      some (.ofIndex 2) := by
    decide +kernel
  obtain ⟨sites, frames, m', -, hsites, hframes, -, hrun, htables, hbits⟩ :=
    destroy_exact TwoRegions.init_eq TwoRegions.holding_reachable TwoRegions.mapping_reachable hroot
      TwoRegions.apart_mapping
  refine ⟨m', hrun, by decide +kernel, ?_, ?_⟩
  · have hsite : [0, 1, 1, 2] ∈ sites ++ [[]] := (hsites _).mpr ⟨by simp, by simp, by rw [hleaf]; rfl⟩
    have hmem : some (PhysicalFrame.ofIndex 2) ∈ frames.map some := by
      rw [← hframes, ← hleaf]
      exact List.mem_map_of_mem hsite
    obtain ⟨f, hf, hsame⟩ := List.mem_map.mp hmem
    obtain rfl := Option.some.inj hsame
    rw [← Bool.not_eq_true, hbits 2 (by decide)]
    exact fun hafter => hafter.2 ⟨⟨_, hf, rfl⟩, by decide⟩
  · exact (htables [] ((hsites []).mpr ⟨by simp, by simp, rfl⟩) _
      ⟨hroot, Nat.zero_le 3, rfl⟩).2.2.2

end MemoryManager
