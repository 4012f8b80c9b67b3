import MemoryManager.Proofs.Heap.Order

namespace MemoryManager

namespace KernelHeap

/-- A block once the payloads `as` are released. -/
def marked (as : List VirtualAddress) (c : Extent) : Extent :=
  { c with free := c.free || decide (c.payload ∈ as) }

/-- Puts block `c` in front of blocks for which `as` are released already. It is joined with the
first of them if both are free, one of the two is among those released, and nothing lies between
them. -/
def attach (as : List VirtualAddress) (c : Extent) : List Extent → List Extent
  | [] => [marked as c]
  | e :: r =>
    if (marked as c).free = true ∧ e.free = true ∧ (c.payload ∈ as ∨ e.payload ∈ as) ∧
        c.address.add (headerSize + c.size) = e.address then
      { marked as c with size := c.size + (headerSize + e.size) } :: r
    else marked as c :: e :: r

/-- The blocks once the payloads `as` are released, all at one time. -/
def releasedAll (as : List VirtualAddress) (cs : List Extent) : List Extent :=
  cs.foldr (attach as) []

variable {as bs : List VirtualAddress} {b c e : Extent} {l r cs : List Extent}

theorem marked_of_notMem (h : c.payload ∉ as) : marked as c = c := by
  simp [marked, h]

theorem marked_of_mem (h : c.payload ∈ as) : marked as c = { c with free := true } := by
  simp [marked, h]

theorem releasedAll_cons (as : List VirtualAddress) (c : Extent) (cs : List Extent) :
    releasedAll as (c :: cs) = attach as c (releasedAll as cs) := rfl

/-- Only the first of the blocks matters to the one in front. -/
theorem attach_append (as : List VirtualAddress) (c : Extent) (hl : l ≠ []) (r : List Extent) :
    attach as c (l ++ r) = attach as c l ++ r := by
  obtain ⟨e, l, rfl⟩ := List.exists_cons_of_ne_nil hl
  simp only [attach, List.cons_append]
  split <;> rfl

theorem attach_congr (as : List VirtualAddress) (c : Extent)
    (hsame : c.payload ∈ as ↔ c.payload ∈ bs) (hr : ∀ e ∈ r, e.payload ∈ as ↔ e.payload ∈ bs) :
    attach as c r = attach bs c r := by
  have hmark : marked as c = marked bs c := by simp only [marked, hsame]
  cases r with
  | nil => rw [attach, attach, hmark]
  | cons e r => simp only [attach, hmark, hsame, hr e List.mem_cons_self]

theorem exists_of_mem_releasedAll (he : e ∈ releasedAll as cs) :
    ∃ c ∈ cs, e.payload = c.payload := by
  induction cs generalizing e with
  | nil => cases he
  | cons c cs ih =>
    have hrest : ∀ e ∈ releasedAll as cs, ∃ b ∈ c :: cs, e.payload = b.payload := by
      intro e he
      obtain ⟨b, hb, heq⟩ := ih he
      exact ⟨b, List.mem_cons_of_mem _ hb, heq⟩
    rw [releasedAll_cons] at he
    cases hr : releasedAll as cs with
    | nil =>
      rw [hr, attach, List.mem_singleton] at he
      exact ⟨c, List.mem_cons_self, he ▸ rfl⟩
    | cons d r =>
      rw [hr] at he hrest
      simp only [attach] at he
      split at he
      · rcases List.mem_cons.mp he with rfl | he
        · exact ⟨c, List.mem_cons_self, rfl⟩
        · exact hrest e (List.mem_cons_of_mem _ he)
      · rcases List.mem_cons.mp he with rfl | he
        · exact ⟨c, List.mem_cons_self, rfl⟩
        · exact hrest e he

theorem releasedAll_congr (h : ∀ c ∈ cs, c.payload ∈ as ↔ c.payload ∈ bs) :
    releasedAll as cs = releasedAll bs cs := by
  induction cs with
  | nil => rfl
  | cons c cs ih =>
    rw [List.forall_mem_cons] at h
    rw [releasedAll_cons, releasedAll_cons, ← ih h.2]
    refine attach_congr as c h.1 fun e he => ?_
    obtain ⟨b, hb, heq⟩ := exists_of_mem_releasedAll he
    rw [heq]
    exact h.2 b hb

theorem releasedAll_nil (cs : List Extent) : releasedAll [] cs = cs := by
  induction cs with
  | nil => rfl
  | cons c cs ih =>
    rw [releasedAll_cons, ih]
    cases cs with
    | nil => simp [attach, marked_of_notMem]
    | cons e r => simp [attach, marked_of_notMem]

/-- A block in use that is not released keeps what is in front of it apart from what is behind. -/
theorem releasedAll_split (hused : c.free = false) (hc : c.payload ∉ as) (l r : List Extent) :
    releasedAll as (l ++ c :: r) = releasedAll as l ++ c :: releasedAll as r := by
  induction l with
  | nil =>
    rw [List.nil_append, releasedAll_cons]
    cases releasedAll as r with
    | nil => simp [attach, marked_of_notMem hc, releasedAll]
    | cons e r => simp [attach, marked_of_notMem hc, hused, releasedAll]
  | cons b l ih =>
    rw [List.cons_append, releasedAll_cons, ih, releasedAll_cons]
    by_cases hl : releasedAll as l = []
    · simp [hl, attach, hused]
    · exact attach_append as b hl _

theorem released_cons (hl : l ≠ []) (b c : Extent) (r : List Extent) :
    released (b :: l) c r = b :: released l c r := by
  obtain ⟨l, d, rfl⟩ := (List.eq_nil_or_concat l).resolve_left hl
  rw [List.concat_eq_append, ← List.cons_append, released_concat, released_concat]
  rfl

/-- Releasing a block does not change where the first block of the list starts. -/
theorem released_cons_eq (e c : Extent) (l r : List Extent) :
    ∃ n s, released (e :: l) c r = { e with size := n } :: s := by
  by_cases hl : l = []
  · subst hl
    rw [← List.nil_append [e], released_concat, List.nil_append]
    split
    · exact joined_eq e _
    · exact ⟨e.size, _, rfl⟩
  · exact ⟨e.size, _, released_cons hl e c r⟩

/-- The end of a block that has taken over the next one is where the next one ended. -/
theorem stop_joined (h : b.address.add (headerSize + b.size) = e.address) :
    b.address.add (headerSize + (b.size + (headerSize + e.size))) =
      e.address.add (headerSize + e.size) := by
  rw [← h]
  simp only [VirtualAddress.add]
  congr 1
  ac_rfl

/-- A block that has taken over the next one joins what follows as the next one would. -/
theorem joined_joined (h : b.address.add (headerSize + b.size) = e.address) {n : UInt64}
    {s : List Extent} (hr : joined e r = { e with size := n } :: s) :
    joined { b with size := b.size + (headerSize + e.size) } r =
      { b with size := b.size + (headerSize + n) } :: s := by
  cases r with
  | nil =>
    obtain ⟨hhead, rfl⟩ := List.cons.inj hr
    have hsize : e.size = n := congrArg Extent.size hhead
    rw [← hsize]
    rfl
  | cons d r =>
    simp only [joined, stop_joined h] at hr ⊢
    split at hr
    · rename_i hjoin
      obtain ⟨hhead, rfl⟩ := List.cons.inj hr
      have hsize : e.size + (headerSize + d.size) = n := congrArg Extent.size hhead
      rw [if_pos hjoin, ← hsize]
      simp only [UInt64.add_assoc]
    · rename_i hjoin
      obtain ⟨hhead, rfl⟩ := List.cons.inj hr
      have hsize : e.size = n := congrArg Extent.size hhead
      rw [if_neg hjoin, ← hsize]

/-- Releasing block `c` behind the blocks `l` and then putting block `b` in front of them is the same
as the other way round. -/
theorem released_attach (hb : b.payload ≠ c.payload) (hl : ∀ e ∈ l, e.payload ≠ c.payload) :
    released (attach as b l) c r = attach (c.payload :: as) b (released l c r) := by
  have hnew {x : Extent} (hx : x.payload ≠ c.payload) :
      x.payload ∈ c.payload :: as ↔ x.payload ∈ as := by
    rw [List.mem_cons, or_iff_right hx]
  have hmark : marked (c.payload :: as) b = marked as b := by
    simp only [marked, hnew hb]
  cases l with
  | nil =>
    -- block `c` is the one behind `b`, and among those released
    obtain ⟨n, s, hs⟩ := joined_eq { c with free := true } r
    rw [released_nil, hs, attach, ← List.nil_append [marked as b], released_concat, hs, attach, hmark]
    cases hfree : (marked as b).free with
    | false => rfl
    | true => simp [joined, marked, Extent.payload]
  | cons e t =>
    obtain ⟨k, u, hu⟩ := released_cons_eq e c t r
    have he := hl e List.mem_cons_self
    have hpayload : ({ e with size := k } : Extent).payload = e.payload := rfl
    simp only [hu, attach, hmark, hpayload, hnew hb, hnew he]
    split
    · rename_i hjoin
      by_cases ht : t = []
      · subst ht
        rw [← List.nil_append [e], released_concat, if_pos hjoin.2.1, List.nil_append] at hu
        rw [← List.nil_append [_], released_concat, if_pos hjoin.1, List.nil_append]
        exact joined_joined (b := marked as b) hjoin.2.2.2 hu
      · rw [released_cons ht] at hu ⊢
        obtain ⟨hhead, rfl⟩ := List.cons.inj hu
        have hsize : e.size = k := congrArg Extent.size hhead
        rw [← hsize]
    · rw [released_cons (List.cons_ne_nil e t), hu]

/-- Releasing one block more. -/
theorem released_releasedAll (hl : ∀ e ∈ l, e.payload ≠ c.payload)
    (hr : ∀ e ∈ r, e.payload ≠ c.payload) :
    released (releasedAll as l) c (releasedAll as r) =
      releasedAll (c.payload :: as) (l ++ c :: r) := by
  induction l with
  | nil =>
    have hsame : releasedAll (c.payload :: as) r = releasedAll as r :=
      releasedAll_congr fun e he => by rw [List.mem_cons, or_iff_right (hr e he)]
    rw [List.nil_append, releasedAll_cons, hsame]
    change released [] c _ = _
    rw [released_nil]
    cases releasedAll as r with
    | nil => rw [attach, marked_of_mem List.mem_cons_self, joined]
    | cons e r => simp [attach, joined, marked_of_mem]
  | cons b l ih =>
    rw [List.forall_mem_cons] at hl
    rw [releasedAll_cons, List.cons_append, releasedAll_cons, ← ih hl.2]
    refine released_attach hl.1 fun e he => ?_
    obtain ⟨d, hd, heq⟩ := exists_of_mem_releasedAll he
    rw [heq]
    exact hl.2 d hd

/-- Blocks none of which is released stay as they are. -/
theorem releasedAll_of_notMem (h : ∀ c ∈ cs, c.payload ∉ as) : releasedAll as cs = cs := by
  have hsame : releasedAll as cs = releasedAll [] cs :=
    releasedAll_congr fun c hc => iff_of_false (h c hc) List.not_mem_nil
  rw [hsame, releasedAll_nil]

/-- Blocks none of which is released, the last of them in use, stay as they are in front of
others. -/
theorem releasedAll_append (hl : ∀ e ∈ l, e.payload ∉ as) (hlast : ∀ e ∈ l.getLast?, e.free = false)
    (r : List Extent) : releasedAll as (l ++ r) = l ++ releasedAll as r := by
  rcases List.eq_nil_or_concat l with rfl | ⟨l, d, rfl⟩
  · rfl
  · rw [List.concat_eq_append] at hl hlast ⊢
    have hd : d.payload ∉ as := hl d (by simp)
    have hused : d.free = false := hlast d List.getLast?_concat
    rw [List.append_assoc, List.singleton_append, releasedAll_split hused hd,
      releasedAll_of_notMem fun e he => hl e (List.mem_append_left _ he), List.append_assoc]
    rfl

/-- Nothing is joined with a block in use. -/
theorem attach_of_used (h : ∀ e ∈ r.head?, e.free = false) (as : List VirtualAddress) (c : Extent) :
    attach as c r = marked as c :: r := by
  cases r with
  | nil => rfl
  | cons e r => simp [attach, h e rfl]

section Runs

variable {ε : Type} {h k : KernelHeap} {m t : Memory} {frames others : List Nat}
  {w : World KernelHeap}

/-- A heap is given by its blocks. -/
theorem Formed.agree (hf : Formed h m frames cs) (hg : Formed k t others cs) :
    h.head = k.head ∧ h.tail = k.tail ∧ h.blocks m = k.blocks t := by
  refine ⟨?_, ?_, by rw [hf.blocks_eq, hg.blocks_eq]⟩
  · rw [hf.linked.first_eq, hg.linked.first_eq]
  · rw [hf.linked.last_eq, hg.linked.last_eq]

theorem Formed.nodup_payloads (hf : Formed h m frames cs) : (cs.map Extent.payload).Nodup :=
  List.pairwise_map.mpr
    (hf.tiling.headers_apart.imp fun hbc heq => hbc.ne (Extent.payload_inj.mp heq))

/-- Releases in a row go through, and lead to the blocks that releasing all of them at one time
leads to. -/
theorem run_releasesFrom {done : List VirtualAddress} (hcs : (cs.map Extent.payload).Nodup)
    (hf : Formed w.part w.machine.memory frames (releasedAll done cs))
    (hused : ∀ a ∈ as, ∃ c ∈ cs, c.free = false ∧ c.payload = a) (hnodup : as.Nodup)
    (hnew : ∀ a ∈ as, a ∉ done) :
    ∃ t tail, (as.forM release : Action (World KernelHeap) ε Unit).run w =
        (.done (), ⟨{ w.machine with memory := t }, { w.part with tail := tail }⟩) ∧
      Formed { w.part with tail := tail } t frames (releasedAll (as.reverse ++ done) cs) := by
  induction as generalizing w done with
  | nil => exact ⟨w.machine.memory, w.part.tail, rfl, hf⟩
  | cons a as ih =>
    rw [List.forall_mem_cons] at hused hnew
    rw [List.nodup_cons] at hnodup
    obtain ⟨⟨c, hc, hfree, rfl⟩, hused⟩ := hused
    obtain ⟨l, r, rfl⟩ := List.append_of_mem hc
    have hothers : ∀ e ∈ l ++ r, e.payload ≠ c.payload := by
      intro e he heq
      rw [List.map_append, List.map_cons, List.nodup_middle, List.nodup_cons, ← List.map_append]
        at hcs
      exact hcs.1 (heq ▸ List.mem_map_of_mem he)
    rw [releasedAll_split hfree hnew.1] at hf
    obtain ⟨t, tail, hrun, hreleased, -⟩ := release_spec ε hf hfree
    rw [released_releasedAll (fun e he => hothers e (List.mem_append_left _ he))
      fun e he => hothers e (List.mem_append_right _ he)] at hreleased
    have hlater : ∀ b ∈ as, b ∉ c.payload :: done := by
      intro b hb hmem
      rcases List.mem_cons.mp hmem with rfl | hmem
      · exact hnodup.1 hb
      · exact hnew.2 b hb hmem
    obtain ⟨t', tail', hrun', hreleased'⟩ := ih
      (w := ⟨{ w.machine with memory := t }, { w.part with tail := tail }⟩) hreleased hused hnodup.2
      hlater
    refine ⟨t', tail', (Action.run_bind_done hrun).trans hrun', ?_⟩
    rw [List.reverse_cons, List.append_assoc]
    exact hreleased'

/-- A block ends where another one begins if one follows the other in memory. -/
theorem Formed.adjacent_iff (hf : Formed h m frames cs) (hb : b ∈ cs) (hc : c ∈ cs) :
    b.address.add (headerSize + b.size) = c.address ↔ b.window.stop = c.window.first := by
  have hle := hf.window_le hb
  have hne := hf.address_ne_null hc
  have hlt := c.address.value.toNat_lt
  have hnull : c.address.value.toNat ≠ 0 := fun hzero =>
    hne (VirtualAddress.ext (UInt64.toNat_inj.mp hzero))
  simp only [VirtualAddress.ext_iff, VirtualAddress.add, ← UInt64.toNat_inj, UInt64.toNat_add,
    show headerSize.toNat = 32 from rfl, Extent.window] at hle ⊢
  omega

theorem Formed.run_releases (hf : Formed w.part w.machine.memory frames cs)
    (hused : ∀ a ∈ as, ∃ c ∈ cs, c.free = false ∧ c.payload = a) (hnodup : as.Nodup) :
    ∃ t tail, (as.forM release : Action (World KernelHeap) ε Unit).run w =
        (.done (), ⟨{ w.machine with memory := t }, { w.part with tail := tail }⟩) ∧
      Formed { w.part with tail := tail } t frames (releasedAll as cs) := by
  have hcs := hf.nodup_payloads
  have hsame : releasedAll (as.reverse ++ []) cs = releasedAll as cs :=
    releasedAll_congr fun c _ => by rw [List.append_nil, List.mem_reverse]
  rw [← releasedAll_nil cs] at hf
  obtain ⟨t, tail, hrun, hreleased⟩ :=
    run_releasesFrom hcs hf hused hnodup fun _ _ => List.not_mem_nil
  rw [hsame] at hreleased
  exact ⟨t, tail, hrun, hreleased⟩

end Runs

/-- Block `e` is next to block `c` in the list. -/
def NextTo (cs : List Extent) (c e : Extent) : Prop :=
  [c, e] <:+: cs ∨ [e, c] <:+: cs

theorem NextTo.mem (h : NextTo cs c e) : e ∈ cs := by
  rcases h with h | h <;> exact h.subset (by simp)

/-- Where no two blocks are joined, releasing payloads marks their blocks as free, and that is
all. -/
theorem releasedAll_eq_map (h : ∀ x y, [x, y] <:+: cs → (marked as x).free = true →
    (marked as y).free = true → (x.payload ∈ as ∨ y.payload ∈ as) →
      x.address.add (headerSize + x.size) ≠ y.address) :
    releasedAll as cs = cs.map (marked as) := by
  induction cs with
  | nil => rfl
  | cons c cs ih =>
    rw [releasedAll_cons, ih fun x y hxy => h x y (hxy.trans (List.suffix_cons c cs).isInfix)]
    cases cs with
    | nil => rfl
    | cons e r =>
      have hpair : [c, e] <:+: c :: e :: r := (List.prefix_append [c, e] r).isInfix
      rw [List.map_cons, List.map_cons, List.map_cons, attach, if_neg]
      rintro ⟨hc, he, hmem, hadj⟩
      exact h c e hpair hc he hmem hadj

/-- Releases the payloads one after the other. -/
def releaseEach (as : List VirtualAddress) : Action (World KernelHeap) Empty Unit :=
  as.forM release

variable {h : KernelHeap} {m : Memory} {frames : List Nat}

/-- Two blocks in use that touch become one if they are neighbours in the list, in this order, and
nothing else next to them is free. -/
theorem Formed.releasedAll_neighbours (hf : Formed h m frames (l ++ b :: c :: r))
    (htouch : b.window.stop = c.window.first)
    (hwalls : ∀ e, NextTo (l ++ b :: c :: r) b e ∨ NextTo (l ++ b :: c :: r) c e →
      e = b ∨ e = c ∨ e.free = false) (has : as.Perm [b.payload, c.payload]) :
    ∃ n : UInt64, n.toNat = b.size.toNat + 32 + c.size.toNat ∧
      releasedAll as (l ++ b :: c :: r) = l ++ ⟨b.address, n, true⟩ :: r := by
  have hc : c ∈ l ++ b :: c :: r := by simp
  have hadj := (hf.adjacent_iff (by simp) hc).mpr htouch
  have hbelow := hf.window_le hc
  have hmem {a : VirtualAddress} : a ∈ as ↔ a = b.payload ∨ a = c.payload := by
    rw [has.mem_iff, List.mem_pair]
  have hout : ∀ e ∈ l ++ r, e.payload ∉ as := by
    intro e he
    have hnodup := hf.nodup_payloads
    rw [List.map_append, List.map_cons, List.map_cons, List.nodup_middle, List.nodup_cons,
      List.nodup_middle, List.nodup_cons, ← List.map_append] at hnodup
    have hepayload := List.mem_map_of_mem (f := Extent.payload) he
    rw [hmem]
    rintro (heq | heq)
    · refine hnodup.1 ?_
      rw [List.mem_append, List.mem_cons, or_left_comm, ← List.mem_append, ← List.map_append, ← heq]
      exact .inr hepayload
    · exact hnodup.2.1 (heq ▸ hepayload)
  have hused {e : Extent} (he : e ∈ l ++ r)
      (hnext : NextTo (l ++ b :: c :: r) b e ∨ NextTo (l ++ b :: c :: r) c e) : e.free = false := by
    rcases hwalls e hnext with rfl | rfl | hfree
    · exact absurd (hmem.mpr (.inl rfl)) (hout _ he)
    · exact absurd (hmem.mpr (.inr rfl)) (hout _ he)
    · exact hfree
  have hlast : ∀ e ∈ l.getLast?, e.free = false := by
    intro e he
    obtain ⟨l', rfl⟩ := List.getLast?_eq_some_iff.mp he
    exact hused (by simp) (.inl (.inr ⟨l', c :: r, by simp⟩))
  have hhead : ∀ e ∈ r.head?, e.free = false := by
    intro e he
    obtain ⟨r', rfl⟩ := List.head?_eq_some_iff.mp he
    exact hused (by simp) (.inr (.inl ⟨l ++ [b], r', by simp⟩))
  refine ⟨b.size + (headerSize + c.size), toNat_joined_size ?_, ?_⟩
  · simp only [Extent.window] at htouch
    omega
  · rw [releasedAll_append (fun e he => hout e (List.mem_append_left _ he)) hlast,
      releasedAll_cons, releasedAll_cons,
      releasedAll_of_notMem fun e he => hout e (List.mem_append_right _ he),
      attach_of_used hhead]
    simp [attach, marked, hadj, hmem, Extent.payload]

/-- Two blocks in use that touch, but are no neighbours in the list, stay two if nothing next to them
is free. -/
theorem Formed.releasedAll_strangers (hf : Formed h m frames cs) (hb : b ∈ cs) (hc : c ∈ cs)
    (htouch : b.window.stop = c.window.first) (hapart : ¬ [b, c] <:+: cs)
    (hwalls : ∀ e, NextTo cs b e ∨ NextTo cs c e → e = b ∨ e = c ∨ e.free = false)
    (has : as.Perm [b.payload, c.payload]) :
    releasedAll as cs = cs.map fun e => if e = b ∨ e = c then { e with free := true } else e := by
  have hmem {x : Extent} (hx : x ∈ cs) : x.payload ∈ as ↔ x = b ∨ x = c := by
    rw [has.mem_iff, List.mem_pair, Extent.payload_inj, Extent.payload_inj]
    refine or_congr ⟨hf.eq_of_address_eq hx hb, congrArg _⟩ ⟨hf.eq_of_address_eq hx hc, congrArg _⟩
  have hmark : cs.map (marked as) =
      cs.map fun e => if e = b ∨ e = c then { e with free := true } else e := by
    refine List.map_congr_left fun e he => ?_
    split
    · rename_i heq
      exact marked_of_mem ((hmem he).mpr heq)
    · rename_i hne
      exact marked_of_notMem (mt (hmem he).mp hne)
  rw [← hmark]
  refine releasedAll_eq_map fun x y hxy hxfree hyfree hreleased hadj => ?_
  have hx : x ∈ cs := hxy.subset (by simp)
  have hy : y ∈ cs := hxy.subset (by simp)
  have hpair {e : Extent} (he : e ∈ cs) (hfree : (marked as e).free = true)
      (hnext : NextTo cs b e ∨ NextTo cs c e) : e = b ∨ e = c := by
    rcases hwalls e hnext with heq | heq | hused
    · exact .inl heq
    · exact .inr heq
    · simp only [marked, hused, Bool.false_or, decide_eq_true_eq] at hfree
      exact (hmem he).mp hfree
  -- what could be joined are two of the released blocks
  have hboth : (x = b ∨ x = c) ∧ (y = b ∨ y = c) := by
    rcases hreleased with h | h
    · have hxin := (hmem hx).mp h
      refine ⟨hxin, hpair hy hyfree (hxin.imp ?_ ?_)⟩ <;> rintro rfl <;> exact .inl hxy
    · have hyin := (hmem hy).mp h
      refine ⟨hpair hx hxfree (hyin.imp ?_ ?_), hyin⟩ <;> rintro rfl <;> exact .inr hxy
  have hwindow := (hf.adjacent_iff hx hy).mp hadj
  obtain ⟨rfl | rfl, rfl | rfl⟩ := hboth
  · simp only [Extent.window] at hwindow
    omega
  · exact hapart hxy
  · simp only [Extent.window] at hwindow htouch
    omega
  · simp only [Extent.window] at hwindow
    omega

end KernelHeap

open KernelHeap

namespace HeapState.Sound

variable {p : FrameAllocator} {s : HeapState} {cs : List Extent} {b c : Extent}
  {as : List VirtualAddress}

/-- Every block in use is somebody's allocation. -/
theorem live_of_used (h : s.Sound p cs) (hc : c ∈ cs) (hused : c.free = false) :
    ∃ a ∈ s.live, a.address = c.payload := by
  have hpayload : c.payload ∈ (inUse cs).map Extent.payload :=
    List.mem_map_of_mem (mem_inUse.mpr ⟨hc, hused⟩)
  exact List.mem_map.mp (h.live.mem_iff.mpr hpayload)

/-- Two blocks in use that touch can be released, in either order. -/
theorem release_pair (h : s.Sound p cs) (hb : b ∈ cs) (hc : c ∈ cs) (hbused : b.free = false)
    (hcused : c.free = false) (htouch : b.window.stop = c.window.first)
    (has : as.Perm [b.payload, c.payload]) :
    ∃ w, (releaseEach as).run s.world = (.done (), w) ∧ extents w = releasedAll as cs := by
  have hne : b.payload ≠ c.payload := by
    intro heq
    obtain rfl := h.formed.eq_of_address_eq hb hc (Extent.payload_inj.mp heq)
    simp only [Extent.window] at htouch
    omega
  have hused : ∀ a ∈ as, ∃ e ∈ cs, e.free = false ∧ e.payload = a := by
    intro a ha
    rw [has.mem_iff, List.mem_pair] at ha
    rcases ha with rfl | rfl
    · exact ⟨b, hb, hbused, rfl⟩
    · exact ⟨c, hc, hcused, rfl⟩
  have hnodup : as.Nodup := has.nodup_iff.mpr (by simp [hne])
  obtain ⟨t, tail, hrun, hformed⟩ := h.formed.run_releases (ε := Empty) hused hnodup
  exact ⟨_, hrun, hformed.map_extent_blocks⟩

end HeapState.Sound

/-- The order of releases does not matter. Live payloads may be released in any order: the releases
go through, and head, tail, blocks and statistics of the heap are the same afterwards. Take two
allocations that touch, nothing else next to them in the list being free. In either order their
releases make one block of both payloads and a header of them if they are neighbours in the list;
if they are not, the releases make two free blocks of them and join nothing. -/
theorem release_order {boot : BootInfo} {p : FrameAllocator} {s : HeapState}
    (hnull : ¬ p.Available boot.map p.directMap.nullFrame) (hs : HeapState.Reachable boot p s) :
    (∀ as bs : List VirtualAddress, (∀ a ∈ as, ∃ b ∈ s.live, b.address = a) → as.Nodup →
      as.Perm bs → ∃ w w', (releaseEach as).run s.world = (.done (), w) ∧
        (releaseEach bs).run s.world = (.done (), w') ∧ w.part = w'.part ∧
        w.part.blocks w.machine.memory = w'.part.blocks w'.machine.memory ∧
        w.part.stats w.machine.memory = w'.part.stats w'.machine.memory) ∧
    ∀ b ∈ extents s.world, ∀ c ∈ extents s.world, b.free = false → c.free = false →
      b.window.stop = c.window.first →
      (∀ e, NextTo (extents s.world) b e ∨ NextTo (extents s.world) c e →
        e = b ∨ e = c ∨ e.free = false) →
      ∀ as, as.Perm [b.payload, c.payload] → ∃ w, (releaseEach as).run s.world = (.done (), w) ∧
        (∀ l r, extents s.world = l ++ b :: c :: r → ∃ n : UInt64,
          n.toNat = b.size.toNat + 32 + c.size.toNat ∧ extents w = l ++ ⟨b.address, n, true⟩ :: r) ∧
        (¬ [b, c] <:+: extents s.world → extents w =
          (extents s.world).map fun e => if e = b ∨ e = c then { e with free := true } else e) := by
  obtain ⟨cs, h⟩ := hs.sound hnull
  have hf := h.formed
  constructor
  · intro as bs hlive hnodup hperm
    have hused : ∀ a ∈ as, ∃ c ∈ cs, c.free = false ∧ c.payload = a := by
      intro a ha
      obtain ⟨b, hb, rfl⟩ := hlive a ha
      obtain ⟨c, hc, hfree, hpayload, -⟩ := h.block hb
      exact ⟨c, hc, hfree, hpayload⟩
    obtain ⟨t, tail, hrun, hformed⟩ := hf.run_releases (ε := Empty) hused hnodup
    obtain ⟨t', tail', hrun', hformed'⟩ := hf.run_releases (ε := Empty)
      (fun a ha => hused a (hperm.mem_iff.mpr ha)) (hperm.nodup_iff.mp hnodup)
    rw [releasedAll_congr fun c _ => hperm.mem_iff.symm] at hformed'
    obtain ⟨-, htail, hblocks⟩ := hformed.agree hformed'
    obtain rfl : tail = tail' := htail
    refine ⟨_, _, hrun, hrun', rfl, hblocks, ?_⟩
    rw [stats, hblocks, stats]
  · rw [h.extents_eq]
    intro b hb c hc hbused hcused htouch hwalls as has
    obtain ⟨w, hrun, hleft⟩ := h.release_pair hb hc hbused hcused htouch has
    refine ⟨w, hrun, fun l r hlr => ?_, fun hapart => ?_⟩
    · subst hlr
      obtain ⟨n, hn, hjoined⟩ := hf.releasedAll_neighbours htouch hwalls has
      exact ⟨n, hn, hleft.trans hjoined⟩
    · exact hleft.trans (hf.releasedAll_strangers hb hc htouch hapart hwalls has)

namespace TwoRegions

/-- A heap of three blocks in use and one more that ends where the first of them begins. It has grown
by frames below its first block. -/
def touching : HeapState :=
  ((lateFilled.perform allocator (.frames (.free ⟨.ofIndex 13, 7⟩))).perform allocator
    (.alloc 28544)).perform allocator (.alloc 64)

theorem reachable_touching : HeapState.Reachable boot allocator touching :=
  .step (.alloc 64) (.step (.alloc 28544) reachable_givenBack trivial) trivial

theorem extents_touching : extents touching.world =
    [⟨⟨0xFFFF800000014000⟩, 64, false⟩, ⟨⟨0xFFFF800000014060⟩, 65408, false⟩,
      ⟨⟨0xFFFF80000000D000⟩, 28544, false⟩, ⟨⟨0xFFFF800000013FA0⟩, 64, false⟩] := by
  decide +kernel

theorem used_touching : ∀ e ∈ extents touching.world, e.free = false := by
  rw [extents_touching]
  decide

end TwoRegions

/-- The last block of the list is released together with the first one, in both orders, and with the
one before it. -/
theorem release_order_of_two_regions :
    (∃ w w', (releaseEach [⟨0xFFFF800000013FC0⟩, ⟨0xFFFF800000014020⟩]).run
        TwoRegions.touching.world = (.done (), w) ∧
      (releaseEach [⟨0xFFFF800000014020⟩, ⟨0xFFFF800000013FC0⟩]).run
        TwoRegions.touching.world = (.done (), w') ∧ w.part = w'.part ∧
      w.part.blocks w.machine.memory = w'.part.blocks w'.machine.memory) ∧
    ∃ w n, (releaseEach [⟨0xFFFF800000013FC0⟩, ⟨0xFFFF80000000D020⟩]).run
        TwoRegions.touching.world = (.done (), w) ∧ UInt64.toNat n = 28640 ∧
      extents w = [⟨⟨0xFFFF800000014000⟩, 64, false⟩, ⟨⟨0xFFFF800000014060⟩, 65408, false⟩,
        ⟨⟨0xFFFF80000000D000⟩, n, true⟩] := by
  obtain ⟨horder, hjoin⟩ :=
    release_order TwoRegions.nullFrame_not_available TwoRegions.reachable_touching
  obtain ⟨cs, hsound⟩ := HeapState.Reachable.sound TwoRegions.reachable_touching
    TwoRegions.nullFrame_not_available
  have hused := TwoRegions.used_touching
  have hextents := TwoRegions.extents_touching
  have hcs := hsound.extents_eq
  constructor
  · have hlive : ∀ a ∈ [⟨0xFFFF800000013FC0⟩, ⟨0xFFFF800000014020⟩],
        ∃ b ∈ TwoRegions.touching.live, b.address = a := by
      rw [hextents] at hcs
      rw [List.forall_mem_cons, List.forall_mem_singleton]
      exact ⟨hsound.live_of_used (c := ⟨⟨0xFFFF800000013FA0⟩, 64, false⟩) (by simp [← hcs]) rfl,
        hsound.live_of_used (c := ⟨⟨0xFFFF800000014000⟩, 64, false⟩) (by simp [← hcs]) rfl⟩
    obtain ⟨w, w', hrun, hrun', hpart, hblocks, -⟩ :=
      horder _ [⟨0xFFFF800000014020⟩, ⟨0xFFFF800000013FC0⟩] hlive (by decide) (.swap _ _ _)
    exact ⟨w, w', hrun, hrun', hpart, hblocks⟩
  · have hwalls (b c e : Extent) (he : NextTo (extents TwoRegions.touching.world) b e ∨
        NextTo (extents TwoRegions.touching.world) c e) : e.free = false :=
      hused e (he.elim NextTo.mem NextTo.mem)
    rw [hextents] at hjoin hwalls
    obtain ⟨w, hrun, hjoined, -⟩ := hjoin ⟨⟨0xFFFF80000000D000⟩, 28544, false⟩ (by simp)
      ⟨⟨0xFFFF800000013FA0⟩, 64, false⟩ (by simp) rfl rfl rfl
      (fun e he => .inr (.inr (hwalls _ _ e he))) [⟨0xFFFF800000013FC0⟩, ⟨0xFFFF80000000D020⟩]
      (.swap _ _ _)
    obtain ⟨n, hn, hleft⟩ := hjoined [⟨⟨0xFFFF800000014000⟩, 64, false⟩,
      ⟨⟨0xFFFF800000014060⟩, 65408, false⟩] [] rfl
    exact ⟨w, n, hrun, hn, hleft⟩

/-- Every block is in use and one of them ends where another one begins. Released in either order
they are two free blocks of 64 bytes, not one of 160. -/
theorem touching_blocks_stay_two :
    ∃ s : HeapState, HeapState.Reachable TwoRegions.boot TwoRegions.allocator s ∧
      ∃ b ∈ extents s.world, ∃ c ∈ extents s.world, b.window.stop = c.window.first ∧
        (∀ e ∈ extents s.world, e.free = false) ∧
        ∀ as, as.Perm [b.payload, c.payload] → ∃ w,
          (releaseEach as).run s.world = (.done (), w) ∧ (extents w).filter Extent.free =
            [⟨c.address, 64, true⟩, ⟨b.address, 64, true⟩] := by
  obtain ⟨cs, hsound⟩ := HeapState.Reachable.sound TwoRegions.reachable_touching
    TwoRegions.nullFrame_not_available
  have hcs := hsound.extents_eq
  rw [TwoRegions.extents_touching] at hcs
  have hused := TwoRegions.used_touching
  refine ⟨_, TwoRegions.reachable_touching, ⟨⟨0xFFFF800000013FA0⟩, 64, false⟩, ?_,
    ⟨⟨0xFFFF800000014000⟩, 64, false⟩, ?_, rfl, hused, fun as has => ?_⟩
  · simp [TwoRegions.extents_touching]
  · simp [TwoRegions.extents_touching]
  · subst hcs
    obtain ⟨w, hrun, hleft⟩ := hsound.release_pair (by simp) (by simp) rfl rfl rfl has
    refine ⟨w, hrun, ?_⟩
    rw [hleft, hsound.formed.releasedAll_strangers (by simp) (by simp) rfl (by decide)
      (fun e he => .inr (.inr (hused e ?_))) has]
    · rfl
    · rw [TwoRegions.extents_touching]
      exact he.elim NextTo.mem NextTo.mem

end MemoryManager
