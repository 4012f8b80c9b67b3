import MemoryManager.Proofs.Heap.Layout

namespace MemoryManager

namespace HeapBlock

/-- Memory once the block at `next`, if there is one, has a new back link. -/
def linkBack (d : DirectMap) (next a : VirtualAddress) (m : Memory) : Memory :=
  if next ≠ .null then setPrev d next a m else m

variable {d : DirectMap} {m t : Memory} {next a b : VirtualAddress} {l r : List Extent}

theorem head_apart_tail (hr : r.Pairwise fun b c => Apart d b.address c.address) {e f : Extent}
    (hf : f ∈ r.head?) (he : e ∈ r.tail) : Apart d f.address e.address := by
  cases r with
  | nil => cases he
  | cons c r =>
    cases hf
    exact (List.pairwise_cons.mp hr).1 e he

theorem read_linkBack_head (hnext : next = (r.head?.map Extent.address).getD .null)
    (hr : ∀ e ∈ r, e.address ≠ .null ∧ InMemory d e.address) :
    ∀ e ∈ r.head?, read d (linkBack d next a m) e.address =
      { read d m e.address with prev := a } := by
  cases r with
  | nil => exact fun e he => absurd he (Option.not_mem_none e)
  | cons c r =>
    intro e hmem
    cases hmem
    obtain ⟨hne, hmem⟩ := hr c List.mem_cons_self
    have hc : next = c.address := hnext
    rw [linkBack, hc, if_pos hne, read_setPrev hmem]

/-- The block that a new back link is written to is the first one behind. -/
theorem linkBack_cases (hnext : next = (r.head?.map Extent.address).getD .null) :
    linkBack d next a m = m ∨ ∃ c ∈ r.head?, linkBack d next a m = setPrev d c.address a m := by
  rw [linkBack]
  split
  · rename_i hne
    cases r with
    | nil => exact absurd hnext hne
    | cons c r =>
      obtain rfl : next = c.address := hnext
      exact .inr ⟨c, rfl, rfl⟩
  · exact .inl rfl

theorem read_linkBack_of_apart (hnext : next = (r.head?.map Extent.address).getD .null)
    (hb : ∀ e ∈ r.head?, Apart d e.address b) :
    read d (linkBack d next a m) b = read d m b := by
  rcases linkBack_cases hnext with heq | ⟨c, hc, heq⟩
  · rw [heq]
  · rw [heq]
    exact (onlyHeader_setPrev a).read_of_apart (hb c hc)

theorem byte_linkBack (hnext : next = (r.head?.map Extent.address).getD .null) {x : Nat}
    (hx : ¬ InLinks d r x) : (linkBack d next a m).byte x = m.byte x := by
  rcases linkBack_cases hnext with heq | ⟨c, hc, heq⟩
  · rw [heq]
  · rw [heq]
    exact (onlyLinks_setPrev a).byte_eq fun h => hx ⟨c, List.mem_of_mem_head? hc, h⟩

/-- A new back link changes one header, that of the first block behind. -/
theorem reads_linkBack (hnext : next = (r.head?.map Extent.address).getD .null)
    (hr : ∀ e ∈ r, e.address ≠ .null ∧ InMemory d e.address)
    (hapart : (l ++ r).Pairwise fun b c => Apart d b.address c.address)
    (ht : ∀ e ∈ l ++ r, read d t e.address = read d m e.address) :
    (∀ e ∈ l, read d (linkBack d next a t) e.address = read d m e.address) ∧
    (∀ e ∈ r.head?,
      read d (linkBack d next a t) e.address = { read d m e.address with prev := a }) ∧
    ∀ e ∈ r.tail, read d (linkBack d next a t) e.address = read d m e.address := by
  obtain ⟨-, hrr, hlr⟩ := List.pairwise_append.mp hapart
  refine ⟨fun e he => ?_, fun e he => ?_, fun e he => ?_⟩
  · rw [read_linkBack_of_apart hnext fun f hf => (hlr e he f (List.mem_of_mem_head? hf)).symm,
      ht e (List.mem_append_left _ he)]
  · rw [read_linkBack_head hnext hr e he,
      ht e (List.mem_append_right _ (List.mem_of_mem_head? he))]
  · rw [read_linkBack_of_apart hnext fun f hf => head_apart_tail hrr hf he,
      ht e (List.mem_append_right _ (List.mem_of_mem_tail he))]

end HeapBlock

namespace KernelHeap

open HeapBlock

variable (ε : Type) {h : KernelHeap} {m t : Memory} {frames : List Nat} {cs l r : List Extent}
  {b c : Extent} {size : UInt64}

/-- The part of a block behind a payload of `size` bytes. -/
def rest (c : Extent) (size : UInt64) : Extent :=
  ⟨c.address.add (headerSize + size), c.size - (headerSize + size), true⟩

/-- Memory once the block at `a` is cut down to `size` bytes in front of `e`. -/
def cutMemory (d : DirectMap) (a : VirtualAddress) (size : UInt64) (e : HeapBlock) (m : Memory) :
    Memory :=
  setNext d a e.address (setSize d a size (write d e m))

theorem cutMemory_spec {d : DirectMap} {e : HeapBlock} (size : UInt64)
    (hc : InMemory d c.address) (he : InMemory d e.address) (hce : Apart d c.address e.address) :
    read d (cutMemory d c.address size e m) c.address =
      { read d m c.address with size := size, next := e.address } ∧
    read d (cutMemory d c.address size e m) e.address = e ∧
    (∀ b, Apart d c.address b → Apart d e.address b →
      read d (cutMemory d c.address size e m) b = read d m b) ∧
    ∀ x, ¬ (c.start d ≤ x ∧ x < c.start d + 32) →
      ¬ (e.extent.start d ≤ x ∧ x < e.extent.start d + 32) →
        (cutMemory d c.address size e m).byte x = m.byte x := by
  refine ⟨?_, ?_, ?_, ?_⟩
  · rw [cutMemory, read_setNext hc, read_setSize hc, (onlyHeader_write e).read_of_apart hce.symm]
  · rw [cutMemory, (onlyHeader_setNext _).read_of_apart hce,
      (onlyHeader_setSize _).read_of_apart hce, read_write d e m he]
  · intro b hcb heb
    rw [cutMemory, (onlyHeader_setNext _).read_of_apart hcb,
      (onlyHeader_setSize _).read_of_apart hcb, (onlyHeader_write e).read_of_apart heb]
  · intro x hxc hxe
    have hwrite : OnlyHeader d e.extent.address m (write d e m) := onlyHeader_write e
    rw [cutMemory, (onlyHeader_setNext _).byte_eq hxc, (onlyHeader_setSize _).byte_eq hxc,
      hwrite.byte_eq hxe]

/-- Memory once a block is cut down to `size` bytes and what is left is linked behind it. -/
def splitMemory (d : DirectMap) (b : HeapBlock) (size : UInt64) (m : Memory) : Memory :=
  let a := b.address.add (headerSize + size)
  linkBack d b.next a
    (cutMemory d b.address size ⟨a, b.size - (headerSize + size), true, b.next, b.address⟩ m)

theorem run_split (b : HeapBlock) (w : World KernelHeap) (size : UInt64)
    (hsum : 32 + size.toNat < 2 ^ 64) (hle : headerSize + size ≤ b.size) :
    (split b size : Action (World KernelHeap) ε Unit).run w =
      (.done (), ⟨{ w.machine with
          memory := splitMemory w.part.directMap b size w.machine.memory },
        { w.part with
          tail := if b.address = w.part.tail then b.address.add (headerSize + size)
            else w.part.tail }⟩) := by
  have hs : sum headerSize size = .ok (headerSize + size) := if_pos hsum
  have hd : difference b.size (headerSize + size) = .ok (b.size - (headerSize + size)) :=
    if_pos hle
  simp only [split, splitMemory, cutMemory, linkBack, Action.run_bind, Action.run_get, hs, hd,
    Action.run_value_ok]
  split_ifs <;> rfl

theorem start_rest {d : DirectMap} (hc : c.start d + 32 + size.toNat < 2 ^ 64) :
    (rest c size).start d = c.start d + 32 + size.toNat := by
  have hsum : (headerSize + size).toNat = 32 + size.toNat := by
    rw [UInt64.toNat_add, show headerSize.toNat = 32 from rfl, Nat.mod_eq_of_lt (by omega)]
  rw [Extent.start, rest, DirectMap.toNat_physical_add, hsum, Extent.start, Nat.add_assoc]
  rw [hsum, ← Extent.start]
  omega

/-- Virtual addresses that are next to each other are so in physical memory. -/
theorem start_of_adjacent {d : DirectMap} (hb : b.start d + 32 + b.size.toNat < 2 ^ 64)
    (hadj : b.address.add (headerSize + b.size) = c.address) :
    b.start d + 32 + b.size.toNat = c.start d := by
  have hrest := start_rest hb
  simp only [Extent.start, rest, hadj] at hrest ⊢
  omega

theorem span_cut {d : DirectMap} (size : UInt64) (hc : c.start d + 32 + c.size.toNat < 2 ^ 64)
    (hfit : size.toNat + 32 ≤ c.size.toNat) (free : Bool) :
    Extent.span d ⟨c.address, size, free⟩ =
      ⟨c.start d, c.start d + 32 + size.toNat⟩ ∧
    (rest c size).span d =
      ⟨c.start d + 32 + size.toNat, c.start d + 32 + c.size.toNat⟩ := by
  have hsum : (headerSize + size).toNat = 32 + size.toNat := by
    rw [UInt64.toNat_add, show headerSize.toNat = 32 from rfl, Nat.mod_eq_of_lt (by omega)]
  have hsub : (c.size - (headerSize + size)).toNat = c.size.toNat - (32 + size.toNat) := by
    rw [UInt64.toNat_sub_of_le, hsum]
    rw [UInt64.le_iff_toNat_le, hsum]
    omega
  refine ⟨rfl, ?_⟩
  rw [Extent.span, start_rest (by omega), rest, hsub]
  congr 1
  omega

theorem Formed.tiling_split (hf : Formed h m frames (l ++ c :: r)) (hpos : 0 < size.toNat)
    (hsize : 16 ∣ size.toNat) (hfit : size.toNat + 32 < c.size.toNat) :
    Tiling frames ((l ++ { c with size := size } :: rest c size :: r).map
      (Extent.span h.directMap)) := by
  have hc : c ∈ l ++ c :: r := by simp
  obtain ⟨hspan, hspan'⟩ := span_cut size (hf.stop_lt hc) (by omega) c.free
  have hold := hf.tiling
  have hsized := hf.sized hc
  simp only [List.map_append, List.map_cons, hspan, hspan'] at hold ⊢
  refine (Tiling.split_iff (by omega) (by omega) ?_).mp hold
  simp only [Span.Sized, Extent.span] at hsized
  omega

/-- Cutting a block keeps the shape of the heap, and changes nothing but headers. -/
theorem Formed.split (hf : Formed h m frames (l ++ c :: r)) (hpos : 0 < size.toNat)
    (hsize : 16 ∣ size.toNat) (hfit : size.toNat + 32 < c.size.toNat) :
    Formed { h with tail := if c.address = h.tail then (rest c size).address else h.tail }
      (splitMemory h.directMap (read h.directMap m c.address) size m) frames
      (l ++ { c with size := size } :: rest c size :: r) ∧
    ∀ x, ¬ InHeaders h.directMap (l ++ { c with size := size } :: rest c size :: r) x →
      (splitMemory h.directMap (read h.directMap m c.address) size m).byte x = m.byte x := by
  have hc : c ∈ l ++ c :: r := by simp
  have hstop := hf.stop_lt hc
  have htiling := hf.tiling_split hpos hsize hfit
  obtain ⟨hcut, hout, hothers⟩ := htiling.neighbours_apart
  obtain ⟨p, q, -, rfl, k, hread, hlinked⟩ := linked_append.mp hf.linked
  have hk := hlinked.first_eq
  have hmem' : InMemory h.directMap (rest c size).address := by
    have hstart : (rest c size).start h.directMap = _ := start_rest (by omega)
    simp only [InMemory, field, Memory.size, Extent.start] at *
    omega
  obtain ⟨hreadcut, hreadrest, hkeeps, hbytes⟩ := cutMemory_spec (m := m)
    (e := ⟨(rest c size).address, (rest c size).size, true, k, c.address⟩) size (hf.inMemory hc)
    hmem' hcut
  have hsplit : splitMemory h.directMap ⟨c.address, c.size, c.free, k, p⟩ size m =
      linkBack h.directMap k (rest c size).address (cutMemory h.directMap c.address size
        ⟨(rest c size).address, (rest c size).size, true, k, c.address⟩ m) := rfl
  rw [hread, hsplit]
  constructor
  · refine ⟨?_, by simp, htiling, hf.total, hf.below, hf.named⟩
    have htail := hf.address_eq_tail_iff
    simp only [htail]
    obtain ⟨hl, hhead, hr⟩ := reads_linkBack (a := (rest c size).address) hk (fun e he =>
      ⟨hf.address_ne_null (by simp [he]), hf.inMemory (by simp [he])⟩) hothers
      (fun e he => hkeeps e.address (hout e he).1 (hout e he).2)
    have hbehind : ∀ e ∈ r.head?, e ∈ l ++ r := fun e he =>
      List.mem_append_right _ (List.mem_of_mem_head? he)
    refine hf.linked.split ?_ ?_ hhead hl hr
    · rw [read_linkBack_of_apart hk fun e he => (hout e (hbehind e he)).1.symm, hreadcut]
    · rw [read_linkBack_of_apart hk fun e he => (hout e (hbehind e he)).2.symm, hreadrest, hread]
      rfl
  · intro x hx
    simp only [inHeaders_append, inHeaders_cons, not_or] at hx
    obtain ⟨-, hxc, hxrest, hxr⟩ := hx
    rw [byte_linkBack hk (mt InLinks.inHeaders hxr)]
    exact hbytes x hxc hxrest

theorem Formed.setFree (hf : Formed h m frames (l ++ c :: r)) (free : Bool) :
    Formed h (HeapBlock.setFree h.directMap c.address free m) frames
      (l ++ { c with free := free } :: r) := by
  have hc : c ∈ l ++ c :: r := by simp
  have hapart := hf.tiling.headers_apart
  rw [List.pairwise_append, List.pairwise_cons] at hapart
  obtain ⟨-, ⟨hright, -⟩, hleft⟩ := hapart
  have htiling := hf.tiling
  rw [List.map_append, List.map_cons] at htiling
  refine ⟨?_, by simp, ?_, hf.total, hf.below, hf.named⟩
  · refine hf.linked.setFree (read_setFree (hf.inMemory hc) free) ?_ ?_
    · intro e he
      exact (onlyHeader_setFree free).read_of_apart (hleft e he c List.mem_cons_self).symm
    · intro e he
      exact (onlyHeader_setFree free).read_of_apart (hright e he)
  · rw [List.map_append, List.map_cons]
    exact htiling

/-- What becomes of a block that serves a request for `size` bytes: it is cut if the rest has room
for a header and more. -/
def served (c : Extent) (size : UInt64) : List Extent :=
  if size.toNat + 32 < c.size.toNat then [{ c with size := size, free := false }, rest c size]
  else [{ c with free := false }]

def Fits (size : UInt64) (c : Extent) : Prop :=
  c.free = true ∧ size.toNat ≤ c.size.toNat

theorem fits_iff (e : Extent) : (e.free && decide (size ≤ e.size)) = true ↔ Fits size e := by
  rw [Bool.and_eq_true, decide_eq_true_iff, UInt64.le_iff_toNat_le, Fits]

theorem find?_blocks (hf : Formed h m frames cs) (size : UInt64) :
    ((h.blocks m).find? fun b => b.free && decide (size ≤ b.size)).map HeapBlock.extent =
      cs.find? fun e => e.free && decide (size ≤ e.size) := by
  conv_rhs => rw [← extent_linkUp .null cs]
  rw [List.find?_map, hf.blocks_eq]
  rfl

/-- Memory once the block `b` serves a request for `size` bytes. -/
def servedMemory (d : DirectMap) (b : HeapBlock) (size : UInt64) (m : Memory) : Memory :=
  HeapBlock.setFree d b.address false
    (if size.toNat + 32 < b.size.toNat then splitMemory d b size m else m)

def servedTail (h : KernelHeap) (c : Extent) (size : UInt64) : VirtualAddress :=
  if size.toNat + 32 < c.size.toNat then
    if c.address = h.tail then (rest c size).address else h.tail
  else h.tail

/-- Serving a request keeps the shape of the heap, and changes nothing but headers. -/
theorem Formed.served (hf : Formed h m frames (l ++ c :: r)) (hpos : 0 < size.toNat)
    (hsize : 16 ∣ size.toNat) {b : HeapBlock} (hb : read h.directMap m c.address = b)
    (hbc : b.extent = c) :
    Formed { h with tail := servedTail h c size } (servedMemory h.directMap b size m) frames
      (l ++ KernelHeap.served c size ++ r) ∧
    ∀ x, ¬ InHeaders h.directMap (l ++ KernelHeap.served c size ++ r) x →
      (servedMemory h.directMap b size m).byte x = m.byte x := by
  subst hbc
  have hmark : ∀ n, OnlyHeader h.directMap b.extent.address n
      (HeapBlock.setFree h.directMap b.address false n) := fun n => onlyHeader_setFree false
  by_cases hcut : size.toNat + 32 < b.size.toNat
  · obtain ⟨hf', hframe⟩ := hf.split hpos hsize hcut
    rw [hb] at hf' hframe
    have hserved : l ++ KernelHeap.served b.extent size ++ r =
        l ++ { b.extent with size := size, free := false } :: rest b.extent size :: r := by
      rw [KernelHeap.served, if_pos (show size.toNat + 32 < b.extent.size.toNat from hcut),
        List.append_assoc]
      rfl
    rw [hserved, servedMemory, if_pos hcut, servedTail,
      if_pos (show size.toNat + 32 < b.extent.size.toNat from hcut)]
    refine ⟨hf'.setFree false, fun x hx => ?_⟩
    simp only [inHeaders_append, inHeaders_cons, not_or] at hx hframe
    obtain ⟨hxl, hxc, hxrest⟩ := hx
    rw [(hmark _).byte_eq hxc, hframe x ⟨hxl, hxc, hxrest⟩]
  · have hserved : l ++ KernelHeap.served b.extent size ++ r =
        l ++ { b.extent with free := false } :: r := by
      rw [KernelHeap.served, if_neg (show ¬ size.toNat + 32 < b.extent.size.toNat from hcut),
        List.append_assoc]
      rfl
    rw [hserved, servedMemory, if_neg hcut, servedTail,
      if_neg (show ¬ size.toNat + 32 < b.extent.size.toNat from hcut)]
    refine ⟨hf.setFree false, fun x hx => ?_⟩
    simp only [inHeaders_append, inHeaders_cons, not_or] at hx
    exact (hmark m).byte_eq hx.2.1

theorem run_takeFirst?_of_found {w : World KernelHeap} {b : HeapBlock}
    (hb : (w.part.blocks w.machine.memory).find? (fun b => b.free && decide (size ≤ b.size)) =
      some b) (hlt : size.toNat + 32 < 2 ^ 64) :
    (takeFirst? size : Action (World KernelHeap) ε _).run w =
      (.done (some b.extent.payload),
        ⟨{ w.machine with memory := servedMemory w.part.directMap b size w.machine.memory },
          { w.part with tail := servedTail w.part b.extent size }⟩) := by
  have hsum : sum size headerSize = .ok (size + headerSize) := if_pos hlt
  have hwhole : size + headerSize < b.size ↔ size.toNat + 32 < b.size.toNat := by
    rw [UInt64.lt_iff_toNat_lt, UInt64.toNat_add, show headerSize.toNat = 32 from rfl,
      Nat.mod_eq_of_lt hlt]
  have htail : servedTail w.part b.extent size = if size.toNat + 32 < b.size.toNat then
      if b.address = w.part.tail then b.address.add (headerSize + size) else w.part.tail
      else w.part.tail := rfl
  rw [takeFirst?, Action.run_bind_done (Action.run_get w)]
  by_cases hcut : size.toNat + 32 < b.size.toNat
  · have hsplit := run_split ε b w size (by omega) (by
      rw [UInt64.add_comm]
      exact UInt64.le_of_lt (hwhole.mpr hcut))
    simp only [hb, Action.run_bind, hsum, Action.run_value_ok, if_pos (hwhole.mpr hcut), hsplit,
      World.run_store, Action.run_pure, servedMemory, htail, if_pos hcut]
    rfl
  · simp only [hb, Action.run_bind, hsum, Action.run_value_ok, if_neg (mt hwhole.mp hcut),
      World.run_store, Action.run_pure, servedMemory, htail, if_neg hcut]
    rfl

/-- The search finds nothing and changes nothing, or takes the first block that is large enough. -/
theorem takeFirst?_cases {w : World KernelHeap} (hf : Formed w.part w.machine.memory frames cs)
    (hpos : 0 < size.toNat) (hsize : 16 ∣ size.toNat) :
    (takeFirst? size : Action (World KernelHeap) ε _).run w = (.done none, w) ∧
      (∀ c ∈ cs, ¬ Fits size c) ∨
    ∃ l c r t tail, cs = l ++ c :: r ∧ Fits size c ∧ (∀ e ∈ l, ¬ Fits size e) ∧
      (takeFirst? size : Action (World KernelHeap) ε _).run w =
        (.done (some c.payload),
          ⟨{ w.machine with memory := t }, { w.part with tail := tail }⟩) ∧
      Formed { w.part with tail := tail } t frames (l ++ KernelHeap.served c size ++ r) ∧
      ∀ x, ¬ InHeaders w.part.directMap (l ++ KernelHeap.served c size ++ r) x →
        t.byte x = w.machine.memory.byte x := by
  have hfind := find?_blocks hf size
  cases hb : (w.part.blocks w.machine.memory).find? fun b => b.free && decide (size ≤ b.size) with
  | none =>
    rw [hb] at hfind
    refine .inl ⟨?_, fun c hc h => ?_⟩
    · rw [takeFirst?, Action.run_bind_done (Action.run_get w)]
      simp only [hb, Action.run_pure]
    · exact List.find?_eq_none.mp hfind.symm c hc ((fits_iff c).mpr h)
  | some b =>
    rw [hb] at hfind
    obtain ⟨hbf, l, r, hcs, hl⟩ := List.find?_eq_some_iff_append.mp hfind.symm
    have hstored : HeapBlock.read w.part.directMap w.machine.memory b.address = b := by
      apply hf.linked.stored
      rw [← hf.blocks_eq]
      exact List.mem_of_find?_eq_some hb
    subst hcs
    have hfit := (fits_iff b.extent).mp hbf
    have hnot : ∀ e ∈ l, ¬ Fits size e := by
      intro e he h
      have hne := hl e he
      rw [Bool.not_eq_true', ← Bool.not_eq_true] at hne
      exact hne ((fits_iff e).mpr h)
    have hlt : size.toNat + 32 < 2 ^ 64 := by
      have hstop := hf.stop_lt (c := b.extent) (by simp)
      have hle : size.toNat ≤ b.extent.size.toNat := hfit.2
      omega
    obtain ⟨hf', hframe⟩ := hf.served hpos hsize hstored rfl
    exact .inr ⟨l, b.extent, r, _, _, rfl, hfit, hnot, run_takeFirst?_of_found ε hb hlt, hf',
      hframe⟩

/-- Memory once the block at `a` has taken over the next one, which was followed by `next`. -/
def joinMemory (d : DirectMap) (a next : VirtualAddress) (size : UInt64) (m : Memory) : Memory :=
  linkBack d next a (setNext d a next (setSize d a size m))

theorem run_block (a : VirtualAddress) (w : World KernelHeap) :
    (block a : Action (World KernelHeap) ε HeapBlock).run w =
      (.done (HeapBlock.read w.part.directMap w.machine.memory a), w) := (rfl)

theorem run_absorbNext (a : VirtualAddress) (w : World KernelHeap) {b c : HeapBlock}
    (hb : HeapBlock.read w.part.directMap w.machine.memory a = b)
    (hc : HeapBlock.read w.part.directMap w.machine.memory b.next = c)
    (hsum : b.size.toNat + (32 + c.size.toNat) < 2 ^ 64) :
    (absorbNext a : Action (World KernelHeap) ε Unit).run w =
      (.done (), ⟨{ w.machine with
          memory := joinMemory w.part.directMap a c.next (b.size + (headerSize + c.size))
            w.machine.memory },
        { w.part with tail := if b.next = w.part.tail then a else w.part.tail }⟩) := by
  have hgrown : sum headerSize c.size = .ok (headerSize + c.size) :=
    if_pos (Nat.lt_of_le_of_lt (Nat.le_add_left _ _) hsum)
  have hsize : sum b.size (headerSize + c.size) = .ok (b.size + (headerSize + c.size)) := by
    apply if_pos
    rw [UInt64.toNat_add, show headerSize.toNat = 32 from rfl, Nat.mod_eq_of_lt (by omega)]
    exact hsum
  simp only [absorbNext, joinMemory, linkBack, Action.run_bind, Action.run_get, run_block, hb, hc,
    hgrown, hsize, Action.run_value_ok, World.run_store]
  split_ifs <;> rfl

theorem toNat_joined_size (hsum : b.size.toNat + 32 + c.size.toNat < 2 ^ 64) :
    (b.size + (headerSize + c.size)).toNat = b.size.toNat + 32 + c.size.toNat := by
  have hgrown : (headerSize + c.size).toNat = 32 + c.size.toNat := by
    rw [UInt64.toNat_add, show headerSize.toNat = 32 from rfl, Nat.mod_eq_of_lt (by omega)]
  rw [UInt64.toNat_add, hgrown, Nat.mod_eq_of_lt (by omega), Nat.add_assoc]

/-- A block that takes over the next one covers both. -/
theorem span_joined {d : DirectMap} (hadj : b.start d + 32 + b.size.toNat = c.start d)
    (hstop : c.start d + 32 + c.size.toNat < 2 ^ 64) :
    Extent.span d { b with size := b.size + (headerSize + c.size) } =
      ⟨b.start d, c.start d + 32 + c.size.toNat⟩ := by
  have hsum := toNat_joined_size (b := b) (c := c) (by omega)
  simp only [Extent.span, Extent.start, hsum, Span.mk.injEq, true_and] at hadj ⊢
  omega

theorem Formed.tiling_join (hf : Formed h m frames (l ++ b :: c :: r))
    (hadj : b.start h.directMap + 32 + b.size.toNat = c.start h.directMap) :
    Tiling frames ((l ++ { b with size := b.size + (headerSize + c.size) } :: r).map
      (Extent.span h.directMap)) := by
  have hold := hf.tiling
  have hb := (hf.sized (c := b) (by simp)).1
  have hc := hf.sized (c := c) (by simp)
  have hstop := hf.stop_lt (c := c) (by simp)
  simp only [List.map_append, List.map_cons, span_joined hadj hstop]
  simp only [List.map_append, List.map_cons] at hold
  refine (Tiling.split_iff ?_ hc.1 hc.2.1).mpr (by rwa [Extent.span, hadj] at hold)
  simp only [Extent.span] at hb ⊢
  omega

/-- A block that takes over the next one keeps the shape of the heap, and changes nothing but sizes
and links. -/
theorem Formed.join (hf : Formed h m frames (l ++ b :: c :: r))
    (hadj : b.start h.directMap + 32 + b.size.toNat = c.start h.directMap) :
    Formed { h with tail := if c.address = h.tail then b.address else h.tail }
      (joinMemory h.directMap b.address (HeapBlock.read h.directMap m c.address).next
        (b.size + (headerSize + c.size)) m) frames
      (l ++ { b with size := b.size + (headerSize + c.size) } :: r) ∧
    ∀ x, ¬ InLinks h.directMap (l ++ b :: c :: r) x →
      (joinMemory h.directMap b.address (HeapBlock.read h.directMap m c.address).next
        (b.size + (headerSize + c.size)) m).byte x = m.byte x := by
  obtain ⟨-, hout, hothers⟩ := hf.tiling.neighbours_apart
  obtain ⟨p, q, -, rfl, j, hread, rfl, k, hreadc, hlinked⟩ := linked_append.mp hf.linked
  have hk := hlinked.first_eq
  rw [hreadc]
  constructor
  · refine ⟨?_, by simp, hf.tiling_join hadj, hf.total, hf.below, hf.named⟩
    have htail : c.address = h.tail ↔ r = [] := by
      have hf' : Formed h m frames ((l ++ [b]) ++ c :: r) := by
        rwa [List.append_assoc]
      exact hf'.address_eq_tail_iff
    simp only [htail]
    have hmem : InMemory h.directMap b.address := hf.inMemory (by simp)
    obtain ⟨hl, hhead, hr⟩ := reads_linkBack (a := b.address) (m := m) hk (fun e he =>
      ⟨hf.address_ne_null (by simp [he]), hf.inMemory (by simp [he])⟩) hothers
      (t := setNext h.directMap b.address k
        (setSize h.directMap b.address (b.size + (headerSize + c.size)) m)) (fun e he => by
        rw [(onlyHeader_setNext _).read_of_apart (hout e he).1,
          (onlyHeader_setSize _).read_of_apart (hout e he).1])
    refine hf.linked.join ?_ hhead hl hr
    have hbehind : ∀ e ∈ r.head?, HeapBlock.Apart h.directMap e.address b.address := fun e he =>
      (hout e (List.mem_append_right _ (List.mem_of_mem_head? he))).1.symm
    rw [joinMemory, read_linkBack_of_apart hk hbehind, read_setNext hmem, read_setSize hmem, hreadc]
  · intro x hx
    simp only [inLinks_append, inLinks_cons, not_or] at hx
    obtain ⟨-, hxb, -, hxr⟩ := hx
    rw [joinMemory, byte_linkBack hk hxr, (onlyLinks_setNext _).byte_eq hxb,
      (onlyLinks_setSize _).byte_eq hxb]

/-- A block with the one behind it, joined if that is free and starts where the first one ends. -/
def joined (c : Extent) : List Extent → List Extent
  | [] => [c]
  | e :: r =>
    if e.free = true ∧ c.address.add (headerSize + c.size) = e.address then
      { c with size := c.size + (headerSize + e.size) } :: r
    else c :: e :: r

theorem joined_eq (c : Extent) (r : List Extent) :
    ∃ n s, joined c r = { c with size := n } :: s := by
  cases r with
  | nil => exact ⟨c.size, [], rfl⟩
  | cons e r =>
    rw [joined]
    split
    · exact ⟨_, r, rfl⟩
    · exact ⟨c.size, e :: r, rfl⟩

theorem sum_header_size (hf : Formed h m frames cs) (hc : c ∈ cs) :
    sum headerSize c.size = .ok (headerSize + c.size) := by
  have hstop := hf.stop_lt hc
  apply if_pos
  rw [show headerSize.toNat = 32 from rfl, show UInt64.size = 2 ^ 64 from rfl]
  omega

/-- Under a condition `g`, a block takes over the next one if that starts where it ends. -/
theorem absorb_spec {w : World KernelHeap}
    (hf : Formed w.part w.machine.memory frames (l ++ b :: c :: r)) (g : Prop) [Decidable g] :
    ∃ t tail, Action.run (if g then
          if b.address.add (headerSize + b.size) = c.address then absorbNext b.address else pure ()
          else pure () : Action (World KernelHeap) ε Unit) w =
        (.done (), ⟨{ w.machine with memory := t }, { w.part with tail := tail }⟩) ∧
      Formed { w.part with tail := tail } t frames
        (l ++ if g ∧ b.address.add (headerSize + b.size) = c.address then
          { b with size := b.size + (headerSize + c.size) } :: r else b :: c :: r) ∧
      ∀ x, ¬ InLinks w.part.directMap (l ++ b :: c :: r) x →
        t.byte x = w.machine.memory.byte x := by
  obtain ⟨p, q, -, rfl, k, hread, rfl, j, hreadc, -⟩ := linked_append.mp hf.linked
  have hstop := hf.stop_lt (c := b) (by simp)
  have hstopc := hf.stop_lt (c := c) (by simp)
  by_cases hg : g
  · by_cases hadj : b.address.add (headerSize + b.size) = c.address
    · have hstart := start_of_adjacent hstop hadj
      have hlt : b.size.toNat + (32 + c.size.toNat) < 2 ^ 64 := by omega
      obtain ⟨hf', hframe⟩ := hf.join hstart
      rw [hreadc] at hf' hframe
      rw [if_pos hg, if_pos hadj, if_pos ⟨hg, hadj⟩, run_absorbNext ε b.address w hread hreadc hlt]
      exact ⟨_, _, rfl, hf', hframe⟩
    · rw [if_pos hg, if_neg hadj, if_neg (fun hj => hadj hj.2)]
      exact ⟨w.machine.memory, w.part.tail, rfl, hf, fun _ _ => rfl⟩
  · rw [if_neg hg, if_neg (fun hj => hg hj.1)]
    exact ⟨w.machine.memory, w.part.tail, rfl, hf, fun _ _ => rfl⟩

theorem joinNext_spec {w : World KernelHeap}
    (hf : Formed w.part w.machine.memory frames (l ++ c :: r)) :
    ∃ t tail, (joinNext c.address : Action (World KernelHeap) ε Unit).run w =
        (.done (), ⟨{ w.machine with memory := t }, { w.part with tail := tail }⟩) ∧
      Formed { w.part with tail := tail } t frames (l ++ joined c r) ∧
      ∀ x, ¬ InLinks w.part.directMap (l ++ c :: r) x →
        t.byte x = w.machine.memory.byte x := by
  have hsum := sum_header_size hf (c := c) (by simp)
  obtain ⟨p, q, -, rfl, k, hread, hlinked⟩ := linked_append.mp hf.linked
  cases r with
  | nil =>
    refine ⟨w.machine.memory, w.part.tail, ?_, hf, fun _ _ => rfl⟩
    have hnull : k = .null := hlinked.1
    simp only [joinNext, Action.run_bind, run_block, hread, hnull, ne_eq, not_true_eq_false,
      if_false, Action.run_pure]
  | cons e r =>
    obtain ⟨rfl, j, hreade, -⟩ := hlinked
    have hne := hf.address_ne_null (c := e) (by simp)
    obtain ⟨t, tail, hrun, hspec⟩ := absorb_spec ε hf (e.free = true)
    refine ⟨t, tail, ?_, hspec⟩
    rw [← hrun]
    simp only [joinNext, Action.run_bind, run_block, hread, ne_eq, hne, not_false_eq_true,
      if_true, hreade, HeapBlock.stop, hsum, Except.map]
    split <;> rfl

theorem run_joinPrev_null {w : World KernelHeap} {a : VirtualAddress}
    (ha : (HeapBlock.read w.part.directMap w.machine.memory a).prev = .null) :
    (joinPrev a : Action (World KernelHeap) ε Unit).run w = (.done (), w) := by
  simp only [joinPrev, Action.run_bind, run_block, ha, ne_eq, not_true_eq_false, if_false,
    Action.run_pure]

theorem joinPrev_spec {w : World KernelHeap}
    (hf : Formed w.part w.machine.memory frames (l ++ b :: c :: r)) (hfree : c.free = true) :
    ∃ t tail, (joinPrev c.address : Action (World KernelHeap) ε Unit).run w =
        (.done (), ⟨{ w.machine with memory := t }, { w.part with tail := tail }⟩) ∧
      Formed { w.part with tail := tail } t frames
        (l ++ if b.free = true then joined b (c :: r) else b :: c :: r) ∧
      ∀ x, ¬ InLinks w.part.directMap (l ++ b :: c :: r) x →
        t.byte x = w.machine.memory.byte x := by
  have hsum := sum_header_size hf (c := b) (by simp)
  have hne := hf.address_ne_null (c := b) (by simp)
  obtain ⟨p, q, -, rfl, k, hread, rfl, j, hreadc, -⟩ := linked_append.mp hf.linked
  obtain ⟨t, tail, hrun, hf', hframe⟩ := absorb_spec ε hf (b.free = true)
  refine ⟨t, tail, ?_, ?_, hframe⟩
  · rw [← hrun]
    simp only [joinPrev, Action.run_bind, run_block, hreadc, ne_eq, hne, not_false_eq_true,
      if_true, hread, HeapBlock.stop, hsum, Except.map]
    split <;> rfl
  · simp only [ite_and] at hf'
    simp only [joined, hfree, true_and]
    exact hf'

end KernelHeap

end MemoryManager
