import Mathlib.Data.List.Nodup
import MemoryManager.Heap.KernelHeap
import MemoryManager.Proofs.Heap.Links
import MemoryManager.Proofs.Heap.Tiling

namespace MemoryManager

/-- Number of the frame that appears at the null address. -/
def DirectMap.nullFrame (d : DirectMap) : Nat :=
  (d.physical .null).value.toNat / 4096

theorem DirectMap.toNat_physical_add (d : DirectMap) (a : VirtualAddress) (n : UInt64)
    (h : (d.physical a).value.toNat + n.toNat < 2 ^ 64) :
    (d.physical (a.add n)).value.toNat = (d.physical a).value.toNat + n.toNat := by
  have hadd : (d.physical (a.add n)).value = (d.physical a).value + n := by
    simp only [physical, VirtualAddress.add, UInt64.sub_eq_add_neg]
    ac_rfl
  rw [hadd, UInt64.toNat_add, Nat.mod_eq_of_lt h]

namespace Extent

/-- Where the header lies in physical memory. -/
def start (d : DirectMap) (c : Extent) : Nat :=
  (d.physical c.address).value.toNat

/-- The physical addresses of header and payload. -/
def span (d : DirectMap) (c : Extent) : Span :=
  ⟨c.start d, c.start d + 32 + c.size.toNat⟩

end Extent

/-- Whether the byte belongs to one of the headers. -/
def InHeaders (d : DirectMap) (cs : List Extent) (x : Nat) : Prop :=
  ∃ c ∈ cs, c.start d ≤ x ∧ x < c.start d + 32

@[simp] theorem inHeaders_nil (d : DirectMap) (x : Nat) : ¬ InHeaders d [] x := by
  intro hparts
  obtain ⟨c, hc, -⟩ := hparts
  cases hc

@[simp] theorem inHeaders_cons (d : DirectMap) (c : Extent) (cs : List Extent) (x : Nat) :
    InHeaders d (c :: cs) x ↔ c.start d ≤ x ∧ x < c.start d + 32 ∨ InHeaders d cs x := by
  simp only [InHeaders, List.mem_cons, or_and_right, exists_or, exists_eq_left]

@[simp] theorem inHeaders_append (d : DirectMap) (l r : List Extent) (x : Nat) :
    InHeaders d (l ++ r) x ↔ InHeaders d l x ∨ InHeaders d r x := by
  simp only [InHeaders, List.mem_append, or_and_right, exists_or]

theorem HeapBlock.OnlyHeader.byte_eq {d : DirectMap} {c : Extent} {m t : Memory} {x : Nat}
    (h : OnlyHeader d c.address m t) (hx : ¬ (c.start d ≤ x ∧ x < c.start d + 32)) :
    t.byte x = m.byte x := by
  apply h
  simp only [field, Extent.start] at *
  omega

/-- Whether the byte belongs to the size or to a link in the header of the block. -/
def Extent.HoldsLinks (d : DirectMap) (c : Extent) (x : Nat) : Prop :=
  c.start d ≤ x ∧ x < c.start d + 8 ∨ c.start d + 16 ≤ x ∧ x < c.start d + 32

/-- Whether the byte belongs to the size or to a link in one of the headers. -/
def InLinks (d : DirectMap) (cs : List Extent) (x : Nat) : Prop :=
  ∃ c ∈ cs, c.HoldsLinks d x

@[simp] theorem inLinks_cons (d : DirectMap) (c : Extent) (cs : List Extent) (x : Nat) :
    InLinks d (c :: cs) x ↔ c.HoldsLinks d x ∨ InLinks d cs x := by
  simp only [InLinks, List.mem_cons, or_and_right, exists_or, exists_eq_left]

@[simp] theorem inLinks_append (d : DirectMap) (l r : List Extent) (x : Nat) :
    InLinks d (l ++ r) x ↔ InLinks d l x ∨ InLinks d r x := by
  simp only [InLinks, List.mem_append, or_and_right, exists_or]

theorem InLinks.mono {d : DirectMap} {l r : List Extent} {x : Nat} (h : InLinks d l x)
    (hsub : l ⊆ r) : InLinks d r x := by
  obtain ⟨c, hc, hx⟩ := h
  exact ⟨c, hsub hc, hx⟩

theorem InLinks.inHeaders {d : DirectMap} {cs : List Extent} {x : Nat} (h : InLinks d cs x) :
    InHeaders d cs x := by
  obtain ⟨c, hc, hx⟩ := h
  refine ⟨c, hc, ?_⟩
  simp only [Extent.HoldsLinks] at hx
  omega

theorem HeapBlock.OnlyLinks.byte_eq {d : DirectMap} {c : Extent} {m t : Memory} {x : Nat}
    (h : OnlyLinks d c.address m t) (hx : ¬ c.HoldsLinks d x) : t.byte x = m.byte x := by
  apply h
  simp only [Extent.HoldsLinks, field, Extent.start] at *
  omega

/-- The blocks that are handed out. -/
def inUse (cs : List Extent) : List Extent :=
  cs.filter fun c => !c.free

@[simp] theorem mem_inUse {c : Extent} {cs : List Extent} :
    c ∈ inUse cs ↔ c ∈ cs ∧ c.free = false := by
  simp [inUse]

@[simp] theorem inUse_nil : inUse [] = [] := rfl

@[simp] theorem inUse_append (l r : List Extent) : inUse (l ++ r) = inUse l ++ inUse r :=
  List.filter_append ..

theorem inUse_cons_of_free {c : Extent} (hc : c.free = true) (cs : List Extent) :
    inUse (c :: cs) = inUse cs := by
  simp [inUse, hc]

theorem inUse_cons_of_used {c : Extent} (hc : c.free = false) (cs : List Extent) :
    inUse (c :: cs) = c :: inUse cs := by
  simp [inUse, hc]

theorem inUse_append_cons_of_free {c : Extent} (hc : c.free = true) (l r : List Extent) :
    inUse (l ++ c :: r) = inUse (l ++ r) := by
  rw [inUse_append, inUse_append, inUse_cons_of_free hc]

theorem Tiling.headers_apart {d : DirectMap} {frames : List Nat} {cs : List Extent}
    (ht : Tiling frames (cs.map (Extent.span d))) :
    cs.Pairwise fun b c => HeapBlock.Apart d b.address c.address := by
  have hp := List.pairwise_map.mp ht.apart
  refine hp.imp_of_mem fun {b c} hb hc hbc => ?_
  have hb := (ht.sized _ (List.mem_map_of_mem hb)).1
  have hc := (ht.sized _ (List.mem_map_of_mem hc)).1
  simp only [Span.Apart, Extent.span, HeapBlock.Apart, HeapBlock.field, Extent.start] at *
  omega

theorem Tiling.neighbours_apart {d : DirectMap} {frames : List Nat} {b c : Extent}
    {l r : List Extent} (ht : Tiling frames ((l ++ b :: c :: r).map (Extent.span d))) :
    HeapBlock.Apart d b.address c.address ∧
    (∀ e ∈ l ++ r, HeapBlock.Apart d b.address e.address ∧ HeapBlock.Apart d c.address e.address) ∧
    (l ++ r).Pairwise fun b c => HeapBlock.Apart d b.address c.address := by
  have hapart := ht.headers_apart
  rw [List.pairwise_append, List.pairwise_cons, List.pairwise_cons] at hapart
  simp only [List.forall_mem_cons] at hapart
  obtain ⟨hl, ⟨⟨hbc, hb⟩, hc, hr⟩, hleft⟩ := hapart
  refine ⟨hbc, fun e he => ?_, List.pairwise_append.mpr ⟨hl, hr, fun e he => (hleft e he).2.2⟩⟩
  rcases List.mem_append.mp he with he | he
  · obtain ⟨heb, hec, -⟩ := hleft e he
    exact ⟨heb.symm, hec.symm⟩
  · exact ⟨hb e he, hc e he⟩

namespace KernelHeap

/-- The blocks of a heap without their links. -/
def extents (w : World KernelHeap) : List Extent :=
  (w.part.blocks w.machine.memory).map HeapBlock.extent

/-- The heap has the blocks `cs` and the frames `frames`. -/
structure Formed (h : KernelHeap) (m : Memory) (frames : List Nat) (cs : List Extent) : Prop where
  linked : Linked (HeapBlock.read h.directMap m) .null h.head cs h.tail .null
  nonempty : cs ≠ []
  tiling : Tiling frames (cs.map (Extent.span h.directMap))
  total : h.totalBytes.toNat = 4096 * frames.length
  below : ∀ i ∈ frames, i + 1 < 2 ^ 52
  named : h.directMap.nullFrame ∉ frames

namespace Formed

variable {h : KernelHeap} {m t : Memory} {frames : List Nat} {cs l r : List Extent} {b c : Extent}

theorem sized (hf : Formed h m frames cs) (hc : c ∈ cs) : (c.span h.directMap).Sized :=
  hf.tiling.sized _ (List.mem_map_of_mem hc)

theorem size_pos (hf : Formed h m frames cs) (hc : c ∈ cs) : 0 < c.size.toNat := by
  have hs := (hf.sized hc).1
  simp only [Extent.span] at hs
  omega

theorem frame_mem (hf : Formed h m frames cs) (hc : c ∈ cs) {x : Nat}
    (hx : (c.span h.directMap).Holds x) : x / 4096 ∈ frames :=
  hf.tiling.frame_mem (List.mem_map_of_mem hc) hx

/-- No block reaches into the last frame that an address can name. -/
theorem stop_le (hf : Formed h m frames cs) (hc : c ∈ cs) :
    c.start h.directMap + 32 + c.size.toNat + 4096 ≤ 2 ^ 64 := by
  have hs := (hf.sized hc).1
  simp only [Extent.span] at hs
  have hlast := hf.below _ (hf.frame_mem hc (x := c.start h.directMap + 32 + c.size.toNat - 1)
    ⟨by simp only [Extent.span]; omega, by simp only [Extent.span]; omega⟩)
  omega

theorem stop_lt (hf : Formed h m frames cs) (hc : c ∈ cs) :
    c.start h.directMap + 32 + c.size.toNat < 2 ^ 64 := by
  have hle := hf.stop_le hc
  omega

theorem physical_payload (hf : Formed h m frames cs) (hc : c ∈ cs) :
    (h.directMap.physical c.payload).value.toNat = c.start h.directMap + 32 := by
  have hlt := hf.stop_lt hc
  apply h.directMap.toNat_physical_add c.address headerSize
  rw [show headerSize.toNat = 32 from rfl, ← Extent.start]
  omega

theorem payload_ne_null (hf : Formed h m frames cs) (hc : c ∈ cs) : c.payload ≠ .null := by
  intro hnull
  have hmem := hf.frame_mem hc (x := c.start h.directMap + 32)
    ⟨Nat.le_add_right _ _, (hf.sized hc).1⟩
  rw [← hf.physical_payload hc, hnull] at hmem
  exact hf.named hmem

theorem inMemory (hf : Formed h m frames cs) (hc : c ∈ cs) :
    HeapBlock.InMemory h.directMap c.address := by
  have hlt := hf.stop_lt hc
  simp only [HeapBlock.InMemory, HeapBlock.field, Memory.size, Extent.start] at *
  omega

theorem address_ne_null (hf : Formed h m frames cs) (hc : c ∈ cs) : c.address ≠ .null := by
  intro hnull
  have hs := (hf.sized hc).lt
  have hmem := hf.frame_mem hc (x := c.start h.directMap) ⟨Nat.le_refl _, hs⟩
  rw [Extent.start, hnull] at hmem
  exact hf.named hmem

theorem address_eq_tail_iff (hf : Formed h m frames (l ++ c :: r)) :
    c.address = h.tail ↔ r = [] := by
  obtain ⟨p, q, -, rfl, k, -, hr⟩ := linked_append.mp hf.linked
  constructor
  · intro htail
    by_contra hne
    obtain ⟨e, he, hlast⟩ := hr.last_mem hne
    have hapart := hf.tiling.headers_apart
    rw [List.pairwise_append, List.pairwise_cons] at hapart
    exact (hapart.2.1.1 e he).ne (htail.trans hlast.symm)
  · intro heq
    obtain rfl := heq
    exact hr.2.symm

theorem length_le (hf : Formed h m frames cs) :
    cs.length ≤ (h.totalBytes / headerSize).toNat := by
  have hlen := hf.tiling.length_le
  rw [List.length_map] at hlen
  rw [UInt64.toNat_div, hf.total, show headerSize.toNat = 32 from rfl]
  omega

theorem congr (hf : Formed h m frames cs)
    (ht : ∀ x, InHeaders h.directMap cs x → t.byte x = m.byte x) : Formed h t frames cs := by
  refine ⟨hf.linked.congr fun c hc => ?_, hf.nonempty, hf.tiling, hf.total, hf.below, hf.named⟩
  apply HeapBlock.read_congr
  intro x hlow hhigh
  exact ht x ⟨c, hc, hlow, hhigh⟩

theorem perm (hf : Formed h m frames cs) {frames' : List Nat} (hp : frames.Perm frames') :
    Formed h m frames' cs :=
  ⟨hf.linked, hf.nonempty, hf.tiling.perm hp, by rw [hf.total, hp.length_eq],
    fun i hi => hf.below i (hp.mem_iff.mpr hi), fun hn => hf.named (hp.mem_iff.mpr hn)⟩

theorem eq_of_address_eq (hf : Formed h m frames cs) (hb : b ∈ cs) (hc : c ∈ cs)
    (heq : b.address = c.address) : b = c := by
  have hne := hf.tiling.headers_apart.imp fun {b c} hbc => hbc.ne
  exact List.inj_on_of_nodup_map (List.pairwise_map.mpr hne) hb hc heq

theorem address_ne (hf : Formed h m frames (l ++ c :: r)) (hb : b ∈ l ++ r) :
    b.address ≠ c.address := by
  have hapart := hf.tiling.headers_apart
  rw [List.pairwise_append, List.pairwise_cons] at hapart
  rcases List.mem_append.mp hb with hb | hb
  · exact (hapart.2.2 b hb c List.mem_cons_self).ne
  · exact (hapart.2.1.1 b hb).ne.symm

theorem not_inHeaders (hf : Formed h m frames cs) (hc : c ∈ cs) {x : Nat}
    (hlow : c.start h.directMap + 32 ≤ x)
    (hhigh : x < c.start h.directMap + 32 + c.size.toNat) : ¬ InHeaders h.directMap cs x := by
  intro hparts
  obtain ⟨b, hb, hbx⟩ := hparts
  have hsb := (hf.sized hb).1
  simp only [Extent.span] at hsb
  by_cases hbc : b.span h.directMap = c.span h.directMap
  · have hstart : b.start h.directMap = c.start h.directMap := congrArg Span.first hbc
    omega
  · have hapart := hf.tiling.apart_of_ne (List.mem_map_of_mem hb) (List.mem_map_of_mem hc) hbc
    simp only [Span.Apart, Extent.span] at hapart
    omega

theorem frame_of_inHeaders (hf : Formed h m frames cs) {x : Nat}
    (hx : InHeaders h.directMap cs x) : x / 4096 ∈ frames := by
  obtain ⟨c, hc, hlow, hhigh⟩ := hx
  have hs := (hf.sized hc).1
  refine hf.frame_mem hc ⟨hlow, ?_⟩
  simp only [Extent.span] at hs ⊢
  omega

theorem blocks_eq (hf : Formed h m frames cs) : h.blocks m = linkUp .null cs :=
  hf.linked.chain (fun _ hc => hf.address_ne_null hc) hf.length_le

theorem map_extent_blocks (hf : Formed h m frames cs) :
    (h.blocks m).map HeapBlock.extent = cs := by
  rw [hf.blocks_eq, extent_linkUp]

theorem extent_mem (hf : Formed h m frames cs) {b : HeapBlock} (hb : b ∈ h.blocks m) :
    b.extent ∈ cs := by
  rw [← hf.map_extent_blocks]
  exact List.mem_map_of_mem hb

/-- The blocks take up the heap's frames, and nothing else. -/
theorem blocks_cover (hf : Formed h m frames cs) (x : Nat) :
    (∃ b ∈ h.blocks m, (b.extent.span h.directMap).Holds x) ↔ x / 4096 ∈ frames := by
  rw [← hf.tiling.covers x, ← hf.map_extent_blocks]
  simp only [List.mem_map, exists_exists_and_eq_and]

end Formed

end KernelHeap

end MemoryManager
