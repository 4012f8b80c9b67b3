import Mathlib.Data.List.Chain
import MemoryManager.Proofs.Heap.Headers

namespace MemoryManager

/-- A block without its links. -/
@[ext] structure Extent where
  address : VirtualAddress
  size : UInt64
  free : Bool
  deriving DecidableEq

namespace Extent

def payload (c : Extent) : VirtualAddress :=
  c.address.add headerSize

theorem payload_inj {b c : Extent} : b.payload = c.payload ↔ b.address = c.address := by
  simp [payload, VirtualAddress.add, VirtualAddress.ext_iff]

@[simp] theorem ofPayload_payload (c : Extent) : HeapBlock.ofPayload c.payload = c.address := by
  simp [HeapBlock.ofPayload, payload, VirtualAddress.add]

end Extent

def HeapBlock.extent (b : HeapBlock) : Extent :=
  ⟨b.address, b.size, b.free⟩

/-- The headers of `cs` form a doubly linked segment, which starts at `first` and ends at `last`,
between the blocks `prev` and `next`. A segment without blocks has `first = next` and
`last = prev`. -/
def Linked (H : VirtualAddress → HeapBlock) (prev first : VirtualAddress) :
    List Extent → (last next : VirtualAddress) → Prop
  | [], last, next => first = next ∧ last = prev
  | c :: cs, last, next => first = c.address ∧
      ∃ n, H c.address = ⟨c.address, c.size, c.free, n, prev⟩ ∧ Linked H c.address n cs last next

/-- The blocks with the given extents, linked with each other; `prev` comes before the first one. -/
def linkUp (prev : VirtualAddress) : List Extent → List HeapBlock
  | [] => []
  | c :: cs => ⟨c.address, c.size, c.free, (cs.head?.map Extent.address).getD .null, prev⟩ ::
      linkUp c.address cs

variable {H K : VirtualAddress → HeapBlock} {prev first last next : VirtualAddress}
  {l r cs : List Extent}

theorem linked_append : Linked H prev first (l ++ r) last next ↔
    ∃ p n, Linked H prev first l p n ∧ Linked H p n r last next := by
  induction l generalizing prev first with
  | nil =>
    constructor
    · intro h
      exact ⟨prev, first, ⟨rfl, rfl⟩, h⟩
    · intro hparts
      obtain ⟨p, n, ⟨rfl, rfl⟩, h⟩ := hparts
      exact h
  | cons c l ih =>
    constructor
    · intro hparts
      obtain ⟨rfl, n, hc, h⟩ := hparts
      obtain ⟨p, q, hl, hr⟩ := ih.mp h
      exact ⟨p, q, ⟨rfl, n, hc, hl⟩, hr⟩
    · intro hparts
      obtain ⟨p, q, ⟨rfl, n, hc, hl⟩, hr⟩ := hparts
      exact ⟨rfl, n, hc, ih.mpr ⟨p, q, hl, hr⟩⟩

theorem Linked.congr (h : Linked H prev first cs last next)
    (hk : ∀ c ∈ cs, K c.address = H c.address) : Linked K prev first cs last next := by
  induction cs generalizing prev first with
  | nil => exact h
  | cons c cs ih =>
    obtain ⟨rfl, n, hc, h⟩ := h
    refine ⟨rfl, n, ?_, ih h fun e he => hk e (List.mem_cons_of_mem _ he)⟩
    rw [hk c List.mem_cons_self, hc]

/-- A segment is put behind another block by a new back link in its first block. Without a block,
the last one is now the other. -/
theorem Linked.relink (h : Linked H prev first cs last next) (prev' : VirtualAddress)
    (hhead : ∀ c ∈ cs.head?, K c.address = { H c.address with prev := prev' })
    (htail : ∀ c ∈ cs.tail, K c.address = H c.address) :
    Linked K prev' first cs (if cs = [] then prev' else last) next := by
  cases cs with
  | nil => exact ⟨h.1, rfl⟩
  | cons c cs =>
    obtain ⟨rfl, n, hc, h⟩ := h
    refine ⟨rfl, n, ?_, h.congr htail⟩
    rw [hhead c rfl, hc]

theorem Linked.first_eq (h : Linked H prev first cs last next) :
    first = (cs.head?.map Extent.address).getD next := by
  cases cs with
  | nil => exact h.1
  | cons c cs => exact h.1

theorem Linked.last_eq (h : Linked H prev first cs last next) :
    last = (cs.getLast?.map Extent.address).getD prev := by
  induction cs generalizing prev first with
  | nil => exact h.2
  | cons c cs ih =>
    obtain ⟨-, n, -, h⟩ := h
    cases cs with
    | nil => exact ih h
    | cons e cs =>
      rw [ih h, List.getLast?_cons_cons, List.getLast?_cons]
      rfl

theorem Linked.last_mem (h : Linked H prev first cs last next) (hcs : cs ≠ []) :
    ∃ c ∈ cs, c.address = last := by
  refine ⟨cs.getLast hcs, List.getLast_mem hcs, ?_⟩
  rw [h.last_eq, List.getLast?_eq_some_getLast hcs]
  rfl

theorem Linked.read_of_mem (h : Linked H prev first cs last next) {c : Extent} (hc : c ∈ cs) :
    ∃ n p, H c.address = ⟨c.address, c.size, c.free, n, p⟩ := by
  induction cs generalizing prev first with
  | nil => cases hc
  | cons e cs ih =>
    obtain ⟨-, n, he, h⟩ := h
    rcases List.mem_cons.mp hc with rfl | hc
    · exact ⟨n, prev, he⟩
    · exact ih h hc

/-- A block is cut in two: its header has a new size and points at the rest, and the rest is put
between it and what follows. -/
theorem Linked.split {c e : Extent} (h : Linked H prev first (l ++ c :: r) last next) {n : UInt64}
    (hc : K c.address = { H c.address with size := n, next := e.address })
    (he : K e.address = ⟨e.address, e.size, e.free, (H c.address).next, c.address⟩)
    (hnext : ∀ f ∈ r.head?, K f.address = { H f.address with prev := e.address })
    (hl : ∀ f ∈ l, K f.address = H f.address) (hr : ∀ f ∈ r.tail, K f.address = H f.address) :
    Linked K prev first (l ++ { c with size := n } :: e :: r)
      (if r = [] then e.address else last) next := by
  obtain ⟨p, q, hleft, rfl, k, hread, hright⟩ := linked_append.mp h
  refine linked_append.mpr ⟨p, c.address, hleft.congr hl, rfl, e.address, ?_, rfl, k, ?_, ?_⟩
  · rw [hc, hread]
  · rw [he, hread]
  · exact hright.relink e.address hnext hr

/-- A block takes over the place of the next one: its header has a new size and points at what
follows. -/
theorem Linked.join {b c : Extent} (h : Linked H prev first (l ++ b :: c :: r) last next)
    {n : UInt64} (hb : K b.address = { H b.address with size := n, next := (H c.address).next })
    (hnext : ∀ e ∈ r.head?, K e.address = { H e.address with prev := b.address })
    (hl : ∀ e ∈ l, K e.address = H e.address) (hr : ∀ e ∈ r.tail, K e.address = H e.address) :
    Linked K prev first (l ++ ⟨b.address, n, b.free⟩ :: r)
      (if r = [] then b.address else last) next := by
  obtain ⟨p, q, hleft, rfl, k, hread, rfl, j, hreadc, hright⟩ := linked_append.mp h
  refine linked_append.mpr ⟨p, b.address, hleft.congr hl, rfl, j, ?_, ?_⟩
  · rw [hb, hread, hreadc]
  · exact hright.relink b.address hnext hr

theorem Linked.setFree {c : Extent} (h : Linked H prev first (l ++ c :: r) last next) {f : Bool}
    (hc : K c.address = { H c.address with free := f })
    (hl : ∀ e ∈ l, K e.address = H e.address) (hr : ∀ e ∈ r, K e.address = H e.address) :
    Linked K prev first (l ++ { c with free := f } :: r) last next := by
  obtain ⟨p, q, hleft, rfl, k, hread, hright⟩ := linked_append.mp h
  refine linked_append.mpr ⟨p, c.address, hleft.congr hl, rfl, k, ?_, hright.congr hr⟩
  rw [hc, hread]

theorem Linked.snoc {c e : Extent} (h : Linked H prev first (l ++ [c]) last next)
    (hc : K c.address = { H c.address with next := e.address })
    (he : K e.address = ⟨e.address, e.size, e.free, next, last⟩)
    (hl : ∀ e ∈ l, K e.address = H e.address) :
    Linked K prev first (l ++ [c] ++ [e]) e.address next := by
  obtain ⟨p, q, hleft, rfl, k, hread, rfl, rfl⟩ := linked_append.mp h
  rw [List.append_assoc]
  refine linked_append.mpr ⟨p, c.address, hleft.congr hl, rfl, e.address, ?_, rfl, _, he, rfl, rfl⟩
  rw [hc, hread]

/-- The walk along the `next` addresses returns every block of the list with its links. -/
theorem Linked.chain {d : DirectMap} {m : Memory} {n : Nat}
    (h : Linked (HeapBlock.read d m) prev first cs last .null)
    (hnull : ∀ c ∈ cs, c.address ≠ .null) (hn : cs.length ≤ n) :
    HeapBlock.chain d m n first = linkUp prev cs := by
  induction cs generalizing prev first n with
  | nil =>
    cases n with
    | zero => rfl
    | succ n => rw [HeapBlock.chain, if_pos h.1, linkUp]
  | cons c cs ih =>
    obtain ⟨rfl, next, hc, h⟩ := h
    cases n with
    | zero => exact absurd hn (Nat.not_succ_le_zero _)
    | succ n =>
      have hcs := ih h (fun e he => hnull e (List.mem_cons_of_mem _ he)) (Nat.le_of_succ_le_succ hn)
      rw [HeapBlock.chain, if_neg (hnull c List.mem_cons_self), linkUp, hc, ← h.first_eq, ← hcs]

theorem extent_linkUp (prev : VirtualAddress) (cs : List Extent) :
    (linkUp prev cs).map HeapBlock.extent = cs := by
  induction cs generalizing prev with
  | nil => rfl
  | cons c cs ih => rw [linkUp, List.map_cons, ih]; rfl

theorem Linked.stored (h : Linked H prev first cs last .null) :
    ∀ b ∈ linkUp prev cs, H b.address = b := by
  induction cs generalizing prev first with
  | nil => exact fun b hb => absurd hb List.not_mem_nil
  | cons c cs ih =>
    obtain ⟨rfl, n, hc, h⟩ := h
    intro b hb
    rcases List.mem_cons.mp hb with rfl | hb
    · rw [hc, h.first_eq]
    · exact ih h b hb

theorem head?_linkUp (prev : VirtualAddress) (cs : List Extent) :
    ∀ b ∈ (linkUp prev cs).head?, b.prev = prev ∧ cs.head?.map Extent.address = some b.address := by
  cases cs with
  | nil => exact fun b hb => absurd hb (Option.not_mem_none b)
  | cons c cs =>
    intro b hmem
    cases hmem
    exact ⟨rfl, rfl⟩

theorem getLast?_linkUp (prev : VirtualAddress) (cs : List Extent) :
    ∀ b ∈ (linkUp prev cs).getLast?,
      b.next = .null ∧ cs.getLast?.map Extent.address = some b.address := by
  induction cs generalizing prev with
  | nil => exact fun b hb => absurd hb (Option.not_mem_none b)
  | cons c cs ih =>
    cases cs with
    | nil =>
      intro b hmem
      cases hmem
      exact ⟨rfl, rfl⟩
    | cons e cs =>
      intro b hb
      rw [List.getLast?_cons_cons]
      rw [linkUp, linkUp, List.getLast?_cons_cons] at hb
      exact ih c.address b hb

theorem isChain_linkUp (prev : VirtualAddress) (cs : List Extent) :
    (linkUp prev cs).IsChain fun b c => b.next = c.address ∧ c.prev = b.address := by
  induction cs generalizing prev with
  | nil => exact .nil
  | cons c cs ih =>
    cases cs with
    | nil => exact .singleton _
    | cons e cs => exact .cons_cons ⟨rfl, rfl⟩ (ih c.address)

end MemoryManager
