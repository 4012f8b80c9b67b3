import MemoryManager.Proofs.Heap.Operations

namespace MemoryManager.KernelHeap

open HeapBlock

variable (ε : Type) {h : KernelHeap} {m : Memory} {frames : List Nat} {cs l r : List Extent}
  {b c : Extent} {w : World KernelHeap}

/-- The blocks once the used block `c` between `l` and `r` is released. -/
def released (l : List Extent) (c : Extent) (r : List Extent) : List Extent :=
  let s := joined { c with free := true } r
  match l.getLast? with
  | none => s
  | some b => l.dropLast ++ if b.free = true then joined b s else b :: s

theorem released_nil (c : Extent) (r : List Extent) :
    released [] c r = joined { c with free := true } r := rfl

theorem released_concat (l : List Extent) (b c : Extent) (r : List Extent) :
    released (l ++ [b]) c r = l ++ if b.free = true then joined b (joined { c with free := true } r)
      else b :: joined { c with free := true } r := by
  simp only [released, List.getLast?_concat, List.dropLast_concat]

theorem inLinks_marked {d : DirectMap} {x : Nat} :
    InLinks d (l ++ { c with free := true } :: r) x ↔ InLinks d (l ++ c :: r) x := by
  simp only [inLinks_append, inLinks_cons, Extent.HoldsLinks, Extent.start]

theorem inLinks_of_joined {d : DirectMap} {x : Nat} (h : InLinks d (l ++ joined c r) x) :
    InLinks d (l ++ c :: r) x := by
  rw [inLinks_append] at h ⊢
  refine h.imp_right fun h => ?_
  cases r with
  | nil => exact h
  | cons e r =>
    rw [joined] at h
    split at h
    · rw [inLinks_cons] at h ⊢
      exact h.imp_right fun hr => hr.mono (List.subset_cons_self e r)
    · exact h

/-- Memory once the payload of a block is overwritten and its header says that it is free. -/
def freedMemory (d : DirectMap) (c : Extent) (m : Memory) : Memory :=
  (HeapBlock.setFree d c.address true m).fill (d.physical c.payload).value.toNat c.size.toNat poison

theorem byte_freedMemory (hf : Formed h m frames cs) (hc : c ∈ cs) (x : Nat) :
    (freedMemory h.directMap c m).byte x =
      if c.start h.directMap + 32 ≤ x ∧ x < c.start h.directMap + 32 + c.size.toNat then poison
      else if x = c.start h.directMap + 8 then 1 else m.byte x := by
  have hstop := hf.stop_lt hc
  have hsize : Memory.size = 2 ^ 64 := rfl
  have hflag : field h.directMap c.address 8 = c.start h.directMap + 8 := rfl
  rw [freedMemory, Memory.byte_fill, hf.physical_payload hc, HeapBlock.setFree, hflag,
    Memory.byte_setByte]
  by_cases hpayload : c.start h.directMap + 32 ≤ x ∧
      x < c.start h.directMap + 32 + c.size.toNat
  · rw [if_pos (by omega), if_pos hpayload]
  · rw [if_neg (by omega), if_neg hpayload]
    by_cases hx : x = c.start h.directMap + 8
    · rw [if_pos ⟨hx, by omega⟩, if_pos hx, if_pos rfl]
    · rw [if_neg fun h => hx h.1, if_neg hx]

theorem Formed.freed (hf : Formed h m frames (l ++ c :: r)) :
    Formed h (freedMemory h.directMap c m) frames (l ++ { c with free := true } :: r) := by
  have hfree := hf.setFree true
  refine hfree.congr fun x hx => ?_
  rw [freedMemory, Memory.byte_fill, hf.physical_payload (by simp), if_neg]
  intro hparts
  obtain ⟨hlow, hhigh, -⟩ := hparts
  exact hfree.not_inHeaders (c := { c with free := true }) (by simp) hlow hhigh hx

/-- The first steps of releasing a used block: it is free, overwritten and joined with the one
behind it. What is left is to join it with the one before it. -/
theorem release_joinNext (hf : Formed w.part w.machine.memory frames (l ++ c :: r))
    (hused : c.free = false) :
    ∃ t tail, (release c.payload : Action (World KernelHeap) ε Unit).run w =
        (joinPrev c.address : Action (World KernelHeap) ε Unit).run
          ⟨{ w.machine with memory := t }, { w.part with tail := tail }⟩ ∧
      Formed { w.part with tail := tail } t frames (l ++ joined { c with free := true } r) ∧
      ∀ x, ¬ InLinks w.part.directMap (l ++ c :: r) x →
        t.byte x = (freedMemory w.part.directMap c w.machine.memory).byte x := by
  have hc : c ∈ l ++ c :: r := by simp
  obtain ⟨n, p, hread⟩ := hf.linked.read_of_mem hc
  obtain ⟨t, tail, hrun, hjoined, hframe⟩ := joinNext_spec ε
    (w := ⟨{ w.machine with memory := freedMemory w.part.directMap c w.machine.memory }, w.part⟩)
    hf.freed
  refine ⟨t, tail, ?_, hjoined, fun x hx => hframe x (mt inLinks_marked.mp hx)⟩
  simp only [release, ne_eq, hf.payload_ne_null hc, not_false_eq_true, if_true, Action.run_bind,
    Action.run_get, Extent.ofPayload_payload, run_block, hread, hused, Bool.false_eq_true,
    if_false, World.run_store]
  rw [freedMemory] at hrun
  rw [hrun]

/-- Releasing a used block frees it, overwrites its payload and joins it with its free neighbours,
for which nothing but sizes and links is written. -/
theorem release_links (hf : Formed w.part w.machine.memory frames (l ++ c :: r))
    (hused : c.free = false) :
    ∃ t tail, (release c.payload : Action (World KernelHeap) ε Unit).run w =
        (.done (), ⟨{ w.machine with memory := t }, { w.part with tail := tail }⟩) ∧
      Formed { w.part with tail := tail } t frames (released l c r) ∧
      ∀ x, ¬ InLinks w.part.directMap (l ++ c :: r) x →
        t.byte x = (freedMemory w.part.directMap c w.machine.memory).byte x := by
  obtain ⟨t₁, tail₁, hrun, hf₁, hbytes₁⟩ := release_joinNext ε hf hused
  rw [hrun]
  have hnot : ∀ x, ¬ InLinks w.part.directMap (l ++ c :: r) x →
      ¬ InLinks w.part.directMap (l ++ joined { c with free := true } r) x := fun x hx hnew =>
    hx (inLinks_marked.mp (inLinks_of_joined hnew))
  -- joining may have changed the block's size, but not its address
  obtain ⟨n, s, hs⟩ := joined_eq { c with free := true } r
  rw [hs] at hf₁ hnot
  rcases List.eq_nil_or_concat l with rfl | ⟨l', b, rfl⟩
  · obtain ⟨-, k, hread, -⟩ := hf₁.linked
    refine ⟨t₁, tail₁, run_joinPrev_null ε (congrArg HeapBlock.prev hread), ?_, hbytes₁⟩
    rw [released_nil, hs]
    exact hf₁
  · rw [List.concat_eq_append] at *
    rw [List.append_assoc] at hf₁
    obtain ⟨t₂, tail₂, hrun₂, hf₂, hframe₂⟩ := joinPrev_spec ε
      (w := ⟨{ w.machine with memory := t₁ }, { w.part with tail := tail₁ }⟩)
      (c := { c with size := n, free := true }) hf₁ rfl
    refine ⟨t₂, tail₂, hrun₂, ?_, fun x hx => ?_⟩
    · rw [released_concat, hs]
      exact hf₂
    · rw [← hbytes₁ x hx]
      apply hframe₂ x
      have hout := hnot x hx
      rwa [List.append_assoc] at hout

/-- Releasing a used block frees it, overwrites its payload and joins it with its free neighbours.
Nothing else changes but headers. -/
theorem release_spec (hf : Formed w.part w.machine.memory frames (l ++ c :: r))
    (hused : c.free = false) :
    ∃ t tail, (release c.payload : Action (World KernelHeap) ε Unit).run w =
        (.done (), ⟨{ w.machine with memory := t }, { w.part with tail := tail }⟩) ∧
      Formed { w.part with tail := tail } t frames (released l c r) ∧
      ∀ x, ¬ InHeaders w.part.directMap (l ++ c :: r) x →
        t.byte x = if c.start w.part.directMap + 32 ≤ x ∧
          x < c.start w.part.directMap + 32 + c.size.toNat then poison
          else w.machine.memory.byte x := by
  have hc : c ∈ l ++ c :: r := by simp
  obtain ⟨t, tail, hrun, hreleased, hlinks⟩ := release_links ε hf hused
  refine ⟨t, tail, hrun, hreleased, fun x hx => ?_⟩
  have hflag : x ≠ c.start w.part.directMap + 8 := fun heq => hx ⟨c, hc, by omega⟩
  rw [hlinks x (mt InLinks.inHeaders hx), byte_freedMemory hf hc, if_neg hflag]

end MemoryManager.KernelHeap
