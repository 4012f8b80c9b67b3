import MemoryManager.Proofs.Paging.PageMap

namespace MemoryManager

deriving instance DecidableEq for Outcome

/-- The value that an action ended with, if it did. -/
def Outcome.done? {ε α : Type} : Outcome ε α → Option α
  | .done a => some a
  | _ => none

theorem Outcome.eq_done {ε α : Type} {o : Outcome ε α} {a : α} (h : o.done? = some a) :
    o = .done a := by
  cases o with
  | done b => rw [Option.some.inj h]
  | refused e => cases h
  | stopped f => cases h

/-- The address that a request is about. -/
def PageRequest.address : PageRequest → VirtualAddress
  | map _ a _ => a
  | unmap a => a
  | setFlags a _ => a

theorem PageRequest.apply_of_ne {q : PageRequest} {pm : PageMap} {page : Fin (2 ^ 36)}
    (h : q.address.page ≠ page) : q.apply pm page = pm page := by
  cases q <;> exact Function.update_of_ne (Ne.symm h) _ _

namespace FourLevel

open Memory

variable {τ : Type} [FrameSource τ] {Keeps : List PhysicalFrame → World τ → Prop} {p : FourLevel}
  {roots used : List PhysicalFrame} {root : RootTable} {m n : Memory} {w w' : World τ}

theorem translate_congr {used' roots' : List PhysicalFrame} (hm : Forest p m roots used)
    (hn : Forest p n roots' used') (hroot : root.frame ∈ roots) (hroot' : root.frame ∈ roots')
    (h : ∀ is, is.length = 3 → ∀ i, n.entryAt root.frame is i = m.entryAt root.frame is i)
    (a : VirtualAddress) : p.translate n root a = p.translate m root a := by
  rw [translate_eq hn hroot', translate_eq hm hroot, h (positions a) rfl]

/-- One request after the other. -/
def runRequests (p : FourLevel) (root : RootTable) (reqs : List PageRequest) :
    Action (World τ) PagingError Unit :=
  reqs.forM fun q => q.run p root

theorem runRequests_cons (p : FourLevel) (root : RootTable) (q : PageRequest)
    (reqs : List PageRequest) :
    (runRequests p root (q :: reqs) : Action (World τ) PagingError Unit) =
      q.run p root >>= fun _ => runRequests p root reqs := rfl

/-- What is left of a request once the last table for its address is found. -/
def finish : PageRequest → PhysicalFrame → Action (World τ) PagingError Unit
  | .map target a flags, t => do
    let e := (← World.load).entry t (leafIndex a)
    let e ← .value (e.setFrame target)
    updateLeaf t a (e.applyFlags flags)
  | .unmap a, t => do
    let e := (← World.load).entry t (leafIndex a)
    updateLeaf t a e.clearMapping
    World.request (.invalidate a)
  | .setFlags a flags, t => do
    let e := (← World.load).entry t (leafIndex a)
    updateLeaf t a (e.applyFlags flags)

theorem run_eq (p : FourLevel) (root : RootTable) (q : PageRequest) :
    (q.run p root : Action (World τ) PagingError Unit) = p.leafTable root q.address >>= finish q := by
  cases q <;> rfl

omit [FrameSource τ] in
/-- Once the table is found, a request stops before it changes anything, or changes one entry. -/
theorem finish_cases (q : PageRequest) (t : PhysicalFrame) (w : World τ) :
    (∃ f, (finish q t).run w = (.stopped f, w)) ∨
    ∃ e requests, (finish q t).run w = (.done (), ⟨{ w.machine with
      memory := w.machine.memory.setEntry t (leafIndex q.address) e, requests := requests },
      w.part⟩) := by
  cases q with
  | map target a flags =>
    cases hset : (w.machine.memory.entry t (leafIndex a)).setFrame target with
    | error e =>
      refine .inl ⟨e, ?_⟩
      simp only [finish, Action.run_bind, World.run_load, hset, Action.run_value_error]
    | ok e =>
      refine .inr ⟨e.applyFlags flags, w.machine.requests, ?_⟩
      simp only [finish, Action.run_bind, World.run_load, hset, Action.run_value_ok, updateLeaf,
        World.run_store, PageRequest.address]
  | unmap a => exact .inr ⟨_, _, rfl⟩
  | setFlags a flags => exact .inr ⟨_, _, rfl⟩

/-- A request walks to the last table and creates those that are missing. If it gets there, it
changes at most the entry for its address. -/
theorem run_cases (p : FourLevel) (root : RootTable) (q : PageRequest) (w : World τ) :
    ((q.run p root).run w).2 = ((p.leafTable root q.address).run w).2 ∨
      ∃ t w₁ e, (p.leafTable root q.address).run w = (.done t, w₁) ∧
        ((q.run p root).run w).2.part = w₁.part ∧
        ((q.run p root).run w).2.machine.memory =
          w₁.machine.memory.setEntry t (leafIndex q.address) e := by
  rw [run_eq, Action.run_bind]
  rcases (p.leafTable root q.address).run w with ⟨o, w₁⟩
  cases o with
  | refused e => exact .inl rfl
  | stopped e => exact .inl rfl
  | done t =>
    dsimp only
    rcases finish_cases q t w₁ with ⟨f, hstopped⟩ | ⟨e, requests, hdone⟩
    · rw [hstopped]
      exact .inl rfl
    · rw [hdone]
      exact .inr ⟨t, w₁, e, rfl, rfl, rfl⟩

/-- What a request on the address space below `r` leaves as it was: every table stays where it is,
and the leaf entries of the other address spaces stay the same. -/
structure Spares (roots : List PhysicalFrame) (r : PhysicalFrame) (m n : Memory) : Prop where
  tables : ∀ {r' is t}, m.Finds roots r' is t → n.Finds roots r' is t
  leaves : ∀ r' ∈ roots, r' ≠ r → ∀ is, is.length = 3 → ∀ i, n.entryAt r' is i = m.entryAt r' is i

/-- What a request on one address space does to all of them, however it ends. -/
theorem request_spec (hs : FrameSource.Lawful τ Keeps) (hk : Keeps used w)
    (hf : Forest p w.machine.memory roots used) (hroot : root.frame ∈ roots) (q : PageRequest)
    (hrun : ((q.run p root).run w).2 = w') :
    ∃ used', Keeps used' w' ∧ Forest p w'.machine.memory roots used' ∧
      Spares roots root.frame w.machine.memory w'.machine.memory := by
  rcases hwalk : (p.leafTable root q.address).run w with ⟨o, w₁⟩
  obtain ⟨used', ⟨hk', hf', hgrows⟩, hfinds⟩ := leafTable_spec hs hk hf hroot q.address hwalk
  rcases run_cases p root q w with hsame | ⟨t, w₂, e, hdone, hpart, hmemory⟩
  · rw [hrun, hwalk] at hsame
    rw [hsame]
    exact ⟨used', hk', hf', hgrows.tables, fun r hr _ => hgrows.leaves r hr⟩
  · rw [hwalk] at hdone
    cases hdone
    rw [hrun] at hpart hmemory
    have ht := hfinds t rfl
    refine ⟨used', hs.beside hk' hpart fun x hx => ?_, ?_, ?_, ?_⟩
    · rw [hmemory]
      exact byte_setEntry _ _ _ fun hxt => hx ⟨t, hf'.used ht, hxt⟩
    · rw [hmemory]
      exact hf'.setLeaf ht rfl
    · intro r is u hu
      rw [hmemory]
      exact (hf'.finds_setLeaf ht rfl).mpr (hgrows.tables hu)
    · intro r hr hne is hlen i
      rw [hmemory, hf'.entryAt_setLeaf ht rfl hr hlen, if_neg fun hsame => hne hsame.1,
        hgrows.leaves r hr is hlen i]

/-- Creating an address space clears a frame that nobody uses, or fails and changes no table. -/
theorem newRoot_cases (hs : FrameSource.Lawful τ Keeps) (hk : Keeps used w) (p : FourLevel) :
    (∃ root, (p.newRoot.run w).1 = .done root ∧ Keeps (root.frame :: used) (p.newRoot.run w).2 ∧
      NewRoot w.machine.memory (p.newRoot.run w).2.machine.memory used root.frame ∧
        ∃ v, p.directMap.reach root.frame.base = .ok v) ∨
    ∃ more, (p.newRoot.run w).1.done? = none ∧ Keeps (more ++ used) (p.newRoot.run w).2 ∧
      ∀ u ∈ used, ∀ j,
        (p.newRoot.run w).2.machine.memory.entry u j = w.machine.memory.entry u j := by
  have hcreate := createTable_cases (p := p) hs hk .pml4
  rw [newRoot, Action.run_bind]
  rcases hone : (p.createTable .pml4).run w with ⟨o, w₁⟩
  rw [hone] at hcreate
  cases hcreate with
  | refused hkeeps hsame => exact .inr ⟨[], rfl, hkeeps, hsame⟩
  | stopped more hkeeps hsame => exact .inr ⟨more, rfl, hkeeps, hsame⟩
  | @done f _ hkeeps hnew hreach =>
    obtain ⟨v, hv⟩ := hreach
    simp only [Action.run_bind, hv, Action.run_value_ok, Action.run_pure]
    exact .inl ⟨⟨f, v⟩, rfl, hkeeps, hnew, v, hv⟩

/-- Whatever comes of it, creating an address space changes no leaf entry of the others and adds at
most a root table. -/
theorem newRoot_tends (hs : FrameSource.Lawful τ Keeps) (hk : Keeps used w)
    (hf : Forest p w.machine.memory roots used) {o : Outcome PagingError RootTable}
    {new : List PhysicalFrame} (hrun : p.newRoot.run w = (o, w'))
    (hnew : new = o.done?.toList.map RootTable.frame) :
    new.Nodup ∧ (∀ r ∈ new, r ∉ used) ∧
      (∃ used', Keeps used' w' ∧ Forest p w'.machine.memory (new ++ roots) used') ∧
      Grows roots w.machine.memory w'.machine.memory ∧
      ∀ {r is t}, w'.machine.memory.Finds (new ++ roots) r is t → is ≠ [] →
        w.machine.memory.Finds roots r is t := by
  have hcases := newRoot_cases hs hk p
  rw [hrun] at hcases
  rcases hcases with ⟨root, hdone, hk', hroot, hreach⟩ | ⟨more, hnone, hk', hsame⟩
  · obtain rfl : new = [root.frame] := by
      rw [hnew, show o = .done root from hdone]
      rfl
    refine ⟨List.nodup_cons.mpr ⟨List.not_mem_nil, List.nodup_nil⟩, ?_,
      ⟨root.frame :: used, hk', hf.plant hroot hreach⟩, (hf.congr hroot.others).2, ?_⟩
    · intro r hr
      rw [List.mem_singleton.mp hr]
      exact hroot.fresh
    · intro r is t ht hne
      rcases (hf.finds_plant hroot).mp ht with hold | ⟨-, his, -⟩
      · exact hold
      · exact absurd his hne
  · obtain rfl : new = [] := by
      rw [hnew, show o.done? = none from hnone]
      rfl
    obtain ⟨hf', hgrows⟩ := hf.congr hsame
    refine ⟨List.nodup_nil, fun r hr => absurd hr List.not_mem_nil,
      ⟨more ++ used, hk', hf'.mono (List.subset_append_right more used)⟩, hgrows, ?_⟩
    intro r is t ht _
    exact (hf.finds_congr hsame).mp ht

end FourLevel

end MemoryManager
