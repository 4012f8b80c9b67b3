import MemoryManager.Proofs.Paging.Sources
import MemoryManager.Proofs.Paging.Tables

namespace MemoryManager.FourLevel

open Memory

variable {τ : Type} [FrameSource τ] {Keeps : List PhysicalFrame → World τ → Prop} {p : FourLevel}
  {roots used : List PhysicalFrame} {r t f : PhysicalFrame} {is : List TableIndex} {i : TableIndex}
  {step : TableIndex × Level} {w w' : World τ}

theorem run_reach {σ ε : Type} {v : VirtualAddress} (h : p.directMap.reach t.base = .ok v) (s : σ) :
    (p.reach t : Action σ ε Unit).run s = (.done (), s) := by
  rw [reach, h]
  rfl

/-- What creating a table does: it takes a frame nobody uses and clears it; or there is none; or it
stops. -/
inductive Creates (Keeps : List PhysicalFrame → World τ → Prop) (p : FourLevel)
    (used : List PhysicalFrame) (w : World τ) : Outcome PagingError PhysicalFrame → World τ → Prop
  | done {f : PhysicalFrame} {w' : World τ} (keeps : Keeps (f :: used) w')
      (root : NewRoot w.machine.memory w'.machine.memory used f)
      (reached : ∃ v, p.directMap.reach f.base = .ok v) : Creates Keeps p used w (.done f) w'
  | refused {e : PagingError} {w' : World τ} (keeps : Keeps used w')
      (same : ∀ u ∈ used, ∀ j, w'.machine.memory.entry u j = w.machine.memory.entry u j) :
      Creates Keeps p used w (.refused e) w'
  | stopped {e : Fault} {w' : World τ} (more : List PhysicalFrame) (keeps : Keeps (more ++ used) w')
      (same : ∀ u ∈ used, ∀ j, w'.machine.memory.entry u j = w.machine.memory.entry u j) :
      Creates Keeps p used w (.stopped e) w'

theorem createTable_cases (hs : FrameSource.Lawful τ Keeps) (hk : Keeps used w) (level : Level) :
    Creates Keeps p used w ((p.createTable level).run w).1 ((p.createTable level).run w).2 := by
  rcases htake : (FrameSource.take : Action (World τ) PagingError _).run w with ⟨o, w₁⟩
  obtain ⟨hfresh, hkeeps, hbytes⟩ := hs.take hk htake
  have hsame := fun u hu j => entry_congr hbytes (t := u) hu j
  rw [createTable, Action.run_bind, htake]
  cases o with
  | refused e => exact .refused hkeeps hsame
  | stopped e => exact .stopped [] hkeeps hsame
  | done f? =>
    cases f? with
    | none => exact .refused hkeeps hsame
    | some f =>
      have hused : f ∉ used := hfresh f (List.mem_singleton_self f)
      cases hreach : p.directMap.reach f.base with
      | error e =>
        have hrun : (p.reach f : Action (World τ) PagingError Unit).run w₁ = (.stopped e, w₁) := by
          rw [reach, hreach]
          rfl
        simp only [Action.run_bind, hrun]
        exact .stopped [f] hkeeps hsame
      | ok v =>
        simp only [Action.run_bind, run_reach hreach, World.run_store, Action.run_pure]
        refine .done (hs.beside hkeeps rfl fun x hx => ?_) ⟨hused, ?_, ?_⟩ ⟨v, hreach⟩
        · exact byte_zeroTable _ fun hxf => hx ⟨f, List.mem_cons_self, hxf⟩
        · intro u hu j
          rw [entry_zeroTable, if_neg, hsame u hu j]
          intro heq
          obtain rfl := heq
          exact hused hu
        · intro j
          rw [entry_zeroTable, if_pos rfl]

/-- What one step of a walk from entry `i` of the table `t` does: the entry leads to a table; or a
new one is linked; or there is no frame for it; or it stops. -/
inductive Descends (Keeps : List PhysicalFrame → World τ → Prop) (p : FourLevel)
    (roots used : List PhysicalFrame) (r : PhysicalFrame) (is : List TableIndex) (t : PhysicalFrame)
    (i : TableIndex) (w : World τ) : Outcome PagingError PhysicalFrame → World τ → Prop
  | found (present : (w.machine.memory.entry t i).present = true) :
      Descends Keeps p roots used r is t i w (.done (w.machine.memory.entry t i).frame) w
  | linked {f : PhysicalFrame} {w' : World τ} (keeps : Keeps (f :: used) w')
      (new : NewTable w.machine.memory w'.machine.memory roots used r is t i f)
      (reached : ∃ v, p.directMap.reach f.base = .ok v) :
      Descends Keeps p roots used r is t i w (.done f) w'
  | refused {e : PagingError} {w' : World τ} (keeps : Keeps used w')
      (missing : (w.machine.memory.entry t i).present = false)
      (same : ∀ u ∈ used, ∀ j, w'.machine.memory.entry u j = w.machine.memory.entry u j) :
      Descends Keeps p roots used r is t i w (.refused e) w'
  | stopped {e : Fault} {w' : World τ} (more : List PhysicalFrame) (keeps : Keeps (more ++ used) w')
      (same : ∀ u ∈ used, ∀ j, w'.machine.memory.entry u j = w.machine.memory.entry u j) :
      Descends Keeps p roots used r is t i w (.stopped e) w'

theorem newTable_setEntry {m n : Memory} {link : PageEntry} (hf : Forest p m roots used)
    (ht : m.Finds roots r is t) (habove : is.length < 3) (hmissing : (m.entry t i).present = false)
    (hroot : NewRoot m n used f) (hpresent : link.present = true) (hframe : link.frame = f) :
    NewTable m (n.setEntry t i link) roots used r is t i f := by
  have htf : t ≠ f := by
    intro heq
    obtain rfl := heq
    exact hroot.fresh (hf.used ht)
  have hlink : (n.setEntry t i link).entry t i = link := by
    rw [entry_setEntry, if_pos ⟨rfl, rfl⟩]
  refine ⟨ht, habove, hmissing, hroot.fresh, ?_, ?_, ?_, ?_⟩
  · intro u hu j hne
    rw [entry_setEntry, if_neg, hroot.others u hu j]
    intro hsame
    obtain ⟨rfl, rfl⟩ := hsame
    exact hne ⟨rfl, rfl⟩
  · rw [hlink, hpresent]
  · rw [hlink, hframe]
  · intro j
    rw [entry_setEntry, if_neg fun h => htf h.1, hroot.zero j]

theorem tableLink_cases (f : PhysicalFrame) :
    (∃ link, PageEntry.tableLink f = .ok link ∧ link.frame = f ∧ link.present = true) ∨
      ∃ e, PageEntry.tableLink f = .error e := by
  cases hlink : PageEntry.tableLink f with
  | error e => exact .inr ⟨e, rfl⟩
  | ok link =>
    obtain ⟨e, he, hframe, hpresent, -⟩ := PageEntry.tableLink_ok (PageEntry.lt_of_tableLink hlink)
    rw [hlink] at he
    cases he
    exact .inl ⟨link, rfl, hframe, hpresent⟩

omit [FrameSource τ] in
theorem run_link {ε : Type} {e : PageEntry} (h : PageEntry.tableLink f = .ok e)
    (a : VirtualAddress) (step : TableIndex × Level) (w : World τ) :
    (link a t step f : Action (World τ) ε Unit).run w =
      (.done (), ⟨⟨w.machine.memory.setEntry t step.1 e,
        w.machine.reports.push (.tableCreated step.2 f a), w.machine.requests⟩, w.part⟩) := by
  rw [link, h]
  rfl

omit [FrameSource τ] in
theorem run_link_error {ε : Type} {e : Fault} (h : PageEntry.tableLink f = .error e)
    (a : VirtualAddress) (step : TableIndex × Level) (w : World τ) :
    (link a t step f : Action (World τ) ε Unit).run w = (.stopped e, w) := by
  rw [link, h]
  rfl

omit [FrameSource τ] in
theorem state_arrive (p : FourLevel) (f : PhysicalFrame) (w : World τ) :
    ((do p.reach f; pure f : Action (World τ) PagingError _).run w).2 = w := by
  rw [reach]
  cases p.directMap.reach f.base <;> rfl

theorem run_descend_of_present (p : FourLevel) (a : VirtualAddress)
    (h : (w.machine.memory.entry t step.1).present = true) :
    (p.descend a t step).run w =
      (do p.reach (w.machine.memory.entry t step.1).frame
          pure (w.machine.memory.entry t step.1).frame).run w := by
  rw [descend, Action.run_bind_done (World.run_load w)]
  simp only [h, if_true, pure_bind]

/-- Where the entry is not present, a table is created and then linked. -/
theorem run_descend_of_missing (p : FourLevel) (a : VirtualAddress)
    (h : (w.machine.memory.entry t step.1).present = false) :
    (p.descend a t step).run w =
      (do let f ← p.createTable step.2
          link a t step f
          p.reach f
          pure f).run w := by
  rw [descend, Action.run_bind_done (World.run_load w)]
  simp only [h, Bool.false_eq_true, if_false, pure_bind]

theorem descend_cases (hs : FrameSource.Lawful τ Keeps) (hk : Keeps used w)
    (hf : Forest p w.machine.memory roots used) (ht : w.machine.memory.Finds roots r is t)
    (habove : is.length < 3) (a : VirtualAddress) (step : TableIndex × Level) :
    Descends Keeps p roots used r is t step.1 w ((p.descend a t step).run w).1
      ((p.descend a t step).run w).2 := by
  cases hpresent : (w.machine.memory.entry t step.1).present with
  | true =>
    obtain ⟨v, hreach⟩ := hf.reached (ht.next habove hpresent)
    rw [run_descend_of_present p a hpresent, Action.run_bind_done (run_reach hreach w)]
    exact .found hpresent
  | false =>
    have hcreate := createTable_cases (p := p) hs hk step.2
    rcases hrun : (p.createTable step.2).run w with ⟨o, w₁⟩
    rw [hrun] at hcreate
    rw [run_descend_of_missing p a hpresent, Action.run_bind, hrun]
    cases hcreate with
    | refused hkeeps hsame => exact .refused hkeeps hpresent hsame
    | stopped more hkeeps hsame => exact .stopped more hkeeps hsame
    | @done f _ hkeeps hroot hreach =>
      obtain ⟨v, hv⟩ := hreach
      rcases tableLink_cases f with ⟨link, hlink, hframe, hlinked⟩ | ⟨e, hlink⟩
      · dsimp only
        rw [Action.run_bind_done (run_link hlink a step w₁),
          Action.run_bind_done (run_reach hv _)]
        refine .linked (hs.beside hkeeps rfl fun x hx => ?_)
          (newTable_setEntry hf ht habove hpresent hroot hlinked hframe) ⟨v, hv⟩
        exact byte_setEntry _ _ _ fun hxt =>
          hx ⟨t, List.mem_cons_of_mem _ (hf.used ht), hxt⟩
      · dsimp only
        rw [Action.run_bind_stopped (run_link_error hlink a step w₁)]
        exact .stopped [f] hkeeps hroot.others

/-- A step that gets to a table although the entry was not present has created that table and
linked it. -/
theorem linked_of_descend {a : VirtualAddress} {step : TableIndex × Level}
    (hmissing : (w.machine.memory.entry t step.1).present = false)
    (hdone : (p.descend a t step).run w = (.done f, w')) :
    ∃ w₁ link, (p.createTable step.2).run w = (.done f, w₁) ∧ PageEntry.tableLink f = .ok link ∧
      w'.machine.memory = w₁.machine.memory.setEntry t step.1 link := by
  rw [run_descend_of_missing p a hmissing] at hdone
  obtain ⟨g, w₁, hcreate, hlinking⟩ := Action.run_bind_eq_done hdone
  rcases tableLink_cases g with ⟨link, hlink, -⟩ | ⟨e, hlink⟩
  · rw [Action.run_bind_done (run_link hlink a step w₁)] at hlinking
    obtain ⟨_, w₂, hreach, hpure⟩ := Action.run_bind_eq_done hlinking
    obtain ⟨-, rfl⟩ := Action.run_value_eq_done hreach
    cases hpure
    exact ⟨w₁, link, hcreate, hlink, rfl⟩
  · rw [Action.run_bind_stopped (run_link_error hlink a step w₁)] at hlinking
    cases hlinking

/-- The address spaces `roots` of a state lie in the frames `used`, and their leaf entries are those
of the memory `m`. -/
structure Tends (Keeps : List PhysicalFrame → World τ → Prop) (p : FourLevel)
    (roots used : List PhysicalFrame) (m : Memory) (w : World τ) : Prop where
  keeps : Keeps used w
  forest : Forest p w.machine.memory roots used
  grows : Grows roots m w.machine.memory

omit [FrameSource τ] in
theorem Descends.tends {o : Outcome PagingError PhysicalFrame}
    (h : Descends Keeps p roots used r is t i w o w') (hk : Keeps used w)
    (hf : Forest p w.machine.memory roots used) (ht : w.machine.memory.Finds roots r is t)
    (habove : is.length < 3) :
    ∃ used', Tends Keeps p roots used' w.machine.memory w' ∧
      ∀ u, o = .done u → w'.machine.memory.Finds roots r (is ++ [i]) u := by
  cases h with
  | found hpresent =>
    refine ⟨used, ⟨hk, hf, Grows.refl roots _⟩, ?_⟩
    intro u hu
    cases hu
    exact ht.next habove hpresent
  | @linked f _ hkeeps hnew hreach =>
    refine ⟨f :: used, ⟨hkeeps, hf.link hnew hreach, hf.grows_link hnew⟩, ?_⟩
    intro u hu
    cases hu
    exact (hf.finds_link hnew).mpr (.inr ⟨rfl, rfl, rfl⟩)
  | refused hkeeps _ hsame =>
    obtain ⟨hf', hgrows⟩ := hf.congr hsame
    exact ⟨used, ⟨hkeeps, hf', hgrows⟩, fun u hu => by cases hu⟩
  | stopped more hkeeps hsame =>
    obtain ⟨hf', hgrows⟩ := hf.congr hsame
    exact ⟨more ++ used, ⟨hkeeps, hf'.mono (List.subset_append_right more used), hgrows⟩,
      fun u hu => by cases hu⟩

theorem descend_tends (hs : FrameSource.Lawful τ Keeps) (hk : Keeps used w)
    (hf : Forest p w.machine.memory roots used) (ht : w.machine.memory.Finds roots r is t)
    (habove : is.length < 3) (a : VirtualAddress) (step : TableIndex × Level) :
    ∃ used', Tends Keeps p roots used' w.machine.memory ((p.descend a t step).run w).2 ∧
      ∀ u, ((p.descend a t step).run w).1 = .done u →
        ((p.descend a t step).run w).2.machine.memory.Finds roots r (is ++ [step.1]) u :=
  (descend_cases hs hk hf ht habove a step).tends hk hf ht habove

/-- A walk that creates what is missing changes no leaf entry, however it ends. -/
theorem descendAll_spec (hs : FrameSource.Lawful τ Keeps) (a : VirtualAddress)
    (steps : List (TableIndex × Level)) (hk : Keeps used w)
    (hf : Forest p w.machine.memory roots used) (ht : w.machine.memory.Finds roots r is t)
    (hlen : is.length + steps.length ≤ 3) {o : Outcome PagingError PhysicalFrame}
    (hrun : (steps.foldlM (p.descend a) t).run w = (o, w')) :
    ∃ used', Tends Keeps p roots used' w.machine.memory w' ∧
      ∀ u, o = .done u → w'.machine.memory.Finds roots r (is ++ steps.map Prod.fst) u := by
  -- every step may use more frames and starts at another table
  induction steps generalizing used is t w with
  | nil =>
    rw [List.foldlM_nil, Action.run_pure] at hrun
    obtain ⟨rfl, rfl⟩ := Prod.mk.inj hrun
    refine ⟨used, ⟨hk, hf, Grows.refl roots _⟩, ?_⟩
    intro u hu
    cases hu
    rw [List.map_nil, List.append_nil]
    exact ht
  | cons step steps ih =>
    rw [List.length_cons] at hlen
    obtain ⟨used₁, h₁, hfinds⟩ := descend_tends hs hk hf ht (by omega) a step
    rw [List.foldlM_cons, Action.run_bind] at hrun
    rcases hone : (p.descend a t step).run w with ⟨o₁, w₁⟩
    rw [hone] at hrun hfinds h₁
    cases o₁ with
    | refused e =>
      obtain ⟨rfl, rfl⟩ := Prod.mk.inj hrun
      exact ⟨used₁, h₁, fun u hu => by cases hu⟩
    | stopped e =>
      obtain ⟨rfl, rfl⟩ := Prod.mk.inj hrun
      exact ⟨used₁, h₁, fun u hu => by cases hu⟩
    | done next =>
      have hshort : (is ++ [step.1]).length + steps.length ≤ 3 := by
        rw [List.length_append, List.length_singleton]
        omega
      obtain ⟨used₂, h₂, hfinds₂⟩ := ih h₁.keeps h₁.forest (hfinds next rfl) hshort hrun
      refine ⟨used₂, ⟨h₂.keeps, h₂.forest, h₁.grows.trans h₂.grows⟩, ?_⟩
      intro u hu
      rw [List.map_cons, List.append_cons]
      exact hfinds₂ u hu

theorem run_leafTable (hf : Forest p w.machine.memory roots used) {root : RootTable}
    (hroot : root.frame ∈ roots) (a : VirtualAddress) :
    (p.leafTable root a).run w = ((path a).foldlM (p.descend a) root.frame).run w := by
  obtain ⟨v, hreach⟩ := hf.reached (finds_root hroot)
  rw [leafTable, Action.run_bind_done (run_reach hreach w)]

theorem leafTable_spec (hs : FrameSource.Lawful τ Keeps) (hk : Keeps used w)
    (hf : Forest p w.machine.memory roots used) {root : RootTable} (hroot : root.frame ∈ roots)
    (a : VirtualAddress) {o : Outcome PagingError PhysicalFrame}
    (hrun : (p.leafTable root a).run w = (o, w')) :
    ∃ used', Tends Keeps p roots used' w.machine.memory w' ∧
      ∀ u, o = .done u → w'.machine.memory.Finds roots root.frame (positions a) u := by
  rw [run_leafTable hf hroot] at hrun
  exact descendAll_spec hs a (path a) hk hf (finds_root hroot) (Nat.le_refl 3) hrun

/-- A fresh address space has leaf entries of zeroes, and leaves the others as they are. -/
theorem newRoot_spec (hs : FrameSource.Lawful τ Keeps) (hk : Keeps used w)
    (hf : Forest p w.machine.memory roots used) {root : RootTable}
    (hrun : p.newRoot.run w = (.done root, w')) :
    Keeps (root.frame :: used) w' ∧
      Forest p w'.machine.memory (root.frame :: roots) (root.frame :: used) ∧
      NewRoot w.machine.memory w'.machine.memory used root.frame := by
  have hcreate := createTable_cases (p := p) hs hk .pml4
  obtain ⟨f, w₁, hone, hrest⟩ := Action.run_bind_eq_done hrun
  obtain ⟨v, w₂, hvalue, hpure⟩ := Action.run_bind_eq_done hrest
  obtain ⟨-, rfl⟩ := Action.run_value_eq_done hvalue
  cases hpure
  rw [hone] at hcreate
  cases hcreate with
  | done hkeeps hnew hreach => exact ⟨hkeeps, hf.plant hnew hreach, hnew⟩

theorem walk?_eq {m : Memory} (hf : Forest p m roots used) (ht : m.Finds roots r is t)
    (js : List TableIndex) (hlen : is.length + js.length ≤ 3) :
    p.walk? m js t = .ok (m.tableAt t js) := by
  induction js generalizing is t with
  | nil => rfl
  | cons j js ih =>
    rw [List.length_cons] at hlen
    rw [walk?, tableAt_cons]
    cases hpresent : (m.entry t j).present with
    | false =>
      rw [child?_eq_none hpresent, if_neg Bool.false_ne_true]
      rfl
    | true =>
      have hnext := ht.next (by omega) hpresent
      obtain ⟨v, hreach⟩ := hf.reached hnext
      rw [child?_eq_some hpresent, if_pos rfl, hreach, Option.bind_some]
      apply ih hnext
      rw [List.length_append, List.length_singleton]
      omega

theorem leafTable?_eq {m : Memory} (hf : Forest p m roots used) {root : RootTable}
    (hroot : root.frame ∈ roots) (a : VirtualAddress) :
    p.leafTable? m root a = .ok (m.tableAt root.frame (positions a)) := by
  obtain ⟨v, hreach⟩ := hf.reached (finds_root hroot)
  rw [leafTable?, hreach]
  exact walk?_eq hf (finds_root hroot) (positions a) (Nat.le_refl 3)

/-- Where every table is there already, a walk that creates what is missing creates nothing. -/
theorem run_descendAll_of_tableAt (hf : Forest p w.machine.memory roots used)
    (ht : w.machine.memory.Finds roots r is t) (a : VirtualAddress)
    (steps : List (TableIndex × Level)) (hlen : is.length + steps.length ≤ 3) {u : PhysicalFrame}
    (h : w.machine.memory.tableAt t (steps.map Prod.fst) = some u) :
    (steps.foldlM (p.descend a) t).run w = (.done u, w) := by
  induction steps generalizing is t with
  | nil =>
    cases h
    rfl
  | cons step steps ih =>
    rw [List.length_cons] at hlen
    rw [List.map_cons, tableAt_cons, child?] at h
    split at h
    · rename_i hpresent
      have hnext := ht.next (by omega) hpresent
      obtain ⟨v, hreach⟩ := hf.reached hnext
      have hstep : (p.descend a t step).run w =
          (.done (w.machine.memory.entry t step.1).frame, w) := by
        rw [run_descend_of_present p a hpresent, Action.run_bind_done (run_reach hreach w)]
        rfl
      rw [List.foldlM_cons, Action.run_bind_done hstep]
      refine ih hnext ?_ h
      rw [List.length_append, List.length_singleton]
      omega
    · cases h

theorem run_leafTable_of_tableAt (hf : Forest p w.machine.memory roots used) {root : RootTable}
    (hroot : root.frame ∈ roots) {a : VirtualAddress} {u : PhysicalFrame}
    (h : w.machine.memory.tableAt root.frame (positions a) = some u) :
    (p.leafTable root a).run w = (.done u, w) := by
  rw [run_leafTable hf hroot]
  exact run_descendAll_of_tableAt hf (finds_root hroot) a (path a) (Nat.le_refl 3) h

end MemoryManager.FourLevel
