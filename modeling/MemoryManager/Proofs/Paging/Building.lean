import MemoryManager.Proofs.Paging.KernelRoot

namespace MemoryManager

open FrameAllocator FourLevel Memory

section Confined

variable {τ ε α β : Type} [FrameSource τ] {Keeps : List PhysicalFrame → World τ → Prop}
  {p : FourLevel} {P : Paging} {roots used : List PhysicalFrame} {r : PhysicalFrame}
  {root : RootTable} {k m n : Memory} {w w' : World τ}

namespace FourLevel.Spares

theorem refl (roots : List PhysicalFrame) (r : PhysicalFrame) (m : Memory) : Spares roots r m m :=
  ⟨id, fun _ _ _ _ _ _ => rfl⟩

theorem trans (h : Spares roots r k m) (h' : Spares roots r m n) : Spares roots r k n :=
  ⟨fun hf => h'.tables (h.tables hf), fun r' hr hne is hlen i =>
    (h'.leaves r' hr hne is hlen i).trans (h.leaves r' hr hne is hlen i)⟩

end FourLevel.Spares

/-- However the action ends, the tables of the address spaces `roots` are a forest still, and the leaf
entries of all but the one below `r` are as they were. -/
def Action.Confined (Keeps : List PhysicalFrame → World τ → Prop) (p : FourLevel)
    (roots : List PhysicalFrame) (r : PhysicalFrame) (x : Action (World τ) ε α) : Prop :=
  ∀ ⦃used : List PhysicalFrame⦄ ⦃w : World τ⦄, Keeps used w →
    Forest p w.machine.memory roots used → ∃ used', Keeps used' (x.run w).2 ∧
      Forest p (x.run w).2.machine.memory roots used' ∧
      Spares roots r w.machine.memory (x.run w).2.machine.memory

namespace Action.Confined

omit [FrameSource τ]

/-- An action that changes nothing is confined. -/
theorem of_same {x : Action (World τ) ε α} (hx : ∀ w, (x.run w).2 = w) :
    x.Confined Keeps p roots r := by
  intro used w hk hf
  rw [hx w]
  exact ⟨used, hk, hf, .refl roots r _⟩

theorem bind {x : Action (World τ) ε α} {f : α → Action (World τ) ε β}
    (hx : x.Confined Keeps p roots r) (hf : ∀ a, (f a).Confined Keeps p roots r) :
    (x >>= f).Confined Keeps p roots r := by
  intro used w hk hforest
  obtain ⟨used₁, hk₁, hforest₁, hspares⟩ := hx hk hforest
  rw [run_bind]
  rcases hrun : x.run w with ⟨o, w₁⟩
  rw [hrun] at hk₁ hforest₁ hspares
  cases o with
  | done a =>
    obtain ⟨used₂, hk₂, hforest₂, hspares'⟩ := hf a hk₁ hforest₁
    exact ⟨used₂, hk₂, hforest₂, hspares.trans hspares'⟩
  | refused e => exact ⟨used₁, hk₁, hforest₁, hspares⟩
  | stopped e => exact ⟨used₁, hk₁, hforest₁, hspares⟩

theorem value (x : Except Fault α) :
    (Action.value x : Action (World τ) ε α).Confined Keeps p roots r :=
  of_same fun w => by cases x <;> rfl

theorem forM {f : α → Action (World τ) ε Unit} (hf : ∀ a, (f a).Confined Keeps p roots r)
    (l : List α) : (l.forM f).Confined Keeps p roots r := by
  induction l with
  | nil => exact of_same fun _ => rfl
  | cons a l ih => exact (hf a).bind fun _ => ih

end Action.Confined

namespace AddressSpaces

theorem confined_report (hs : FrameSource.Lawful τ Keeps) (e : Report) :
    (World.report e : Action (World τ) ε Unit).Confined Keeps p roots r := by
  intro used w hk hf
  exact ⟨used, hs.beside hk rfl fun _ _ => rfl, hf, .refl roots r _⟩

theorem confined_map (hs : FrameSource.Lawful τ Keeps) (hP : P.fourLevel? = some p)
    (hroot : root.frame ∈ roots) (target : PhysicalAddress) (a : VirtualAddress)
    (flags : PageFlags) :
    (P.map root target a flags : Action (World τ) PagingError Unit).Confined Keeps p roots
      root.frame := by
  intro used w hk hf
  simp only [Paging.map, hP]
  exact request_spec hs hk hf hroot (.map target a flags) rfl

theorem confined_mapPages (hs : FrameSource.Lawful τ Keeps) (hP : P.fourLevel? = some p)
    (hroot : root.frame ∈ roots) (target : PhysicalAddress) (a : VirtualAddress)
    (flags : PageFlags) (page count : Nat) :
    (mapPages P root target a flags page count :
      Action (World τ) PagingError Unit).Confined Keeps p roots root.frame := by
  induction count generalizing page with
  | zero => exact .of_same fun _ => rfl
  | succ count ih =>
    exact .bind (.value _) fun t => (confined_map hs hP hroot t _ flags).bind fun _ => ih _

/-- Mapping a range changes one address space, wherever it comes to an end. -/
theorem confined_mapRange (hs : FrameSource.Lawful τ Keeps) (hP : P.fourLevel? = some p)
    (hroot : root.frame ∈ roots) (target : PhysicalAddress) (a : VirtualAddress) (size : UInt64)
    (flags : PageFlags) :
    (mapRange P root target a size flags : Action (World τ) PagingError Unit).Confined Keeps p roots
      root.frame :=
  .bind (.value _) fun _ => confined_mapPages hs hP hroot target a flags _ _

theorem confined_mapRegion (hs : FrameSource.Lawful τ Keeps) (hP : P.fourLevel? = some p)
    (hroot : root.frame ∈ roots) (offset : UInt64) (region : Region) :
    (mapRegion P root offset region : Action (World τ) PagingError Unit).Confined Keeps p roots
      root.frame :=
  (confined_report hs _).bind fun _ => confined_mapRange hs hP hroot _ _ _ _

theorem confined_furnish (hs : FrameSource.Lawful τ Keeps) (hP : P.fourLevel? = some p)
    (boot : BootInfo) (hroot : root.frame ∈ roots) :
    (furnish P boot root : Action (World τ) PagingError RootTable).Confined Keeps p roots
      root.frame :=
  (confined_report hs _).bind fun _ =>
    (Action.Confined.forM (confined_mapRegion hs hP hroot boot.directOffset) _).bind fun _ =>
      (confined_report hs _).bind fun _ =>
        (confined_mapRange hs hP hroot _ _ _ _).bind fun _ => .of_same fun _ => rfl

/-- Whatever came of it, the tables that were built are a forest, in frames that the source has handed
out. -/
theorem keeps_build (hs : FrameSource.Lawful τ Keeps) (hP : P.fourLevel? = some p)
    (hk : Keeps used w) {boot : BootInfo} {o : Outcome PagingError RootTable}
    (hrun : (build P boot).run w = (o, w')) :
    ∃ used', Keeps used' w' ∧
      Forest p w'.machine.memory (o.done?.toList.map RootTable.frame) used' := by
  rw [build, Action.run_bind] at hrun
  rcases hnew : P.newRoot.run w with ⟨o₁, w₁⟩
  rw [hnew] at hrun
  simp only [Paging.newRoot, hP] at hnew
  obtain ⟨-, -, ⟨used₁, hk₁, hf₁⟩, -⟩ := newRoot_tends hs hk (.nil p _ used) hnew rfl
  cases o₁ with
  | refused e =>
    cases hrun
    exact ⟨used₁, hk₁, hf₁⟩
  | stopped e =>
    cases hrun
    exact ⟨used₁, hk₁, hf₁⟩
  | done root =>
    obtain ⟨used₂, hk₂, hf₂, -⟩ :=
      confined_furnish hs hP boot (List.mem_singleton_self root.frame) hk₁ hf₁
    dsimp only at hrun
    rw [hrun] at hk₂ hf₂
    cases hdone : o.done? with
    | none => exact ⟨used₂, hk₂, .nil p _ used₂⟩
    | some root' =>
      obtain rfl := Outcome.eq_done hdone
      obtain ⟨rfl, -⟩ := furnish_eq_done hrun
      exact ⟨used₂, hk₂, hf₂⟩

/-- Whatever came of the start, the tables that it made are a forest. -/
theorem keeps_init (hs : FrameSource.Lawful τ Keeps) (hP : P.fourLevel? = some p)
    (hk : Keeps used w) {boot : BootInfo} {o : Outcome PagingError AddressSpaces}
    (hrun : (init P boot).run w = (o, w')) :
    ∃ used', Keeps used' w' ∧
      Forest p w'.machine.memory (o.done?.toList.map fun s => s.kernelRoot.frame) used' := by
  rw [init, Action.run_bind] at hrun
  rcases hbuild : (build P boot).run w with ⟨o₁, w₁⟩
  obtain ⟨used₁, hk₁, hf₁⟩ := keeps_build hs hP hk hbuild
  rw [hbuild] at hrun
  cases o₁ with
  | refused e =>
    cases hrun
    exact ⟨used₁, hk₁, hf₁⟩
  | stopped e =>
    cases hrun
    exact ⟨used₁, hk₁, hf₁⟩
  | done root =>
    rcases start_cases hP root w₁ with ⟨f, -, hstart⟩ | ⟨bits, -, hstart⟩
    · cases hstart.symm.trans hrun
      exact ⟨used₁, hk₁, .nil p _ used₁⟩
    · cases hstart.symm.trans hrun
      exact ⟨used₁, hs.beside hk₁ rfl fun _ _ => rfl, hf₁⟩

/-- The start asks the memory-management unit for nothing but to make the root table active that it
built, and it goes through if it comes to that. -/
theorem requests_init
    (htake : (FrameSource.take : Action (World τ) PagingError (Option PhysicalFrame)).Silent)
    (hP : P.fourLevel? = some p) {boot : BootInfo} {o : Outcome PagingError AddressSpaces}
    (hrun : (init P boot).run w = (o, w')) :
    (o.done? = none ∧ w'.requests = w.requests) ∨
    ∃ s bits, o = .done s ∧ p.register.valueFor s.kernelRoot.frame = .ok bits ∧
      w'.requests = w.requests.push (.activate bits) := by
  have hsilent := silent_build htake P boot w
  rw [init, Action.run_bind] at hrun
  rcases hbuild : (build P boot).run w with ⟨o₁, w₁⟩
  rw [hbuild] at hrun hsilent
  cases o₁ with
  | refused e =>
    cases hrun
    exact .inl ⟨rfl, hsilent⟩
  | stopped e =>
    cases hrun
    exact .inl ⟨rfl, hsilent⟩
  | done root =>
    rw [← hsilent]
    rcases start_cases hP root w₁ with ⟨f, -, hstart⟩ | ⟨bits, hbits, hstart⟩
    · cases hstart.symm.trans hrun
      exact .inl ⟨rfl, rfl⟩
    · cases hstart.symm.trans hrun
      exact .inr ⟨_, bits, rfl, hbits, rfl⟩

end AddressSpaces

end Confined

section Faults

variable {ε α β : Type} {a : FrameAllocator} {F : Fault → Prop} {Q : α → Prop} {R : β → Prop}
  {p : FourLevel} {P : Paging} {root : RootTable}

/-- Whatever memory holds, the action on the allocator `a` ends with a value that satisfies `Q` and
leaves the allocator in its place, or is refused, or is stopped by a fault that satisfies `F`. -/
structure Action.Answers (a : FrameAllocator) (F : Fault → Prop) (Q : α → Prop)
    (x : Action (World FrameAllocator) ε α) : Prop where
  done : ∀ {m : Machine} {v : α} {w : World FrameAllocator},
    x.run ⟨m, a⟩ = (.done v, w) → w.part = a ∧ Q v
  stopped : ∀ {m : Machine} {f : Fault} {w : World FrameAllocator},
    x.run ⟨m, a⟩ = (.stopped f, w) → F f

namespace Action.Answers

/-- An action that always ends with a value. -/
theorem of_done {x : Action (World FrameAllocator) ε α}
    (hx : ∀ m, ∃ v w, x.run ⟨m, a⟩ = (.done v, w) ∧ w.part = a ∧ Q v) : x.Answers a F Q := by
  constructor
  · intro m v w hrun
    obtain ⟨v', w', hdone, hends⟩ := hx m
    cases hdone.symm.trans hrun
    exact hends
  · intro m f w hrun
    obtain ⟨v', w', hdone, -⟩ := hx m
    cases hdone.symm.trans hrun

theorem pure {v : α} (hv : Q v) :
    (Pure.pure v : Action (World FrameAllocator) ε α).Answers a F Q :=
  of_done fun m => ⟨v, ⟨m, a⟩, rfl, rfl, hv⟩

theorem refuse (e : ε) : (Action.refuse e : Action (World FrameAllocator) ε α).Answers a F Q := by
  constructor <;> intro m v w hrun <;> cases hrun

theorem bind {x : Action (World FrameAllocator) ε α} {f : α → Action (World FrameAllocator) ε β}
    (hx : x.Answers a F Q) (hf : ∀ v, Q v → (f v).Answers a F R) : (x >>= f).Answers a F R := by
  have hparts {m : Machine} {v : α} {w : World FrameAllocator}
      (hrun : x.run ⟨m, a⟩ = (.done v, w)) : w = ⟨w.machine, a⟩ ∧ (f v).Answers a F R := by
    obtain ⟨hpart, hv⟩ := hx.done hrun
    exact ⟨World.ext rfl hpart, hf v hv⟩
  constructor
  · intro m u w' hrun
    obtain ⟨v, w, hfirst, hrest⟩ := run_bind_eq_done hrun
    obtain ⟨hw, hanswers⟩ := hparts hfirst
    rw [hw] at hrest
    exact hanswers.done hrest
  · intro m e w' hrun
    rcases hfirst : x.run ⟨m, a⟩ with ⟨o, w⟩
    cases o with
    | refused e' => cases (run_bind_refused hfirst).symm.trans hrun
    | stopped e' =>
      cases (run_bind_stopped hfirst).symm.trans hrun
      exact hx.stopped hfirst
    | done v =>
      obtain ⟨hw, hanswers⟩ := hparts hfirst
      rw [run_bind_done hfirst, hw] at hrun
      exact hanswers.stopped hrun

theorem value {x : Except Fault α} (hx : ∀ v, x = .ok v → Q v) (hf : ∀ f, x = .error f → F f) :
    (Action.value x : Action (World FrameAllocator) ε α).Answers a F Q := by
  cases x with
  | ok v => exact pure (hx v rfl)
  | error f =>
    constructor
    · intro m v w hrun
      cases hrun
    · intro m e w hrun
      cases hrun
      exact hf f rfl

theorem forM {l : List β} {f : β → Action (World FrameAllocator) ε Unit}
    (hf : ∀ b ∈ l, (f b).Answers a F fun _ => True) : (l.forM f).Answers a F fun _ => True := by
  induction l with
  | nil => exact pure trivial
  | cons b l ih =>
    rw [List.forall_mem_cons] at hf
    exact hf.1.bind fun _ _ => ih hf.2

theorem foldlM {l : List β} {f : α → β → Action (World FrameAllocator) ε α}
    (hf : ∀ v b, (f v b).Answers a F fun _ => True) (v : α) :
    (l.foldlM f v).Answers a F fun _ => True := by
  induction l generalizing v with
  | nil => exact pure trivial
  | cons b l ih => exact (hf v b).bind fun v' _ => ih v'

theorem report (r : Report) :
    (World.report r : Action (World FrameAllocator) ε Unit).Answers a F fun _ => True :=
  of_done fun _ => ⟨_, _, World.run_report r _, rfl, trivial⟩

theorem store (f : Memory → Memory) :
    (World.store f : Action (World FrameAllocator) ε Unit).Answers a F fun _ => True :=
  of_done fun _ => ⟨_, _, World.run_store f _, rfl, trivial⟩

theorem request (r : MmuRequest) :
    (World.request r : Action (World FrameAllocator) ε Unit).Answers a F fun _ => True :=
  of_done fun _ => ⟨_, _, World.run_request r _, rfl, trivial⟩

theorem load : (World.load : Action (World FrameAllocator) ε Memory).Answers a F fun _ => True :=
  of_done fun _ => ⟨_, _, World.run_load _, rfl, trivial⟩

theorem take (hp : a.Placed) :
    (FrameSource.take : Action (World FrameAllocator) PagingError _).Answers a F
      fun f => ∀ t ∈ f, t.index < a.totalFrames := by
  refine of_done fun m => ?_
  rcases take_cases PagingError a m hp with htake | ⟨first, t, htake, hg⟩
  · exact ⟨none, _, htake, rfl, fun t ht => absurd ht (Option.not_mem_none t)⟩
  · refine ⟨_, _, htake, rfl, fun u hu => ?_⟩
    obtain rfl := Option.mem_some_iff.mp hu
    rw [hg.index_ofIndex hp]
    exact hg.fits

end Action.Answers

/-- The fault of a frame number that has no room in a field. It takes an allocator of more than
2 ^ 40 frames. -/
def FrameAllocator.OutgrowsField (a : FrameAllocator) (f : Fault) : Prop :=
  2 ^ 40 < a.totalFrames ∧ ∃ max, f = .fieldValue max

theorem BitField.put_eq_error {f : BitField} {bits v : UInt64} {e : Fault}
    (h : f.put bits v = .error e) : (1 <<< f.width.toNat) - 1 < v.toNat ∧ e = .fieldValue f.max := by
  rw [put] at h
  split at h
  · cases h
  · rename_i hlt
    rw [UInt64.le_iff_toNat_le, Nat.not_le, f.toNat_max] at hlt
    cases h
    exact ⟨hlt, rfl⟩

/-- A frame number that has no room in a field of forty bits or more is one of too many. -/
theorem outgrowsField_of_put {f : BitField} {bits : UInt64} {t : PhysicalFrame}
    (ht : t.index < a.totalFrames) (hwidth : 2 ^ 40 ≤ 1 <<< f.width.toNat) {e : Fault}
    (h : f.put bits (.ofNat t.index) = .error e) : a.OutgrowsField e := by
  obtain ⟨hlt, rfl⟩ := BitField.put_eq_error h
  have hframe := t.index_lt
  rw [UInt64.toNat_ofNat'] at hlt
  exact ⟨by omega, _, rfl⟩

theorem outgrowsField_of_tableLink {t : PhysicalFrame} (ht : t.index < a.totalFrames) {e : Fault}
    (h : PageEntry.tableLink t = .error e) : a.OutgrowsField e := by
  rw [PageEntry.tableLink, PageEntry.put] at h
  cases hput : PageEntry.frameField.put
      (((PageEntry.zero.assign PageEntry.presentBit true).assign PageEntry.writableBit true).assign
        PageEntry.userBit true).bits (.ofNat t.index) with
  | ok bits =>
    rw [hput] at h
    cases h
  | error e' =>
    rw [hput] at h
    cases h
    exact outgrowsField_of_put ht (by decide) hput

theorem outgrowsField_of_valueFor {r : RootRegister} {t : PhysicalFrame}
    (ht : t.index < a.totalFrames) {e : Fault} (h : r.valueFor t = .error e) :
    a.OutgrowsField e := by
  cases r with
  | wide => cases h
  | cr3 =>
    rw [RootRegister.valueFor, Cr3.ofRoot] at h
    cases hput : Cr3.rootField.put 0 (.ofNat t.index) with
    | ok bits =>
      rw [hput] at h
      cases h
    | error e' =>
      rw [hput] at h
      cases h
      exact outgrowsField_of_put ht (by decide) hput

namespace FourLevel

theorem answers_reach (hlast : p.directMap.last = none) (t : PhysicalFrame) :
    (p.reach t : Action (World FrameAllocator) ε Unit).Answers a F fun _ => True := by
  have hreach : p.directMap.reach t.base = .ok (p.directMap.virtual t.base) := by
    rw [DirectMap.reach, hlast]
  exact .of_done fun _ => ⟨_, _, run_reach hreach _, rfl, trivial⟩

theorem answers_createTable (hp : a.Placed) (hlast : p.directMap.last = none) (level : Level) :
    (p.createTable level).Answers a F fun t => t.index < a.totalFrames := by
  refine (Action.Answers.take hp).bind fun f hf => ?_
  cases f with
  | none => exact .refuse _
  | some t =>
    exact (answers_reach hlast t).bind fun _ _ => (Action.Answers.store _).bind fun _ _ =>
      .pure (hf t rfl)

theorem answers_link (v : VirtualAddress) (t : PhysicalFrame) (step : TableIndex × Level)
    {f : PhysicalFrame} (hf : f.index < a.totalFrames) :
    (link v t step f : Action (World FrameAllocator) ε Unit).Answers a a.OutgrowsField
      fun _ => True :=
  (Action.Answers.value (fun _ _ => trivial) fun _ he => outgrowsField_of_tableLink hf he).bind
    fun _ _ => (Action.Answers.store _).bind fun _ _ => .report _

theorem answers_descend (hp : a.Placed) (hlast : p.directMap.last = none) (v : VirtualAddress)
    (t : PhysicalFrame) (step : TableIndex × Level) :
    (p.descend v t step).Answers a a.OutgrowsField fun _ => True := by
  have hreach (next : PhysicalFrame) : (do p.reach next; pure next :
      Action (World FrameAllocator) PagingError PhysicalFrame).Answers a a.OutgrowsField
        fun _ => True :=
    (answers_reach hlast next).bind fun _ _ => .pure trivial
  refine Action.Answers.load.bind fun m _ => ?_
  dsimp only
  split
  · exact Action.Answers.bind (Q := fun _ => True) (.pure trivial) fun next _ => hreach next
  · refine (answers_createTable hp hlast step.2).bind fun f hf => ?_
    exact (answers_link v t step hf).bind fun _ _ =>
      Action.Answers.bind (Q := fun _ => True) (.pure trivial) fun next _ => hreach next

theorem answers_leafTable (hp : a.Placed) (hlast : p.directMap.last = none) (root : RootTable)
    (v : VirtualAddress) : (p.leafTable root v).Answers a a.OutgrowsField fun _ => True :=
  (answers_reach hlast root.frame).bind fun _ _ =>
    .foldlM (fun t step => answers_descend hp hlast v t step) _

theorem answers_map (hp : a.Placed) (hlast : p.directMap.last = none) (root : RootTable)
    {target : PhysicalAddress} (htarget : target.value.toNat < 1 <<< 63) (v : VirtualAddress)
    (flags : PageFlags) :
    (p.map root target v flags).Answers a a.OutgrowsField fun _ => True := by
  refine (answers_leafTable hp hlast root v).bind fun t _ => Action.Answers.load.bind fun m _ => ?_
  refine (Action.Answers.value (fun _ _ => trivial) fun e he => ?_).bind fun _ _ => .store _
  obtain ⟨e', hok, -⟩ := (m.entry t (leafIndex v)).setFrame_ok htarget
  rw [hok] at he
  cases he

end FourLevel

namespace AddressSpaces

/-- Whether the addresses of a range, page by page, are ones that a page can be mapped to. -/
def Mappable (target : PhysicalAddress) (size : UInt64) : Prop :=
  ∃ pages, pagesFor size = .ok pages ∧ ∀ k < pages.toNat,
    ∃ t, target.add (.ofNat k * pageSize) = .ok t ∧ t.value.toNat < 1 <<< 63

/-- Whether all that the start maps are ranges that can be mapped. -/
def Bootable (boot : BootInfo) : Prop :=
  (∀ r ∈ boot.map, Mappable (mappedPart r).base (mappedPart r).length) ∧
    Mappable boot.kernel.physical boot.kernel.size

section Targets

variable {τ : Type} [FrameSource τ] {w w' : World τ} {target : PhysicalAddress}
  {v : VirtualAddress} {flags : PageFlags}

theorem lt_of_map (hP : P.fourLevel? = some p)
    (hrun : (P.map root target v flags).run w = (.done (), w')) : target.value.toNat < 1 <<< 63 := by
  simp only [Paging.map, hP] at hrun
  obtain ⟨t, w₁, -, hrest⟩ := Action.run_bind_eq_done hrun
  obtain ⟨m, w₂, -, hrest⟩ := Action.run_bind_eq_done hrest
  obtain ⟨e, w₃, hvalue, -⟩ := Action.run_bind_eq_done hrest
  exact PageEntry.lt_of_setFrame (Action.run_value_eq_done hvalue).1

theorem targets_of_mapPages (hP : P.fourLevel? = some p) {page n : Nat}
    (hrun : (mapPages P root target v flags page n).run w = (.done (), w')) :
    ∀ k, page ≤ k → k < page + n →
      ∃ t, target.add (.ofNat k * pageSize) = .ok t ∧ t.value.toNat < 1 <<< 63 := by
  induction n generalizing page w with
  | zero =>
    intro k hlow hhigh
    omega
  | succ n ih =>
    obtain ⟨t, w₁, hvalue, hpages⟩ := Action.run_bind_eq_done hrun
    obtain ⟨ht, rfl⟩ := Action.run_value_eq_done hvalue
    obtain ⟨_, w₂, hmap, hrest⟩ := Action.run_bind_eq_done hpages
    intro k hlow hhigh
    by_cases hk : k = page
    · subst hk
      exact ⟨t, ht, lt_of_map hP hmap⟩
    · exact ih hrest k (by omega) (by omega)

theorem mappable_of_mapRange (hP : P.fourLevel? = some p) {size : UInt64}
    (hrun : (mapRange P root target v size flags).run w = (.done (), w')) :
    Mappable target size := by
  obtain ⟨n, w₁, hvalue, hpages⟩ := Action.run_bind_eq_done hrun
  obtain ⟨hn, rfl⟩ := Action.run_value_eq_done hvalue
  exact ⟨n, hn, fun k hk => targets_of_mapPages hP hpages k (Nat.zero_le k) (by omega)⟩

theorem mappable_of_mapRegions (hP : P.fourLevel? = some p) {offset : UInt64} {rs : List Region}
    (hrun : (rs.forM (mapRegion P root offset)).run w = (.done (), w')) :
    ∀ r ∈ rs, Mappable (mappedPart r).base (mappedPart r).length := by
  induction rs generalizing w with
  | nil => exact fun r hr => absurd hr List.not_mem_nil
  | cons r rs ih =>
    obtain ⟨_, w₁, hregion, hrest⟩ := Action.run_bind_eq_done hrun
    obtain ⟨_, w₂, -, hrange⟩ := Action.run_bind_eq_done hregion
    exact List.forall_mem_cons.mpr ⟨mappable_of_mapRange hP hrange, ih hrest⟩

/-- A start that went through has mapped all its ranges. -/
theorem bootable_of_init (hP : P.fourLevel? = some p) {boot : BootInfo} {s : AddressSpaces}
    (hrun : (init P boot).run w = (.done s, w')) : Bootable boot := by
  obtain ⟨_, _, hbuild, -⟩ := Action.run_bind_eq_done hrun
  obtain ⟨_, _, -, hfurnish⟩ := Action.run_bind_eq_done hbuild
  obtain ⟨-, _, _, _, -, hregions, -, hkernel⟩ := furnish_eq_done hfurnish
  exact ⟨mappable_of_mapRegions hP hregions, mappable_of_mapRange hP hkernel⟩

end Targets

theorem answers_mapPages (hp : a.Placed) (hP : P.fourLevel? = some p)
    (hlast : p.directMap.last = none) (root : RootTable) {target : PhysicalAddress}
    (v : VirtualAddress) (flags : PageFlags) {page n : Nat}
    (htargets : ∀ k, page ≤ k → k < page + n →
      ∃ t, target.add (.ofNat k * pageSize) = .ok t ∧ t.value.toNat < 1 <<< 63) :
    (mapPages P root target v flags page n).Answers a a.OutgrowsField fun _ => True := by
  induction n generalizing page with
  | zero => exact .pure trivial
  | succ n ih =>
    obtain ⟨t, ht, hlt⟩ := htargets page (Nat.le_refl page) (by omega)
    have hvalue : (Action.value (target.add (.ofNat page * pageSize)) :
        Action (World FrameAllocator) PagingError PhysicalAddress).Answers a a.OutgrowsField
          fun u => u = t := by
      rw [ht]
      exact .pure rfl
    refine hvalue.bind fun u hu => ?_
    subst hu
    simp only [Paging.map, hP]
    exact (answers_map hp hlast root hlt _ flags).bind fun _ _ =>
      ih fun k hlow hhigh => htargets k (by omega) (by omega)

theorem answers_mapRange (hp : a.Placed) (hP : P.fourLevel? = some p)
    (hlast : p.directMap.last = none) (root : RootTable) {target : PhysicalAddress} {size : UInt64}
    (hrange : Mappable target size) (v : VirtualAddress) (flags : PageFlags) :
    (mapRange P root target v size flags).Answers a a.OutgrowsField fun _ => True := by
  obtain ⟨pages, hpages, htargets⟩ := hrange
  have hvalue : (Action.value (pagesFor size) :
      Action (World FrameAllocator) PagingError UInt64).Answers a a.OutgrowsField
        fun n => n = pages := by
    rw [hpages]
    exact .pure rfl
  refine hvalue.bind fun n hn => ?_
  subst hn
  exact answers_mapPages hp hP hlast root v flags fun k _ hk => htargets k (by omega)

theorem answers_newRoot (hp : a.Placed) (hP : P.fourLevel? = some p)
    (hlast : p.directMap.last = none) :
    (P.newRoot : Action (World FrameAllocator) PagingError RootTable).Answers a F
      fun root => root.frame.index < a.totalFrames := by
  simp only [Paging.newRoot, hP]
  refine (answers_createTable hp hlast .pml4).bind fun t ht => ?_
  refine Action.Answers.bind (.value (fun _ _ => trivial) fun e he => ?_) fun v _ => .pure ht
  rw [DirectMap.reach, hlast] at he
  cases he

theorem answers_furnish (hp : a.Placed) (hP : P.fourLevel? = some p)
    (hlast : p.directMap.last = none) {boot : BootInfo} (hboot : Bootable boot)
    (hlt : root.frame.index < a.totalFrames) :
    (furnish P boot root).Answers a a.OutgrowsField fun t => t.frame.index < a.totalFrames := by
  have hregions : ∀ r ∈ boot.map, (mapRegion P root boot.directOffset r).Answers a a.OutgrowsField
      fun _ => True := fun r hr =>
    (Action.Answers.report _).bind fun _ _ =>
      answers_mapRange hp hP hlast root (hboot.1 r hr) _ _
  refine (Action.Answers.report _).bind fun _ _ => ?_
  refine (Action.Answers.forM hregions).bind fun _ _ => ?_
  refine (Action.Answers.report _).bind fun _ _ => ?_
  exact (answers_mapRange hp hP hlast root hboot.2 _ _).bind fun _ _ => .pure hlt

theorem answers_start (hP : P.fourLevel? = some p) (hlt : root.frame.index < a.totalFrames) :
    (start P root : Action (World FrameAllocator) PagingError AddressSpaces).Answers a
      a.OutgrowsField fun _ => True := by
  have hactivate : (P.activate root : Action (World FrameAllocator) PagingError Unit).Answers a
      a.OutgrowsField fun _ => True := by
    simp only [Paging.activate, hP]
    exact .bind (.value (fun _ _ => trivial) fun e he => outgrowsField_of_valueFor hlt he)
      fun v _ => .request _
  exact hactivate.bind fun _ _ => (Action.Answers.report _).bind fun _ _ => .pure trivial

/-- Where the ranges that the start maps can be mapped, nothing stops it but the number of frames. -/
theorem init_stops (hp : a.Placed) (hP : P.fourLevel? = some p) (hlast : p.directMap.last = none)
    {boot : BootInfo} (hboot : Bootable boot) :
    (init P boot : Action (World FrameAllocator) PagingError AddressSpaces).Answers a
      a.OutgrowsField fun _ => True := by
  apply Action.Answers.bind
  · exact (answers_newRoot hp hP hlast).bind fun root hlt =>
      answers_furnish hp hP hlast hboot hlt
  · exact fun root hlt => answers_start hP hlt

end AddressSpaces

end Faults

end MemoryManager
