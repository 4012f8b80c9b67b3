import Mathlib.Logic.Function.Basic
import MemoryManager.Proofs.Paging.Walks

namespace MemoryManager

/-- What an address space says about a page. -/
structure Page where
  frame : PhysicalFrame
  flags : PageFlags

/-- Number of the page that holds an address, among those that four levels of tables can tell
apart. -/
def VirtualAddress.page (a : VirtualAddress) : Fin (2 ^ 36) :=
  ⟨a.value.toNat / 4096 % 2 ^ 36, Nat.mod_lt _ (Nat.two_pow_pos 36)⟩

abbrev PageMap := Fin (2 ^ 36) → Page

namespace PageMap

def empty : PageMap := fun _ =>
  ⟨.ofIndex 0, .empty⟩

def translate (pm : PageMap) (a : VirtualAddress) : Option PhysicalAddress :=
  if (pm a.page).flags.contains .present then
    some ⟨.ofNat ((pm a.page).frame.start + a.value.toNat % 4096)⟩
  else none

end PageMap

/-- A request to change an address space. -/
inductive PageRequest where
  | map (target : PhysicalAddress) (a : VirtualAddress) (flags : PageFlags)
  | unmap (a : VirtualAddress)
  | setFlags (a : VirtualAddress) (flags : PageFlags)

namespace PageRequest

variable {τ : Type} [FrameSource τ]

/-- What four-level paging does with the request. -/
def run (p : FourLevel) (root : RootTable) : PageRequest → Action (World τ) PagingError Unit
  | map target a flags => p.map root target a flags
  | unmap a => p.unmap root a
  | setFlags a flags => p.setFlags root a flags

/-- What the request means: it changes one page. -/
def apply (pm : PageMap) : PageRequest → PageMap
  | map target a flags => Function.update pm a.page ⟨target.frame, flags⟩
  | unmap a => Function.update pm a.page ⟨.ofIndex 0, (pm a.page).flags.sdiff .present⟩
  | setFlags a flags => Function.update pm a.page ⟨(pm a.page).frame, flags⟩

end PageRequest

namespace TableIndex

theorem val_select (a : VirtualAddress) (level : Level) :
    (select a level).val = a.value.toNat / 2 ^ (level.shift.toNat % 64) % 512 := by
  have hmask : (0x1FF : UInt64).toNat = 2 ^ 9 - 1 := rfl
  change ((a.value >>> level.shift) &&& 0x1FF).toNat % 512 = _
  rw [UInt64.toNat_and, UInt64.toNat_shiftRight, hmask, Nat.and_two_pow_sub_one_eq_mod,
    Nat.shiftRight_eq_div_pow]
  exact Nat.mod_mod _ _

end TableIndex

namespace FourLevel

/-- Two addresses are on one page if they select the same entries at all levels. -/
theorem page_eq_iff (a b : VirtualAddress) :
    a.page = b.page ↔ positions a = positions b ∧ leafIndex a = leafIndex b := by
  have hpositions : positions a = positions b ↔
      TableIndex.select a .pml4 = TableIndex.select b .pml4 ∧
      TableIndex.select a .pdpt = TableIndex.select b .pdpt ∧
      TableIndex.select a .pd = TableIndex.select b .pd := by
    simp only [positions, path, List.map_cons, List.map_nil, List.cons.injEq, and_true]
  have hpml4 : Level.pml4.shift.toNat % 64 = 39 := rfl
  have hpdpt : Level.pdpt.shift.toNat % 64 = 30 := rfl
  have hpd : Level.pd.shift.toNat % 64 = 21 := rfl
  have hpt : Level.pt.shift.toNat % 64 = 12 := rfl
  rw [hpositions]
  simp only [VirtualAddress.page, leafIndex, Fin.ext_iff, TableIndex.val_select, hpml4, hpdpt, hpd,
    hpt]
  omega

end FourLevel

theorem PageFlags.contains_sdiff_present (flags : PageFlags) :
    (flags.sdiff .present).contains .present = false := by
  have hzero : flags.bits &&& ~~~1 &&& 1 = 0 := by
    rw [UInt32.and_assoc, UInt32.not_and_self, UInt32.and_zero]
  rw [contains, sdiff, present, hzero]
  rfl

/-- A leaf entry says about a page what the plain map says. -/
structure PageEntry.Shows (e : PageEntry) (q : Page) : Prop where
  frame : e.frame = q.frame
  present : e.present = q.flags.contains .present
  rights : e.present = true → e.writable = q.flags.contains .writable ∧
    e.user = q.flags.contains .user ∧ e.noExecute = !q.flags.contains .executable ∧
    e.largePage = false

/-- What a leaf entry makes of an address. -/
def PageEntry.resolve (e : PageEntry) (a : VirtualAddress) :
    Except Fault (Option PhysicalAddress) :=
  if e.present then some <$> e.frame.base.add (pageOffset a.value) else pure none

namespace PageEntry

variable {e e' : PageEntry} {q : Page}

theorem shows_zero : Shows .zero ⟨.ofIndex 0, .empty⟩ :=
  ⟨rfl, rfl, fun h => absurd h (by decide)⟩

theorem shows_applyFlags {f : PhysicalFrame} (hf : e.frame = f) (flags : PageFlags) :
    Shows (e.applyFlags flags) ⟨f, flags⟩ :=
  ⟨(e.frame_applyFlags flags).trans hf, e.present_applyFlags flags, fun _ =>
    ⟨e.writable_applyFlags flags, e.user_applyFlags flags, e.noExecute_applyFlags flags,
      e.largePage_applyFlags flags⟩⟩

theorem shows_setFrame {a : PhysicalAddress} (h : e.setFrame a = .ok e') (flags : PageFlags) :
    Shows (e'.applyFlags flags) ⟨a.frame, flags⟩ := by
  obtain ⟨e₁, he₁, hframe, -⟩ := e.setFrame_ok (lt_of_setFrame h)
  rw [h] at he₁
  cases he₁
  exact shows_applyFlags hframe flags

theorem shows_clearMapping (e : PageEntry) (flags : PageFlags) :
    Shows e.clearMapping ⟨.ofIndex 0, flags.sdiff .present⟩ := by
  refine ⟨e.frame_clearMapping, e.present_clearMapping.trans flags.contains_sdiff_present.symm, ?_⟩
  intro h
  rw [e.present_clearMapping] at h
  cases h

theorem Shows.resolve_eq (h : e.Shows q) (a : VirtualAddress) :
    e.resolve a = .ok (if q.flags.contains .present then
      some ⟨.ofNat (q.frame.start + a.value.toNat % 4096)⟩ else none) := by
  rw [resolve, ← h.present]
  cases hp : e.present with
  | false => rfl
  | true =>
    have hoffset : (pageOffset a.value).toNat = a.value.toNat % 4096 := by
      rw [pageOffset, UInt64.toNat_and, show (pageSize - 1).toNat = 2 ^ 12 - 1 from rfl,
        Nat.and_two_pow_sub_one_eq_mod]
    have hstop := e.frame.stop_le
    have hsum : sum e.frame.base.value (pageOffset a.value) =
        .ok (.ofNat (e.frame.start + a.value.toNat % 4096)) := by
      rw [sum_eq_ok_iff, PhysicalFrame.toNat_base, hoffset, UInt64.toNat_ofNat']
      omega
    rw [if_pos rfl, if_pos rfl, PhysicalAddress.add, hsum, ← h.frame]
    rfl

end PageEntry

namespace FourLevel

open Memory

variable {τ : Type} [FrameSource τ] {Keeps : List PhysicalFrame → World τ → Prop} {p : FourLevel}
  {roots used : List PhysicalFrame} {root : RootTable} {m : Memory} {w w' w₀ : World τ}
  {pm : PageMap}

/-- The leaf entries of an address space say what the plain map says. -/
def Shows (m : Memory) (root : PhysicalFrame) (pm : PageMap) : Prop :=
  ∀ a, (m.entryAt root (positions a) (leafIndex a)).Shows (pm a.page)

/-- A translation is what the leaf entry for the address makes of it. -/
theorem translate_eq (hf : Forest p m roots used) (hroot : root.frame ∈ roots)
    (a : VirtualAddress) :
    p.translate m root a = (m.entryAt root.frame (positions a) (leafIndex a)).resolve a := by
  rw [translate, leafTable?_eq hf hroot]
  cases ht : m.tableAt root.frame (positions a) with
  | none =>
    rw [entryAt_of_none ht]
    rfl
  | some t =>
    rw [entryAt_of_some ht]
    rfl

theorem translate_of_shows (hf : Forest p m roots used) (hroot : root.frame ∈ roots)
    (h : Shows m root.frame pm) (a : VirtualAddress) :
    p.translate m root a = .ok (pm.translate a) := by
  rw [translate_eq hf hroot, (h a).resolve_eq, PageMap.translate]

theorem shows_setLeaf (hf : Forest p m roots used) (hroot : root.frame ∈ roots)
    (h : Shows m root.frame pm) {a : VirtualAddress} {t : PhysicalFrame}
    (ht : m.Finds roots root.frame (positions a) t) {e : PageEntry} {q : Page} (he : e.Shows q) :
    Shows (m.setEntry t (leafIndex a) e) root.frame (Function.update pm a.page q) := by
  intro b
  rw [hf.entryAt_setLeaf ht rfl hroot rfl]
  by_cases hb : b.page = a.page
  · obtain ⟨hpositions, hleaf⟩ := (page_eq_iff b a).mp hb
    rw [if_pos ⟨rfl, hpositions, hleaf⟩, hb, Function.update_self]
    exact he
  · rw [if_neg fun hsame => hb ((page_eq_iff b a).mpr hsame.2), Function.update_of_ne hb]
    exact h b

/-- A state of an address space that says what the plain map says. -/
structure Mirrors (Keeps : List PhysicalFrame → World τ → Prop) (p : FourLevel)
    (root : RootTable) (pm : PageMap) (w : World τ) : Prop where
  tables : ∃ used, Keeps used w ∧ Forest p w.machine.memory [root.frame] used
  shows : Shows w.machine.memory root.frame pm

/-- Every request changes one leaf entry of the address space, after a walk that creates the missing
tables. -/
theorem run_request {q : PageRequest} (hrun : (q.run p root).run w = (.done (), w')) :
    ∃ a t w₁ e, (p.leafTable root a).run w = (.done t, w₁) ∧ w'.part = w₁.part ∧
      w'.machine.memory = w₁.machine.memory.setEntry t (leafIndex a) e ∧
      ∀ pm : PageMap, (w₁.machine.memory.entry t (leafIndex a)).Shows (pm a.page) →
        ∃ page, e.Shows page ∧ q.apply pm = Function.update pm a.page page := by
  cases q with
  | map target a flags =>
    obtain ⟨t, w₁, htable, hrest⟩ := Action.run_bind_eq_done hrun
    refine ⟨a, t, w₁, ?_⟩
    simp only [Action.run_bind, World.run_load] at hrest
    cases hset : (w₁.machine.memory.entry t (leafIndex a)).setFrame target with
    | error e =>
      rw [hset, Action.run_value_error] at hrest
      cases hrest
    | ok e =>
      simp only [hset, Action.run_value_ok, updateLeaf, World.run_store] at hrest
      obtain rfl := (Prod.mk.inj hrest).2
      exact ⟨e.applyFlags flags, htable, rfl, rfl, fun pm _ =>
        ⟨_, PageEntry.shows_setFrame hset flags, rfl⟩⟩
  | unmap a =>
    obtain ⟨t, w₁, htable, hrest⟩ := Action.run_bind_eq_done hrun
    simp only [Action.run_bind, World.run_load, updateLeaf, World.run_store, World.run_request]
      at hrest
    obtain rfl := (Prod.mk.inj hrest).2
    exact ⟨a, t, w₁, _, htable, rfl, rfl, fun pm _ =>
      ⟨_, PageEntry.shows_clearMapping _ _, rfl⟩⟩
  | setFlags a flags =>
    obtain ⟨t, w₁, htable, hrest⟩ := Action.run_bind_eq_done hrun
    simp only [Action.run_bind, World.run_load, updateLeaf, World.run_store] at hrest
    obtain rfl := (Prod.mk.inj hrest).2
    exact ⟨a, t, w₁, _, htable, rfl, rfl, fun pm hshows =>
      ⟨_, PageEntry.shows_applyFlags hshows.frame flags, rfl⟩⟩

theorem Shows.grows (h : Shows m root.frame pm) {n : Memory} (hg : Grows roots m n)
    (hroot : root.frame ∈ roots) : Shows n root.frame pm := by
  intro a
  rw [hg.leaves root.frame hroot (positions a) rfl]
  exact h a

/-- A request that goes through changes the plain map of its address space as it means to. -/
theorem Shows.request (hs : FrameSource.Lawful τ Keeps) (hk : Keeps used w)
    (hf : Forest p w.machine.memory roots used) (hroot : root.frame ∈ roots)
    (h : Shows w.machine.memory root.frame pm) {q : PageRequest}
    (hrun : (q.run p root).run w = (.done (), w')) :
    Shows w'.machine.memory root.frame (q.apply pm) := by
  obtain ⟨a, t, w₁, e, htable, -, hmemory, heffect⟩ := run_request hrun
  obtain ⟨used₁, ⟨-, hf₁, hgrows⟩, hfinds⟩ := leafTable_spec hs hk hf hroot a htable
  have ht := hfinds t rfl
  have hshows := h.grows hgrows hroot
  have hentry := hshows a
  rw [entryAt_of_some ht.table] at hentry
  obtain ⟨page, hpage, happly⟩ := heffect pm hentry
  rw [hmemory, happly]
  exact shows_setLeaf hf₁ hroot hshows ht hpage

theorem Mirrors.request (hs : FrameSource.Lawful τ Keeps) (h : Mirrors Keeps p root pm w)
    {q : PageRequest} (hrun : (q.run p root).run w = (.done (), w')) :
    Mirrors Keeps p root (q.apply pm) w' := by
  obtain ⟨used, hk, hf⟩ := h.tables
  have hroot : root.frame ∈ [root.frame] := List.mem_singleton_self _
  refine ⟨?_, h.shows.request hs hk hf hroot hrun⟩
  obtain ⟨a, t, w₁, e, htable, hpart, hmemory, -⟩ := run_request hrun
  obtain ⟨used₁, ⟨hk₁, hf₁, -⟩, hfinds⟩ := leafTable_spec hs hk hf hroot a htable
  have ht := hfinds t rfl
  refine ⟨used₁, hs.beside hk₁ hpart fun x hx => ?_, ?_⟩
  · rw [hmemory]
    exact byte_setEntry _ _ _ fun hxt => hx ⟨t, hf₁.used ht, hxt⟩
  · rw [hmemory]
    exact hf₁.setLeaf ht rfl

theorem Mirrors.start (hs : FrameSource.Lawful τ Keeps) (hk : Keeps used w)
    (hrun : p.newRoot.run w = (.done root, w')) : Mirrors Keeps p root .empty w' := by
  have hf : Forest p w.machine.memory [] used :=
    ⟨fun h => absurd h.root List.not_mem_nil, fun h => absurd h.root List.not_mem_nil,
      fun h => absurd h.root List.not_mem_nil⟩
  obtain ⟨hk', hf', hnew⟩ := newRoot_spec hs hk hf hrun
  refine ⟨⟨_, hk', hf'⟩, fun a => ?_⟩
  rw [Forest.entryAt_plant hnew]
  exact PageEntry.shows_zero

/-- The states of an address space that runs of successful requests lead to, each with what the
requests mean. -/
inductive Built (p : FourLevel) (root : RootTable) (w₀ : World τ) : World τ → PageMap → Prop
  | start {w : World τ} (hrun : p.newRoot.run w₀ = (.done root, w)) : Built p root w₀ w .empty
  | step {w w' : World τ} {pm : PageMap} (q : PageRequest) (hb : Built p root w₀ w pm)
      (hrun : (q.run p root).run w = (.done (), w')) : Built p root w₀ w' (q.apply pm)

theorem Built.request (q : PageRequest) (hb : Built p root w₀ w pm)
    (hdone : ((q.run p root).run w).1 = .done ()) :
    Built p root w₀ ((q.run p root).run w).2 (q.apply pm) :=
  .step q hb (Prod.ext hdone rfl)

theorem Built.mirrors (hb : Built p root w₀ w pm) (hs : FrameSource.Lawful τ Keeps)
    (hk : Keeps used w₀) : Mirrors Keeps p root pm w := by
  induction hb with
  | start hrun => exact .start hs hk hrun
  | step q _ hrun ih => exact ih.request hs hrun

end FourLevel

/-- Four-level paging is a plain map. After any run of successful requests on a fresh address space,
whatever source its tables come from as long as that hands out frames nobody uses, an address
translates as the plain map says that the requests mean. (A request to map an address from 2 ^ 63 on
never succeeds.) -/
theorem translate_eq_pageMap {τ : Type} [FrameSource τ]
    {Keeps : List PhysicalFrame → World τ → Prop} (hs : FrameSource.Lawful τ Keeps) {p : FourLevel}
    {root : RootTable} {w₀ w : World τ} {used : List PhysicalFrame} {pm : PageMap}
    (hk : Keeps used w₀) (hb : FourLevel.Built p root w₀ w pm) (a : VirtualAddress) :
    p.translate w.machine.memory root a = .ok (pm.translate a) := by
  obtain ⟨⟨used', -, hf⟩, hshows⟩ := hb.mirrors hs hk
  exact FourLevel.translate_of_shows hf (List.mem_singleton_self _) hshows a

namespace TwoRegions

def paging : FourLevel :=
  ⟨allocator.directMap, .cr3⟩

def root : RootTable :=
  ⟨.ofIndex 2, ⟨0xFFFF800000002000⟩⟩

def rooted : World FrameAllocator :=
  (paging.newRoot.run ⟨machine, allocator⟩).2

theorem newRoot_eq : paging.newRoot.run ⟨machine, allocator⟩ = (.done root, rooted) :=
  Prod.ext rfl rfl

end TwoRegions

theorem translate_eq_pageMap_of_two_regions :
    ∃ w pm, FourLevel.Built TwoRegions.paging TwoRegions.root
        ⟨TwoRegions.machine, TwoRegions.allocator⟩ w pm ∧
      TwoRegions.paging.translate w.machine.memory TwoRegions.root ⟨0x40203ABC⟩ =
        .ok (some ⟨0x1EABC⟩) ∧
      TwoRegions.paging.translate w.machine.memory TwoRegions.root ⟨0x40202000⟩ = .ok none := by
  have start := FourLevel.Built.start TwoRegions.newRoot_eq
  have first := start.request (.map ⟨0x1D000⟩ ⟨0x40202000⟩ ⟨3⟩) rfl
  have second := first.request (.map ⟨0x1E123⟩ ⟨0x40203000⟩ ⟨1⟩) rfl
  have third := second.request (.unmap ⟨0x40202008⟩) rfl
  have fourth := third.request (.setFlags ⟨0x40203008⟩ ⟨5⟩) rfl
  have h := translate_eq_pageMap FrameAllocator.lawful
    (FrameAllocator.lends_init TwoRegions.init_eq) fourth
  refine ⟨_, _, fourth, ?_, ?_⟩
  · rw [h]
    rfl
  · rw [h]
    rfl

end MemoryManager
