import MemoryManager.Paging.FourLevel
import MemoryManager.Proofs.Frames.Ownership

namespace MemoryManager

open FrameAllocator

namespace FrameRequest

/-- The frames that a release gives back, if it is accepted. -/
def accepted (p : FrameAllocator) (m : Machine) : FrameRequest → List Nat
  | free r =>
    match ((p.free r).run m).1 with
    | .done _ => List.range' r.first.index r.pages.toNat
    | _ => []
  | give f =>
    match ((p.release f.index 1).run m).1 with
    | .done _ => List.range' f.index 1
    | _ => []
  | _ => []

/-- Everything that a request to the allocator can do. -/
inductive Effect (p : FrameAllocator) (m : Memory) : (t : Memory) → (grants accepted : List Nat) → Prop
  | idle : Effect p m m [] []
  | granted {t : Memory} {first n : Nat} (h : p.Granted m t first n) :
      Effect p m t (List.range' first n) []
  | released {t : Memory} {first n : Nat} (h : p.Released m t first n) :
      Effect p m t [] (List.range' first n)

theorem effect {p : FrameAllocator} (hp : p.Placed) (q : FrameRequest) (m : Machine)
    (hq : ∀ t, q ≠ .elsewhere t) :
    Effect p m.memory (q.run p m).memory (q.grants p m) (q.accepted p m) := by
  cases q with
  | alloc pages =>
    simp only [run, grants, accepted]
    rcases alloc_cases p pages (m := m) hp with ⟨e, h, -⟩ | ⟨first, t, h, hg⟩
    · simp only [h]
      exact .idle
    · simp only [h, hg.index_ofIndex hp]
      exact .granted hg
  | take =>
    simp only [run, grants, accepted]
    rcases take_cases Empty p m hp with h | ⟨first, t, h, hg⟩
    · simp only [h]
      exact .idle
    · simp only [h, hg.index_ofIndex hp]
      exact .granted hg
  | leak r => exact .idle
  | free r =>
    simp only [run, grants, accepted, run_free]
    split
    · rcases release_cases p r.first.index r.pages.toNat (m := m) hp with ⟨e, h, -⟩ | ⟨t, h, hr⟩
      · simp only [h]
        exact .idle
      · simp only [h]
        exact .released hr
    · exact .idle
  | give f =>
    simp only [run, grants, accepted, run_give]
    rcases release_cases p f.index 1 (m := m) hp with ⟨e, h, -⟩ | ⟨t, h, hr⟩
    · simp only [h]
      exact .idle
    · simp only [h]
      exact .released hr
  | elsewhere t => exact absurd rfl (hq t)

end FrameRequest

/-- The machine, the frames that were handed out and not given back, and the strays: frames that were
given back though nobody had been handed them. -/
structure Custody where
  machine : Machine
  out : List Nat
  strays : List Nat

namespace Custody

variable {p : FrameAllocator} {map : MemoryMap} {s : Custody} {m : Machine}

def perform (p : FrameAllocator) (s : Custody) (q : FrameRequest) : Custody :=
  ⟨q.run p s.machine,
    q.grants p s.machine ++ s.out.filter fun i => i ∉ q.accepted p s.machine,
    s.strays ++ (q.accepted p s.machine).filter fun i => i ∉ s.out⟩

/-- Clients may ask for anything; they leave the bitmap to the allocator. -/
def Allowed (p : FrameAllocator) (s : Custody) : FrameRequest → Prop
  | .elsewhere m => ∀ a, ¬ p.bitmap.Outside a → m.memory.byte a = s.machine.memory.byte a
  | _ => True

inductive Reachable (p : FrameAllocator) (m : Machine) : Custody → Prop
  | start : Reachable p m ⟨m, [], []⟩
  | step {s : Custody} (q : FrameRequest) (hs : Reachable p m s) (hq : s.Allowed p q) :
      Reachable p m (s.perform p q)

/-- Frame `i` is a hole: the allocator tracks it and does not reserve it, and no usable region holds
it. -/
def Hole (p : FrameAllocator) (map : MemoryMap) (i : Nat) : Prop :=
  i < p.totalFrames ∧ p.isReserved i = false ∧ ∀ r ∈ map.usable, ¬ r.HoldsFrame i

/-- The invariant: strays are holes, and the clear bits are those of the available frames and the
strays, but for the frames that are out. -/
structure Accounted (p : FrameAllocator) (map : MemoryMap) (s : Custody) : Prop
    extends p.Sound s.machine.memory where
  strays : ∀ i ∈ s.strays, Hole p map i
  out : ∀ i ∈ s.out, i < p.totalFrames ∧ (p.Available map i ∨ i ∈ s.strays)
  bits : ∀ i < p.totalFrames, p.bitmap.test s.machine.memory i = false ↔
    (p.Available map i ∨ i ∈ s.strays) ∧ i ∉ s.out

/-- What the allocator takes for handed out is out, or a hole that was never given back. -/
theorem Accounted.owned_iff (h : Accounted p map s) (i : Nat) :
    (i < p.totalFrames ∧ p.isReserved i = false ∧ p.bitmap.test s.machine.memory i = true) ↔
      i ∈ s.out ∨ (Hole p map i ∧ i ∉ s.strays) := by
  constructor
  · intro howned
    obtain ⟨hlt, hres, hset⟩ := howned
    rw [← Bool.not_eq_false, h.bits i hlt] at hset
    by_cases hout : i ∈ s.out
    · exact .inl hout
    · refine .inr ⟨⟨hlt, hres, fun r hr hheld => hset ⟨.inl ⟨hres, r, hr, hheld⟩, hout⟩⟩, ?_⟩
      exact fun hstray => hset ⟨.inr hstray, hout⟩
  · intro hparts
    rcases hparts with hout | ⟨⟨hlt, hres, hhole⟩, hstray⟩
    · obtain ⟨hlt, hpool⟩ := h.out i hout
      refine ⟨hlt, ?_, ?_⟩
      · rcases hpool with havailable | hstray
        · exact havailable.1
        · exact (h.strays i hstray).2.1
      · rw [← Bool.not_eq_false, h.bits i hlt]
        exact fun hfree => hfree.2 hout
    · refine ⟨hlt, hres, ?_⟩
      rw [← Bool.not_eq_false, h.bits i hlt]
      intro hfree
      rcases hfree.1 with ⟨-, r, hr, hheld⟩ | hin
      · exact hhole r hr hheld
      · exact hstray hin

theorem Accounted.granted (h : Accounted p map s) {t : Machine} {first n : Nat}
    (hg : p.Granted s.machine.memory t.memory first n) :
    Accounted p map ⟨t, List.range' first n ++ s.out, s.strays⟩ := by
  refine ⟨h.toSound.of_granted hg, h.strays, ?_, ?_⟩
  · intro i hi
    rcases List.mem_append.mp hi with hi | hi
    · rw [List.mem_range'_1] at hi
      have hlt := hg.lt_total hi.2
      exact ⟨hlt, ((h.bits i hlt).mp (hg.clear i hi.1 hi.2)).1⟩
    · exact h.out i hi
  · intro i hi
    rw [hg.test_eq_false_iff hi, h.bits i hi, List.mem_append, not_or, and_left_comm]

theorem Accounted.released (h : Accounted p map s) {t : Machine} {first n : Nat}
    (hr : p.Released s.machine.memory t.memory first n) :
    Accounted p map ⟨t, s.out.filter fun i => i ∉ List.range' first n,
      s.strays ++ (List.range' first n).filter fun i => i ∉ s.out⟩ := by
  have howned : ∀ i ∈ List.range' first n, i ∈ s.out ∨ (Hole p map i ∧ i ∉ s.strays) := by
    intro i hi
    rw [List.mem_range'_1] at hi
    exact (h.owned_iff i).mp (hr.owned i hi.1 hi.2)
  refine ⟨h.toSound.of_released hr, ?_, ?_, ?_⟩
  · intro i hi
    rcases List.mem_append.mp hi with hi | hi
    · exact h.strays i hi
    · obtain ⟨hrange, hout⟩ := List.mem_filter.mp hi
      exact ((howned i hrange).resolve_left (by simpa using hout)).1
  · intro i hi
    obtain ⟨hlt, hpool⟩ := h.out i (List.mem_filter.mp hi).1
    exact ⟨hlt, hpool.imp_right fun hstray => List.mem_append_left _ hstray⟩
  · intro i hi
    rw [hr.test_eq_false_iff hi, h.bits i hi]
    simp only [List.mem_append, List.mem_filter, decide_eq_true_eq]
    by_cases hrange : i ∈ List.range' first n
    · -- a frame of the run was out, and available or a stray before, or it is a stray now
      simp only [hrange, true_or, true_and, not_true_eq_false, and_false, not_false_eq_true,
        and_true, true_iff]
      by_cases hout : i ∈ s.out
      · exact (h.out i hout).2.imp_right .inl
      · exact .inr (.inr hout)
    · simp only [hrange, false_or, false_and, or_false, not_false_eq_true, and_true]

theorem filter_notMem_nil (xs : List Nat) : (xs.filter fun i => i ∉ ([] : List Nat)) = xs := by
  simp

/-- Every allowed request keeps the account right. -/
theorem Accounted.perform (h : Accounted p map s) {q : FrameRequest} (hq : s.Allowed p q) :
    Accounted p map (s.perform p q) := by
  by_cases helse : ∃ t, q = .elsewhere t
  · obtain ⟨t, rfl⟩ := helse
    have hperform : s.perform p (.elsewhere t) = ⟨t, s.out, s.strays⟩ := by
      simp [Custody.perform, FrameRequest.run, FrameRequest.grants, FrameRequest.accepted]
    rw [hperform]
    refine ⟨h.toSound.congr hq, h.strays, h.out, fun i hi => ?_⟩
    rw [test_congr hq (Nat.lt_of_lt_of_le hi p.total_le_size)]
    exact h.bits i hi
  · have heffect := q.effect h.toPlaced s.machine (fun t ht => helse ⟨t, ht⟩)
    unfold Custody.perform
    generalize q.run p s.machine = t at heffect ⊢
    generalize q.grants p s.machine = grants at heffect ⊢
    generalize q.accepted p s.machine = accepted at heffect ⊢
    generalize ht : t.memory = memory at heffect
    cases heffect with
    | idle =>
      obtain ⟨hs, hstrays, hout, hbits⟩ := h
      rw [filter_notMem_nil, List.filter_nil, List.append_nil, List.nil_append]
      exact ⟨ht ▸ hs, hstrays, hout, ht ▸ hbits⟩
    | granted hg =>
      rw [filter_notMem_nil, List.filter_nil, List.append_nil]
      exact h.granted (ht ▸ hg)
    | released hr =>
      rw [List.nil_append]
      exact h.released (ht ▸ hr)

theorem Accounted.start {boot : BootInfo} {m₀ : Machine}
    (hinit : (FrameAllocator.init boot).run m₀ = (.done p, m)) :
    Accounted p boot.map ⟨m, [], []⟩ := by
  have h := Holding.ledger_init hinit
  refine ⟨h.toSound, fun i hi => absurd hi List.not_mem_nil,
    fun i hi => absurd hi List.not_mem_nil, fun i hi => ?_⟩
  rw [h.bits i hi]
  simp only [List.not_mem_nil, or_false]

theorem Reachable.accounted {boot : BootInfo} {m₀ : Machine}
    (hinit : (FrameAllocator.init boot).run m₀ = (.done p, m)) (hs : Reachable p m s) :
    Accounted p boot.map s := by
  induction hs with
  | start => exact .start hinit
  | step q _ hq ih => exact ih.perform hq

/-- A hole that is no stray is left alone by every request that does not give it back. -/
theorem Accounted.hole_untouched (h : Accounted p map s) {i : Nat} (hi : i < p.totalFrames)
    (hhole : ∀ r ∈ map.usable, ¬ r.HoldsFrame i) (hstray : i ∉ s.strays) {q : FrameRequest}
    (hq : ∀ t, q ≠ .elsewhere t) :
    i ∉ q.grants p s.machine ∧ (i ∉ q.accepted p s.machine →
      p.bitmap.test (q.run p s.machine).memory i = true ∧
      ∀ a, p.bitmap.Outside a → a / 4096 = i →
        (q.run p s.machine).memory.byte a = s.machine.memory.byte a) := by
  have hset : p.bitmap.test s.machine.memory i = true := by
    cases hres : p.isReserved i with
    | true => exact h.reserved_set i hi hres
    | false => exact ((h.owned_iff i).mpr (.inr ⟨⟨hi, hres, hhole⟩, hstray⟩)).2.2
  have heffect := q.effect h.toPlaced s.machine hq
  generalize (q.run p s.machine).memory = memory at heffect ⊢
  generalize q.grants p s.machine = grants at heffect ⊢
  generalize q.accepted p s.machine = accepted at heffect ⊢
  cases heffect with
  | idle => exact ⟨List.not_mem_nil, fun _ => ⟨hset, fun _ _ _ => rfl⟩⟩
  | granted hg =>
    refine ⟨fun hin => ?_, fun _ => ⟨?_, fun a ha _ => hg.bytes a ha⟩⟩
    · rw [List.mem_range'_1] at hin
      rw [hg.clear i hin.1 hin.2] at hset
      cases hset
    · exact hg.test_of_set hi hset
  | released hr =>
    refine ⟨List.not_mem_nil, fun hout => ?_⟩
    rw [List.mem_range'_1] at hout
    refine ⟨?_, fun a ha hai => ?_⟩
    · rw [hr.bits i (Nat.lt_of_lt_of_le hi p.total_le_size), if_neg hout, hset]
    · rw [hr.bytes a ha, hai, if_neg hout]

end Custody

/-- All that the action does to the machine is to give frames back one after the other. -/
def FrameAllocator.OnlyGives {α : Type} (p : FrameAllocator)
    (x : Action (World FrameAllocator) Empty α) : Prop :=
  ∀ m : Machine, ∃ (frames : List PhysicalFrame) (m' : Machine),
    (frames.forM FrameSource.give : Action (World FrameAllocator) Empty Unit).run ⟨m, p⟩ =
      (.done (), ⟨m', p⟩) ∧ (x.run ⟨m, p⟩).2 = ⟨m', p⟩

namespace FrameAllocator.OnlyGives

variable {p : FrameAllocator} {α β : Type}

theorem of_same {x : Action (World FrameAllocator) Empty α} (h : ∀ w, (x.run w).2 = w) :
    p.OnlyGives x :=
  fun m => ⟨[], m, rfl, h ⟨m, p⟩⟩

theorem give (hp : p.Placed) (f : PhysicalFrame) : p.OnlyGives (FrameSource.give f) := by
  intro m
  rcases give_cases p m f hp with ⟨e, hrun, -⟩ | ⟨t, hrun, -⟩
  all_goals exact ⟨[f], _, (Action.run_forM_singleton _ _ _).trans hrun, by rw [hrun]⟩

theorem bind {x : Action (World FrameAllocator) Empty α}
    {g : α → Action (World FrameAllocator) Empty β} (hx : p.OnlyGives x)
    (hg : ∀ a, p.OnlyGives (g a)) : p.OnlyGives (x >>= g) := by
  intro m
  obtain ⟨frames, m₁, hgives, hstate⟩ := hx m
  rcases hrun : x.run ⟨m, p⟩ with ⟨o, w⟩
  rw [hrun] at hstate
  obtain rfl : w = ⟨m₁, p⟩ := hstate
  cases o with
  | refused e => exact ⟨frames, m₁, hgives, by rw [Action.run_bind_refused hrun]⟩
  | stopped e => exact ⟨frames, m₁, hgives, by rw [Action.run_bind_stopped hrun]⟩
  | done a =>
    obtain ⟨more, m₂, hgives', hstate'⟩ := hg a m₁
    refine ⟨frames ++ more, m₂, (Action.run_forM_append hgives more).trans hgives', ?_⟩
    rw [Action.run_bind_done hrun, hstate']

theorem forM {γ : Type} {f : γ → Action (World FrameAllocator) Empty Unit}
    (hf : ∀ c, p.OnlyGives (f c)) (l : List γ) : p.OnlyGives (l.forM f) := by
  induction l with
  | nil => exact of_same fun _ => rfl
  | cons c l ih => exact (hf c).bind fun _ => ih

theorem reach (fl : FourLevel) (t : PhysicalFrame) : p.OnlyGives (fl.reach t) := by
  refine of_same fun w => ?_
  rw [FourLevel.reach]
  cases fl.directMap.reach t.base <;> rfl

theorem forPresent {t : PhysicalFrame} {count : Nat}
    {visit : PageEntry → Action (World FrameAllocator) Empty Unit}
    (hvisit : ∀ e, p.OnlyGives (visit e)) : p.OnlyGives (FourLevel.forPresent t count visit) := by
  refine forM (fun i => ?_) _
  refine (of_same fun _ => rfl).bind fun memory => ?_
  cases hpresent : (memory.entry t i).present with
  | true =>
    simp only [hpresent, if_true]
    exact hvisit _
  | false =>
    simp only [hpresent, Bool.false_eq_true, if_false]
    exact of_same fun _ => rfl

theorem releaseBelow (hp : p.Placed) (fl : FourLevel) (depth : Nat) (t : PhysicalFrame)
    (count : Nat) : p.OnlyGives (fl.releaseBelow depth t count) := by
  induction depth generalizing t count with
  | zero => exact forPresent fun e => give hp e.frame
  | succ depth ih =>
    exact forPresent fun e => (reach fl e.frame).bind fun _ =>
      (ih e.frame tableEntries).bind fun _ => give hp e.frame

/-- Giving an address space back does nothing but give frames back, whatever its tables hold. -/
theorem destroy (hp : p.Placed) (fl : FourLevel) (root : RootTable) :
    p.OnlyGives (fl.destroy root) :=
  (reach fl root.frame).bind fun _ => (releaseBelow hp fl 3 root.frame _).bind fun _ =>
    give hp root.frame

end FrameAllocator.OnlyGives

theorem Custody.Reachable.gives {p : FrameAllocator} {m : Machine} {s : Custody}
    (hs : Reachable p m s) (hp : p.Placed) (frames : List PhysicalFrame) :
    ∃ s', Reachable p m s' ∧
      (frames.forM FrameSource.give : Action (World FrameAllocator) Empty Unit).run ⟨s.machine, p⟩ =
        (.done (), ⟨s'.machine, p⟩) := by
  induction frames generalizing s with
  | nil => exact ⟨s, hs, rfl⟩
  | cons f frames ih =>
    have hone := hs.step (.give f) trivial
    obtain ⟨s', hs', hrest⟩ := ih hone
    refine ⟨s', hs', (Action.run_bind_done (a := ()) ?_).trans hrest⟩
    rcases give_cases p s.machine f hp with ⟨e, hrun, -⟩ | ⟨t, hrun, -⟩
    all_goals rw [hrun, perform, FrameRequest.run, hrun]

/-- What is accepted for release, over runs of any requests, releases of arbitrary frames among them. A
release is accepted just if each of its frames is one that was handed out and not given back since,
or a hole (tracked, not reserved, and wholly inside no usable region) that was never released before.
A hole stays marked, is handed out to nobody and is not overwritten until a release of it is accepted.
Giving back an address space, whatever it maps, is a run of such releases. -/
theorem releases_accounted {boot : BootInfo} {p : FrameAllocator} {m₀ m : Machine}
    (hinit : (FrameAllocator.init boot).run m₀ = (.done p, m)) {s : Custody}
    (hs : Custody.Reachable p m s) :
    (∀ first n, (∃ t, (p.release first n).run s.machine = (.done (), t)) ↔
      ∀ i, first ≤ i → i < first + n →
        i ∈ s.out ∨ (Custody.Hole p boot.map i ∧ i ∉ s.strays)) ∧
    (∀ i < p.totalFrames, (∀ r ∈ boot.map.usable, ¬ r.HoldsFrame i) → i ∉ s.strays →
      ∀ q : FrameRequest, (∀ t, q ≠ .elsewhere t) → i ∉ q.grants p s.machine ∧
        (i ∉ q.accepted p s.machine →
          p.bitmap.test (q.run p s.machine).memory i = true ∧
          ∀ a, p.bitmap.Outside a → a / 4096 = i →
            (q.run p s.machine).memory.byte a = s.machine.memory.byte a)) ∧
    ∀ (fl : FourLevel) (root : RootTable), ∃ s', Custody.Reachable p m s' ∧
      ((fl.destroy root : Action (World FrameAllocator) Empty Unit).run ⟨s.machine, p⟩).2 =
        ⟨s'.machine, p⟩ := by
  have h := hs.accounted hinit
  refine ⟨fun first n => ?_, fun i hi hhole hstray q hq => h.hole_untouched hi hhole hstray hq, ?_⟩
  · have hiff : (∃ t, (p.release first n).run s.machine = (.done (), t)) ↔ ∀ i, first ≤ i →
        i < first + n → i < p.totalFrames ∧ p.isReserved i = false ∧
          p.bitmap.test s.machine.memory i = true := by
      constructor
      · intro haccepted
        obtain ⟨t, ht⟩ := haccepted
        rcases release_cases p first n (m := s.machine) h.toPlaced with ⟨e, hrun, -⟩ | ⟨_, -, hr⟩
        · rw [hrun] at ht
          cases ht
        · exact hr.owned
      · intro howned
        obtain ⟨t, ht, -⟩ := release_of_owned p h.toPlaced howned
        exact ⟨_, ht⟩
    rw [hiff]
    simp only [h.owned_iff]
  · intro fl root
    obtain ⟨frames, m', hgives, hstate⟩ :=
      FrameAllocator.OnlyGives.destroy h.toPlaced fl root s.machine
    obtain ⟨s', hs', hrun⟩ := hs.gives h.toPlaced frames
    cases hgives.symm.trans hrun
    exact ⟨s', hs', hstate⟩

/-- A frame of a reserved region is accepted although it was never handed out. -/
theorem releases_accounted_of_two_regions :
    (∀ r ∈ TwoRegions.boot.map.usable, ¬ r.HoldsFrame 8) ∧
      ∃ t, (TwoRegions.allocator.release 8 1).run TwoRegions.machine = (.done (), t) := by
  have hhole : Custody.Hole TwoRegions.allocator TwoRegions.boot.map 8 :=
    ⟨by decide, by decide, by decide +kernel⟩
  refine ⟨hhole.2.2, ?_⟩
  refine ((releases_accounted TwoRegions.init_eq .start).1 8 1).mpr fun i hi lt => ?_
  obtain rfl : i = 8 := by omega
  exact .inr ⟨hhole, List.not_mem_nil⟩

/-- Not only frames that were handed out become free: a frame of a reserved region is given back right
after boot; it is overwritten, and an allocation hands it out. -/
theorem hole_is_handed_out :
    ∃ s, Custody.Reachable TwoRegions.allocator TwoRegions.machine s ∧
      (∀ r ∈ TwoRegions.boot.map.usable, ¬ r.HoldsFrame 8) ∧ s.out = [] ∧
      TwoRegions.allocator.bitmap.test s.machine.memory 8 = false ∧
      s.machine.memory.byte 0x8000 = poison ∧
      8 ∈ (FrameRequest.alloc 7).grants TwoRegions.allocator s.machine :=
  ⟨_, Custody.Reachable.start.step (.give (.ofIndex 8)) trivial, by decide +kernel,
    by decide +kernel, by decide +kernel, by decide +kernel, by decide +kernel⟩

end MemoryManager
