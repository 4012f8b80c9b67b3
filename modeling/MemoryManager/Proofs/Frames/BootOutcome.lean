import MemoryManager.Proofs.Frames.BootBitmap

namespace MemoryManager

namespace Region

/-- Whether the region begins inside the last page of all, so that no page boundary follows its
base. -/
def InLastPage (r : Region) : Prop :=
  2 ^ 64 ≤ r.base.value.toNat + 4095

/-- The first page boundary past page 0 that is not below the region. -/
def firstStart (r : Region) : Nat :=
  4096 * max 1 r.firstFrame

/-- Whether `bytes` bytes fit into the region from a page boundary past page 0 on. -/
def HasRoom (r : Region) (bytes : Nat) : Prop :=
  r.firstStart + bytes ≤ r.stop.value.toNat

instance (r : Region) : Decidable r.InLastPage :=
  inferInstanceAs (Decidable (_ ≤ _))

instance (r : Region) (bytes : Nat) : Decidable (r.HasRoom bytes) :=
  inferInstanceAs (Decidable (_ ≤ _))

theorem alignUp_base {r : Region} (h : ¬ r.InLastPage) :
    ∃ first, alignUp r.base.value pageSize = .ok first ∧
      (PhysicalAddress.frame ⟨first⟩).index = r.firstFrame := by
  rw [InLastPage, Nat.not_le] at h
  have hround : (UInt64.ofNat (4096 * r.firstFrame)).toNat = 4096 * r.firstFrame := by
    rw [UInt64.toNat_ofNat', firstFrame]
    omega
  refine ⟨.ofNat (4096 * r.firstFrame), alignUp_pageSize_eq_ok_iff.mpr ⟨h, ?_⟩, ?_⟩
  · rw [hround, firstFrame, Nat.mul_comm]
  · simp only [PhysicalAddress.frame, PhysicalFrame.containing, hround]
    omega

theorem toNat_firstStart {r : Region} (h : ¬ r.InLastPage) :
    (UInt64.ofNat r.firstStart).toNat = r.firstStart := by
  rw [InLastPage] at h
  rw [UInt64.toNat_ofNat', firstStart, firstFrame]
  omega

theorem alignUp_max_base {r : Region} (h : ¬ r.InLastPage) :
    alignUp (max r.base.value pageSize) pageSize = .ok (.ofNat r.firstStart) := by
  rw [alignUp_pageSize_eq_ok_iff, FrameAllocator.toNat_max_pageSize, toNat_firstStart h, firstStart,
    firstFrame]
  rw [InLastPage] at h
  omega

theorem alignUp_max_base_of_inLastPage {r : Region} (h : r.InLastPage) :
    alignUp (max r.base.value pageSize) pageSize = .error (.overflow .addition) := by
  rw [InLastPage] at h
  apply alignUp_pageSize_of_overflow
  rw [FrameAllocator.toNat_max_pageSize]
  omega

end Region

namespace MemoryMap

/-- Number of bytes of the bitmap: a bit for every frame up to the highest end. -/
def bitmapBytes (map : MemoryMap) : Nat :=
  (map.usableEnd / 4096 + 7) / 8

/-- The usable region at which the search for the bitmap's place ends: the first one that can hold
the bitmap or begins inside the last page. -/
def bitmapRegion? (map : MemoryMap) : Option Region :=
  map.usable.find? fun r => r.InLastPage ∨ r.HasRoom map.bitmapBytes

theorem bitmapBytes_eq (map : MemoryMap) : map.bitmapBytes = (map.frameCount + 7) / 8 := by
  rw [bitmapBytes, frameCount_eq]

theorem toNat_bitmapBytes (map : MemoryMap) :
    (UInt64.ofNat map.bitmapBytes).toNat = map.bitmapBytes := by
  have := map.frameCount_lt
  rw [UInt64.toNat_ofNat', bitmapBytes_eq]
  omega

theorem bitmapRegion?_eq_some {map : MemoryMap} {r : Region} (h : map.bitmapRegion? = some r) :
    r ∈ map.usable ∧ (r.InLastPage ∨ r.HasRoom map.bitmapBytes) :=
  ⟨List.mem_of_find?_eq_some h, by simpa using List.find?_some h⟩

/-- Whether some usable region begins inside the last page. -/
def EntersLastPage (map : MemoryMap) : Prop :=
  ∃ r ∈ map.usable, r.InLastPage

instance (map : MemoryMap) : Decidable map.EntersLastPage :=
  inferInstanceAs (Decidable (∃ _ ∈ _, _))

/-- Whether the pages that hold the bitmap, placed in the region, end past the last frame that has a
bit. -/
def Overrun (map : MemoryMap) (r : Region) : Prop :=
  8 * map.bitmapBytes < max 1 r.firstFrame + (map.bitmapBytes + 4095) / 4096

instance (map : MemoryMap) (r : Region) : Decidable (map.Overrun r) :=
  inferInstanceAs (Decidable (_ < _))

end MemoryMap

/-- Whether the direct map shows the bitmap's place at address 0, where nothing may lie. -/
def BootInfo.ShowsAtNull (boot : BootInfo) (r : Region) : Prop :=
  (r.firstStart + boot.directOffset.toNat) % 2 ^ 64 = 0

instance (boot : BootInfo) (r : Region) : Decidable (boot.ShowsAtNull r) :=
  inferInstanceAs (Decidable (_ = _))

namespace FrameAllocator

variable {ε : Type}

/-- The allocator that keeps its bitmap at the start of a region. -/
def atStartOf (boot : BootInfo) (r : Region) : FrameAllocator where
  bitmapFrame := .containing ⟨.ofNat r.firstStart⟩
  totalFrames := boot.map.frameCount
  directMap := { offset := boot.directOffset }

theorem length_atStartOf (boot : BootInfo) (r : Region) :
    (atStartOf boot r).bitmap.length = boot.map.bitmapBytes :=
  boot.map.bitmapBytes_eq.symm

theorem index_atStartOf {boot : BootInfo} {r : Region} (h : ¬ r.InLastPage) :
    (atStartOf boot r).bitmapFrame.index = max 1 r.firstFrame := by
  change (UInt64.ofNat r.firstStart).toNat / 4096 = _
  rw [Region.toNat_firstStart h, Region.firstStart]
  omega

theorem base_atStartOf {boot : BootInfo} {r : Region} (h : ¬ r.InLastPage) :
    (atStartOf boot r).bitmapFrame.base = ⟨.ofNat r.firstStart⟩ := by
  rw [PhysicalAddress.mk.injEq, ← UInt64.toNat_inj, PhysicalFrame.toNat_base, PhysicalFrame.start,
    index_atStartOf h, Region.toNat_firstStart h, Region.firstStart]

theorem index_stop_le_size (boot : BootInfo) (r : Region) :
    ∀ s ∈ boot.map.usable, s.stop.frame.index ≤ (atStartOf boot r).bitmap.size := by
  intro s hs
  have := MemoryMap.index_stop_le_frameCount hs
  rw [FrameBitmap.size, length_atStartOf, MemoryMap.bitmapBytes_eq]
  omega

theorem bitmapStart?_eq (bytes : UInt64) (rs : List Region) :
    bitmapStart? bytes rs =
      match rs.find? fun r => r.InLastPage ∨ r.HasRoom bytes.toNat with
      | none => .ok none
      | some r =>
        if r.InLastPage then .error (.overflow .addition) else .ok (some (.ofNat r.firstStart)) := by
  induction rs with
  | nil => rfl
  | cons r rs ih =>
    by_cases hlast : r.InLastPage
    · rw [bitmapStart?, Region.alignUp_max_base_of_inLastPage hlast,
        List.find?_cons_of_pos (by simpa using Or.inl hlast)]
      simp only [hlast, if_true]
      rfl
    · rw [bitmapStart?_cons rs (Region.alignUp_max_base hlast), Region.toNat_firstStart hlast, ih]
      change (if r.HasRoom bytes.toNat then _ else _) = _
      by_cases hroom : r.HasRoom bytes.toNat
      · rw [if_pos hroom, List.find?_cons_of_pos (by simpa using Or.inr hroom)]
        simp only [hlast, if_false]
      · rw [if_neg hroom, List.find?_cons_of_neg (by simp [hlast, hroom])]

/-- What `place` answers, by where the search for the bitmap's place ends. -/
theorem place_eq (boot : BootInfo) :
    place boot =
      if boot.map.bitmapBytes = 0 then .ok (.error .emptyMemoryMap)
      else
        match boot.map.bitmapRegion? with
        | none => .ok (.error (.noBitmapRegion (.ofNat boot.map.bitmapBytes)))
        | some r =>
          if r.InLastPage then .error (.overflow .addition)
          else if boot.ShowsAtNull r then
            .ok (.error (.noBitmapRegion (.ofNat boot.map.bitmapBytes)))
          else .ok (.ok (atStartOf boot r)) := by
  have hzero : boot.map.bitmapBytes = 0 ↔ boot.map.frameCount = 0 := by
    rw [MemoryMap.bitmapBytes_eq]
    omega
  simp only [place, hzero]
  split
  · rfl
  rw [← MemoryMap.bitmapBytes_eq, bitmapStart?_eq, MemoryMap.toNat_bitmapBytes,
    ← MemoryMap.bitmapRegion?]
  cases hsearch : boot.map.bitmapRegion? with
  | none => rfl
  | some r =>
    by_cases hlast : r.InLastPage
    · simp only [hlast, if_true]
      rfl
    have hnull : DirectMap.virtual { offset := boot.directOffset } ⟨.ofNat r.firstStart⟩ = ⟨0⟩ ↔
        boot.ShowsAtNull r := by
      simp only [DirectMap.virtual, VirtualAddress.mk.injEq, ← UInt64.toNat_inj, UInt64.toNat_add,
        Region.toNat_firstStart hlast, BootInfo.ShowsAtNull]
      rfl
    have hbase : (atStartOf boot r).bitmapFrame.base = _ := base_atStartOf hlast
    simp only [atStartOf] at hbase ⊢
    simp only [hlast, if_false, bind, Except.bind, hbase, hnull]

/-- Clearing a region's bits is stopped only where its base cannot be rounded up. -/
theorem clearRegion_outcome {p : FrameAllocator} {r : Region}
    (hr : r.stop.frame.index ≤ p.bitmap.size) (m : Machine) :
    ((p.clearRegion r : Action Machine ε Unit).run m).1 =
      if r.InLastPage then .stopped (.overflow .addition) else .done () := by
  by_cases hlast : r.InLastPage
  · rw [if_pos hlast, clearRegion, alignUp_pageSize_of_overflow hlast]
    rfl
  · obtain ⟨first, hfirst, -⟩ := Region.alignUp_base hlast
    rw [if_neg hlast, clearRegion, hfirst, Action.run_bind_done (Action.run_value_ok _ _),
      FrameBitmap.run_assignRange, if_neg (by omega)]

theorem clearRegions_outcome {p : FrameAllocator} {rs : List Region}
    (hrs : ∀ r ∈ rs, r.stop.frame.index ≤ p.bitmap.size) (m : Machine) :
    ((rs.forM p.clearRegion : Action Machine ε Unit).run m).1 =
      if ∃ r ∈ rs, r.InLastPage then .stopped (.overflow .addition) else .done () := by
  induction rs generalizing m with
  | nil => simp [List.forM]
  | cons r rs ih =>
    rw [List.forall_mem_cons] at hrs
    rw [List.forM]
    rcases hrun : (p.clearRegion r : Action Machine ε Unit).run m with ⟨o, t⟩
    have hfirst : ((p.clearRegion r : Action Machine ε Unit).run m).1 = _ :=
      clearRegion_outcome hrs.1 m
    rw [hrun] at hfirst
    simp only [List.mem_cons, exists_eq_or_imp]
    by_cases hlast : r.InLastPage
    · rw [if_pos hlast] at hfirst
      obtain rfl := hfirst
      rw [Action.run_bind_stopped hrun, if_pos (Or.inl hlast)]
    · rw [if_neg hlast] at hfirst
      obtain rfl := hfirst
      rw [Action.run_bind_done hrun, ih hrs.2]
      simp only [hlast, false_or]

/-- Writing the bitmap is stopped where a base cannot be rounded up and, failing that, where the
frames that hold the bitmap reach past its last bit. -/
theorem writeBitmap_outcome {p : FrameAllocator} {map : MemoryMap}
    (hmap : ∀ r ∈ map.usable, r.stop.frame.index ≤ p.bitmap.size)
    (hlength : 0 < p.bitmap.length) (hframe : p.bitmapFrame.index ≤ p.bitmap.size) (m : Machine) :
    ((p.writeBitmap map : Action Machine ε Unit).run m).1 =
      if map.EntersLastPage then .stopped (.overflow .addition)
      else if p.bitmap.size < p.bitmapFrame.index + p.bitmapFrames then
        .stopped (.index p.bitmap.length p.bitmap.length)
      else .done () := by
  rw [writeBitmap, Action.run_bind_done (Machine.run_store _ _)]
  generalize { m with memory := m.memory.fill p.bitmapFrame.start p.bitmap.length 0xFF } = filled
  rcases hrun : (map.usable.forM p.clearRegion : Action Machine ε Unit).run filled with ⟨o, t⟩
  have hclear : ((map.usable.forM p.clearRegion : Action Machine ε Unit).run filled).1 = _ :=
    clearRegions_outcome hmap filled
  rw [hrun] at hclear
  by_cases hlast : map.EntersLastPage
  · obtain rfl : o = _ := hclear.trans (if_pos hlast)
    rw [Action.run_bind_stopped hrun, if_pos hlast]
  obtain rfl : o = _ := hclear.trans (if_neg hlast)
  have hsize : p.bitmap.size = 8 * p.bitmap.length := rfl
  rw [Action.run_bind_done hrun, if_neg hlast, Action.run_bind, FrameBitmap.run_assignRange]
  by_cases hpast : p.bitmap.size < p.bitmapFrame.index + p.bitmapFrames
  · have hindex : max p.bitmapFrame.index p.bitmap.size / 8 = p.bitmap.length := by omega
    rw [if_pos ⟨by omega, hpast⟩, if_pos hpast, hindex]
  · rw [if_neg (fun h => hpast h.2), if_neg hpast]
    simp only [FrameBitmap.run_assignRange]
    rw [if_neg (by omega)]

/-- Once the bitmap's place is settled, only writing the bitmap can go wrong. -/
theorem writeBitmap_atStartOf {boot : BootInfo} {r : Region}
    (hpos : 0 < boot.map.bitmapBytes) (hsearch : boot.map.bitmapRegion? = some r)
    (hlast : ¬ r.InLastPage) (m : Machine) :
    (((atStartOf boot r).writeBitmap boot.map : Action Machine ε Unit).run m).1 =
      if boot.map.EntersLastPage then .stopped (.overflow .addition)
      else if boot.map.Overrun r then
        .stopped (.index boot.map.bitmapBytes boot.map.bitmapBytes)
      else .done () := by
  have htotal := index_stop_le_size boot r
  -- the bitmap starts inside a region, so its first frame is one that has a bit or the next one
  have hstart : (atStartOf boot r).bitmapFrame.index ≤ (atStartOf boot r).bitmap.size := by
    obtain ⟨hmem, hroom⟩ := MemoryMap.bitmapRegion?_eq_some hsearch
    have hfits := hroom.resolve_left hlast
    refine Nat.le_trans ?_ (htotal r hmem)
    rw [Region.HasRoom, Region.toNat_stop, Region.firstStart] at hfits
    rw [index_atStartOf hlast, Region.index_stop]
    omega
  rw [writeBitmap_outcome htotal (length_atStartOf boot r ▸ hpos) hstart, bitmapFrames,
    index_atStartOf hlast, FrameBitmap.size, length_atStartOf]
  rfl

/-- How building the allocator ends, by where the search for the bitmap's place ends. -/
theorem init_outcome_eq (boot : BootInfo) (m : Machine) :
    ((init boot).run m).1 =
      if boot.map.bitmapBytes = 0 then .refused .emptyMemoryMap
      else
        match boot.map.bitmapRegion? with
        | none => .refused (.noBitmapRegion (.ofNat boot.map.bitmapBytes))
        | some r =>
          if r.InLastPage then .stopped (.overflow .addition)
          else if boot.ShowsAtNull r then
            .refused (.noBitmapRegion (.ofNat boot.map.bitmapBytes))
          else if boot.map.EntersLastPage then .stopped (.overflow .addition)
          else if boot.map.Overrun r then
            .stopped (.index boot.map.bitmapBytes boot.map.bitmapBytes)
          else .done (atStartOf boot r) := by
  rw [init, place_eq]
  by_cases hzero : boot.map.bitmapBytes = 0
  · rw [if_pos hzero, if_pos hzero]
    rfl
  rw [if_neg hzero, if_neg hzero]
  cases hsearch : boot.map.bitmapRegion? with
  | none => rfl
  | some r =>
    by_cases hlast : r.InLastPage
    · simp only [hlast, if_true]
      rfl
    by_cases hnull : boot.ShowsAtNull r
    · simp only [hlast, if_false, hnull, if_true]
      rfl
    simp only [hlast, if_false, hnull]
    rw [Action.run_bind_done (Action.run_value_ok _ _), Action.run_bind]
    rcases hrun : ((atStartOf boot r).writeBitmap boot.map : Action Machine FrameError Unit).run m
      with ⟨o, t⟩
    have hwrite : (((atStartOf boot r).writeBitmap boot.map : Action Machine FrameError Unit).run
        m).1 = _ :=
      writeBitmap_atStartOf (Nat.pos_of_ne_zero hzero) hsearch hlast m
    rw [hrun] at hwrite
    obtain rfl := hwrite
    by_cases hlate : boot.map.EntersLastPage
    · simp only [hlate, if_true]
    by_cases hover : boot.map.Overrun r
    · simp only [hlate, if_false, hover, if_true]
    simp only [hlate, if_false, hover]
    rfl

end FrameAllocator

/-- Whether the search for the bitmap's place fails: no usable region can hold the bitmap, or the
one that can is shown at address 0. -/
def BootInfo.NoPlace (boot : BootInfo) : Prop :=
  boot.map.bitmapRegion? = none ∨
    ∃ r, boot.map.bitmapRegion? = some r ∧ ¬ r.InLastPage ∧ boot.ShowsAtNull r

/-- Whether the bitmap can be placed but its last page ends past the last frame that has a bit. -/
def BootInfo.PlacedTooHigh (boot : BootInfo) : Prop :=
  ∃ r, boot.map.bitmapRegion? = some r ∧ boot.map.Overrun r

/-- How building the allocator ends, for every memory map. There is nothing to track without a whole
frame of free RAM, and no place for the bitmap without a region that can hold it. Otherwise two kinds
of maps are no refusals but faults: those with a usable region whose base cannot be rounded up to a
page boundary, and those that place the bitmap so high that its last page lies past the last frame
that has a bit. All other maps give an allocator. -/
theorem init_outcome (boot : BootInfo) (m : Machine) :
    ((∃ p, ((FrameAllocator.init boot).run m).1 = .done p) ↔
      0 < boot.map.bitmapBytes ∧ ¬ boot.NoPlace ∧ ¬ boot.map.EntersLastPage ∧
        ¬ boot.PlacedTooHigh) ∧
    (∀ e, ((FrameAllocator.init boot).run m).1 = .refused e ↔
      (e = .emptyMemoryMap ∧ boot.map.bitmapBytes = 0) ∨
      (e = .noBitmapRegion (.ofNat boot.map.bitmapBytes) ∧ 0 < boot.map.bitmapBytes ∧
        boot.NoPlace)) ∧
    (∀ f, ((FrameAllocator.init boot).run m).1 = .stopped f ↔
      0 < boot.map.bitmapBytes ∧ ¬ boot.NoPlace ∧
      ((f = .overflow .addition ∧ boot.map.EntersLastPage) ∨
        (f = .index boot.map.bitmapBytes boot.map.bitmapBytes ∧ ¬ boot.map.EntersLastPage ∧
          boot.PlacedTooHigh))) := by
  rw [FrameAllocator.init_outcome_eq]
  by_cases hzero : boot.map.bitmapBytes = 0
  · simp [hzero, eq_comm]
  rw [if_neg hzero]
  cases hsearch : boot.map.bitmapRegion? with
  | none => simp [BootInfo.NoPlace, hsearch, hzero, Nat.pos_of_ne_zero, eq_comm]
  | some r =>
    have hpos := Nat.pos_of_ne_zero hzero
    have hplace : boot.NoPlace ↔ ¬ r.InLastPage ∧ boot.ShowsAtNull r := by
      simp [BootInfo.NoPlace, hsearch]
    have htooHigh : boot.PlacedTooHigh ↔ boot.map.Overrun r := by
      simp [BootInfo.PlacedTooHigh, hsearch]
    have hmem := (MemoryMap.bitmapRegion?_eq_some hsearch).1
    simp only [hplace, htooHigh]
    by_cases hlast : r.InLastPage
    · have hlate : boot.map.EntersLastPage := ⟨r, hmem, hlast⟩
      simp [hlast, hlate, hzero, hpos, eq_comm]
    by_cases hnull : boot.ShowsAtNull r
    · simp [hlast, hnull, hzero, hpos, eq_comm]
    by_cases hlate : boot.map.EntersLastPage
    · simp [hlast, hnull, hlate, hzero, hpos, eq_comm]
    by_cases hhigh : boot.map.Overrun r
    · simp [hlast, hnull, hlate, hhigh, hzero, hpos, eq_comm]
    · simp [hlast, hnull, hlate, hhigh, hzero, hpos, eq_comm]

namespace RaggedEnd

/-- A report of half a page of free RAM behind a page boundary. -/
def boot : BootInfo where
  map := [⟨⟨0x8000⟩, 0x800, .usable⟩]
  directOffset := 0xFFFF800000000000

end RaggedEnd

namespace TopOfMemory

/-- A report of free RAM in two regions, the second of which lies inside the last page. -/
def boot : BootInfo where
  map := [⟨⟨0⟩, 0x40000, .usable⟩, ⟨⟨0xFFFFFFFFFFFFF800⟩, 0x400, .usable⟩]
  directOffset := 0xFFFF800000000000

end TopOfMemory

/-- The bitmap's one byte has bits for the frames 0 to 7 and lies in frame 8, whose bit is to be set;
and no page boundary follows the base of the other report's second region. -/
theorem init_stopped_by_odd_maps :
    ((FrameAllocator.init RaggedEnd.boot).run ⟨.zeroed, #[], #[]⟩).1 =
      .stopped (.index 1 1) ∧
    ((FrameAllocator.init TopOfMemory.boot).run ⟨.zeroed, #[], #[]⟩).1 =
      .stopped (.overflow .addition) := by
  constructor <;> rfl

end MemoryManager
