import MemoryManager.AddressSpaces
import MemoryManager.Frames.Bitmap.Assignment

namespace MemoryManager

variable {σ τ ε δ α β γ : Type}

/-- However the action ends, what `view` shows of the state is as it was. -/
def Action.Preserves (view : σ → γ) (x : Action σ ε α) : Prop :=
  ∀ s, view (x.run s).2 = view s

namespace Action.Preserves

variable {view : σ → γ}

theorem pure (a : α) : (Pure.pure a : Action σ ε α).Preserves view := fun _ => rfl

theorem refuse (e : ε) : (refuse e : Action σ ε α).Preserves view := fun _ => rfl

theorem value (x : Except Fault α) : (value x : Action σ ε α).Preserves view := by
  intro s
  cases x <;> rfl

theorem bind {x : Action σ ε α} {f : α → Action σ ε β} (hx : x.Preserves view)
    (hf : ∀ a, (f a).Preserves view) : (x >>= f).Preserves view := by
  intro s
  have hfirst := hx s
  rw [run_bind]
  rcases hrun : x.run s with ⟨o, t⟩
  rw [hrun] at hfirst
  cases o with
  | done a => exact (hf a t).trans hfirst
  | refused e => exact hfirst
  | stopped e => exact hfirst

theorem attempt {x : Action σ ε α} (hx : x.Preserves view) :
    (x.attempt : Action σ δ (Except ε α)).Preserves view := by
  intro s
  have hfirst := hx s
  rw [run_attempt]
  rcases hrun : x.run s with ⟨o, t⟩
  rw [hrun] at hfirst
  cases o <;> exact hfirst

theorem forM {f : α → Action σ ε Unit} (hf : ∀ a, (f a).Preserves view) (l : List α) :
    (l.forM f).Preserves view := by
  induction l with
  | nil => exact pure ()
  | cons a l ih => exact (hf a).bind fun _ => ih

theorem foldlM {f : β → α → Action σ ε β} (hf : ∀ b a, (f b a).Preserves view) (b : β)
    (l : List α) : (l.foldlM f b).Preserves view := by
  induction l generalizing b with
  | nil => exact pure b
  | cons a l ih => exact (hf b a).bind fun c => ih c

end Action.Preserves

/-- The requests to the memory-management unit so far. -/
def World.requests (w : World τ) : Array MmuRequest :=
  w.machine.requests

/-- The action asks nothing of the memory-management unit, however it ends. -/
abbrev Action.Silent (x : Action (World τ) ε α) : Prop :=
  x.Preserves World.requests

namespace World

theorem silent_onMachine {x : Action Machine ε α} (hx : x.Preserves Machine.requests) :
    (onMachine x : Action (World τ) ε α).Silent :=
  fun w => hx w.machine

theorem silent_load : (load : Action (World τ) ε Memory).Silent := fun _ => rfl

theorem silent_store (f : Memory → Memory) : (store f : Action (World τ) ε Unit).Silent :=
  fun _ => rfl

theorem silent_report (r : Report) : (report r : Action (World τ) ε Unit).Silent := fun _ => rfl

end World

open MemoryManager.Action World

namespace FrameAllocator

theorem preserves_alloc (p : FrameAllocator) (pages : UInt64) :
    (p.alloc pages).Preserves Machine.requests := by
  unfold alloc
  split
  · exact .refuse _
  · refine Preserves.bind (fun _ => rfl) fun m => ?_
    split
    · exact .refuse _
    · refine Preserves.bind (fun t => ?_) fun _ => .pure _
      rw [FrameBitmap.run_assignRange]

theorem silent_take :
    (FrameSource.take : Action (World FrameAllocator) ε (Option PhysicalFrame)).Silent := by
  refine Preserves.bind (fun _ => rfl) fun w => ?_
  refine (silent_onMachine (w.part.preserves_alloc 1).attempt).bind fun r => ?_
  cases r <;> exact .pure _

end FrameAllocator

section Walks

variable [FrameSource τ]
  (htake : (FrameSource.take : Action (World τ) PagingError (Option PhysicalFrame)).Silent)

include htake

namespace FourLevel

theorem silent_createTable (p : FourLevel) (level : Level) :
    (p.createTable level : Action (World τ) PagingError PhysicalFrame).Silent := by
  refine htake.bind fun f => ?_
  cases f with
  | none => exact .refuse _
  | some f => exact Preserves.bind (.value _) fun _ => (silent_store _).bind fun _ => .pure _

omit [FrameSource τ] htake in
theorem silent_link {ε : Type} (a : VirtualAddress) (t : PhysicalFrame)
    (step : TableIndex × Level) (f : PhysicalFrame) :
    (link a t step f : Action (World τ) ε Unit).Silent :=
  Preserves.bind (.value _) fun _ => (silent_store _).bind fun _ => silent_report _

theorem silent_descend (p : FourLevel) (a : VirtualAddress) (t : PhysicalFrame)
    (step : TableIndex × Level) :
    (p.descend a t step : Action (World τ) PagingError PhysicalFrame).Silent := by
  have hreach (next : PhysicalFrame) :
      (do p.reach next; pure next : Action (World τ) PagingError PhysicalFrame).Silent :=
    .bind (.value _) fun _ => .pure _
  refine silent_load.bind fun m => ?_
  dsimp only
  split
  · exact Preserves.bind (.pure _) hreach
  · exact (silent_createTable htake p _).bind fun f => (silent_link a t step f).bind fun _ =>
      .bind (.pure _) hreach

theorem silent_leafTable (p : FourLevel) (root : RootTable) (a : VirtualAddress) :
    (p.leafTable root a : Action (World τ) PagingError PhysicalFrame).Silent :=
  .bind (.value _) fun _ => .foldlM (silent_descend htake p a) _ _

theorem silent_map (p : FourLevel) (root : RootTable) (target : PhysicalAddress)
    (a : VirtualAddress) (flags : PageFlags) :
    (p.map root target a flags : Action (World τ) PagingError Unit).Silent :=
  (silent_leafTable htake p root a).bind fun _ => silent_load.bind fun _ =>
    .bind (.value _) fun _ => silent_store _

theorem silent_newRoot (p : FourLevel) :
    (p.newRoot : Action (World τ) PagingError RootTable).Silent :=
  (silent_createTable htake p _).bind fun _ => .bind (.value _) fun _ => .pure _

end FourLevel

namespace AddressSpaces

theorem silent_map (p : Paging) (root : RootTable) (target : PhysicalAddress) (a : VirtualAddress)
    (flags : PageFlags) :
    (p.map root target a flags : Action (World τ) PagingError Unit).Silent := by
  unfold Paging.map
  split
  · exact FourLevel.silent_map htake _ _ _ _ _
  · exact .refuse _

theorem silent_newRoot (p : Paging) :
    (p.newRoot : Action (World τ) PagingError RootTable).Silent := by
  unfold Paging.newRoot
  split
  · exact FourLevel.silent_newRoot htake _
  · refine htake.bind fun f => ?_
    cases f with
    | none => exact .refuse _
    | some f => exact Preserves.bind (.value _) fun _ => (silent_store _).bind fun _ => .pure _

theorem silent_mapPages (p : Paging) (root : RootTable) (target : PhysicalAddress)
    (a : VirtualAddress) (flags : PageFlags) (page n : Nat) :
    (mapPages p root target a flags page n : Action (World τ) PagingError Unit).Silent := by
  induction n generalizing page with
  | zero => exact .pure _
  | succ n ih =>
    exact Preserves.bind (.value _) fun _ => (silent_map htake p root _ _ flags).bind fun _ => ih _

theorem silent_mapRange (p : Paging) (root : RootTable) (target : PhysicalAddress)
    (a : VirtualAddress) (size : UInt64) (flags : PageFlags) :
    (mapRange p root target a size flags : Action (World τ) PagingError Unit).Silent :=
  .bind (.value _) fun _ => silent_mapPages htake p root target a flags _ _

theorem silent_mapRegion (p : Paging) (root : RootTable) (offset : UInt64) (r : Region) :
    (mapRegion p root offset r : Action (World τ) PagingError Unit).Silent :=
  (silent_report _).bind fun _ => silent_mapRange htake p root _ _ _ _

end AddressSpaces

end Walks

end MemoryManager
