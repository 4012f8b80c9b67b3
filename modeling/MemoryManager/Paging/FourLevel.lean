import MemoryManager.Paging.FrameSource
import MemoryManager.Paging.RootTable
import MemoryManager.Paging.TableMemory

namespace MemoryManager

/-- Four-level paging through a direct map and a root-table register. -/
structure FourLevel where
  directMap : DirectMap
  register : RootRegister
  deriving DecidableEq

namespace FourLevel

variable {σ τ ε : Type}

/-- The positions above the last table that a virtual address selects, each with the level of the
table that it leads to. -/
def path (a : VirtualAddress) : List (TableIndex × Level) :=
  [(.select a .pml4, .pdpt), (.select a .pdpt, .pd), (.select a .pd, .pt)]

def positions (a : VirtualAddress) : List TableIndex :=
  (path a).map Prod.fst

def leafIndex (a : VirtualAddress) : TableIndex :=
  .select a .pt

/-- Makes sure that the direct map covers the table in a frame. -/
def reach (p : FourLevel) (table : PhysicalFrame) : Action σ ε Unit :=
  .value ((p.directMap.reach table.base).map fun _ => ())

/-- Takes a frame for a table of the given level and clears it. -/
def createTable [FrameSource τ] (p : FourLevel) (level : Level) :
    Action (World τ) PagingError PhysicalFrame := do
  match ← FrameSource.take with
  | none => .refuse (.outOfMemory (.atLevel level))
  | some frame =>
    p.reach frame
    World.store fun m => m.zeroTable frame
    pure frame

/-- Lets the entry of a table lead to the new table in a frame. -/
def link (a : VirtualAddress) (table : PhysicalFrame) (step : TableIndex × Level)
    (frame : PhysicalFrame) : Action (World τ) ε Unit := do
  let e ← .value (PageEntry.tableLink frame)
  World.store fun m => m.setEntry table step.1 e
  World.report (.tableCreated step.2 frame a)

/-- The table that an entry leads to; if there is none, one is created and then linked. -/
def descend [FrameSource τ] (p : FourLevel) (a : VirtualAddress) (table : PhysicalFrame)
    (step : TableIndex × Level) : Action (World τ) PagingError PhysicalFrame := do
  let e := (← World.load).entry table step.1
  let next ←
    if e.present then pure e.frame
    else do
      let frame ← p.createTable step.2
      link a table step frame
      pure frame
  p.reach next
  pure next

/-- The last table on the way to an address; missing tables are created, and stay linked if a
later one cannot be created. -/
def leafTable [FrameSource τ] (p : FourLevel) (root : RootTable) (a : VirtualAddress) :
    Action (World τ) PagingError PhysicalFrame := do
  p.reach root.frame
  (path a).foldlM (p.descend a) root.frame

/-- Changes the entry that an address selects in a last table. -/
def updateLeaf (table : PhysicalFrame) (a : VirtualAddress) (e : PageEntry) :
    Action (World τ) ε Unit :=
  World.store fun m => m.setEntry table (leafIndex a) e

/-- The table that the positions lead to, if every table on the way is there. -/
def walk? (p : FourLevel) (m : Memory) :
    List TableIndex → PhysicalFrame → Except Fault (Option PhysicalFrame)
  | [], table => pure (some table)
  | i :: is, table => do
    let e := m.entry table i
    if e.present then
      let _ ← p.directMap.reach e.frame.base
      walk? p m is e.frame
    else pure none

/-- The last table on the way to an address, if every table on the way is there. -/
def leafTable? (p : FourLevel) (m : Memory) (root : RootTable) (a : VirtualAddress) :
    Except Fault (Option PhysicalFrame) := do
  let _ ← p.directMap.reach root.frame.base
  p.walk? m (positions a) root.frame

/-- The entry that an address selects in its last table; missing tables are created. -/
def leafEntry [FrameSource τ] (p : FourLevel) (root : RootTable) (a : VirtualAddress) :
    Action (World τ) PagingError PageEntry := do
  let table ← p.leafTable root a
  return (← World.load).entry table (leafIndex a)

def newRoot [FrameSource τ] (p : FourLevel) : Action (World τ) PagingError RootTable := do
  let frame ← p.createTable .pml4
  let window ← .value (p.directMap.reach frame.base)
  pure ⟨frame, window⟩

/-- Lets the page of `a` name the frame of `target`, with the rights of `flags`. -/
def map [FrameSource τ] (p : FourLevel) (root : RootTable) (target : PhysicalAddress)
    (a : VirtualAddress) (flags : PageFlags) : Action (World τ) PagingError Unit := do
  let table ← p.leafTable root a
  let e := (← World.load).entry table (leafIndex a)
  let e ← .value (e.setFrame target)
  updateLeaf table a (e.applyFlags flags)

/-- Takes the mapping of the page of `a` away. -/
def unmap [FrameSource τ] (p : FourLevel) (root : RootTable) (a : VirtualAddress) :
    Action (World τ) PagingError Unit := do
  let table ← p.leafTable root a
  let e := (← World.load).entry table (leafIndex a)
  updateLeaf table a e.clearMapping
  World.request (.invalidate a)

def setFlags [FrameSource τ] (p : FourLevel) (root : RootTable) (a : VirtualAddress)
    (flags : PageFlags) : Action (World τ) PagingError Unit := do
  let table ← p.leafTable root a
  let e := (← World.load).entry table (leafIndex a)
  updateLeaf table a (e.applyFlags flags)

/-- The physical address that a virtual address stands for. -/
def translate (p : FourLevel) (m : Memory) (root : RootTable) (a : VirtualAddress) :
    Except Fault (Option PhysicalAddress) := do
  match ← p.leafTable? m root a with
  | none => pure none
  | some table =>
    let e := m.entry table (leafIndex a)
    if e.present then some <$> e.frame.base.add (pageOffset a.value) else pure none

/-- Visits the present entries among the first `count` of a table, in order. Every entry is read
when its turn comes. -/
def forPresent (table : PhysicalFrame) (count : Nat) (visit : PageEntry → Action (World τ) ε Unit) :
    Action (World τ) ε Unit :=
  ((List.finRange 512).take count).forM fun i => do
    let e := (← World.load).entry table i
    if e.present then visit e

/-- Gives back everything below the first `count` entries of a table that has `depth` levels of
tables below it: the frames that the last tables name, and every table after its own entries. -/
def releaseBelow [FrameSource τ] (p : FourLevel) :
    (depth : Nat) → (table : PhysicalFrame) → (count : Nat) → Action (World τ) ε Unit
  | 0, table, count => forPresent table count fun e => FrameSource.give e.frame
  | depth + 1, table, count => forPresent table count fun e => do
    p.reach e.frame
    releaseBelow p depth e.frame tableEntries
    FrameSource.give e.frame

/-- Gives back the lower half of an address space, and its root table last. -/
def destroy [FrameSource τ] (p : FourLevel) (root : RootTable) : Action (World τ) ε Unit := do
  p.reach root.frame
  p.releaseBelow 3 root.frame lowerHalfEntries
  FrameSource.give root.frame

def activate (p : FourLevel) (root : RootTable) : Action (World τ) ε Unit := do
  let v ← .value (p.register.valueFor root.frame)
  World.request (.activate v)

end FourLevel

end MemoryManager
