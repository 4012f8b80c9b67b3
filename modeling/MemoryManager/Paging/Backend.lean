import MemoryManager.Paging.FourLevel

namespace MemoryManager

/-- Paging for an architecture. Four-level paging is there for one of them; on the others an address
space is a root table that nothing can be mapped in. -/
structure Paging where
  arch : Architecture
  directMap : DirectMap
  register : RootRegister
  deriving DecidableEq

namespace Paging

variable {τ ε : Type}

/-- The architecture's four-level paging, if it has one. -/
def fourLevel? (p : Paging) : Option FourLevel :=
  match p.arch with
  | .x86_64 => some ⟨p.directMap, p.register⟩
  | _ => none

/-- Creates a root table that stays empty. -/
def newBareRoot [FrameSource τ] (p : Paging) : Action (World τ) PagingError RootTable := do
  match ← FrameSource.take with
  | none => .refuse (.outOfMemory .root)
  | some frame =>
    let window ← .value (p.directMap.reach frame.base)
    World.store fun m => m.zeroTable frame
    pure ⟨frame, window⟩

def newRoot [FrameSource τ] (p : Paging) : Action (World τ) PagingError RootTable :=
  match p.fourLevel? with
  | some f => f.newRoot
  | none => p.newBareRoot

def destroy [FrameSource τ] (p : Paging) (root : RootTable) : Action (World τ) ε Unit :=
  match p.fourLevel? with
  | some f => f.destroy root
  | none => FrameSource.give root.frame

/-- Makes an address space the active one, where that is possible. -/
def activate (p : Paging) (root : RootTable) : Action (World τ) ε Unit :=
  match p.fourLevel? with
  | some f => f.activate root
  | none => World.report (.activationIgnored p.arch root)

def map [FrameSource τ] (p : Paging) (root : RootTable) (target : PhysicalAddress)
    (a : VirtualAddress) (flags : PageFlags) : Action (World τ) PagingError Unit :=
  match p.fourLevel? with
  | some f => f.map root target a flags
  | none => .refuse (.unsupported p.arch)

def unmap [FrameSource τ] (p : Paging) (root : RootTable) (a : VirtualAddress) :
    Action (World τ) PagingError Unit :=
  match p.fourLevel? with
  | some f => f.unmap root a
  | none => .refuse (.unsupported p.arch)

def setFlags [FrameSource τ] (p : Paging) (root : RootTable) (a : VirtualAddress)
    (flags : PageFlags) : Action (World τ) PagingError Unit :=
  match p.fourLevel? with
  | some f => f.setFlags root a flags
  | none => .refuse (.unsupported p.arch)

/-- The physical address that a virtual address stands for. -/
def translate (p : Paging) (m : Memory) (root : RootTable) (a : VirtualAddress) :
    Except Fault (Option PhysicalAddress) :=
  match p.fourLevel? with
  | some f => f.translate m root a
  | none => .ok none

end Paging

end MemoryManager
