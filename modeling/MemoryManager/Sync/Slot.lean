import MemoryManager.Fault

namespace MemoryManager

/-- A named place for a value that is installed once. -/
@[ext] structure Slot (α : Type) where
  name : String
  content : Option α := none

namespace Slot

variable {α : Type}

def isInstalled (s : Slot α) : Bool :=
  s.content.isSome

def install? (s : Slot α) (value : α) : Option (Slot α) :=
  if s.isInstalled then none else some { s with content := some value }

/-- The value of a filled slot. -/
def get (s : Slot α) : Except Fault α :=
  match s.content with
  | some v => .ok v
  | none => .error (.uninitialized s.name)

def put (s : Slot α) (value : α) : Slot α :=
  { s with content := s.content.map fun _ => value }

theorem install?_eq_none_iff (s : Slot α) (v : α) : s.install? v = none ↔ s.isInstalled := by
  simp [install?]

end Slot

end MemoryManager
