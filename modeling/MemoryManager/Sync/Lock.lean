import MemoryManager.Text

namespace MemoryManager

/-- A lock that guards a value. -/
@[ext] structure Lock (α : Type) where
  held : Bool
  value : α

namespace Lock

variable {α : Type}

def free (value : α) : Lock α :=
  ⟨false, value⟩

/-- Takes the lock if it is free. -/
def tryAcquire (l : Lock α) : Option (Lock α) :=
  if l.held then none else some { l with held := true }

def release (l : Lock α) : Lock α :=
  { l with held := false }

/-- Changes the value under the lock; the lock is free again afterwards, also if the change
fails and leaves the value as it was. -/
def update {ε : Type} (l : Lock α) (change : α → Except ε α) : Except ε α × Lock α :=
  match change l.value with
  | .ok v => (.ok v, free v)
  | .error e => (.error e, release l)

def debug (l : Lock α) : String :=
  Text.someFields "SpinLock" [("locked", Text.bool l.held)]

end Lock

end MemoryManager
