import MemoryManager.Action
import MemoryManager.Memory
import MemoryManager.Paging.Cr3
import MemoryManager.Report

namespace MemoryManager

/-- A request to the memory-management unit. -/
inductive MmuRequest where
  | activate (root : UInt64)
  | invalidate (address : VirtualAddress)
  deriving DecidableEq

/-- The machine. Reports and requests are kept in the order in which they were made. -/
@[ext] structure Machine where
  memory : Memory
  reports : Array Report := #[]
  requests : Array MmuRequest := #[]

/-- The root-table register of the memory-management unit: one with the fields of `Cr3`, or one
that holds any frame. -/
inductive RootRegister where
  | cr3
  | wide
  deriving DecidableEq

/-- The register's value for a root table. -/
def RootRegister.valueFor (r : RootRegister) (f : PhysicalFrame) : Except Fault UInt64 :=
  match r with
  | cr3 => (Cr3.ofRoot f).map Cr3.bits
  | wide => .ok f.base.value

namespace Machine

variable {ε α : Type}

def load : Action Machine ε Memory := fun m =>
  (.done m.memory, m)

@[simp] theorem run_load (m : Machine) :
    (load : Action Machine ε Memory).run m = (.done m.memory, m) := (rfl)

def store (f : Memory → Memory) : Action Machine ε Unit :=
  .modify fun m => { m with memory := f m.memory }

@[simp] theorem run_store (f : Memory → Memory) (m : Machine) :
    (store f : Action Machine ε Unit).run m = (.done (), { m with memory := f m.memory }) := (rfl)

def report (r : Report) : Action Machine ε Unit :=
  .modify fun m => { m with reports := m.reports.push r }

@[simp] theorem run_report (r : Report) (m : Machine) :
    (report r : Action Machine ε Unit).run m =
      (.done (), { m with reports := m.reports.push r }) := (rfl)

def request (r : MmuRequest) : Action Machine ε Unit :=
  .modify fun m => { m with requests := m.requests.push r }

/-- Reports why a subsystem gives up, and stops. -/
def halt (subsystem : Subsystem) (cause : HaltCause) : Action Machine ε α := do
  report (.halting subsystem cause)
  .stop (.halted subsystem cause)

end Machine

/-- The machine and a part of the memory manager that changes with it. -/
@[ext] structure World (τ : Type) where
  machine : Machine
  part : τ

namespace World

variable {τ ε α : Type}

def onMachine (x : Action Machine ε α) : Action (World τ) ε α :=
  x.within World.machine fun w m => { w with machine := m }

theorem run_onMachine (x : Action Machine ε α) (w : World τ) :
    (onMachine x).run w = ((x.run w.machine).1, { w with machine := (x.run w.machine).2 }) := (rfl)

def load : Action (World τ) ε Memory :=
  onMachine Machine.load

@[simp] theorem run_load (w : World τ) :
    (load : Action (World τ) ε Memory).run w = (.done w.machine.memory, w) := (rfl)

def store (f : Memory → Memory) : Action (World τ) ε Unit :=
  onMachine (Machine.store f)

@[simp] theorem run_store (f : Memory → Memory) (w : World τ) :
    (store f : Action (World τ) ε Unit).run w =
      (.done (), ⟨{ w.machine with memory := f w.machine.memory }, w.part⟩) := (rfl)

def report (r : Report) : Action (World τ) ε Unit :=
  onMachine (Machine.report r)

@[simp] theorem run_report (r : Report) (w : World τ) :
    (report r : Action (World τ) ε Unit).run w =
      (.done (), ⟨{ w.machine with reports := w.machine.reports.push r }, w.part⟩) := (rfl)

def request (r : MmuRequest) : Action (World τ) ε Unit :=
  onMachine (Machine.request r)

@[simp] theorem run_request (r : MmuRequest) (w : World τ) :
    (request r : Action (World τ) ε Unit).run w =
      (.done (), ⟨{ w.machine with requests := w.machine.requests.push r }, w.part⟩) := (rfl)

/-- Reports why a subsystem gives up, and stops. -/
def halt (subsystem : Subsystem) (cause : HaltCause) : Action (World τ) ε α :=
  onMachine (Machine.halt subsystem cause)

end World

end MemoryManager
