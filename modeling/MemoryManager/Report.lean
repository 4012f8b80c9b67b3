import MemoryManager.Boot.MemoryMap
import MemoryManager.Paging.RootTable

namespace MemoryManager

/-- How serious a report is. -/
inductive Severity where
  | trace
  | debug
  | info
  | warn
  | error
  deriving DecidableEq

def Severity.name : Severity → String
  | trace => "TRACE"
  | debug => "DEBUG"
  | info => "INFO"
  | warn => "WARN"
  | error => "ERROR"

/-- One report. -/
inductive Report where
  | tracking (frames bytes : Nat) (bitmap : PhysicalAddress)
  | freeFrames (frames : Nat)
  | framesReady
  | freeIgnored (first stop : Nat) (error : FrameError)
  | tableCreated (level : Level) (frame : PhysicalFrame) (address : VirtualAddress)
  | mappingMemory
  | mappingRegion (base : PhysicalAddress) (length : UInt64) (kind : RegionKind)
  | mappingKernel
  | spacesReady
  | activationIgnored (arch : Architecture) (root : RootTable)
  | heapReady (bytes : UInt64) (start : VirtualAddress)
  | heapExtended (bytes : UInt64) (start : VirtualAddress) (total : UInt64)
  | releaseIgnored (address : VirtualAddress)
  | halting (subsystem : Subsystem) (cause : HaltCause)
  deriving DecidableEq

namespace Report

def severity : Report → Severity
  | tracking .. | freeFrames .. | heapExtended .. => .debug
  | framesReady | spacesReady | heapReady .. => .info
  | tableCreated .. | mappingMemory | mappingRegion .. | mappingKernel => .trace
  | freeIgnored .. | activationIgnored .. | releaseIgnored .. => .warn
  | halting .. => .error

def text : Report → String
  | tracking frames bytes bitmap =>
      "PMM: tracking " ++ Text.nat frames ++ " frames, " ++ Text.nat bytes ++
        "-byte bitmap at " ++ bitmap.debug
  | freeFrames frames => "PMM: " ++ Text.nat frames ++ " frames free"
  | framesReady => "PMM Initialized"
  | freeIgnored first stop error =>
      "PMM: ignoring free of frames " ++ Text.nat first ++ ".." ++ Text.nat stop ++ ": " ++
        error.message
  | tableCreated level frame address =>
      "created " ++ level.name ++ " table at " ++ frame.debug ++ " for " ++ address.debug
  | mappingMemory => "Mapping memmap entries..."
  | mappingRegion base length kind =>
      "  " ++ base.debug ++ " +" ++ Text.hex length ++ " (" ++ kind.name ++ ")"
  | mappingKernel => "Mapping kernel..."
  | spacesReady => "VMM Initialized"
  | activationIgnored arch root =>
      arch.name ++ ": cannot activate " ++ root.debug ++ ", paging not implemented"
  | heapReady bytes start =>
      "KHEAP: initialized with " ++ Text.nat bytes.toNat ++ " bytes at " ++ Text.hex start.value
  | heapExtended bytes start total =>
      "KHEAP: extended by " ++ Text.nat bytes.toNat ++ " bytes at " ++ Text.hex start.value ++
        ", now " ++ Text.nat total.toNat ++ " bytes"
  | releaseIgnored address => "Invalid kfree() address " ++ Text.hex address.value
  | halting subsystem cause => subsystem.name ++ ": " ++ cause.message

/-- The report as one line. -/
def line (r : Report) : String :=
  r.severity.name ++ " " ++ r.text

end Report

end MemoryManager
