import MemoryManager.Address.Rounding
import MemoryManager.Machine
import MemoryManager.BitField
import MemoryManager.Memory.Words
import MemoryManager.DirectMap
import MemoryManager.Boot.Info
import MemoryManager.Paging.Cr3
import MemoryManager.Paging.Table
import MemoryManager.Sync.Lock
import MemoryManager.Sync.Slot
import MemoryManager.Frames.Allocator
import MemoryManager.Frames.Bitmap.Assignment
import MemoryManager.AddressSpaces
import MemoryManager.Services
import MemoryManager.Proofs.Frames.Search
import MemoryManager.Proofs.Rounding
import MemoryManager.Proofs.Frames.Boot
import MemoryManager.Proofs.Frames.Transfers
import MemoryManager.Proofs.Frames.Requests
import MemoryManager.Proofs.Frames.Ownership
import MemoryManager.Proofs.Heap.Headers
import MemoryManager.Proofs.Heap.Links
import MemoryManager.Proofs.Heap.Tiling
import MemoryManager.Proofs.Heap.Layout
import MemoryManager.Proofs.Heap.Operations
import MemoryManager.Proofs.Heap.Release
import MemoryManager.Proofs.Heap.Growth
import MemoryManager.Proofs.Heap.Allocation
import MemoryManager.Proofs.Heap.Runs
import MemoryManager.Proofs.Heap.Structure
import MemoryManager.Proofs.Heap.Payloads
import MemoryManager.Proofs.Paging.Sources
import MemoryManager.Proofs.Paging.Tables
import MemoryManager.Proofs.Paging.Walks
import MemoryManager.Proofs.Paging.PageMap
import MemoryManager.Proofs.Paging.Requests
import MemoryManager.Proofs.Paging.Isolation
import MemoryManager.Proofs.Paging.PostOrder
import MemoryManager.Proofs.Paging.Teardown
import MemoryManager.Proofs.Frames.Custody
import MemoryManager.Proofs.Sharing.Footprints
import MemoryManager.Proofs.Sharing.Runs
import MemoryManager.Proofs.Sharing.Subsystems
import MemoryManager.Proofs.Frames.BootBitmap
import MemoryManager.Proofs.Paging.KernelSpace
import MemoryManager.Proofs.Paging.KernelRoot
import MemoryManager.Proofs.Heap.Bytes
import MemoryManager.Proofs.Heap.Order
import MemoryManager.Proofs.Frames.BootOutcome
import MemoryManager.Proofs.Paging.Changes
import MemoryManager.Proofs.Paging.Rights
import MemoryManager.Proofs.Paging.CachedWalks
import MemoryManager.Proofs.Paging.Building
import MemoryManager.Proofs.Services.Requests
import MemoryManager.Proofs.Services.Sessions
import MemoryManager.Proofs.Services.Repeats
import MemoryManager.Proofs.Heap.ReleaseOrder
import MemoryManager.Proofs.Heap.Coalescing
import MemoryManager.Proofs.Heap.RoundTrip
import MemoryManager.Proofs.Heap.ReleasedMemory
import MemoryManager.Proofs.Paging.Ranges
import MemoryManager.Proofs.Paging.PageZero
import MemoryManager.Proofs.Paging.Presence
import MemoryManager.Proofs.Frames.Releases
import MemoryManager.Proofs.Paging.Supply
import MemoryManager.Proofs.Paging.TableCount
import MemoryManager.Proofs.Paging.Exhaustion
import MemoryManager.Proofs.Frames.RoundTrip
import MemoryManager.Proofs.Heap.FirstFit
import MemoryManager.Proofs.Heap.Refusals
import MemoryManager.Proofs.Services.Layouts
