import SegregatedFit.Audit.Heap
import SegregatedFit.Block.Tiling
import SegregatedFit.Config.Environment
import SegregatedFit.FreeLists.Ring
import SegregatedFit.Heap.Lifecycle
import SegregatedFit.Heap.Payload
import SegregatedFit.Log.Replay
import SegregatedFit.Proofs.Block.Frame
import SegregatedFit.Proofs.Block.Row
import SegregatedFit.Proofs.Block.Partition
import SegregatedFit.Proofs.FreeLists.Threading
import SegregatedFit.Proofs.FreeLists.Index
import SegregatedFit.Proofs.FreeLists.FirstFit
import SegregatedFit.Proofs.Audit.Heap
import SegregatedFit.Proofs.Client.Atomicity
import SegregatedFit.Proofs.Client.LiveData
import SegregatedFit.Proofs.Client.Strays
import SegregatedFit.Proofs.FreeLists.Evolution
import SegregatedFit.Proofs.Heap.Figures
import SegregatedFit.Proofs.Heap.Readings
import SegregatedFit.Proofs.Block.Filling
import SegregatedFit.Proofs.Client.Accounting
import SegregatedFit.Proofs.Client.Draining
import SegregatedFit.Proofs.Agreement
import SegregatedFit.Proofs.Plain.Basic
import SegregatedFit.Proofs.Plain.FreeSpace
import SegregatedFit.Proofs.Plain.Operations
import SegregatedFit.Proofs.Client.Indistinct
import SegregatedFit.Proofs.Plain.Bounds
import SegregatedFit.Proofs.Client.Safety
import SegregatedFit.Proofs.Client.Lifecycle
import SegregatedFit.Proofs.Heap.Logging
import SegregatedFit.Proofs.Client.History
import SegregatedFit.Proofs.Heap.Supply
import SegregatedFit.Proofs.Client.Effects
import SegregatedFit.Proofs.Client.Replies
import SegregatedFit.Proofs.Client.Searching
import SegregatedFit.Proofs.Client.Relocations
import SegregatedFit.Proofs.Client.Staleness
import SegregatedFit.Proofs.Client.SecondFree
import SegregatedFit.Proofs.Audit.Bounds
import SegregatedFit.Proofs.Client.Neutrality
import SegregatedFit.Proofs.Client.FailedLayouts
import SegregatedFit.Proofs.Client.Reuse
import SegregatedFit.Proofs.Client.Covering
import SegregatedFit.Proofs.Text.Meaning
import SegregatedFit.Proofs.Config.Settled
import SegregatedFit.Proofs.Heap.Narrating
import SegregatedFit.Proofs.Client.Narration
