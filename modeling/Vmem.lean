import Vmem.Library.Span
import Vmem.Library.OrderedTree
import Vmem.Jemalloc.Config
import Vmem.Jemalloc.Chunk
import Vmem.Jemalloc.FreeTrees
import Vmem.Jemalloc.TreeSections
import Vmem.Jemalloc.ChunkRecord
import Vmem.Jemalloc.ChunkRecycle
import Vmem.Jemalloc.ChunkStats
import Vmem.Jemalloc.PoolSections
import Vmem.Jemalloc.Base
import Vmem.Jemalloc.BaseSections
import Vmem.Jemalloc.ZeroedExtents
import Vmem.Jemalloc.RecycleOutcome
import Vmem.Jemalloc.PoolCreation
import Vmem.Jemalloc.Huge
import Vmem.Jemalloc.Ledger
import Vmem.Library.Run
import Vmem.Jemalloc.Ownership
import Vmem.Jemalloc.HugeAccounts
import Vmem.Jemalloc.OwnershipRun
import Vmem.Jemalloc.ChunkMachine
import Vmem.Jemalloc.PoolCheck
import Vmem.Jemalloc.PoolCheckRun
import Vmem.Jemalloc.HugeThreads
import Vmem.Jemalloc.HugeThreadSteps
import Vmem.Jemalloc.HugeThreadsRun
import Vmem.Library.Mapping
import Vmem.Vmmalloc.Fork
import Vmem.Vmmalloc.ForkHandlers
import Vmem.Vmmalloc.ForkIsolation
import Vmem.Vmmalloc.Create
import Vmem.Library.Bytes
import Vmem.Jemalloc.Registry
import Vmem.Jemalloc.RegistryMemory
import Vmem.Jemalloc.RegistryRefines
import Vmem.Jemalloc.RegistryRun
import Vmem.Jemalloc.ThreadArrays
import Vmem.Jemalloc.ThreadArraySteps
import Vmem.Jemalloc.ThreadCaches
import Vmem.Jemalloc.ThreadCachesRun
import Vmem.Vmmalloc.CloneFile
import Vmem.Libvmem.Create
import Vmem.Jemalloc.SizeClasses
import Vmem.Jemalloc.Blocks
import Vmem.Vmmalloc.Startup
import Vmem.Library.Ring
import Vmem.Library.Locks
import Vmem.Library.Cells
import Vmem.Jemalloc.ArenaLoads
import Vmem.Jemalloc.ArenaLoadsRun
import Vmem.Jemalloc.ThreadExit
import Vmem.Jemalloc.ThreadExitRun
import Vmem.Jemalloc.Quarantine
import Vmem.Jemalloc.QuarantineRun
import Vmem.Jemalloc.HugeLedger
import Vmem.Jemalloc.ZeroedRun
import Vmem.Jemalloc.NodeSupply
import Vmem.Jemalloc.ChunkThreads
import Vmem.Jemalloc.ChunkThreadsRun
import Vmem.Jemalloc.PoolLocks
import Vmem.Jemalloc.LockDiscipline
import Vmem.Jemalloc.LockDisciplineRun
import Vmem.Jemalloc.SmallestExtent
import Vmem.Jemalloc.RecordOutcome
import Vmem.Jemalloc.BaseRegion
import Vmem.Jemalloc.MetadataSame
import Vmem.Jemalloc.PoolRun
import Vmem.Jemalloc.PoolRalloc
import Vmem.Jemalloc.RallocPaths
import Vmem.Jemalloc.RallocFailure
import Vmem.Jemalloc.RecycleExact
import Vmem.Jemalloc.ChunkBooks
import Vmem.Jemalloc.ArenaStats
import Vmem.Jemalloc.PoolMinimum
import Vmem.Library.DoubleSum
import Vmem.Common.Checksum
import Vmem.Common.ChecksumChecks
import Vmem.Library.Scanf
import Vmem.Common.ParseSize
import Vmem.Library.Lines
import Vmem.Common.MapTracker
import Vmem.Common.RangeIsPmem
import Vmem.Common.TrackerHeap
import Vmem.Common.UnregisterFailures
import Vmem.Common.UnregisterWrapped
import Vmem.Common.MapTrackerThreads
import Vmem.Windows.WinMmap
import Vmem.Windows.MmapSplit
import Vmem.Windows.Holdings
import Vmem.Windows.MappingCut
import Vmem.Windows.MunmapLoop
import Vmem.Windows.MunmapExact
import Vmem.Windows.MappingMemory
import Vmem.Windows.SplitFailures
import Vmem.Windows.MunmapFailures
import Vmem.Windows.MmapFailures
import Vmem.Windows.MappingOwnership
import Vmem.Windows.Mprotect
import Vmem.Jemalloc.PoolCalloc
import Vmem.Jemalloc.AlignedSizes
import Vmem.Jemalloc.BaseBlocks
import Vmem.Jemalloc.BaseBlocksRun
import Vmem.Common.MapHint
import Vmem.Library.BitMix
import Vmem.Common.Rand
import Vmem.Library.Signed
import Vmem.Jemalloc.Vector
import Vmem.Common.ReadLine
import Vmem.Library.Text
import Vmem.Common.Out
import Vmem.Common.FileAccess
import Vmem.Library.Squeeze
import Vmem.Utils.CheckLicense
import Vmem.Library.LeftLeaning
import Vmem.Library.LeftLeaningEdits
import Vmem.Jemalloc.RbLinks
import Vmem.Jemalloc.RbTree
import Vmem.Jemalloc.RbHeap
import Vmem.Jemalloc.RbHeapRemove
import Vmem.Jemalloc.RbSearch
import Vmem.Jemalloc.RbTreeRun
import Vmem.Jemalloc.ArenaAlloc
import Vmem.Jemalloc.ArenaPurge
import Vmem.Jemalloc.ArenaPurgeRun
import Vmem.Jemalloc.ArenaThreads
import Vmem.Jemalloc.ArenaPalloc
import Vmem.Library.Tiling
import Vmem.Jemalloc.ArenaMap
import Vmem.Jemalloc.RunLayout
import Vmem.Jemalloc.ArenaBooks
import Vmem.Jemalloc.ArenaAvail
import Vmem.Jemalloc.ArenaSplit
import Vmem.Jemalloc.ArenaCoalesce
import Vmem.Jemalloc.ArenaDalloc
import Vmem.Jemalloc.ArenaTrim
import Vmem.Jemalloc.RunMap
import Vmem.Jemalloc.LiveRuns
import Vmem.Jemalloc.ArenaStash
import Vmem.Jemalloc.ArenaSections
import Vmem.Jemalloc.ArenaRefines
import Vmem.Jemalloc.ArenaRun
