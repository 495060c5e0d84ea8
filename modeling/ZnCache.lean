import ZnCache.ZoneState.Run
import ZnCache.MinHeap.Contract
import ZnCache.Promotional.Policy
import ZnCache.Cache.Cases
import ZnCache.ZoneState.Cases
import ZnCache.Promotional.FgEvict
import ZnCache.CacheMap.Bijection
import ZnCache.CacheMap.Waiters
import ZnCache.Promotional.Agreement
import ZnCache.Promotional.Publication
import ZnCache.Chunk.Evict
import ZnCache.Cache.Zones
import ZnCache.Chunk.Gc
import ZnCache.Chunk.Readers
import ZnCache.Lib.Drive
import ZnCache.WriteOut
import ZnCache.Chunk.Drain
import ZnCache.MinHeap.Handles
import ZnCache.ZoneState.Bounds
import ZnCache.ReadWorkload
import ZnCache.Lib.Listed
import ZnCache.Sequential.Refinement
import ZnCache.CacheMap.Encoding
import ZnCache.ZoneState.History
import ZnCache.ZoneState.DeviceErrors
import ZnCache.ZoneState.InvalidChunks
import ZnCache.Cache.WritePointers
import ZnCache.CacheMap.Cells
import ZnCache.Chunk.InStep
import ZnCache.Chunk.HeapAgreement
import ZnCache.Chunk.Identity
import ZnCache.Promotional.Recency
import ZnCache.CacheMap.Clearing
import ZnCache.ZoneState.Decisions
import ZnCache.Cache.ActiveReaders
import ZnCache.Workload
import ZnCache.Profiler
import ZnCache.Promotional.EvictBound
import ZnCache.Chunk.Recency
import ZnCache.Chunk.Filed
import ZnCache.Chunk.Cornered
import ZnCache.Chunk.Target
import ZnCache.Chunk.Progress
import ZnCache.Lib.Leads
import ZnCache.Cache.Entries
import ZnCache.Promotional.Finish
import ZnCache.Cache.WorkingSet
import ZnCache.MinHeap.Emptied
import ZnCache.Chunk.Contents
import ZnCache.Cache.Ledger
import ZnCache.ProfilerLines
import ZnCache.Chunk.AtRest
import ZnCache.Promotional.Cached
import ZnCache.Program.Defs
import ZnCache.Program.Served
import ZnCache.Program.Finish
import ZnCache.ProfilerTotals
import ZnCache.Program.Profiled
