/-
  ZnCache.Chunk.Policy — `eviction/chunk.c` up to `zn_policy_chunk_update`, and
  the chunk policy's part of `zn_evict_policy_init`.

  A pointer into the pool is the pair of its indices.  The queue and the table
  hold such pointers; what the pool has there is a `zn_pair` of its own, which
  need not say the same.

  `g_new` leaves the pool as it finds it, so what it finds is a parameter: a
  zone's number, its heap entry and the zones and ids of its chunks are not set
  before they are written.

  `zn_policy_chunk_evict` keeps `policy_mutex` over many steps; `locked` says
  that some thread has it.  `chunk_buf` is used by nobody.
-/
import ZnCache.Backend
import ZnCache.MinHeap.Defs
import ZnCache.Lib.LinkQueue

namespace ZnCache

open Lib

/-- `struct eviction_policy_chunk_zone`; `none` is a NULL entry. -/
structure EvictionPolicyChunkZone where
  zoneId : Nat
  chunks : Nat → ZnPair
  chunksInUse : Nat
  filled : Bool
  pqueueEntry : Option Nat

/-- `struct zn_policy_chunk`, less the pointer to the cache.  The table maps a
chunk to NULL or to its link; a chunk that is not in the table has no value. -/
structure ZnPolicyChunk where
  lruQueue : LinkQueue (Nat × Nat)
  chunkToLruMap : Nat × Nat → Option (Option Nat)
  locked : Bool
  invalidPqueue : ZnMinheap
  zonePool : Nat → EvictionPolicyChunkZone
  totalChunks : Nat

/-- `zn_evict_policy_init`, the case `ZN_EVICT_CHUNK`, on the memory `mem` that
`g_new` returns; `total_chunks` is a `uint32_t`. -/
def znPolicyChunkInit (mem : Nat → EvictionPolicyChunkZone) (g : Geometry) : ZnPolicyChunk where
  lruQueue := LinkQueue.empty
  chunkToLruMap := fun chunk =>
    if chunk.1 < g.nrZones ∧ chunk.2 < g.maxZoneChunks then some none else none
  locked := false
  invalidPqueue := znMinheapInit g.nrZones
  zonePool := fun z => { mem z with
    chunksInUse := 0
    filled := false
    chunks := fun c => { (mem z).chunks c with chunkOffset := 0, inUse := false } }
  totalChunks := g.nrZones * g.maxZoneChunks % 2 ^ 32

namespace ZnPolicyChunk

/-- The chunks in recency order, least recent first. -/
def lru (p : ZnPolicyChunk) : List (Nat × Nat) := p.lruQueue.toList

/-- The record a pointer into the pool points to. -/
def pair (p : ZnPolicyChunk) (chunk : Nat × Nat) : ZnPair := (p.zonePool chunk.1).chunks chunk.2

/-- Overwrite the record of one zone of the pool. -/
def setZone (p : ZnPolicyChunk) (z : Nat) (zone : EvictionPolicyChunkZone) : ZnPolicyChunk :=
  { p with zonePool := Function.update p.zonePool z zone }

/-- Append a chunk to the queue and map it to its link. -/
def pushLink (p : ZnPolicyChunk) (chunk : Nat × Nat) : ZnPolicyChunk :=
  let queue := p.lruQueue.pushTail chunk
  { p with
    lruQueue := queue
    chunkToLruMap := Function.update p.chunkToLruMap chunk (some queue.peekTailLink) }

end ZnPolicyChunk

namespace EvictionPolicyChunkZone

/-- `chunks[c] = pair`. -/
def setChunk (zone : EvictionPolicyChunkZone) (c : Nat) (pair : ZnPair) : EvictionPolicyChunkZone :=
  { zone with chunks := Function.update zone.chunks c pair }

/-- `chunks_in_use++`, on a `uint32_t`. -/
def oneMore (zone : EvictionPolicyChunkZone) : EvictionPolicyChunkZone :=
  { zone with chunksInUse := (zone.chunksInUse + 1) % 2 ^ 32 }

/-- `chunks_in_use--`. -/
def oneLess (zone : EvictionPolicyChunkZone) : EvictionPolicyChunkZone :=
  { zone with chunksInUse := u32Sub zone.chunksInUse 1 }

end EvictionPolicyChunkZone

/-- `zn_policy_chunk_update`, the body under `policy_mutex`. -/
def znPolicyChunkUpdate (g : Geometry) (p : ZnPolicyChunk) (location : ZnPair) (ioType : ZnIoType) :
    Except Fault ZnPolicyChunk :=
  let chunk := (location.zone, location.chunkOffset)
  match p.chunkToLruMap chunk with
  -- "Should always be present (might be NULL)"
  | none => .error .assertion
  | some node =>
    match ioType with
    | .write => do
      check ((p.pair chunk).inUse = false)
      let zpc := { ((p.zonePool location.zone).setChunk location.chunkOffset
        { location with inUse := true }).oneMore with zoneId := location.zone }
      let p' := (p.setZone location.zone zpc).pushLink chunk
      -- `max_zone_chunks` is a `uint64_t`, and so is the difference
      if location.chunkOffset = (g.maxZoneChunks + 2 ^ 64 - 1) % 2 ^ 64 then do
        let (entry, heap) ← znMinheapInsert p'.invalidPqueue location.zone zpc.chunksInUse
        return { p'.setZone location.zone { zpc with pqueueEntry := some entry, filled := true } with
          invalidPqueue := heap }
      else return p'
    | .read =>
      match node with
      -- evicted while it was read
      | none => .ok p
      | some node =>
        match p.lruQueue.linkData node with
        | none => .error .badPointer
        | some data =>
          let queue := (p.lruQueue.deleteLink node).pushTail data
          .ok { p with
            lruQueue := queue
            chunkToLruMap := Function.update p.chunkToLruMap chunk (some queue.peekTailLink) }

end ZnCache
