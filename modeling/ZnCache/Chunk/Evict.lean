/-
  ZnCache.Chunk.Evict — `zn_policy_chunk_evict` and `zn_policy_chunk_gc`.

  One step is one call that takes a lock of its own, or one transfer of a
  chunk; what the function does to the policy alone goes with the step before
  or after it, for `policy_mutex` is held throughout.  A pass of the collector
  over a zone runs from `gcScan` to `gcFree`.

  What `zsm_evict` returns is not looked at here.
-/
import ZnCache.Cache.Cases
import ZnCache.Chunk.Policy

namespace ZnCache

open Lib

/-- Where a thread is in `zn_policy_chunk_evict`; `old` is the zone of the pool
that is collected, `i` the chunk of it that is looked at. -/
inductive ChunkEvict where
  | lock
  | pop (i nrEvict : Nat)
  | mark (i nrEvict : Nat) (zp : ZnPair)
  | clear (i nrEvict : Nat) (zp : ZnPair)
  | gc
  | gcLoop (freeZones : Nat)
  | gcScan (old i : Nat)
  | gcRead (old i : Nat) (newLocation : ZnPair)
  | gcWrite (old i : Nat) (newLocation : ZnPair) (data : Buffer)
  | gcInsert (old i : Nat) (newLocation : ZnPair)
  | gcClear (old : Nat)
  | gcReset (old : Nat)
  | gcFree
  | unlock

/-- `zn_minheap_update_by_entry` on the entry a zone of the pool refers to,
which is no entry at all if the zone was never put into the heap. -/
def updatePriority (p : ZnPolicyChunk) (z : Nat) : Except Fault ZnPolicyChunk :=
  let entry := (p.zonePool z).pqueueEntry
  if ∀ e ∈ entry, e < p.invalidPqueue.next then
    .ok { p with
      invalidPqueue := (znMinheapUpdateByEntry p.invalidPqueue entry (p.zonePool z).chunksInUse).2 }
  else .error .badPointer

/-- The body of the eviction loop up to the calls: take the least recent chunk,
mark it unused, update its zone's priority. -/
def popChunk (p : ZnPolicyChunk) : Except Fault (ZnPair × ZnPolicyChunk) :=
  match p.lruQueue.popHead with
  | (none, _) => .error .nullDeref
  | (some chunk, queue) => do
    let zp := p.pair chunk
    let zone := p.zonePool zp.zone
    let p' := { p with
      lruQueue := queue
      -- the chunk stays in the table, mapped to NULL
      chunkToLruMap := Function.update p.chunkToLruMap chunk (some none) }
    let p'' ← updatePriority (p'.setZone zp.zone
      (zone.setChunk zp.chunkOffset { zone.chunks zp.chunkOffset with inUse := false }).oneLess) zp.zone
    return (p''.pair chunk, p'')

/-- Copy a chunk to its new place; the history moves with it. -/
def moveChunk (g : Geometry) (d : Device) (source target : ZnPair) (data : Buffer)
    (results : List PwriteResult) : Option (Int × Device) :=
  (znWriteOut g.chunkSz data writeGranularity (g.wp target.zone target.chunkOffset) results d.bytes).map
    fun r => (r.1, d.record r.2 target.zone target.chunkOffset
      (if r.1 = 0 then d.written source.zone source.chunkOffset else none))

/-- The collector's updates of the policy after a chunk has moved. -/
def moveMetadata (p : ZnPolicyChunk) (old i : Nat) (newLocation : ZnPair) : ZnPolicyChunk :=
  let oldZone := p.zonePool old
  let pair := { oldZone.chunks i with inUse := false }
  let p' := p.setZone old (oldZone.setChunk i pair).oneLess
  let newZone := p'.zonePool newLocation.zone
  let p'' := p'.setZone newLocation.zone
    (newZone.setChunk newLocation.chunkOffset { pair with inUse := true }).oneMore
  -- the table is not told of the new link
  { p'' with lruQueue := p''.lruQueue.pushTail (newLocation.zone, newLocation.chunkOffset) }

/-- One step of `zn_policy_chunk_evict`. -/
def chunkEvictStep (g : Geometry) (a : Answers) (s : CacheState ZnPolicyChunk) :
    ChunkEvict → Stepped (CacheState ZnPolicyChunk × Option ChunkEvict)
  | .lock =>
    if s.policy.locked then none
    else
      -- all of these are `uint32_t`s: the differences wrap around
      let inLru := s.policy.lruQueue.length % 2 ^ 32
      let freeChunks := u32Sub s.policy.totalChunks inLru
      if inLru = 0 ∨ evictHighThreshChunks < freeChunks then some (.ok (s, none))
      else some (.ok ({ s with policy := { s.policy with locked := true } },
        some (.pop 0 (u32Sub evictLowThreshChunks freeChunks))))
  | .pop i nrEvict =>
    if i < nrEvict then
      some ((popChunk s.policy).map fun r => ({ s with policy := r.2 }, some (.mark i nrEvict r.1)))
    else some (.ok (s, some .gc))
  | .mark i nrEvict zp =>
    some (.ok ({ s with zoneState := zsmMarkChunkInvalid s.zoneState zp },
      some (.clear i nrEvict zp)))
  | .clear i nrEvict zp =>
    some ((znCachemapClearChunk s.cacheMap zp).map fun m =>
      ({ s with cacheMap := m }, some (.pop ((i + 1) % 2 ^ 32) nrEvict)))
  | .gc =>
    let freeZones := zsmGetNumFreeZones s.zoneState
    if evictHighThreshZones < freeZones then some (.ok (s, some .unlock))
    else some (.ok (s, some (.gcLoop freeZones)))
  | .gcLoop freeZones =>
    if freeZones < evictLowThreshZones then
      match znMinheapExtractMin s.policy.invalidPqueue with
      -- `ent->data` is read before anything is checked
      | (none, _) => some (.error .nullDeref)
      | (some ent, heap) =>
        some (.ok ({ s with policy := { s.policy with invalidPqueue := heap } },
          some (.gcScan (heap.entry ent).data 0)))
    else some (.ok (s, some .unlock))
  | .gcScan old i =>
    if i < g.maxZoneChunks then
      if (s.policy.pair (old, i)).inUse then
        some ((zsmGetActiveZone g a.ret s.zoneState).bind fun r =>
          match r.1 with
          | .success newLocation =>
            .ok ({ s with zoneState := r.2 }, some (.gcRead old i newLocation))
          -- a retry is no exception
          | _ => .error .assertion)
      else some (.ok (s, some (.gcScan old ((i + 1) % 2 ^ 32))))
    else some (.ok (s, some (.gcClear old)))
  | .gcRead old i newLocation =>
    match znReadFromDisk g s.device (s.policy.pair (old, i)) a.pread with
    | none => some (.error .assertion)
    | some data => some (.ok (s, some (.gcWrite old i newLocation data)))
  | .gcWrite old i newLocation data =>
    (moveChunk g s.device (s.policy.pair (old, i)) newLocation data a.pwrites).map fun r =>
      if r.1 ≠ 0 then .error .assertion
      else .ok ({ s with device := r.2 }, some (.gcInsert old i newLocation))
  | .gcInsert old i newLocation =>
    -- the id is the one in the pool's record
    some ((znCachemapInsert s.cacheMap (s.policy.pair (old, i)).id newLocation).map fun m =>
      ({ s with cacheMap := m, policy := moveMetadata s.policy old i newLocation },
        some (.gcScan old ((i + 1) % 2 ^ 32))))
  | .gcClear old =>
    let zone := (s.policy.zonePool old).zoneId
    some ((znCachemapClearZone s.cacheMap zone (s.cacheMap.dataMap zone).entries).map fun m =>
      ({ s with cacheMap := m }, some (.gcReset old)))
  | .gcReset old =>
    let zone := (s.policy.zonePool old).zoneId
    -- nobody looks at the return value
    some ((zsmEvict g a.ret s.zoneState zone).map fun r =>
      ({ s with zoneState := r.2, device := s.device.forget zone }, some .gcFree))
  | .gcFree => some (.ok (s, some (.gcLoop (zsmGetNumFreeZones s.zoneState))))
  | .unlock => some (.ok ({ s with policy := { s.policy with locked := false } }, none))

/-- The chunk policy, on the memory its pool is made of. -/
def chunk (mem : Nat → EvictionPolicyChunkZone) : EvictPolicy ZnPolicyChunk ChunkEvict where
  init := znPolicyChunkInit mem
  update := fun g p l io => if p.locked then none else some (znPolicyChunkUpdate g p l io)
  entry := .lock
  step := chunkEvictStep

/-! ## What a step can do. -/

/-- **What one step of `zn_policy_chunk_evict` can do.** -/
inductive ChunkEvictCase (g : Geometry) (a : Answers) (s : CacheState ZnPolicyChunk) :
    ChunkEvict → CacheState ZnPolicyChunk → Option ChunkEvict → Prop
  | refuse (hlock : s.policy.locked = false) : ChunkEvictCase g a s .lock s none
  | enter {nrEvict : Nat} (hlock : s.policy.locked = false) :
      ChunkEvictCase g a s .lock { s with policy := { s.policy with locked := true } }
        (some (.pop 0 nrEvict))
  | pop {i nrEvict : Nat} {zp : ZnPair} {p : ZnPolicyChunk} (hlt : i < nrEvict)
      (h : popChunk s.policy = .ok (zp, p)) :
      ChunkEvictCase g a s (.pop i nrEvict) { s with policy := p } (some (.mark i nrEvict zp))
  | popped {i nrEvict : Nat} : ChunkEvictCase g a s (.pop i nrEvict) s (some .gc)
  | mark {i nrEvict : Nat} {zp : ZnPair} :
      ChunkEvictCase g a s (.mark i nrEvict zp)
        { s with zoneState := zsmMarkChunkInvalid s.zoneState zp } (some (.clear i nrEvict zp))
  | clear {i i' nrEvict : Nat} {zp : ZnPair} {m : ZnCachemap}
      (h : znCachemapClearChunk s.cacheMap zp = .ok m) :
      ChunkEvictCase g a s (.clear i nrEvict zp) { s with cacheMap := m } (some (.pop i' nrEvict))
  | gcSkip : ChunkEvictCase g a s .gc s (some .unlock)
  | gcStart {freeZones : Nat} : ChunkEvictCase g a s .gc s (some (.gcLoop freeZones))
  | gcDone {freeZones : Nat} : ChunkEvictCase g a s (.gcLoop freeZones) s (some .unlock)
  | gcPick {freeZones ent : Nat} {heap : ZnMinheap}
      (h : znMinheapExtractMin s.policy.invalidPqueue = (some ent, heap)) :
      ChunkEvictCase g a s (.gcLoop freeZones)
        { s with policy := { s.policy with invalidPqueue := heap } }
        (some (.gcScan (heap.entry ent).data 0))
  | gcSkipChunk {old i : Nat} (huse : (s.policy.pair (old, i)).inUse = false) :
      ChunkEvictCase g a s (.gcScan old i) s (some (.gcScan old ((i + 1) % 2 ^ 32)))
  | gcAcquire {old i : Nat} {newLocation : ZnPair} {z : ZoneStateManager}
      (hlt : i < g.maxZoneChunks)
      (h : zsmGetActiveZone g a.ret s.zoneState = .ok (.success newLocation, z)) :
      ChunkEvictCase g a s (.gcScan old i) { s with zoneState := z }
        (some (.gcRead old i newLocation))
  | gcScanned {old i : Nat} (hge : g.maxZoneChunks ≤ i) :
      ChunkEvictCase g a s (.gcScan old i) s (some (.gcClear old))
  | gcRead {old i : Nat} {newLocation : ZnPair} {data : Buffer} :
      ChunkEvictCase g a s (.gcRead old i newLocation) s (some (.gcWrite old i newLocation data))
  | gcWrite {old i : Nat} {newLocation : ZnPair} {data : Buffer} {d : Device}
      (h : moveChunk g s.device (s.policy.pair (old, i)) newLocation data a.pwrites = some (0, d)) :
      ChunkEvictCase g a s (.gcWrite old i newLocation data) { s with device := d }
        (some (.gcInsert old i newLocation))
  | gcInsert {old i : Nat} {newLocation : ZnPair} {m : ZnCachemap}
      (h : znCachemapInsert s.cacheMap (s.policy.pair (old, i)).id newLocation = .ok m) :
      ChunkEvictCase g a s (.gcInsert old i newLocation)
        { s with cacheMap := m, policy := moveMetadata s.policy old i newLocation }
        (some (.gcScan old ((i + 1) % 2 ^ 32)))
  | gcClear {old : Nat} {m : ZnCachemap}
      (h : znCachemapClearZone s.cacheMap (s.policy.zonePool old).zoneId
        (s.cacheMap.dataMap (s.policy.zonePool old).zoneId).entries = .ok m) :
      ChunkEvictCase g a s (.gcClear old) { s with cacheMap := m } (some (.gcReset old))
  | gcReset {old : Nat} {r : Int} {z : ZoneStateManager}
      (h : zsmEvict g a.ret s.zoneState (s.policy.zonePool old).zoneId = .ok (r, z)) :
      ChunkEvictCase g a s (.gcReset old)
        { s with
          zoneState := z
          device := s.device.forget (s.policy.zonePool old).zoneId } (some .gcFree)
  | gcFree {freeZones : Nat} : ChunkEvictCase g a s .gcFree s (some (.gcLoop freeZones))
  | unlock :
      ChunkEvictCase g a s .unlock { s with policy := { s.policy with locked := false } } none

theorem chunkEvictStep_cases {g : Geometry} {a : Answers} {s s' : CacheState ZnPolicyChunk}
    {e : ChunkEvict} {e' : Option ChunkEvict} (h : chunkEvictStep g a s e = some (.ok (s', e'))) :
    ChunkEvictCase g a s e s' e' := by
  cases e with
  | lock =>
    simp only [chunkEvictStep] at h
    split at h
    · cases h
    · rename_i hlock
      have hlock' : s.policy.locked = false := by simpa using hlock
      split at h
      · cases h
        exact .refuse hlock'
      · cases h
        exact .enter hlock'
  | pop i nrEvict =>
    simp only [chunkEvictStep] at h
    split at h
    · rename_i hlt
      obtain ⟨⟨zp, p⟩, hp, heq⟩ := map_eq_ok (Option.some.inj h)
      cases heq
      exact .pop hlt hp
    · cases h
      exact .popped
  | mark i nrEvict zp => cases h; exact .mark
  | clear i nrEvict zp =>
    obtain ⟨m, hm, heq⟩ := map_eq_ok (Option.some.inj h)
    cases heq
    exact .clear hm
  | gc =>
    simp only [chunkEvictStep] at h
    split at h
    · cases h; exact .gcSkip
    · cases h; exact .gcStart
  | gcLoop freeZones =>
    simp only [chunkEvictStep] at h
    split at h
    · split at h
      · cases h
      · rename_i ent heap hent
        cases h
        exact .gcPick hent
    · cases h; exact .gcDone
  | gcScan old i =>
    simp only [chunkEvictStep] at h
    split at h
    · rename_i hlt
      split at h
      · obtain ⟨⟨r, z⟩, hr, hx⟩ := bind_eq_ok (Option.some.inj h)
        cases r with
        | success newLocation =>
          cases hx
          exact .gcAcquire hlt hr
        | retry | error | evict => cases hx
      · rename_i huse
        cases h
        exact .gcSkipChunk (by simpa using huse)
    · rename_i hge
      cases h
      exact .gcScanned (not_lt.mp hge)
  | gcRead old i newLocation =>
    simp only [chunkEvictStep] at h
    split at h
    · cases h
    · cases h; exact .gcRead
  | gcWrite old i newLocation data =>
    obtain ⟨⟨r, d⟩, hr, hx⟩ := Option.map_eq_some_iff.mp h
    by_cases hr0 : r = 0
    · subst hr0
      cases hx
      exact .gcWrite hr
    · rw [if_pos hr0] at hx
      cases hx
  | gcInsert old i newLocation =>
    obtain ⟨m, hm, heq⟩ := map_eq_ok (Option.some.inj h)
    cases heq
    exact .gcInsert hm
  | gcClear old =>
    obtain ⟨m, hm, heq⟩ := map_eq_ok (Option.some.inj h)
    cases heq
    exact .gcClear hm
  | gcReset old =>
    obtain ⟨⟨r, z⟩, hr, heq⟩ := map_eq_ok (Option.some.inj h)
    cases heq
    exact .gcReset hr
  | gcFree => cases h; exact .gcFree
  | unlock => cases h; exact .unlock

/-- The loop of the collector goes on with an entry, or is left. -/
theorem gcLoop_cases {g : Geometry} {a : Answers} {s s' : CacheState ZnPolicyChunk} {freeZones : Nat}
    {e' : Option ChunkEvict} (h : chunkEvictStep g a s (.gcLoop freeZones) = some (.ok (s', e'))) :
    (freeZones < evictLowThreshZones ∧ ∃ ent heap,
      znMinheapExtractMin s.policy.invalidPqueue = (some ent, heap)
        ∧ s' = { s with policy := { s.policy with invalidPqueue := heap } }
        ∧ e' = some (.gcScan (heap.entry ent).data 0))
    ∨ (¬ freeZones < evictLowThreshZones ∧ s' = s ∧ e' = some .unlock) := by
  simp only [chunkEvictStep] at h
  split at h
  · rename_i hlt
    split at h
    · cases h
    · rename_i ent heap hent
      cases h
      exact Or.inl ⟨hlt, ent, heap, hent, rfl, rfl⟩
  · rename_i hge
    cases h
    exact Or.inr ⟨hge, rfl, rfl⟩

/-- Eviction leaves the size of the cache map alone. -/
theorem chunk_numZones (mem : Nat → EvictionPolicyChunkZone) (g : Geometry) (a : Answers)
    (s : CacheState ZnPolicyChunk) (e : ChunkEvict) (s' : CacheState ZnPolicyChunk)
    (e' : Option ChunkEvict) (h : (chunk mem).step g a s e = some (.ok (s', e'))) :
    s'.cacheMap.numZones = s.cacheMap.numZones := by
  cases chunkEvictStep_cases h with
  | refuse | enter | pop | popped | mark | gcSkip | gcStart | gcDone | gcPick | gcSkipChunk
  | gcAcquire | gcScanned | gcRead | gcWrite | gcReset | gcFree | unlock => rfl
  | clear hm =>
    obtain ⟨l, -, -, -, rfl⟩ := znCachemapClearChunk_ok hm
    rfl
  | gcInsert hm =>
    obtain ⟨c, -, -, -, rfl⟩ := znCachemapInsert_ok hm
    rfl
  | gcClear hm =>
    obtain ⟨-, zm, rfl, -⟩ := znCachemapClearZone_ok hm
    rfl

/-- Eviction leaves `active_readers` alone. -/
theorem chunk_readers (mem : Nat → EvictionPolicyChunkZone) (g : Geometry) (a : Answers)
    (s : CacheState ZnPolicyChunk) (e : ChunkEvict) (s' : CacheState ZnPolicyChunk)
    (e' : Option ChunkEvict) (h : (chunk mem).step g a s e = some (.ok (s', e'))) :
    s'.cacheMap.activeReaders = s.cacheMap.activeReaders := by
  cases chunkEvictStep_cases h with
  | refuse | enter | pop | popped | mark | gcSkip | gcStart | gcDone | gcPick | gcSkipChunk
  | gcAcquire | gcScanned | gcRead | gcWrite | gcReset | gcFree | unlock => rfl
  | clear hm =>
    obtain ⟨l, -, -, -, rfl⟩ := znCachemapClearChunk_ok hm
    rfl
  | gcInsert hm =>
    obtain ⟨c, -, -, -, rfl⟩ := znCachemapInsert_ok hm
    rfl
  | gcClear hm =>
    obtain ⟨-, zm, rfl, -⟩ := znCachemapClearZone_ok hm
    rfl

end ZnCache
