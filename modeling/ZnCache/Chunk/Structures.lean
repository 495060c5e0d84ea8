/-
  ZnCache.Chunk.Structures — the structures of the chunk policy stay in step.

  A chunk that is in use is in `lru_queue` once, `chunk_to_lru_map` maps it to
  its link, and its zone counts it.  `ChunkBooks` is the invariant.  An update
  that writes, an update that reads and one round of the eviction loop have one
  lemma each (`.write`, `.touch`, `.pop`); everything else leaves the
  structures alone, but for the collector's move of a live chunk.
-/
import ZnCache.Chunk.Evict
import ZnCache.Lib.ThreadPool

namespace ZnCache

open Lib Lib.ThreadPool

/-! ## §1. What an update and a round of eviction do. -/

namespace Geometry

/-- The chunks that have a place in the pool. -/
def InPool (g : Geometry) (ch : Nat × Nat) : Prop := ch.1 < g.nrZones ∧ ch.2 < g.maxZoneChunks

/-- `max_zone_chunks-1`, on a `uint64_t`. -/
def lastChunk (g : Geometry) : Nat := (g.maxZoneChunks + 2 ^ 64 - 1) % 2 ^ 64

end Geometry

namespace EvictionPolicyChunkZone

variable (zone : EvictionPolicyChunkZone)

/-- How many of the first `n` chunks are in use. -/
def used (n : Nat) : Nat := countOn (Finset.range n) (fun x : ZnPair => x.inUse = true) zone.chunks

/-- The zone with a chunk of it reported by `ZN_WRITE`. -/
def written (l : ZnPair) : EvictionPolicyChunkZone :=
  { (zone.setChunk l.chunkOffset { l with inUse := true }).oneMore with zoneId := l.zone }

/-- The zone with an entry in the heap. -/
def filed (entry : Nat) : EvictionPolicyChunkZone :=
  { zone with pqueueEntry := some entry, filled := true }

/-- The zone with a chunk of it evicted. -/
def vacated (c : Nat) : EvictionPolicyChunkZone :=
  (zone.setChunk c { zone.chunks c with inUse := false }).oneLess

theorem used_le (n : Nat) : zone.used n ≤ n :=
  (Finset.card_filter_le _ _).trans_eq (Finset.card_range n)

@[simp] theorem written_used (l : ZnPair) (n : Nat) :
    (zone.written l).used n = (zone.setChunk l.chunkOffset { l with inUse := true }).used n := rfl

@[simp] theorem vacated_used (c n : Nat) :
    (zone.vacated c).used n = (zone.setChunk c { zone.chunks c with inUse := false }).used n := by
  unfold used vacated oneLess
  rfl

@[simp] theorem written_chunksInUse (l : ZnPair) :
    (zone.written l).chunksInUse = (zone.chunksInUse + 1) % 2 ^ 32 := rfl

@[simp] theorem vacated_chunksInUse (c : Nat) :
    (zone.vacated c).chunksInUse = u32Sub zone.chunksInUse 1 := rfl

theorem used_setChunk {n c : Nat} (hc : c < n) (x : ZnPair) :
    (zone.setChunk c x).used n + (if (zone.chunks c).inUse = true then 1 else 0)
      = zone.used n + (if x.inUse = true then 1 else 0) :=
  countOn_update (fun x : ZnPair => x.inUse = true) zone.chunks (Finset.mem_range.mpr hc) x

end EvictionPolicyChunkZone

namespace ZnPolicyChunk

variable (p : ZnPolicyChunk)

/-- The policy with a chunk reported by `ZN_WRITE`, less the heap. -/
def written (l : ZnPair) : ZnPolicyChunk :=
  (p.setZone l.zone ((p.zonePool l.zone).written l)).pushLink (l.zone, l.chunkOffset)

/-- The policy with a zone's entry put into the heap. -/
def filed (z entry : Nat) (heap : ZnMinheap) : ZnPolicyChunk :=
  { p.setZone z ((p.zonePool z).filed entry) with invalidPqueue := heap }

/-- The policy with the chunk of a link moved to the tail. -/
def touched (ch data : Nat × Nat) (node : Nat) : ZnPolicyChunk :=
  let queue := (p.lruQueue.deleteLink node).pushTail data
  { p with
    lruQueue := queue
    chunkToLruMap := Function.update p.chunkToLruMap ch (some queue.peekTailLink) }

/-- The policy with the least recent chunk evicted. -/
def popped (ch : Nat × Nat) (heap : ZnMinheap) : ZnPolicyChunk :=
  { p.setZone ch.1 ((p.zonePool ch.1).vacated ch.2) with
    lruQueue := p.lruQueue.dropHead
    chunkToLruMap := Function.update p.chunkToLruMap ch (some none)
    invalidPqueue := heap }

@[simp] theorem zonePool_written (l : ZnPair) : (p.written l).zonePool
    = Function.update p.zonePool l.zone ((p.zonePool l.zone).written l) := rfl

@[simp] theorem zonePool_filed (z entry : Nat) (heap : ZnMinheap) : (p.filed z entry heap).zonePool
    = Function.update p.zonePool z ((p.zonePool z).filed entry) := rfl

@[simp] theorem zonePool_popped (ch : Nat × Nat) (heap : ZnMinheap) : (p.popped ch heap).zonePool
    = Function.update p.zonePool ch.1 ((p.zonePool ch.1).vacated ch.2) := rfl

end ZnPolicyChunk

/-- **What `zn_policy_chunk_update` can do.** -/
inductive ChunkUpdateCase (g : Geometry) (p : ZnPolicyChunk) (l : ZnPair) :
    ZnIoType → ZnPolicyChunk → Prop
  | write (htable : p.chunkToLruMap (l.zone, l.chunkOffset) ≠ none)
      (hfree : (p.pair (l.zone, l.chunkOffset)).inUse = false) (hlast : l.chunkOffset ≠ g.lastChunk) :
      ChunkUpdateCase g p l .write (p.written l)
  | writeLast {entry : Nat} {heap : ZnMinheap}
      (htable : p.chunkToLruMap (l.zone, l.chunkOffset) ≠ none)
      (hfree : (p.pair (l.zone, l.chunkOffset)).inUse = false) (hlast : l.chunkOffset = g.lastChunk)
      (h : znMinheapInsert p.invalidPqueue l.zone ((p.zonePool l.zone).written l).chunksInUse
        = .ok (entry, heap)) :
      ChunkUpdateCase g p l .write ((p.written l).filed l.zone entry heap)
  | absent (htable : p.chunkToLruMap (l.zone, l.chunkOffset) = some none) :
      ChunkUpdateCase g p l .read p
  | touch {node : Nat} {data : Nat × Nat}
      (htable : p.chunkToLruMap (l.zone, l.chunkOffset) = some (some node))
      (hdata : p.lruQueue.linkData node = some data) :
      ChunkUpdateCase g p l .read (p.touched (l.zone, l.chunkOffset) data node)

theorem znPolicyChunkUpdate_cases {g : Geometry} {p p' : ZnPolicyChunk} {l : ZnPair} {io : ZnIoType}
    (h : znPolicyChunkUpdate g p l io = .ok p') : ChunkUpdateCase g p l io p' := by
  unfold znPolicyChunkUpdate at h
  dsimp only at h
  split at h
  · cases h
  · rename_i node hnode
    cases io with
    | write =>
      have htable : p.chunkToLruMap (l.zone, l.chunkOffset) ≠ none := by
        rw [hnode]
        simp
      obtain ⟨hfree, h⟩ := check_bind_ok h
      split at h
      · rename_i hlast
        obtain ⟨⟨entry, heap⟩, hins, heq⟩ := bind_eq_ok h
        cases heq
        have hcase := ChunkUpdateCase.writeLast htable hfree hlast hins
        unfold ZnPolicyChunk.filed ZnPolicyChunk.written ZnPolicyChunk.pushLink at hcase
        have hzone : (p.setZone l.zone ((p.zonePool l.zone).written l)).zonePool l.zone
            = (p.zonePool l.zone).written l := Function.update_self ..
        dsimp only at hcase
        rw [hzone] at hcase
        exact hcase
      · rename_i hlast
        cases h
        exact .write htable hfree hlast
    | read =>
      dsimp only at h
      split at h
      · cases h
        exact .absent hnode
      · split at h
        · cases h
        · rename_i hdata
          cases h
          exact .touch hnode hdata

/-- An update takes `policy_mutex`. -/
theorem chunkUpdate_cases {mem : Nat → EvictionPolicyChunkZone} {g : Geometry} {p p' : ZnPolicyChunk}
    {l : ZnPair} {io : ZnIoType} (h : (chunk mem).update g p l io = some (.ok p')) :
    p.locked = false ∧ ChunkUpdateCase g p l io p' := by
  unfold chunk at h
  dsimp only at h
  split at h
  · cases h
  · rename_i hlock
    exact ⟨Bool.eq_false_iff.mpr hlock, znPolicyChunkUpdate_cases (Option.some.inj h)⟩

/-- A chunk that is not in use can be reported. -/
theorem znPolicyChunkUpdate_write {g : Geometry} {p : ZnPolicyChunk} {l : ZnPair}
    (htable : p.chunkToLruMap (l.zone, l.chunkOffset) ≠ none)
    (hfree : (p.pair (l.zone, l.chunkOffset)).inUse = false) (hlast : l.chunkOffset ≠ g.lastChunk) :
    znPolicyChunkUpdate g p l .write = .ok (p.written l) := by
  unfold znPolicyChunkUpdate
  dsimp only
  split
  · rename_i hnone
    exact absurd hnone htable
  · rw [check_of hfree]
    exact if_neg hlast

/-- So can the last of its zone, if the heap takes the zone. -/
theorem znPolicyChunkUpdate_writeLast {g : Geometry} {p : ZnPolicyChunk} {l : ZnPair} {entry : Nat}
    {heap : ZnMinheap} (htable : p.chunkToLruMap (l.zone, l.chunkOffset) ≠ none)
    (hfree : (p.pair (l.zone, l.chunkOffset)).inUse = false) (hlast : l.chunkOffset = g.lastChunk)
    (h : znMinheapInsert p.invalidPqueue l.zone ((p.zonePool l.zone).written l).chunksInUse
      = .ok (entry, heap)) :
    znPolicyChunkUpdate g p l .write = .ok ((p.written l).filed l.zone entry heap) := by
  have hzone : (p.written l).zonePool l.zone = (p.zonePool l.zone).written l := Function.update_self ..
  unfold znPolicyChunkUpdate ZnPolicyChunk.filed
  rw [hzone]
  dsimp only
  split
  · rename_i hnone
    exact absurd hnone htable
  · rw [check_of hfree]
    show (if l.chunkOffset = g.lastChunk then
      (znMinheapInsert p.invalidPqueue l.zone ((p.zonePool l.zone).written l).chunksInUse).bind _
      else _) = _
    rw [if_pos hlast, h]
    rfl

/-! ## §2. The invariant. -/

/-- **Queue, table, flags and counters agree.** -/
structure ChunkBooks (g : Geometry) (p : ZnPolicyChunk) : Prop where
  indexed : p.lruQueue.Indexed fun ch => (p.chunkToLruMap ch).join
  /-- "Should always be present (might be NULL)". -/
  table : ∀ ch, p.chunkToLruMap ch ≠ none ↔ g.InPool ch
  queued : ∀ ch, ch ∈ p.lru ↔ (p.pair ch).inUse = true
  /-- A chunk that is in use says where it is. -/
  named : ∀ ch, (p.pair ch).inUse = true → (p.pair ch).zone = ch.1 ∧ (p.pair ch).chunkOffset = ch.2
  counted : ∀ z, (p.zonePool z).chunksInUse = (p.zonePool z).used g.maxZoneChunks
  total : p.totalChunks = g.nrZones * g.maxZoneChunks % 2 ^ 32

/-- Overwriting one chunk of one zone overwrites one chunk of the pool. -/
theorem ZnPolicyChunk.pair_setZone {p : ZnPolicyChunk} {z c : Nat} {x : ZnPair}
    {zone : EvictionPolicyChunkZone} (h : zone.chunks = Function.update (p.zonePool z).chunks c x) :
    (p.setZone z zone).pair = Function.update p.pair (z, c) x := by
  funext ch
  obtain ⟨z', c'⟩ := ch
  show (Function.update p.zonePool z zone z').chunks c' = _
  by_cases hz : z' = z
  · subst hz
    rw [Function.update_self, h]
    by_cases hc : c' = c
    · subst hc
      rw [Function.update_self, Function.update_self]
    · rw [Function.update_of_ne hc, Function.update_of_ne (by simp [hc])]
      rfl
  · rw [Function.update_of_ne hz, Function.update_of_ne (by simp [hz])]
    rfl

theorem ZnPolicyChunk.pair_written (p : ZnPolicyChunk) (l : ZnPair) :
    (p.written l).pair = Function.update p.pair (l.zone, l.chunkOffset) { l with inUse := true } :=
  pair_setZone rfl

theorem ZnPolicyChunk.pair_popped (p : ZnPolicyChunk) (ch : Nat × Nat) (heap : ZnMinheap) :
    (p.popped ch heap).pair = Function.update p.pair ch { p.pair ch with inUse := false } :=
  pair_setZone (z := ch.1) (c := ch.2) rfl

/-- Putting a zone into the heap changes no chunk. -/
theorem ZnPolicyChunk.pair_filed (p : ZnPolicyChunk) (z entry : Nat) (heap : ZnMinheap) :
    (p.filed z entry heap).pair = p.pair := by
  funext ch
  show ((p.filed z entry heap).zonePool ch.1).chunks ch.2 = _
  rw [zonePool_filed]
  by_cases hz : ch.1 = z
  · rw [hz, Function.update_self, ← hz]
    rfl
  · rw [Function.update_of_ne hz]
    rfl

namespace ChunkBooks

variable {g : Geometry} {p p' : ZnPolicyChunk}

theorem init (mem : Nat → EvictionPolicyChunkZone) (g : Geometry) :
    ChunkBooks g (znPolicyChunkInit mem g) where
  indexed := by
    have hjoin : (fun ch => ((znPolicyChunkInit mem g).chunkToLruMap ch).join) = fun _ => none := by
      funext ch
      show (if ch.1 < g.nrZones ∧ ch.2 < g.maxZoneChunks then some none else none).join = none
      split <;> rfl
    rw [hjoin]
    exact LinkQueue.indexed_empty
  table ch := by
    show (if ch.1 < g.nrZones ∧ ch.2 < g.maxZoneChunks then some none else none) ≠ none ↔ _
    unfold Geometry.InPool
    split <;> simp_all
  queued ch := by
    show ch ∈ [] ↔ false = true
    simp
  named ch h := by cases h
  counted z := by
    symm
    apply (countOn_eq_zero_iff _ _).mpr
    intro c _ h
    cases h
  total := rfl

/-- What a change of the heap, of the lock and of heap entries leaves. -/
theorem congr (h : ChunkBooks g p) (hqueue : p'.lruQueue = p.lruQueue)
    (htable : p'.chunkToLruMap = p.chunkToLruMap)
    (hchunks : ∀ z, (p'.zonePool z).chunks = (p.zonePool z).chunks)
    (hcount : ∀ z, (p'.zonePool z).chunksInUse = (p.zonePool z).chunksInUse)
    (htotal : p'.totalChunks = p.totalChunks) : ChunkBooks g p' := by
  have hpair : p'.pair = p.pair := by
    funext ch
    exact congrFun (hchunks ch.1) ch.2
  constructor
  · rw [hqueue, htable]
    exact h.indexed
  · rw [htable]
    exact h.table
  · unfold ZnPolicyChunk.lru
    rw [hqueue, hpair]
    exact h.queued
  · rw [hpair]
    exact h.named
  · intro z
    unfold EvictionPolicyChunkZone.used
    rw [hcount z, hchunks z]
    exact h.counted z
  · exact htotal.trans h.total

/-- The queue holds chunks of the pool. -/
theorem inPool (h : ChunkBooks g p) {ch : Nat × Nat} (huse : (p.pair ch).inUse = true) :
    g.InPool ch := by
  rw [← h.table ch]
  intro hnone
  have hsome := (h.indexed.isSome_iff ch).mpr ((h.queued ch).mpr huse)
  rw [hnone] at hsome
  cases hsome

theorem nodup (h : ChunkBooks g p) : p.lru.Nodup := h.indexed.nodup_toList

theorem head_used (h : ChunkBooks g p) {ch : Nat × Nat} {rest : List (Nat × Nat)}
    (hlru : p.lru = ch :: rest) : (p.pair ch).inUse = true := by
  rw [← h.queued, hlru]
  exact List.mem_cons_self ..

/-- Updating a key of the table updates its link. -/
theorem join_update (t : Nat × Nat → Option (Option Nat)) (ch : Nat × Nat) (link : Option Nat) :
    (fun x => (Function.update t ch (some link) x).join)
      = Function.update (fun x => (t x).join) ch link := by
  funext x
  by_cases hx : x = ch
  · subst hx
    rw [Function.update_self, Function.update_self]
    rfl
  · rw [Function.update_of_ne hx, Function.update_of_ne hx]

theorem table_update (h : ChunkBooks g p) {ch : Nat × Nat} (hch : g.InPool ch)
    (link : Option Nat) (x : Nat × Nat) :
    Function.update p.chunkToLruMap ch (some link) x ≠ none ↔ g.InPool x := by
  by_cases hx : x = ch
  · subst hx
    rw [Function.update_self]
    simp [hch]
  · rw [Function.update_of_ne hx]
    exact h.table x

/-- **A chunk is reported.** -/
theorem write (h : ChunkBooks g p) (hmax : g.maxZoneChunks < 2 ^ 32) {l : ZnPair}
    (htable : p.chunkToLruMap (l.zone, l.chunkOffset) ≠ none)
    (hfree : (p.pair (l.zone, l.chunkOffset)).inUse = false) : ChunkBooks g (p.written l) := by
  have hin := (h.table _).mp htable
  have hpair := p.pair_written l
  have hout : (l.zone, l.chunkOffset) ∉ p.lru := by
    rw [h.queued, hfree]
    simp
  constructor
  · show LinkQueue.Indexed (p.lruQueue.pushTail _)
      fun x => (Function.update p.chunkToLruMap _ (some (p.lruQueue.pushTail _).peekTailLink) x).join
    rw [LinkQueue.peekTailLink_pushTail, join_update]
    exact h.indexed.push hout
  · exact h.table_update hin _
  · intro ch
    show ch ∈ (p.lruQueue.pushTail (l.zone, l.chunkOffset)).toList ↔ _
    rw [LinkQueue.toList_pushTail, List.mem_append, List.mem_singleton, hpair]
    by_cases hch : ch = (l.zone, l.chunkOffset)
    · rw [hch, Function.update_self]
      simp
    · rw [Function.update_of_ne hch, ← h.queued]
      simp [hch, ZnPolicyChunk.lru]
  · intro ch huse
    rw [hpair] at huse ⊢
    by_cases hch : ch = (l.zone, l.chunkOffset)
    · rw [hch, Function.update_self]
      exact ⟨rfl, rfl⟩
    · rw [Function.update_of_ne hch] at huse ⊢
      exact h.named ch huse
  · intro z
    show (Function.update p.zonePool l.zone _ z).chunksInUse
      = (Function.update p.zonePool l.zone _ z).used _
    by_cases hz : z = l.zone
    · rw [hz, Function.update_self]
      have hc : l.chunkOffset < g.maxZoneChunks := hin.2
      have hstep := (p.zonePool l.zone).used_setChunk hc { l with inUse := true }
      have hnot : ¬ ((p.zonePool l.zone).chunks l.chunkOffset).inUse = true := by
        show ¬ (p.pair (l.zone, l.chunkOffset)).inUse = true
        rw [hfree]
        simp
      rw [if_neg hnot, if_pos rfl] at hstep
      -- the counter counts chunks of one zone, so it does not wrap around
      have hle := ((p.zonePool l.zone).setChunk l.chunkOffset { l with inUse := true }).used_le
        g.maxZoneChunks
      have hold := h.counted l.zone
      rw [EvictionPolicyChunkZone.written_chunksInUse, EvictionPolicyChunkZone.written_used]
      omega
    · rw [Function.update_of_ne hz]
      exact h.counted z
  · exact h.total

/-- A zone is put into the heap. -/
theorem file (h : ChunkBooks g p) (z entry : Nat) (heap : ZnMinheap) :
    ChunkBooks g (p.filed z entry heap) := by
  apply h.congr
  · rfl
  · rfl
  · intro z'
    rw [ZnPolicyChunk.zonePool_filed]
    by_cases hz : z' = z
    · rw [hz, Function.update_self]
      rfl
    · rw [Function.update_of_ne hz]
  · intro z'
    rw [ZnPolicyChunk.zonePool_filed]
    by_cases hz : z' = z
    · rw [hz, Function.update_self]
      rfl
    · rw [Function.update_of_ne hz]
  · rfl

/-- The link of a chunk leads to it. -/
theorem linkData (h : ChunkBooks g p) {ch data : Nat × Nat} {node : Nat}
    (htable : p.chunkToLruMap ch = some (some node)) (hdata : p.lruQueue.linkData node = some data) :
    data = ch := by
  have hmem := (h.indexed ch node).mp (congrArg Option.join htable)
  exact Option.some.inj (hdata.symm.trans (LinkQueue.linkData_eq_some hmem))

/-- **A chunk is read.** -/
theorem touch (h : ChunkBooks g p) {ch data : Nat × Nat} {node : Nat}
    (htable : p.chunkToLruMap ch = some (some node)) (hdata : p.lruQueue.linkData node = some data) :
    ChunkBooks g (p.touched ch data node) := by
  obtain rfl := h.linkData htable hdata
  have hidx := congrArg Option.join htable
  have hin : g.InPool data := (h.table data).mp (by rw [htable]; simp)
  constructor
  · show LinkQueue.Indexed ((p.lruQueue.deleteLink node).pushTail data)
      fun x => (Function.update p.chunkToLruMap data (some (LinkQueue.peekTailLink _)) x).join
    rw [LinkQueue.peekTailLink_pushTail, join_update]
    exact h.indexed.touch hidx
  · exact h.table_update hin _
  · intro x
    show x ∈ ((p.lruQueue.deleteLink node).pushTail data).toList ↔ (p.pair x).inUse = true
    have hmoved := (h.indexed.touch hidx).isSome_iff x
    rw [← h.queued, ← hmoved]
    by_cases hx : x = data
    · rw [hx, Function.update_self]
      have hmem : data ∈ p.lru := (h.indexed.isSome_iff data).mp (Option.isSome_of_eq_some hidx)
      simp [hmem]
    · rw [Function.update_of_ne hx, h.indexed.isSome_iff]
      rfl
  · exact h.named
  · exact h.counted
  · exact h.total

/-- A zone with a chunk in use counts one less when it is evicted. -/
theorem vacated_add_one (h : ChunkBooks g p) (hmax : g.maxZoneChunks < 2 ^ 32) {ch : Nat × Nat}
    (huse : (p.pair ch).inUse = true) :
    ((p.zonePool ch.1).vacated ch.2).chunksInUse + 1 = (p.zonePool ch.1).chunksInUse
      ∧ ((p.zonePool ch.1).vacated ch.2).chunksInUse
        = ((p.zonePool ch.1).vacated ch.2).used g.maxZoneChunks := by
  have hstep := (p.zonePool ch.1).used_setChunk (h.inPool huse).2
    { (p.zonePool ch.1).chunks ch.2 with inUse := false }
  have hwas : ((p.zonePool ch.1).chunks ch.2).inUse = true := huse
  rw [if_pos hwas, if_neg (by simp)] at hstep
  have hle := (p.zonePool ch.1).used_le g.maxZoneChunks
  have hold := h.counted ch.1
  rw [EvictionPolicyChunkZone.vacated_chunksInUse, EvictionPolicyChunkZone.vacated_used,
    u32Sub_of_le (by omega) (by omega)]
  omega

/-- **The least recent chunk is evicted.** -/
theorem pop (h : ChunkBooks g p) (hmax : g.maxZoneChunks < 2 ^ 32) {ch : Nat × Nat}
    {rest : List (Nat × Nat)} (hlru : p.lru = ch :: rest) (heap : ZnMinheap) :
    ChunkBooks g (p.popped ch heap) := by
  have huse := h.head_used hlru
  have hin := h.inPool huse
  have hpair := p.pair_popped ch heap
  obtain ⟨hidx, hrest, -⟩ := h.indexed.pop hlru
  have hnd := h.nodup
  rw [hlru, List.nodup_cons] at hnd
  constructor
  · show LinkQueue.Indexed p.lruQueue.dropHead
      fun x => (Function.update p.chunkToLruMap ch (some none) x).join
    rw [join_update]
    exact hidx
  · exact h.table_update hin _
  · intro x
    show x ∈ p.lruQueue.dropHead.toList ↔ _
    rw [hrest, hpair]
    by_cases hx : x = ch
    · subst hx
      rw [Function.update_self]
      simp [hnd.1]
    · rw [Function.update_of_ne hx, ← h.queued, hlru]
      simp [hx]
  · intro x hx
    rw [hpair] at hx ⊢
    by_cases hxch : x = ch
    · rw [hxch, Function.update_self] at hx
      cases hx
    · rw [Function.update_of_ne hxch] at hx ⊢
      exact h.named x hx
  · intro z
    show (Function.update p.zonePool ch.1 _ z).chunksInUse
      = (Function.update p.zonePool ch.1 _ z).used _
    by_cases hz : z = ch.1
    · rw [hz, Function.update_self]
      exact (h.vacated_add_one hmax huse).2
    · rw [Function.update_of_ne hz]
      exact h.counted z
  · exact h.total

end ChunkBooks

/-- **One round of the eviction loop**: the head of the queue is evicted, and
its zone's entry told. -/
theorem popChunk_ok {g : Geometry} {p p' : ZnPolicyChunk} {zp : ZnPair} (hb : ChunkBooks g p)
    (h : popChunk p = .ok (zp, p')) :
    ∃ ch rest, p.lru = ch :: rest ∧ zp = { p.pair ch with inUse := false }
      ∧ p' = p.popped ch (znMinheapUpdateByEntry p.invalidPqueue (p.zonePool ch.1).pqueueEntry
          ((p.zonePool ch.1).vacated ch.2).chunksInUse).2 := by
  unfold popChunk at h
  split at h
  · cases h
  · rename_i ch queue hpop
    cases hlru : p.lru with
    | nil =>
      have hlinks : p.lruQueue.links = [] := List.map_eq_nil_iff.mp hlru
      unfold LinkQueue.popHead at hpop
      rw [hlinks] at hpop
      cases hpop
    | cons ch' rest =>
      obtain ⟨-, -, hhead⟩ := hb.indexed.pop hlru
      rw [hpop] at hhead
      cases hhead
      -- the chunk says where it is, so its own zone is told
      obtain ⟨hz, hc⟩ := hb.named ch (hb.head_used hlru)
      have hqueue : queue = p.lruQueue.dropHead := (congrArg Prod.snd hpop).symm
      obtain ⟨p'', hup, heq⟩ := bind_eq_ok h
      obtain ⟨rfl, rfl⟩ := Prod.mk.inj (Except.ok.inj heq)
      rw [hz, hc] at hup
      unfold updatePriority at hup
      dsimp only at hup
      split at hup
      · cases hup
        subst hqueue
        refine ⟨ch, rest, rfl, ?_, ?_⟩
        · show (Function.update p.zonePool ch.1 _ ch.1).chunks ch.2 = _
          rw [Function.update_self]
          exact Function.update_self ..
        · unfold ZnPolicyChunk.popped ZnPolicyChunk.setZone
          dsimp only
          rw [Function.update_self]
          rfl
      · cases hup

/-! ## §3. One step. -/

/-- The collector is about to give a live chunk a new place. -/
def ChunkEvict.Moves : ChunkEvict → Prop
  | .gcInsert .. => True
  | .lock | .pop .. | .mark .. | .clear .. | .gc | .gcLoop _ | .gcScan .. | .gcRead .. | .gcWrite ..
  | .gcClear _ | .gcReset _ | .gcFree | .unlock => False

instance : (e : ChunkEvict) → Decidable e.Moves
  | .gcInsert .. => isTrue trivial
  | .lock | .pop .. | .mark .. | .clear .. | .gc | .gcLoop _ | .gcScan .. | .gcRead .. | .gcWrite ..
  | .gcClear _ | .gcReset _ | .gcFree | .unlock => isFalse id

namespace ChunkBooks

variable {g : Geometry}

/-- **An update keeps the books.** -/
theorem update {p p' : ZnPolicyChunk} (h : ChunkBooks g p) (hmax : g.maxZoneChunks < 2 ^ 32)
    {l : ZnPair} {io : ZnIoType} (hc : ChunkUpdateCase g p l io p') : ChunkBooks g p' := by
  cases hc with
  | write htable hfree => exact h.write hmax htable hfree
  | writeLast htable hfree => exact (h.write hmax htable hfree).file _ _ _
  | absent => exact h
  | touch htable hdata => exact h.touch htable hdata

/-- **A step of an eviction keeps the books**, unless it moves a live chunk. -/
theorem evict {a : Answers} {s s' : CacheState ZnPolicyChunk} {e : ChunkEvict} {e' : Option ChunkEvict}
    (h : ChunkBooks g s.policy) (hmax : g.maxZoneChunks < 2 ^ 32) (hmove : ¬ e.Moves)
    (hc : ChunkEvictCase g a s e s' e') : ChunkBooks g s'.policy := by
  cases hc with
  | refuse | popped | mark | clear | gcSkip | gcStart | gcDone | gcSkipChunk | gcAcquire | gcScanned
  | gcRead | gcWrite | gcClear | gcReset | gcFree => exact h
  | enter | gcPick | unlock => exact h.congr rfl rfl (fun _ => rfl) (fun _ => rfl) rfl
  | pop _ hpop =>
    obtain ⟨ch, rest, hlru, -, rfl⟩ := popChunk_ok h hpop
    exact h.pop hmax hlru _
  | gcInsert => exact absurd trivial hmove

end ChunkBooks

/-! ## §4. The policy among any updates. -/

/-- The policy, and where the thread is that evicts, if there is one. -/
structure PolicyRun where
  policy : ZnPolicyChunk
  evicting : Option ChunkEvict

/-- An update, or one step of an eviction; `rest` is the rest of the cache as
that step finds it. -/
inductive PolicyOp where
  | update (location : ZnPair) (ioType : ZnIoType)
  | evict (a : Answers) (rest : CacheState ZnPolicyChunk)

/-- One step of the policy. -/
def policyStep (mem : Nat → EvictionPolicyChunkZone) (g : Geometry) (r : PolicyRun) :
    PolicyOp → Stepped PolicyRun
  | .update location ioType =>
    ((chunk mem).update g r.policy location ioType).map fun x => x.map fun p => { r with policy := p }
  | .evict a rest =>
    ((chunk mem).step g a { rest with policy := r.policy } (r.evicting.getD (chunk mem).entry)).map
      fun x => x.map fun y => ⟨y.1.policy, y.2⟩

/-- The runs from `zn_evict_policy_init`. -/
def policySystem (mem : Nat → EvictionPolicyChunkZone) (g : Geometry) :
    TransSys PolicyRun PolicyOp where
  init r := r = ⟨znPolicyChunkInit mem g, none⟩
  step r op r' := policyStep mem g r op = some (.ok r')

/-- The collector moves no live chunk. -/
def PolicyOp.MovesNone (r : PolicyRun) (_ : PolicyOp) : Prop := ∀ e ∈ r.evicting, ¬ e.Moves

/-- **What one step of the policy can do.** -/
inductive PolicyCase (g : Geometry) (r : PolicyRun) : PolicyOp → PolicyRun → Prop
  | update {l : ZnPair} {io : ZnIoType} {p : ZnPolicyChunk} (h : ChunkUpdateCase g r.policy l io p) :
      PolicyCase g r (.update l io) { r with policy := p }
  | evict {a : Answers} {rest s' : CacheState ZnPolicyChunk} {e' : Option ChunkEvict}
      (h : ChunkEvictCase g a { rest with policy := r.policy } (r.evicting.getD .lock) s' e') :
      PolicyCase g r (.evict a rest) ⟨s'.policy, e'⟩

theorem policyStep_cases {mem : Nat → EvictionPolicyChunkZone} {g : Geometry} {r r' : PolicyRun}
    {op : PolicyOp} (h : policyStep mem g r op = some (.ok r')) : PolicyCase g r op r' := by
  cases op with
  | update l io =>
    obtain ⟨p, hp, rfl⟩ := stepped_map_eq_ok h
    exact .update (chunkUpdate_cases hp).2
  | evict a rest =>
    obtain ⟨⟨s', e'⟩, hs, rfl⟩ := stepped_map_eq_ok h
    exact .evict (chunkEvictStep_cases hs)

/-- **Run lemma.** -/
theorem chunkBooks_reach {mem : Nat → EvictionPolicyChunkZone} {g : Geometry}
    (hmax : g.maxZoneChunks < 2 ^ 32) {C : PolicyRun → PolicyOp → Prop}
    (hC : ∀ r op, C r op → op.MovesNone r) {r : PolicyRun}
    (hr : (policySystem mem g).Reach C r) : ChunkBooks g r.policy := by
  apply TransSys.Reach.invariant (I := fun r => ChunkBooks g r.policy) _ _ hr
  · intro r hr
    obtain rfl : r = ⟨znPolicyChunkInit mem g, none⟩ := hr
    exact ChunkBooks.init mem g
  · intro r op r' _ h hc hs
    cases policyStep_cases hs with
    | update hcase => exact h.update hmax hcase
    | evict hcase =>
      have hstep := ChunkBooks.evict h hmax (e := r.evicting.getD .lock) ?_ hcase
      · exact hstep
      · cases he : r.evicting with
        | none => exact id
        | some e => exact hC r _ hc e he

end ZnCache
