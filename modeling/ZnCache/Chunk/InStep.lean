/-
  ZnCache.Chunk.InStep — what the books of the chunk policy come to.

  `InStep` is read off `ChunkBooks`: which chunks are queued, what the table
  has for each, and that the length of the queue is the sum of the counters.

  `total_chunks` is a `uint32_t`, "Number of chunks on disk".  Where the disk
  has `2^32` chunks or more, the queue outgrows it (`queue_outgrows`).  Main
  result: `chunk_structures_in_step`.
-/
import ZnCache.Chunk.Structures
import ZnCache.Chunk.Gc
import Mathlib.Algebra.BigOperators.Group.Finset.Basic

namespace ZnCache

open Lib Lib.ThreadPool

/-- **The structures are in step.** -/
structure InStep (g : Geometry) (p : ZnPolicyChunk) : Prop where
  queued : ∀ ch, ch ∈ p.lru ↔ g.InPool ch ∧ (p.pair ch).inUse = true
  once : p.lru.Nodup
  mapped : ∀ ch link, p.chunkToLruMap ch = some (some link) ↔ (link, ch) ∈ p.lruQueue.links
  unmapped : ∀ ch, g.InPool ch → ch ∉ p.lru → p.chunkToLruMap ch = some none
  counted : ∀ z, (p.zonePool z).chunksInUse
    = ((Finset.range g.maxZoneChunks).filter fun c => (p.pair (z, c)).inUse = true).card
  length_eq : p.lruQueue.length = ∑ z ∈ Finset.range g.nrZones, (p.zonePool z).chunksInUse

namespace ChunkBooks

variable {g : Geometry} {p : ZnPolicyChunk}

/-- A zone's share of the queue is what its counter says. -/
theorem card_zone (h : ChunkBooks g p) (z : Nat) :
    (p.lru.toFinset.filter fun ch => ch.1 = z).card = (p.zonePool z).chunksInUse := by
  rw [h.counted z]
  have himage : (p.lru.toFinset.filter fun ch => ch.1 = z)
      = ((Finset.range g.maxZoneChunks).filter fun c => (p.pair (z, c)).inUse = true).image
          fun c => (z, c) := by
    ext ch
    obtain ⟨z', c⟩ := ch
    rw [Finset.mem_filter, List.mem_toFinset, h.queued, Finset.mem_image]
    constructor
    · intro hch
      obtain ⟨huse, rfl⟩ := hch
      exact ⟨c, Finset.mem_filter.mpr ⟨Finset.mem_range.mpr (h.inPool huse).2, huse⟩, rfl⟩
    · intro hch
      obtain ⟨c', hc', heq⟩ := hch
      cases heq
      exact ⟨(Finset.mem_filter.mp hc').2, rfl⟩
  rw [himage, Finset.card_image_of_injective _ (Prod.mk_right_injective z)]
  rfl

theorem length_eq_card (h : ChunkBooks g p) : p.lruQueue.length = p.lru.toFinset.card := by
  rw [LinkQueue.length_eq, List.toFinset_card_of_nodup h.nodup]
  rfl

/-- The queue is never longer than the device has chunks. -/
theorem length_le (h : ChunkBooks g p) : p.lruQueue.length ≤ g.nrZones * g.maxZoneChunks := by
  rw [h.length_eq_card]
  have hsub : p.lru.toFinset ⊆ Finset.range g.nrZones ×ˢ Finset.range g.maxZoneChunks := by
    intro ch hch
    have hin := h.inPool ((h.queued ch).mp (List.mem_toFinset.mp hch))
    exact Finset.mem_product.mpr ⟨Finset.mem_range.mpr hin.1, Finset.mem_range.mpr hin.2⟩
  calc p.lru.toFinset.card
      ≤ (Finset.range g.nrZones ×ˢ Finset.range g.maxZoneChunks).card := Finset.card_le_card hsub
    _ = g.nrZones * g.maxZoneChunks := by
      rw [Finset.card_product, Finset.card_range, Finset.card_range]

theorem inStep (h : ChunkBooks g p) : InStep g p where
  queued ch := by
    rw [h.queued]
    exact ⟨fun huse => ⟨h.inPool huse, huse⟩, And.right⟩
  once := h.nodup
  mapped ch link := by
    rw [← h.indexed ch link]
    exact Option.join_eq_some_iff.symm
  unmapped ch hin hout := by
    have hnone := (h.indexed.eq_none_iff ch).mpr hout
    cases hmap : p.chunkToLruMap ch with
    | none => exact absurd hmap ((h.table ch).mpr hin)
    | some link =>
      rw [hmap] at hnone
      rw [show link = none from hnone]
  counted := h.counted
  length_eq := by
    rw [h.length_eq_card]
    have hzone : ∀ ch ∈ p.lru.toFinset, ch.1 ∈ Finset.range g.nrZones := fun ch hch =>
      Finset.mem_range.mpr (h.inPool ((h.queued ch).mp (List.mem_toFinset.mp hch))).1
    rw [Finset.card_eq_sum_card_fiberwise hzone]
    exact Finset.sum_congr rfl fun z _ => h.card_zone z

end ChunkBooks

/-! ## A run that reports one chunk after the other. -/

/-- The chunks of the device but for the last of each zone, zone by zone. -/
def Geometry.nthChunk (g : Geometry) (i : Nat) : Nat × Nat :=
  (i / (g.maxZoneChunks - 1), i % (g.maxZoneChunks - 1))

/-- No call holds `policy_mutex`, and the chunks have been reported in this order. -/
structure PolicyRun.Rests (r : PolicyRun) (chunks : List (Nat × Nat)) : Prop where
  free : r.policy.locked = false
  nobody : r.evicting = none
  lru_eq : r.policy.lru = chunks

variable {g : Geometry} {mem : Nat → EvictionPolicyChunkZone}

/-- A chunk that is not queued can be reported; the heap must take its zone if
it is the last one there. -/
theorem report_reach (hmax : g.maxZoneChunks < 2 ^ 32) {r : PolicyRun} {chunks : List (Nat × Nat)}
    (hr : (policySystem mem g).Reach (fun r op => op.MovesNone r) r) (hrest : r.Rests chunks)
    {ch : Nat × Nat} (hin : g.InPool ch) (hnew : ch ∉ chunks)
    (hroom : ch.2 = g.lastChunk → ∀ d pr, ∃ x, znMinheapInsert r.policy.invalidPqueue d pr = .ok x) :
    ∃ r', (policySystem mem g).Reach (fun r op => op.MovesNone r) r' ∧ r'.Rests (chunks ++ [ch])
      ∧ (ch.2 = g.lastChunk → ∃ d pr e,
          znMinheapInsert r.policy.invalidPqueue d pr = .ok (e, r'.policy.invalidPqueue)) := by
  obtain ⟨hlock, hnone, hlru⟩ := hrest
  have hb := chunkBooks_reach hmax (fun _ _ h => h) hr
  let l : ZnPair := ⟨ch.1, ch.2, 0, false⟩
  have htable := (hb.table ch).mpr hin
  have hfree : (r.policy.pair ch).inUse = false := by
    rw [← Bool.not_eq_true, ← hb.queued, hlru]
    exact hnew
  have hmoves : (PolicyOp.update l .write).MovesNone r := by
    intro e he
    rw [hnone] at he
    cases he
  have hlru' : (r.policy.written l).lru = chunks ++ [ch] := by
    show (r.policy.lruQueue.pushTail ch).toList = _
    rw [LinkQueue.toList_pushTail, ← hlru]
    rfl
  have hstep : ∀ p', znPolicyChunkUpdate g r.policy l .write = .ok p' →
      policyStep mem g r (.update l .write) = some (.ok ⟨p', none⟩) := by
    intro p' hp'
    unfold policyStep chunk
    dsimp only
    rw [hlock, if_neg (by simp), hp', ← hnone]
    rfl
  by_cases hlast : ch.2 = g.lastChunk
  · obtain ⟨⟨entry, heap⟩, hins⟩ := hroom hlast ch.1 ((r.policy.zonePool ch.1).written l).chunksInUse
    have hupdate := znPolicyChunkUpdate_writeLast (l := l) htable hfree hlast hins
    exact ⟨_, .next hr hmoves (hstep _ hupdate), ⟨hlock, rfl, hlru'⟩, fun _ => ⟨_, _, entry, hins⟩⟩
  · have hupdate := znPolicyChunkUpdate_write (l := l) htable hfree hlast
    exact ⟨_, .next hr hmoves (hstep _ hupdate), ⟨hlock, rfl, hlru'⟩, fun h => absurd h hlast⟩

/-- Any number of chunks can be reported, up to the last ones. -/
theorem fill_reach (hmax : g.maxZoneChunks < 2 ^ 32) (htwo : 2 ≤ g.maxZoneChunks) (n : Nat)
    (hn : n ≤ g.nrZones * (g.maxZoneChunks - 1)) :
    ∃ r, (policySystem mem g).Reach (fun r op => op.MovesNone r) r
      ∧ r.Rests ((List.range n).map g.nthChunk) := by
  induction n with
  | zero => exact ⟨⟨znPolicyChunkInit mem g, none⟩, .start rfl, rfl, rfl, rfl⟩
  | succ n ih =>
    obtain ⟨r, hr, hrest⟩ := ih (by omega)
    have hlt := Nat.mod_lt n (show 0 < g.maxZoneChunks - 1 by omega)
    have hin : g.InPool (g.nthChunk n) := by
      constructor
      · exact (Nat.div_lt_iff_lt_mul (by omega)).mpr (by omega)
      · show n % (g.maxZoneChunks - 1) < g.maxZoneChunks
        omega
    have hnew : g.nthChunk n ∉ (List.range n).map g.nthChunk := by
      rw [List.mem_map]
      intro hex
      obtain ⟨i, hi, heq⟩ := hex
      obtain ⟨hdiv, hmod⟩ := Prod.mk.inj heq
      have hi' := Nat.div_add_mod i (g.maxZoneChunks - 1)
      rw [hdiv, hmod, Nat.div_add_mod] at hi'
      exact absurd (List.mem_range.mp hi) (by omega)
    have hlast : (g.nthChunk n).2 ≠ g.lastChunk := by
      show n % (g.maxZoneChunks - 1) ≠ (g.maxZoneChunks + 2 ^ 64 - 1) % 2 ^ 64
      omega
    obtain ⟨r', hr', hrest', -⟩ := report_reach hmax hr hrest hin hnew fun h => absurd h hlast
    rw [List.range_succ, List.map_append]
    exact ⟨r', hr', hrest'⟩

/-- On a device of `2 ^ 32` chunks or more, the queue can be one chunk longer
than `total_chunks`. -/
theorem overfill_reach (hzones : g.nrZones < 2 ^ 32) (hmax : g.maxZoneChunks < 2 ^ 32)
    (hge : 2 ^ 32 ≤ g.nrZones * g.maxZoneChunks) :
    ∃ r, (policySystem mem g).Reach (fun r op => op.MovesNone r) r
      ∧ r.policy.lru.length = g.nrZones * g.maxZoneChunks % 2 ^ 32 + 1 := by
  -- the remainder is too small for a queue that the device has room for
  have htwo : 2 ≤ g.maxZoneChunks := by
    by_contra hlt
    have hle : g.nrZones * g.maxZoneChunks ≤ g.nrZones * 1 := Nat.mul_le_mul_left _ (by omega)
    omega
  have hroom : g.nrZones * g.maxZoneChunks % 2 ^ 32 + 1 ≤ g.nrZones * (g.maxZoneChunks - 1) := by
    rw [Nat.mul_sub, Nat.mul_one]
    have hmod := Nat.div_add_mod (g.nrZones * g.maxZoneChunks) (2 ^ 32)
    have hdiv : 1 ≤ g.nrZones * g.maxZoneChunks / 2 ^ 32 :=
      (Nat.one_le_div_iff (by decide)).mpr (by omega)
    omega
  obtain ⟨r, hr, hrest⟩ := @fill_reach g mem hmax htwo _ hroom
  refine ⟨r, hr, ?_⟩
  rw [hrest.lru_eq, List.length_map, List.length_range]

/-- **THE CHUNK-STRUCTURES THEOREM.**  After any updates and any evictions that
move no live chunk, the structures are in step.  The queue stays within
`total_chunks` exactly on devices of fewer than `2^32` chunks. -/
theorem chunk_structures_in_step (hzones : g.nrZones < 2 ^ 32) (hmax : g.maxZoneChunks < 2 ^ 32) :
    (∀ r, (policySystem mem g).Reach (fun r op => op.MovesNone r) r → InStep g r.policy)
    ∧ ((∀ r, (policySystem mem g).Reach (fun r op => op.MovesNone r) r →
          InStep g r.policy ∧ r.policy.lruQueue.length ≤ r.policy.totalChunks)
      ↔ g.nrZones * g.maxZoneChunks < 2 ^ 32) := by
  have hin : ∀ r, (policySystem mem g).Reach (fun r op => op.MovesNone r) r → InStep g r.policy :=
    fun r hr => (chunkBooks_reach hmax (fun _ _ h => h) hr).inStep
  refine ⟨hin, ?_, ?_⟩
  · intro hall
    by_contra hge
    obtain ⟨r, hr, hover⟩ := @overfill_reach g mem hzones hmax (Nat.le_of_not_lt hge)
    have hlen := (hall r hr).2
    rw [(chunkBooks_reach hmax (fun _ _ h => h) hr).total, LinkQueue.length_eq] at hlen
    have hlen' : r.policy.lruQueue.toList.length = g.nrZones * g.maxZoneChunks % 2 ^ 32 + 1 := hover
    omega
  · intro hlt r hr
    have hb := chunkBooks_reach hmax (fun _ _ h => h) hr
    refine ⟨hb.inStep, ?_⟩
    rw [hb.total, Nat.mod_eq_of_lt hlt]
    exact hb.length_le

/-- Two zones of seven chunks, five of them reported. -/
theorem chunk_structures_in_step_five :
    ∃ r : PolicyRun, r.policy.lru = [(0, 0), (0, 1), (0, 2), (0, 3), (0, 4)]
      ∧ InStep sevenChunks r.policy ∧ r.policy.lruQueue.length ≤ r.policy.totalChunks := by
  obtain ⟨r, hr, hrest⟩ := @fill_reach sevenChunks clearedPool (by decide) (by decide) 5 (by decide)
  have hboth := (chunk_structures_in_step (g := sevenChunks) (by decide) (by decide)).2.mpr
    (by decide) r hr
  exact ⟨r, hrest.lru_eq, hboth⟩

/-- A device of 16 TiB and one zone more, in zones of 1 GiB and chunks of 4 KiB. -/
abbrev manyChunks : Geometry := ⟨16385, 14, 4096, 1073741824, 1073741824, .block⟩

/-- **The queue outgrows `total_chunks`.** -/
theorem queue_outgrows :
    ∃ r, (policySystem clearedPool manyChunks).Reach (fun r op => op.MovesNone r) r
      ∧ evictLowThreshChunks ≤ r.policy.totalChunks
      ∧ r.policy.totalChunks < r.policy.lruQueue.length := by
  obtain ⟨r, hr, hrest⟩ := @fill_reach manyChunks clearedPool (by decide) (by decide)
    (2 ^ 18 + 1) (by decide)
  have htotal := (chunkBooks_reach (g := manyChunks) (by decide) (fun _ _ h => h) hr).total
  have hlen : r.policy.lruQueue.length = 2 ^ 18 + 1 := by
    rw [LinkQueue.length_eq]
    show r.policy.lru.length = _
    rw [hrest.lru_eq, List.length_map, List.length_range]
  refine ⟨r, hr, ?_, ?_⟩
  · rw [htotal]
    decide
  · rw [htotal, hlen]
    decide

end ZnCache
