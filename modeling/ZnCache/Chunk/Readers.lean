/-
  ZnCache.Chunk.Readers — zones are reset under readers, by either policy.

  `zn_fg_evict` waits for the readers of a zone after it has cleared its
  entries; a late entry lets one in after the wait (`late_reader`).
  `zn_policy_chunk_gc` clears the entries and does not wait
  (`reset_under_reader`).  With the wait in both places, and no late entries,
  no zone is reset under a reader (`no_zone_reset_under_reader`).
-/
import ZnCache.Promotional.Publication
import ZnCache.Chunk.Gc

namespace ZnCache

open Lib Lib.ThreadPool

universe u

variable {Tid : Type u} [DecidableEq Tid] {g : Geometry} {rb : Buffer}
  {mem : Nat → EvictionPolicyChunkZone}

/-- The reader count tells whether the collector's zone has readers. -/
theorem chunk_reads_iff [Fintype Tid]
    {C : Sys ZnPolicyChunk ChunkEvict Tid → SysLabel Tid → Prop} {s : Sys ZnPolicyChunk ChunkEvict Tid}
    (hr : (cacheSystem Tid (chunk mem) g rb).Reach C s) (z : Nat) :
    (∀ u, ¬ (s.pool u).Reads z) ↔ s.cache.cacheMap.activeReaders z = 0 := by
  have hexact := readers_exact (chunk_readers mem) hr z
  have hzero := countOn_eq_zero_iff (D := Finset.univ) (Pc.Reads (E := ChunkEvict) z) s.pool
  constructor
  · intro hno
    rw [hexact, hzero.mpr fun u _ => hno u]
    rfl
  · intro h u
    exact hzero.mp (by omega) u (Finset.mem_univ u)

/-- Thread `t` caches ids 1 to 9 and reads id 1, in zone 0.  Thread `u` evicts
the seven chunks of zone 0, and the collector picks it and clears it. -/
def clearUnderReader {Tid : Type u} (t u : Tid) : List (SysLabel Tid) :=
  cacheAll t [1, 2, 3, 4, 5, 6, 7, 8, 9] ++ .get t 1 :: .step t wellAnswered :: .evictTask u
    :: List.replicate 34 (.step u wellAnswered)

/-- Ids are small, and all operations succeed. -/
abbrev ChunkBenign (g : Geometry) (_ : Sys ZnPolicyChunk ChunkEvict (Fin 2)) (l : SysLabel (Fin 2)) :
    Prop := l.SmallId ∧ l.ZoneOk g ∧ l.TransferOk g

/-- Thread `t` caches id 1 and reads it; thread `u` is about to reset its zone. -/
def resetAfterReader {Tid : Type u} (t u : Tid) : List (SysLabel Tid) :=
  .get t 1 :: List.replicate 7 (.step t allWell) ++ .ret t :: .get t 1 :: List.replicate 5 (.step t allWell)
    ++ [.ret t, .evictTask u] ++ List.replicate 4 (.step u allWell)

/-- Whether a thread is about to reset zone 0 of the pool. -/
def resetsZero (pc : Pc ChunkEvict) : Bool :=
  match pc with
  | .evictor (.gcReset 0) => true
  | _ => false

theorem evicting_of_resetsZero {pc : Pc ChunkEvict} (h : resetsZero pc = true) :
    pc.evicting = some (.gcReset 0) := by
  unfold resetsZero at h
  split at h
  · rfl
  · cases h

/-- **No zone is reset under a reader**, in runs of the promotional policy that
publish before they clear, and under the chunk policy where the collector finds
what `zn_fg_evict` waits for. -/
theorem no_zone_reset_under_reader [Fintype Tid] (hmax : g.maxZoneChunks < 2 ^ 32) :
    (∀ s : Sys ZnPolicyPromotional FgEvict Tid,
      (cacheSystem Tid promotional g rb).Reach (fun s l => l.PublishedFirst s) s →
        ∀ t i bound zone, (s.pool t).evicting = some (.reset i bound zone) →
          ∀ u, ¬ (s.pool u).Reads zone)
    ∧ ∀ s : Sys ZnPolicyChunk ChunkEvict Tid,
      (cacheSystem Tid (chunk mem) g rb).Reach TransSys.Any s →
        ∀ t old, (s.pool t).evicting = some (.gcReset old) →
          ((∀ u, ¬ (s.pool u).Reads (s.cache.policy.zonePool old).zoneId)
            ↔ s.cache.cacheMap.activeReaders (s.cache.policy.zonePool old).zoneId = 0) :=
  ⟨fun _ hr _ _ _ _ ht u => no_reader_at_reset hmax hr ht u, fun _ hr _ _ _ => chunk_reads_iff hr _⟩

/-- Zone 0 is reset after its reader has left, and collected under a reader. -/
theorem no_zone_reset_under_reader_two_zones :
    (∃ s : Sys ZnPolicyPromotional FgEvict (Fin 2),
      (s.pool 1).evicting = some (.reset 0 4 0) ∧ ∀ u, ¬ (s.pool u).Reads 0)
    ∧ ∃ s : Sys ZnPolicyChunk ChunkEvict (Fin 2),
      (s.pool 1).evicting = some (.gcReset 0)
        ∧ s.cache.cacheMap.activeReaders (s.cache.policy.zonePool 0).zoneId = 1
        ∧ ∃ u, (s.pool u).Reads (s.cache.policy.zonePool 0).zoneId := by
  constructor
  · obtain ⟨s, hr, hs⟩ := TransSys.Reach.exists_of_exec
      (T := cacheSystem (Fin 2) promotional oneChunk fun _ => 0) (C := fun s l => l.PublishedFirst s)
      sysExec_ok ⟨fun _ => 0, rfl⟩
      (fun s => (s.pool 1).evicting = some (.reset 0 4 0)) (resetAfterReader 0 1) (by decide)
    have ht := of_decide_eq_true hs
    exact ⟨s, ht, (@no_zone_reset_under_reader (Fin 2) _ oneChunk _ clearedPool _ (by decide)).1 s hr 1 0 4 0 ht⟩
  · obtain ⟨s, hr, hs⟩ := TransSys.Reach.exists_of_exec
      (T := cacheSystem (Fin 2) (chunk clearedPool) sevenChunks fun _ => 0) (C := TransSys.Any)
      sysExec_ok ⟨fun _ => 0, rfl⟩
      (fun s => resetsZero (s.pool 1) = true
        ∧ s.cache.cacheMap.activeReaders (s.cache.policy.zonePool 0).zoneId = 1) (clearUnderReader 0 1)
      (by decide +kernel)
    obtain ⟨hreset, hone⟩ := of_decide_eq_true hs
    have ht := evicting_of_resetsZero hreset
    refine ⟨s, ht, hone, by_contra fun hno => ?_⟩
    have hzero := ((no_zone_reset_under_reader (g := sevenChunks) (by decide)).2 s hr 1 0 ht).mp
      (not_exists.mp hno)
    omega

section Collected

/-- The collector's reset of a full zone returns. -/
theorem gcReset_returns {s : Sys ZnPolicyChunk ChunkEvict Tid} {t : Tid} {a : Answers} {old : Nat}
    (ht : (s.pool t).evicting = some (.gcReset old)) (hret : DeviceOk g a.ret)
    (hfull : (s.cache.zoneState.state (s.cache.policy.zonePool old).zoneId).state = .full) :
    ∃ s', sysStep (chunk mem) g rb s (.step t a) = some (.ok s') := by
  have hstep : chunkEvictStep g a s.cache (.gcReset old) = some (.ok
      ({ s.cache with
          zoneState := evicted s.cache.zoneState (s.cache.policy.zonePool old).zoneId
          device := s.cache.device.forget (s.cache.policy.zonePool old).zoneId }, some .gcFree)) := by
    simp only [chunkEvictStep, zsmEvict_spec hret hfull]
    rfl
  exact evicting_returns ht hstep

/-- **Zones are reset under readers**, by either policy. -/
theorem reset_under_reader :
    (∃ s, (cacheSystem (Fin 2) promotional oneChunk fun _ => 0).Reach (Benign oneChunk) s
      ∧ (s.pool 1).evicting = some (.reset 0 4 0) ∧ (s.pool 0).Reads 0
      ∧ ∃ s', sysStep promotional oneChunk (fun _ => 0) s (.step 1 allWell) = some (.ok s'))
    ∧ ∃ s, (cacheSystem (Fin 2) (chunk clearedPool) sevenChunks fun _ => 0).Reach
        (ChunkBenign sevenChunks) s
      ∧ (s.pool 1).evicting = some (.gcReset 0) ∧ (s.cache.policy.zonePool 0).zoneId = 0
      ∧ (s.pool 0).Reads 0
      ∧ ∃ s', sysStep (chunk clearedPool) sevenChunks (fun _ => 0) s (.step 1 wellAnswered)
        = some (.ok s') := by
  refine ⟨late_reader, ?_⟩
  obtain ⟨s, hr, hs⟩ := TransSys.Reach.exists_of_exec
    (T := cacheSystem (Fin 2) (chunk clearedPool) sevenChunks fun _ => 0)
    (C := ChunkBenign sevenChunks) sysExec_ok ⟨fun _ => 0, rfl⟩
    (fun s => resetsZero (s.pool 1) = true ∧ (s.cache.policy.zonePool 0).zoneId = 0
      ∧ (s.pool 0).Reads 0 ∧ (s.cache.zoneState.state 0).state = .full) (clearUnderReader 0 1)
    (by decide +kernel)
  obtain ⟨hreset, hzone, hreads, hfull⟩ := of_decide_eq_true hs
  have ht := evicting_of_resetsZero hreset
  exact ⟨s, hr, ht, hzone, hreads, gcReset_returns ht (Or.inl rfl) (hzone.symm ▸ hfull)⟩

end Collected

end ZnCache
