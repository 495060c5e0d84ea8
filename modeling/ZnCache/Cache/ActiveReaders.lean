/-
  ZnCache.Cache.ActiveReaders — what `zn_init_cache` leaves in the reader counts.

  `cache->active_readers = malloc(...)`: nothing zeroes the array, here or in
  `zn_cachemap_init`.  Every later access is an increment or a decrement, so a
  count is off by what the memory held, for good: the caches of `Cache.Defs`
  are those of a zeroed array.

  Main results:
    * `readers_exact_iff_zeroed` — the counts are exact, and the wait of
      `zn_fg_evict` ends, exactly when the array came zeroed;
    * `readers_off` — from an array that did not, they are not.
-/
import ZnCache.Promotional.Publication
import ZnCache.Chunk.Evict

namespace ZnCache

open Lib Lib.ThreadPool

universe u

variable {P E : Type} {pol : EvictPolicy P E} {g : Geometry} {rb : Buffer}
  {mem : Nat → EvictionPolicyChunkZone} {readers : Nat → Int}

/-! ## §1. The cache as `zn_init_cache` builds it. -/

/-- The array of `nr_zones` counters, over what `malloc` returned. -/
def mallocedReaders (g : Geometry) (readers : Nat → Int) (z : Nat) : Int :=
  if z < g.nrZones then readers z else 0

/-- `zn_init_cache`, with the array as it was allocated. -/
def mallocCache (pol : EvictPolicy P E) (g : Geometry) (bytes : Buffer) (readers : Nat → Int) :
    CacheState P :=
  { initCache pol g bytes with
    cacheMap := { znCachemapInit g.nrZones with activeReaders := mallocedReaders g readers } }

/-- The runs from there, with no call in progress. -/
def mallocSystem (Tid : Type u) [DecidableEq Tid] (pol : EvictPolicy P E) (g : Geometry)
    (randomBuffer : Buffer) (readers : Nat → Int) : TransSys (Sys P E Tid) (SysLabel Tid) where
  init s := ∃ bytes, s = ⟨mallocCache pol g bytes readers, fun _ => .idle⟩
  step s l s' := sysStep pol g randomBuffer s l = some (.ok s')

variable {Tid : Type u} [DecidableEq Tid]

/-- The counts, from what they were allocated with. -/
theorem malloc_readers_from [Fintype Tid]
    (hpol : ∀ g a s e s' e', pol.step g a s e = some (.ok (s', e')) →
      s'.cacheMap.activeReaders = s.cacheMap.activeReaders)
    {C : Sys P E Tid → SysLabel Tid → Prop} {s : Sys P E Tid}
    (hr : (mallocSystem Tid pol g rb readers).Reach C s) :
    ReadersFrom (mallocedReaders g readers) s := by
  refine hr.invariant (fun s hs z => ?_) fun s l s' _ h _ hs => h.step hpol hs
  obtain ⟨bytes, rfl⟩ := hs
  rw [countOn_reads_idle]
  show mallocedReaders g readers z = mallocedReaders g readers z + 0
  omega

/-! ## §2. The counts are right. -/

/-- Each zone's count is the number of its readers, and zero when no call is in
progress. -/
def CountsReaders [Fintype Tid] (g : Geometry) (s : Sys P E Tid) : Prop :=
  ∀ z, z < g.nrZones →
    s.cache.cacheMap.activeReaders z = countOn Finset.univ (Pc.Reads z) s.pool
      ∧ ((∀ t, s.pool t = .idle) → s.cache.cacheMap.activeReaders z = 0)

/-- A thread that waits for the readers of a zone goes on once they have left. -/
def WaitEnds (g : Geometry) (s : Sys ZnPolicyPromotional FgEvict Tid) : Prop :=
  ∀ t i bound zone a, (s.pool t).evicting = some (.wait i bound zone) →
    (∀ u, ¬ (s.pool u).Reads zone) →
    fgEvictStep g a s.cache (.wait i bound zone) = some (.ok (s.cache, some (.reset i bound zone)))

omit [DecidableEq Tid] in
/-- From a zeroed array, `active_readers` is the number of readers. -/
theorem ReadersFrom.exact [Fintype Tid] {s : Sys P E Tid}
    (h : ReadersFrom (mallocedReaders g readers) s) (hzero : ∀ z, z < g.nrZones → readers z = 0) :
    ReadersExact s := by
  intro z
  rw [h z]
  unfold mallocedReaders
  split
  · rw [hzero z ‹_›]
    omega
  · omega

omit [DecidableEq Tid] in
theorem ReadersExact.counts [Fintype Tid] {s : Sys P E Tid} (h : ReadersExact s) :
    CountsReaders g s := by
  intro z _
  refine ⟨h z, fun hidle => ?_⟩
  have hpool : s.pool = fun _ => .idle := funext hidle
  rw [h z, hpool, countOn_reads_idle]
  rfl

omit [DecidableEq Tid] in
theorem ReadersExact.waitEnds [Fintype Tid] {s : Sys ZnPolicyPromotional FgEvict Tid}
    (h : ReadersExact s) : WaitEnds g s := by
  intro t i bound zone a _ hno
  have hzero : s.cache.cacheMap.activeReaders zone = 0 := by
    rw [h zone, (countOn_eq_zero_iff _ _).mpr fun u _ => hno u]
    rfl
  show (if 0 < s.cache.cacheMap.activeReaders zone then _ else _) = _
  exact if_neg (by omega)

/-- What the array held shows before the first call. -/
theorem CountsReaders.zeroed [Fintype Tid]
    (h : ∀ s, (mallocSystem Tid pol g rb readers).Reach TransSys.Any s → CountsReaders g s) :
    ∀ z, z < g.nrZones → readers z = 0 := by
  intro z hz
  have hstart := (h ⟨mallocCache pol g (fun _ => 0) readers, fun _ => .idle⟩ (.start ⟨_, rfl⟩) z hz).2
    fun _ => rfl
  have hcell : mallocedReaders g readers z = readers z := if_pos hz
  exact hcell.symm.trans hstart

/-- **READER COUNTS ARE EXACT** in every run, and the wait of `zn_fg_evict`
ends, if and only if `malloc` returned zeroed memory. -/
theorem readers_exact_iff_zeroed (Tid : Type u) [DecidableEq Tid] [Fintype Tid] (g : Geometry)
    (rb : Buffer) (mem : Nat → EvictionPolicyChunkZone) (readers : Nat → Int) :
    ((∀ s, (mallocSystem Tid promotional g rb readers).Reach TransSys.Any s →
        CountsReaders g s ∧ WaitEnds g s)
      ↔ ∀ z, z < g.nrZones → readers z = 0)
    ∧ ((∀ s, (mallocSystem Tid (chunk mem) g rb readers).Reach TransSys.Any s → CountsReaders g s)
      ↔ ∀ z, z < g.nrZones → readers z = 0) := by
  refine ⟨⟨fun h => ?_, fun hzero s hr => ?_⟩, ⟨fun h => ?_, fun hzero s hr => ?_⟩⟩
  · exact CountsReaders.zeroed fun s hr => (h s hr).1
  · have hexact := (malloc_readers_from promotional_readers hr).exact hzero
    exact ⟨hexact.counts, hexact.waitEnds⟩
  · exact CountsReaders.zeroed h
  · exact ((malloc_readers_from (chunk_readers mem) hr).exact hzero).counts

/-! ## §3. An array that was not zeroed. -/

/-- Thread `t` fills the zone with id 1; thread `u` evicts it and comes to the
wait. -/
def fillThenWait {Tid : Type u} (t u : Tid) : List (SysLabel Tid) :=
  .get t 1 :: List.replicate 7 (.step t allWell) ++ [.ret t, .evictTask u]
    ++ List.replicate 3 (.step u allWell)

/-- **The counts are off.**  `malloc` returned a 1 for the one zone: no call is
in progress, and the count is 1; later nobody reads the zone, and the evictor
waits for its readers for ever. -/
theorem readers_off :
    (∃ s, (mallocSystem (Fin 2) promotional oneChunk (fun _ => 0) fun _ => 1).Reach
        (Benign oneChunk) s
      ∧ (∀ t, s.pool t = .idle) ∧ s.cache.cacheMap.activeReaders 0 = 1)
    ∧ ∃ s, (mallocSystem (Fin 2) promotional oneChunk (fun _ => 0) fun _ => 1).Reach
        (Benign oneChunk) s
      ∧ (s.pool 1).evicting = some (.wait 0 4 0) ∧ (∀ u, ¬ (s.pool u).Reads 0)
      ∧ ∀ a, fgEvictStep oneChunk a s.cache (.wait 0 4 0)
        = some (.ok (s.cache, some (.wait 0 4 0))) := by
  refine ⟨⟨_, .start ⟨fun _ => 0, rfl⟩, fun _ => rfl, rfl⟩, ?_⟩
  obtain ⟨s, hr, hs⟩ := TransSys.Reach.exists_of_exec
    (T := mallocSystem (Fin 2) promotional oneChunk (fun _ => 0) fun _ => 1)
    (C := Benign oneChunk) sysExec_ok ⟨fun _ => 0, rfl⟩
    (fun s => (s.pool 1).evicting = some (.wait 0 4 0) ∧ (∀ u, ¬ (s.pool u).Reads 0)
      ∧ s.cache.cacheMap.activeReaders 0 = 1) (fillThenWait 0 1) (by decide)
  obtain ⟨hwait, hno, hone⟩ := of_decide_eq_true hs
  refine ⟨s, hr, hwait, hno, fun a => ?_⟩
  show (if 0 < s.cache.cacheMap.activeReaders 0 then _ else _) = _
  exact if_pos (by omega)

end ZnCache
