/-
  ZnCache.Chunk.Drain — how many chunks an eviction pops.

  `zn_policy_chunk_evict` computes the number from `total_chunks`, the length
  of the queue and two thresholds, in 32 bits, and pops so many chunks without
  looking at the queue again.  The smaller the device, the sooner that is more
  than the queue has.

  Main result: `never_drains_iff` — the loop stays within the queue, in every
  run that moves no live chunk, exactly on devices with a reserve.
-/
import ZnCache.Chunk.Rounds
import ZnCache.MinHeap.Growth

namespace ZnCache

open Lib

variable {mem : Nat → EvictionPolicyChunkZone} {g : Geometry}

/-! ## §1. The numbers. -/

/-- The test of `zn_policy_chunk_evict` lets the eviction go on. -/
def ZnPolicyChunk.Passes (p : ZnPolicyChunk) : Prop :=
  ¬ (p.lruQueue.length % 2 ^ 32 = 0 ∨ evictHighThreshChunks < p.freeChunks)

/-- Neither difference wraps around, and the queue has what the loop pops. -/
structure ZnPolicyChunk.Suffices (p : ZnPolicyChunk) : Prop where
  free_exact : p.lruQueue.length % 2 ^ 32 ≤ p.totalChunks
  evict_exact : p.Passes → p.freeChunks ≤ evictLowThreshChunks
  pops_le : p.Passes → p.nrEvict ≤ p.lru.length

/-- The eviction loop never empties the queue under itself. -/
structure NeverDrains (mem : Nat → EvictionPolicyChunkZone) (g : Geometry) : Prop where
  suffices_always : ∀ r, (policySystem mem g).Reach (fun r op => op.MovesNone r) r →
    r.policy.Suffices
  never_null : ∀ r i nrEvict, (policySystem mem g).Reach (fun r op => op.MovesNone r) r →
    r.evicting = some (.pop i nrEvict) → i < nrEvict → r.policy.lru ≠ []

/-- The device has no chunks, or twelve and fewer than `2 ^ 32`, or so many that
`total_chunks` is the largest `uint32_t`. -/
def Geometry.HasReserve (g : Geometry) : Prop :=
  g.nrZones * g.maxZoneChunks = 0
    ∨ (evictLowThreshChunks ≤ g.nrZones * g.maxZoneChunks ∧ g.nrZones * g.maxZoneChunks < 2 ^ 32)
    ∨ g.nrZones * g.maxZoneChunks % 2 ^ 32 = 2 ^ 32 - 1

namespace ChunkBooks

variable {p : ZnPolicyChunk}

theorem suffices_of_reserve (hb : ChunkBooks g p) (h : g.HasReserve) : p.Suffices := by
  have hle := hb.length_le
  have htotal := hb.total
  have hlen := p.length_lru
  have hhigh : evictHighThreshChunks = 6 := rfl
  have hlow : evictLowThreshChunks = 12 := rfl
  unfold Geometry.HasReserve at h
  have hboth : p.lruQueue.length % 2 ^ 32 ≤ p.totalChunks ∧ (p.Passes →
      p.freeChunks ≤ evictLowThreshChunks ∧ p.nrEvict ≤ p.lru.length) := by
    unfold ZnPolicyChunk.Passes ZnPolicyChunk.nrEvict ZnPolicyChunk.freeChunks u32Sub
    rw [htotal, hlen]
    generalize g.nrZones * g.maxZoneChunks = chunks at hle h ⊢
    -- of `chunks`, `n` are queued: `12 - (chunks - n) ≤ n`, for `12 ≤ chunks`
    omega
  exact ⟨hboth.1, fun hp => (hboth.2 hp).1, fun hp => (hboth.2 hp).2⟩

/-- Few chunks, and all but six of them queued: too many are to be popped. -/
theorem not_suffices_of_few (hb : ChunkBooks g p) (hsome : 1 ≤ g.nrZones * g.maxZoneChunks)
    (hfew : g.nrZones * g.maxZoneChunks < evictLowThreshChunks)
    (hlen : p.lru.length = max 1 (g.nrZones * g.maxZoneChunks - evictHighThreshChunks)) :
    ¬ p.Suffices := by
  intro h
  have htotal := hb.total
  have hhigh : evictHighThreshChunks = 6 := rfl
  have hlow : evictLowThreshChunks = 12 := rfl
  rw [p.length_lru] at hlen
  -- at most six chunks are free
  have hpass : p.Passes := by
    unfold ZnPolicyChunk.Passes ZnPolicyChunk.freeChunks u32Sub
    rw [htotal]
    generalize g.nrZones * g.maxZoneChunks = chunks at *
    omega
  have hle := h.pops_le hpass
  unfold ZnPolicyChunk.nrEvict ZnPolicyChunk.freeChunks u32Sub at hle
  rw [htotal, p.length_lru] at hle
  generalize g.nrZones * g.maxZoneChunks = chunks at *
  omega

/-- A queue that is longer than `total_chunks`. -/
theorem not_suffices_of_wrapped (hb : ChunkBooks g p)
    (hsmall : g.nrZones * g.maxZoneChunks % 2 ^ 32 ≠ 2 ^ 32 - 1)
    (hlen : p.lru.length = g.nrZones * g.maxZoneChunks % 2 ^ 32 + 1) : ¬ p.Suffices := by
  intro h
  have hle := h.free_exact
  rw [p.length_lru] at hlen
  rw [hb.total] at hle
  omega

end ChunkBooks

/-! ## §2. The loop. -/

/-- The mutex is held from the test on, and while the loop runs the queue has
what is yet to be popped. -/
def DrainOk (p : ZnPolicyChunk) : ChunkEvict → Prop
  | .lock => True
  | .pop i nrEvict =>
    p.locked = true ∧ nrEvict ≤ evictLowThreshChunks ∧ nrEvict ≤ i + p.lru.length
  | .mark i nrEvict _ | .clear i nrEvict _ =>
    p.locked = true ∧ i < nrEvict ∧ nrEvict ≤ evictLowThreshChunks ∧ nrEvict ≤ i + 1 + p.lru.length
  | .gc | .gcLoop _ | .gcScan .. | .gcRead .. | .gcWrite .. | .gcInsert .. | .gcClear _ | .gcReset _
  | .gcFree | .unlock => p.locked = true

theorem DrainOk.locked {p : ZnPolicyChunk} {e : ChunkEvict} (h : DrainOk p e) (hne : e ≠ .lock) :
    p.locked = true := by
  cases e with
  | lock => exact absurd rfl hne
  | pop | mark | clear => exact h.1
  | gc | gcLoop | gcScan | gcRead | gcWrite | gcInsert | gcClear | gcReset | gcFree | unlock => exact h

/-- **Step lemma.** -/
theorem DrainOk.evict {a : Answers} {s s' : CacheState ZnPolicyChunk} {e : ChunkEvict}
    {e' : Option ChunkEvict} (hb : ChunkBooks g s.policy) (hsuff : s.policy.Suffices)
    (hmove : ¬ e.Moves) (h : DrainOk s.policy e)
    (hs : chunkEvictStep g a s e = some (.ok (s', e'))) :
    DrainOk s'.policy (e'.getD .lock) := by
  have hlow : evictLowThreshChunks = 12 := rfl
  cases e with
  | lock =>
    simp only [chunkEvictStep] at hs
    split at hs
    · cases hs
    · split at hs
      · cases hs
        trivial
      · rename_i hpass
        cases hs
        have hexact := hsuff.evict_exact hpass
        have hle := hsuff.pops_le hpass
        have hn : s.policy.nrEvict ≤ evictLowThreshChunks := by
          unfold ZnPolicyChunk.nrEvict u32Sub
          omega
        refine ⟨rfl, hn, ?_⟩
        show s.policy.nrEvict ≤ 0 + s.policy.lru.length
        omega
  | pop i n =>
    obtain ⟨hlock, hn, hle⟩ := h
    cases chunkEvictStep_cases hs with
    | pop hlt hpop =>
      obtain ⟨ch, rest, hlru, -, rfl⟩ := popChunk_ok hb hpop
      obtain ⟨-, hrest, -⟩ := hb.indexed.pop hlru
      rw [hlru, List.length_cons] at hle
      refine ⟨hlock, hlt, hn, ?_⟩
      show n ≤ i + 1 + s.policy.lruQueue.dropHead.toList.length
      rw [hrest]
      omega
    | popped => exact hlock
  | mark i n zp =>
    cases hs
    exact h
  | clear i n zp =>
    obtain ⟨hlock, hlt, hn, hle⟩ := h
    obtain ⟨m, hm, heq⟩ := map_eq_ok (Option.some.inj hs)
    cases heq
    -- twelve rounds do not wrap the counter around
    have hnext : (i + 1) % 2 ^ 32 = i + 1 := Nat.mod_eq_of_lt (by omega)
    refine ⟨hlock, hn, ?_⟩
    rw [hnext]
    exact hle
  | gcInsert => exact absurd trivial hmove
  | gc | gcLoop | gcScan | gcRead | gcWrite | gcClear | gcReset | gcFree =>
    cases chunkEvictStep_cases hs <;> exact h
  | unlock =>
    cases hs
    trivial

/-- **Run lemma.** -/
theorem drained_reach (hmax : g.maxZoneChunks < 2 ^ 32) (hres : g.HasReserve) {r : PolicyRun}
    (hr : (policySystem mem g).Reach (fun r op => op.MovesNone r) r) :
    DrainOk r.policy (r.evicting.getD .lock) := by
  apply TransSys.Reach.invariant (I := fun r => DrainOk r.policy (r.evicting.getD .lock)) _ _ hr
  · intro r hr
    obtain rfl : r = ⟨znPolicyChunkInit mem g, none⟩ := hr
    trivial
  · intro r op r' hr h hc hs
    have hb := chunkBooks_reach hmax (fun _ _ h => h) hr
    cases op with
    | update l io =>
      obtain ⟨p, hp, rfl⟩ := stepped_map_eq_ok hs
      -- an update waits for the mutex, so no loop is under way
      have hfree := (chunkUpdate_cases hp).1
      have hlock : r.evicting.getD .lock = .lock := by
        by_contra hne
        rw [h.locked hne] at hfree
        cases hfree
      show DrainOk p (r.evicting.getD .lock)
      rw [hlock]
      trivial
    | evict a rest =>
      obtain ⟨⟨s', e'⟩, hstep, rfl⟩ := stepped_map_eq_ok hs
      have hmove : ¬ (r.evicting.getD .lock).Moves := by
        cases he : r.evicting with
        | none => exact id
        | some e => exact hc e he
      exact DrainOk.evict (s := { rest with policy := r.policy }) hb (hb.suffices_of_reserve hres) hmove
        h hstep

theorem never_drains_of_reserve (hmax : g.maxZoneChunks < 2 ^ 32) (hres : g.HasReserve) :
    NeverDrains mem g where
  suffices_always r hr := (chunkBooks_reach hmax (fun _ _ h => h) hr).suffices_of_reserve hres
  never_null r i n hr he hlt := by
    have h := drained_reach hmax hres hr
    rw [he] at h
    obtain ⟨-, -, hle⟩ : DrainOk r.policy (.pop i n) := h
    intro hnil
    rw [hnil, List.length_nil] at hle
    omega

/-- A device of no zones. -/
theorem idle_reach (hnone : g.nrZones = 0) {C : PolicyRun → PolicyOp → Prop} {r : PolicyRun}
    (hr : (policySystem mem g).Reach C r) : r = ⟨znPolicyChunkInit mem g, none⟩ := by
  apply TransSys.Reach.invariant (I := fun r => r = ⟨znPolicyChunkInit mem g, none⟩) _ _ hr
  · intro r hr
    exact hr
  · intro r op r' _ h _ hs
    cases op with
    | update l io =>
      obtain ⟨p, hp, rfl⟩ := stepped_map_eq_ok hs
      have htable : r.policy.chunkToLruMap (l.zone, l.chunkOffset) = none := by
        rw [h]
        exact if_neg fun hin => by omega
      cases (chunkUpdate_cases hp).2 with
      | write hin | writeLast hin => exact absurd htable hin
      | absent hin | touch hin =>
        rw [htable] at hin
        cases hin
    | evict a rest =>
      obtain ⟨⟨s', e'⟩, hstep, rfl⟩ := stepped_map_eq_ok hs
      rw [h] at hstep
      have hrefuse : chunkEvictStep g a { rest with policy := znPolicyChunkInit mem g } .lock
          = some (.ok ({ rest with policy := znPolicyChunkInit mem g }, none)) := rfl
      cases hrefuse.symm.trans hstep
      rfl

/-! ## §3. Devices without a reserve. -/

/-- Zones of one chunk each can all be reported. -/
theorem zones_reach (hzones : g.nrZones < 2 ^ 32) (hone : g.maxZoneChunks = 1) (n : Nat)
    (hn : n ≤ g.nrZones) :
    ∃ r, (policySystem mem g).Reach (fun r op => op.MovesNone r) r
      ∧ r.Rests ((List.range n).map fun z => (z, 0))
      ∧ r.policy.invalidPqueue.size = n ∧ r.policy.invalidPqueue.capacity = g.nrZones := by
  induction n with
  | zero => exact ⟨⟨znPolicyChunkInit mem g, none⟩, .start rfl, ⟨rfl, rfl, rfl⟩, rfl, rfl⟩
  | succ n ih =>
    obtain ⟨r, hr, hrest, hsize, hcap⟩ := ih (by omega)
    have hin : g.InPool (n, 0) := ⟨hn, by omega⟩
    have hnew : (n, 0) ∉ (List.range n).map fun z => (z, 0) := by
      simp
    have hlast : 0 = g.lastChunk := by
      unfold Geometry.lastChunk
      omega
    -- the array is not full, so it is not doubled
    have hgrown : r.policy.invalidPqueue.grownCapacity = g.nrZones := by
      unfold ZnMinheap.grownCapacity
      rw [if_neg (by omega), hcap]
    have hroom : ∀ d pr, ∃ x, znMinheapInsert r.policy.invalidPqueue d pr = .ok x := by
      intro d pr
      rw [insert_returns_iff]
      omega
    obtain ⟨r', hr', hrest', hheap⟩ := report_reach (by omega) hr hrest hin hnew fun _ => hroom
    obtain ⟨d, pr, e, hins⟩ := hheap hlast
    refine ⟨r', hr', ?_, ?_, ?_⟩
    · rw [List.range_succ, List.map_append]
      exact hrest'
    · rw [insert_size hins, hsize, Nat.mod_eq_of_lt (by omega)]
    · rw [insert_capacity hins, hgrown]

/-- All but six chunks of a small device can be reported, and at least one. -/
theorem few_reach (hfew : g.nrZones * g.maxZoneChunks < evictLowThreshChunks)
    (hsome : 1 ≤ g.nrZones * g.maxZoneChunks) :
    ∃ r, (policySystem mem g).Reach (fun r op => op.MovesNone r) r
      ∧ r.policy.lru.length = max 1 (g.nrZones * g.maxZoneChunks - evictHighThreshChunks) := by
  have hlow : evictLowThreshChunks = 12 := rfl
  have hhigh : evictHighThreshChunks = 6 := rfl
  have hzones : 1 ≤ g.nrZones := Nat.pos_of_mul_pos_right hsome
  have hchunks : 1 ≤ g.maxZoneChunks := Nat.pos_of_mul_pos_left hsome
  have hmax := Nat.le_mul_of_pos_left g.maxZoneChunks hzones
  have hnr := Nat.le_mul_of_pos_right g.nrZones hchunks
  by_cases hone : g.maxZoneChunks = 1
  -- every chunk is the last of its zone, and the heap has a cell for each zone
  · rw [hone, Nat.mul_one] at hfew ⊢
    obtain ⟨r, hr, hrest, -⟩ := @zones_reach mem g (by omega) hone
      (max 1 (g.nrZones - evictHighThreshChunks)) (by omega)
    refine ⟨r, hr, ?_⟩
    rw [hrest.lru_eq, List.length_map, List.length_range]
  -- half of the chunks are not the last of their zones, and that is enough
  · have htwo : g.nrZones * 2 ≤ g.nrZones * g.maxZoneChunks := Nat.mul_le_mul_left _ (by omega)
    have hroom : max 1 (g.nrZones * g.maxZoneChunks - evictHighThreshChunks)
        ≤ g.nrZones * (g.maxZoneChunks - 1) := by
      rw [Nat.mul_sub, Nat.mul_one]
      omega
    obtain ⟨r, hr, hrest⟩ := @fill_reach g mem (by omega) (by omega) _ hroom
    refine ⟨r, hr, ?_⟩
    rw [hrest.lru_eq, List.length_map, List.length_range]

/-- **THE DRAIN THEOREM.**  The eviction loop never empties the queue under
itself exactly on devices with a reserve.  If there is a zone, and it has
`2 ^ 32` chunks or more, `zn_evict_policy_init` does not return. -/
theorem never_drains_iff (hzones : g.nrZones < 2 ^ 32)
    (hmax : 1 ≤ g.nrZones → g.maxZoneChunks < 2 ^ 32) : NeverDrains mem g ↔ g.HasReserve := by
  by_cases hnone : g.nrZones = 0
  · refine iff_of_true ⟨?_, ?_⟩ (Or.inl (by rw [hnone, Nat.zero_mul]))
    · intro r hr
      obtain rfl := idle_reach hnone hr
      exact ⟨Nat.zero_le _, fun hp => absurd (Or.inl rfl) hp, fun hp => absurd (Or.inl rfl) hp⟩
    · intro r i n hr he
      obtain rfl := idle_reach hnone hr
      cases he
  have hmax := hmax (by omega)
  refine ⟨?_, never_drains_of_reserve hmax⟩
  intro h
  by_contra hres
  unfold Geometry.HasReserve at hres
  push Not at hres
  obtain ⟨hsome, hlow, hwrap⟩ := hres
  by_cases hfew : g.nrZones * g.maxZoneChunks < evictLowThreshChunks
  · obtain ⟨r, hr, hlen⟩ := @few_reach mem g hfew (by omega)
    have hb := chunkBooks_reach hmax (fun _ _ h => h) hr
    exact hb.not_suffices_of_few (by omega) hfew hlen (h.suffices_always r hr)
  · obtain ⟨r, hr, hlen⟩ := @overfill_reach g mem hzones hmax (hlow (by omega))
    have hb := chunkBooks_reach hmax (fun _ _ h => h) hr
    exact hb.not_suffices_of_wrapped hwrap hlen (h.suffices_always r hr)

/-- Two zones of seven chunks have one. -/
theorem never_drains_seven : sevenChunks.HasReserve ∧ NeverDrains clearedPool sevenChunks := by
  have hres : sevenChunks.HasReserve := Or.inr (Or.inl (by decide))
  exact ⟨hres, (never_drains_iff (by decide) fun _ => by decide).mpr hres⟩

section Drained

/-- Two zones of three chunks. -/
abbrev threeChunks : Geometry := ⟨2, 2, 4096, 12288, 12288, .block⟩

/-- Whether the thread is to pop a second chunk of seven. -/
def popsSecond (pc : Pc ChunkEvict) : Bool :=
  match pc with
  | .evictor (.pop 1 7) => true
  | _ => false

/-- Whether a thread is to pop a second chunk, of an empty queue, and goes
through NULL. -/
def popsNull {Tid : Type} [DecidableEq Tid] (t : Tid) (s : Sys ZnPolicyChunk ChunkEvict Tid) : Bool :=
  popsSecond (s.pool t) && s.cache.policy.lru.isEmpty
    && match sysStep (chunk clearedPool) threeChunks (fun _ => 0) s (.step t wellAnswered) with
      | some (.error .nullDeref) => true
      | _ => false

/-- **The loop empties the queue under itself.**  One chunk of six is queued:
five are free, so seven are to be evicted. -/
theorem evicts_an_empty_queue : ¬ NeverDrains clearedPool threeChunks
    ∧ ∃ s, (cacheSystem (Fin 2) (chunk clearedPool) threeChunks fun _ => 0).Reach
        (AloneAndWell threeChunks) s
      ∧ (s.pool 1).evicting = some (.pop 1 7) ∧ s.cache.policy.lru = []
      ∧ sysStep (chunk clearedPool) threeChunks (fun _ => 0) s (.step 1 wellAnswered)
        = some (.error .nullDeref) := by
  constructor
  · intro h
    obtain ⟨r, hr, hlen⟩ := @few_reach clearedPool threeChunks (by decide) (by decide)
    have hb := chunkBooks_reach (g := threeChunks) (by decide) (fun _ _ h => h) hr
    exact hb.not_suffices_of_few (by decide) (by decide) hlen (h.suffices_always r hr)
  · obtain ⟨s, hr, hs⟩ := TransSys.Reach.exists_of_exec
      (T := cacheSystem (Fin 2) (chunk clearedPool) threeChunks fun _ => 0) (C := AloneAndWell threeChunks)
      sysExec_ok ⟨fun _ => 0, rfl⟩ (popsNull 1)
      (cacheAll 0 [1] ++ .evictTask 1 :: List.replicate 4 (.step 1 wellAnswered)) (by decide +kernel)
    simp only [popsNull, Bool.and_eq_true, List.isEmpty_iff] at hs
    obtain ⟨⟨hat, hnil⟩, herr⟩ := hs
    refine ⟨s, hr, ?_, hnil, ?_⟩
    · generalize s.pool 1 = pc at hat ⊢
      unfold popsSecond at hat
      split at hat
      · rfl
      · cases hat
    · split at herr
      · assumption
      · cases herr

end Drained

end ZnCache
