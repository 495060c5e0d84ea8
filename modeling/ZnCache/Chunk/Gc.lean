/-
  ZnCache.Chunk.Gc — the collector on a zone with chunks in use.

  A pass of `zn_policy_chunk_gc` over a zone is to move the chunks in use and
  to keep them cached (`Collected`).  It never does.  Every chunk that is to be
  moved acquires a zone to move it to, and no step of the collector gives that
  zone back; so if the pass comes to its end at all, zones are left handed out
  (`gc_never_collects`).

  Most often it does not come to its end: `zn_cachemap_insert` is called for an
  id with no `RESULT_COND` entry, and its assertion fails (`gc_pass_aborts`).
-/
import ZnCache.Cache.Zones
import ZnCache.Chunk.Evict

namespace ZnCache

open Lib

universe u

variable {Tid : Type u} [DecidableEq Tid] {g : Geometry} {rb : Buffer}
  {mem : Nat → EvictionPolicyChunkZone}

/-! ## §1. A pass, and what it is for. -/

/-- Everything the device is asked for succeeds. -/
def Answers.Ok (g : Geometry) (a : Answers) : Prop :=
  DeviceOk g a.ret ∧ TransfersOk a.pwrites ∧ a.pread = g.chunkSz

/-- Thread `t` goes on alone from `s₀`. -/
def passSystem (mem : Nat → EvictionPolicyChunkZone) (g : Geometry) (rb : Buffer) (t : Tid)
    (s₀ : Sys ZnPolicyChunk ChunkEvict Tid) :
    TransSys (Sys ZnPolicyChunk ChunkEvict Tid) Answers where
  init s := s = s₀
  step s a s' := sysStep (chunk mem) g rb s (.step t a) = some (.ok s')

/-- A step within a pass: the device obeys, and the pass has not come to its end. -/
def WithinPass (g : Geometry) (t : Tid) (s : Sys ZnPolicyChunk ChunkEvict Tid) (a : Answers) : Prop :=
  a.Ok g ∧ ∀ e ∈ (s.pool t).evicting, e ≠ .gcFree

instance ChunkEvict.decEqFree (e : ChunkEvict) : Decidable (e = .gcFree) := by
  cases e with
  | gcFree => exact isTrue rfl
  | lock | pop | mark | clear | gc | gcLoop | gcScan | gcRead | gcWrite | gcInsert | gcClear
  | gcReset | unlock => exact isFalse fun h => by cases h

instance WithinPass.dec (t : Tid) (s : Sys ZnPolicyChunk ChunkEvict Tid) (a : Answers) :
    Decidable (WithinPass g t s a) := by
  unfold WithinPass Answers.Ok DeviceOk TransfersOk
  infer_instance

/-- One step of a pass, if it returns. -/
def passExec (mem : Nat → EvictionPolicyChunkZone) (g : Geometry) (rb : Buffer) (t : Tid)
    (s : Sys ZnPolicyChunk ChunkEvict Tid) (a : Answers) : Option (Sys ZnPolicyChunk ChunkEvict Tid) :=
  if WithinPass g t s a then sysExec (chunk mem) g rb (fun _ _ => True) s (.step t a) else none

theorem passExec_ok {t : Tid} (s₀ s : Sys ZnPolicyChunk ChunkEvict Tid) (a : Answers)
    (s' : Sys ZnPolicyChunk ChunkEvict Tid) (h : passExec mem g rb t s a = some s') :
    WithinPass g t s a ∧ (passSystem mem g rb t s₀).step s a s' := by
  unfold passExec at h
  split at h
  · rename_i hw
    exact ⟨hw, (sysExec_ok s (.step t a) s' h).2⟩
  · cases h

/-- The chunk at `l` is in use, and in the LRU queue once, by the link the
table has for it. -/
def Tracked (p : ZnPolicyChunk) (l : ZnPair) : Prop :=
  (p.pair (l.zone, l.chunkOffset)).inUse = true
    ∧ p.lru.count (l.zone, l.chunkOffset) = 1
    ∧ ∃ node, p.chunkToLruMap (l.zone, l.chunkOffset) = some (some node)
      ∧ p.lruQueue.linkData node = some (l.zone, l.chunkOffset)

/-- **What a pass over zone `old` of the pool is for.** -/
structure Collected (g : Geometry) (old : Nat) (s s' : CacheState ZnPolicyChunk) : Prop where
  /-- What was cached is cached, with the bytes it had. -/
  kept : ∀ id l, s.cacheMap.zoneMap id = some (.loc l) →
    ∃ l', s'.cacheMap.zoneMap id = some (.loc l') ∧ Tracked s'.policy l'
      ∧ ∀ i, i < g.chunkSz → s'.device.bytes (g.wp l'.zone l'.chunkOffset + i)
          = s.device.bytes (g.wp l.zone l.chunkOffset + i)
  unqueued : ∀ c ∈ s'.policy.lru, c.1 ≠ (s.policy.zonePool old).zoneId
  given_back : s'.zoneState.writesOccurring = 0

/-! ## §2. The collector gives nothing back. -/

theorem AcquireCase.success_writes {s s' : ZoneStateManager} {l : ZnPair}
    (h : AcquireCase s (.success l) s') : s'.writesOccurring = s.writesOccurring + 1 := by
  cases h with
  | unchanged hr => exact absurd rfl (hr l)
  | reuse | opened => rfl

/-- Where a pass stands: it has acquired a zone, or it will. -/
def Acquires (g : Geometry) (s : CacheState ZnPolicyChunk) : ChunkEvict → Prop
  | .gcScan old i => 1 ≤ s.zoneState.writesOccurring
      ∨ ∃ j, i ≤ j ∧ j < g.maxZoneChunks ∧ (s.policy.pair (old, j)).inUse = true
  | .gcRead _ _ _ | .gcWrite _ _ _ _ | .gcInsert _ _ _ | .gcClear _ | .gcReset _ | .gcFree =>
      1 ≤ s.zoneState.writesOccurring
  | _ => False

/-- **One step of a pass** gives no zone back. -/
theorem ChunkEvictCase.acquires {a : Answers} (ha : DeviceOk g a.ret)
    {s s' : CacheState ZnPolicyChunk} {e : ChunkEvict} {e' : Option ChunkEvict}
    (hc : ChunkEvictCase g a s e s' e') (hfree : e ≠ .gcFree)
    (hw : 0 ≤ s.zoneState.writesOccurring) (h : Acquires g s e) :
    0 ≤ s'.zoneState.writesOccurring ∧ ∃ e'', e' = some e'' ∧ Acquires g s' e'' := by
  cases hc with
  | refuse | enter | pop | popped | mark | clear | gcSkip | gcStart | gcDone | gcPick | unlock =>
    exact h.elim
  | gcFree => exact absurd rfl hfree
  | @gcSkipChunk old i huse =>
    refine ⟨hw, _, rfl, h.imp_right ?_⟩
    intro hex
    obtain ⟨j, hij, hj, hin⟩ := hex
    have hne : j ≠ i := by
      rintro rfl
      rw [huse] at hin
      cases hin
    exact ⟨j, Nat.le_trans (Nat.mod_le _ _) (by omega), hj, hin⟩
  | gcAcquire hlt hr =>
    have hone := (zsmGetActiveZone_cases hr).success_writes
    refine ⟨?_, _, rfl, ?_⟩
    · dsimp only
      omega
    · show (1 : Int) ≤ ZoneStateManager.writesOccurring _
      dsimp only
      omega
  | gcScanned hge =>
    refine ⟨hw, _, rfl, ?_⟩
    rcases h with h | ⟨j, hij, hj, -⟩
    · exact h
    · omega
  | gcRead | gcWrite | gcClear => exact ⟨hw, _, rfl, h⟩
  | gcInsert => exact ⟨hw, _, rfl, Or.inl h⟩
  | @gcReset old r z hr =>
    have hst : (s.zoneState.state (s.policy.zonePool old).zoneId).state = .full := by
      unfold zsmEvict at hr
      exact (check_bind_ok hr).1
    rw [zsmEvict_spec ha hst] at hr
    cases hr
    exact ⟨hw, _, rfl, h⟩

/-- A whole pass gives no zone back. -/
theorem pass_acquires {t : Tid} {old : Nat} {s s' : Sys ZnPolicyChunk ChunkEvict Tid}
    (hw : 0 ≤ s.cache.zoneState.writesOccurring)
    (ht : (s.pool t).evicting = some (.gcScan old 0))
    (huse : ∃ i, i < g.maxZoneChunks ∧ (s.cache.policy.pair (old, i)).inUse = true)
    (hpass : (passSystem mem g rb t s).Reach (WithinPass g t) s') :
    0 ≤ s'.cache.zoneState.writesOccurring
      ∧ ∃ e, (s'.pool t).evicting = some e ∧ Acquires g s'.cache e := by
  induction hpass with
  | start h =>
    obtain rfl : _ = s := h
    obtain ⟨i, hi, hin⟩ := huse
    exact ⟨hw, _, ht, Or.inr ⟨i, Nat.zero_le i, hi, hin⟩⟩
  | next _ hc hs ih =>
    obtain ⟨hw', e, he, hacq⟩ := ih
    obtain ⟨ha, hne⟩ := hc
    obtain ⟨e', hpol, he'⟩ := evicting_step he hs
    obtain ⟨hw'', e'', rfl, hacq'⟩ :=
      (chunkEvictStep_cases hpol).acquires ha.1 (hne e he) hw' hacq
    exact ⟨hw'', e'', he', hacq'⟩

/-- Eviction keeps the invariant of the zone state manager. -/
theorem chunk_zsm_inv (hpos : 1 ≤ g.maxZoneChunks) (a : Answers) (s : CacheState ZnPolicyChunk)
    (e : ChunkEvict) (s' : CacheState ZnPolicyChunk) (e' : Option ChunkEvict)
    (ha : DeviceOk g a.ret) (h : ZsmInv g s.zoneState)
    (hs : (chunk mem).step g a s e = some (.ok (s', e'))) : ZsmInv g s'.zoneState := by
  cases chunkEvictStep_cases hs with
  | refuse | enter | pop | popped | clear | gcSkip | gcStart | gcDone | gcPick | gcSkipChunk
  | gcScanned | gcRead | gcWrite | gcInsert | gcClear | gcFree | unlock => exact h
  | mark => exact h.mark _
  | gcAcquire _ hr => exact h.acquire_ok hpos ha hr
  | gcReset hr => exact h.evict_ok ha hr

/-- **NO PASS OVER A ZONE WITH CHUNKS IN USE DOES WHAT IT IS FOR.** -/
theorem gc_never_collects {s : Sys ZnPolicyChunk ChunkEvict Tid}
    (hr : (cacheSystem Tid (chunk mem) g rb).Reach (fun _ l => l.ZoneOk g) s) {t : Tid} {old : Nat}
    (ht : (s.pool t).evicting = some (.gcScan old 0))
    (huse : ∃ i, i < g.maxZoneChunks ∧ (s.cache.policy.pair (old, i)).inUse = true) :
    ¬ ∃ s', (passSystem mem g rb t s).Reach (WithinPass g t) s'
      ∧ (s'.pool t).evicting = some .gcFree ∧ Collected g old s.cache s'.cache := by
  intro hex
  obtain ⟨s', hpass, hend, hcol⟩ := hex
  have hpos : 1 ≤ g.maxZoneChunks := by
    obtain ⟨i, hi, -⟩ := huse
    omega
  have hinv := zsm_inv_reach hpos (chunk_zsm_inv hpos) (fun _ _ h => h) hr
  obtain ⟨-, e, he, hacq⟩ := pass_acquires hinv.writes_nonneg ht huse hpass
  rw [hend] at he
  cases he
  have hback := hcol.given_back
  have hone : 1 ≤ s'.cache.zoneState.writesOccurring := hacq
  omega

/-! ## §3. A pass that aborts. -/

section Abort

/-- Two zones of seven chunks. -/
abbrev sevenChunks : Geometry := ⟨2, 2, 4096, 28672, 28672, .block⟩

/-- A pool in cleared memory. -/
abbrev clearedPool : Nat → EvictionPolicyChunkZone := fun _ =>
  ⟨0, fun _ => ⟨0, 0, 0, false⟩, 0, false, none⟩

/-- One call at a time, small ids, and all operations succeed. -/
abbrev AloneAndWell (g : Geometry) (s : Sys ZnPolicyChunk ChunkEvict (Fin 2))
    (l : SysLabel (Fin 2)) : Prop := l.Alone s ∧ l.SmallId ∧ l.ZoneOk g ∧ l.TransferOk g

/-- Everything succeeds. -/
abbrev wellAnswered : Answers := ⟨0, [⟨4096, 0⟩], 4096⟩

/-- Thread `t` caches the ids. -/
def cacheAll {Tid : Type u} (t : Tid) (ids : List UInt32) : List (SysLabel Tid) :=
  ids.flatMap fun id => .get t id :: List.replicate 7 (.step t wellAnswered) ++ [.ret t]

/-- Thread `t` caches ids 1 to 8, which fill zone 0 and begin zone 1.  Thread
`u` evicts six chunks of zone 0, and the collector picks it with one left. -/
def pickWithOneLeft {Tid : Type u} (t u : Tid) : List (SysLabel Tid) :=
  cacheAll t [1, 2, 3, 4, 5, 6, 7, 8] ++ .evictTask u :: List.replicate 22 (.step u wellAnswered)

/-- Whether the thread is at the start of a pass over zone 0. -/
def startsPass (pc : Pc ChunkEvict) : Bool :=
  match pc with
  | .evictor (.gcScan 0 0) => true
  | _ => false

/-- Whether the collector has acquired a zone and moved a chunk, and fails its
next assertion. -/
def abortsAtInsert (s : Sys ZnPolicyChunk ChunkEvict (Fin 2)) : Bool :=
  (match s.pool 1 with
    | .evictor (.gcInsert 0 6 _) => true
    | _ => false)
  && match sysStep (chunk clearedPool) sevenChunks (fun _ => 0) s (.step 1 wellAnswered) with
    | some (.error .assertion) => true
    | _ => false

theorem evicting_of_startsPass {pc : Pc ChunkEvict} (h : startsPass pc = true) :
    pc.evicting = some (.gcScan 0 0) := by
  unfold startsPass at h
  split at h
  · rfl
  · cases h

/-- What the run must come to: one chunk of zone 0 in use, and a pass that
aborts when it inserts it. -/
def picksAndAborts (s : Sys ZnPolicyChunk ChunkEvict (Fin 2)) : Bool :=
  startsPass (s.pool 1) && (List.range 7).all (fun i => (s.cache.policy.pair (0, i)).inUse == decide (i = 6))
    && ((TransSys.execAll (passExec clearedPool sevenChunks (fun _ => 0) 1)
      (List.replicate 9 wellAnswered) s).any abortsAtInsert)

theorem pick_reach : ∃ s, (cacheSystem (Fin 2) (chunk clearedPool) sevenChunks fun _ => 0).Reach
    (AloneAndWell sevenChunks) s ∧ picksAndAborts s = true :=
  TransSys.Reach.exists_of_exec sysExec_ok ⟨fun _ => 0, rfl⟩ picksAndAborts (pickWithOneLeft 0 1)
    (by decide +kernel)

/-- **A pass that aborts.**  One chunk of the zone is in use, a zone is acquired
for it, the chunk is copied there, and then an assertion fails. -/
theorem gc_pass_aborts : ∃ s, (cacheSystem (Fin 2) (chunk clearedPool) sevenChunks fun _ => 0).Reach
      (AloneAndWell sevenChunks) s
    ∧ (s.pool 1).evicting = some (.gcScan 0 0)
    ∧ (∀ i, i < 7 → (s.cache.policy.pair (0, i)).inUse = decide (i = 6))
    ∧ ∃ s', (passSystem clearedPool sevenChunks (fun _ => 0) 1 s).Reach (WithinPass sevenChunks 1) s'
      ∧ (∃ l, (s'.pool 1).evicting = some (.gcInsert 0 6 l))
      ∧ sysStep (chunk clearedPool) sevenChunks (fun _ => 0) s' (.step 1 wellAnswered)
        = some (.error .assertion) := by
  obtain ⟨s, hr, hs⟩ := pick_reach
  simp only [picksAndAborts, Bool.and_eq_true, List.all_eq_true, List.mem_range, beq_iff_eq] at hs
  obtain ⟨⟨hstart, huse⟩, hexec⟩ := hs
  obtain ⟨s', hpass, habort⟩ := TransSys.Reach.exists_of_exec
    (T := passSystem clearedPool sevenChunks (fun _ => 0) 1 s) (passExec_ok s) rfl abortsAtInsert _ hexec
  simp only [abortsAtInsert, Bool.and_eq_true] at habort
  obtain ⟨hat, herr⟩ := habort
  refine ⟨s, hr, evicting_of_startsPass hstart, huse, s', hpass, ?_, ?_⟩
  · generalize s'.pool 1 = pc at hat ⊢
    split at hat
    · exact ⟨_, rfl⟩
    · cases hat
  · split at herr
    · assumption
    · cases herr

/-- The collector picks a zone with one chunk in use, and does not collect it. -/
theorem gc_never_collects_one_left : ∃ s : Sys ZnPolicyChunk ChunkEvict (Fin 2),
    (s.pool 1).evicting = some (.gcScan 0 0) ∧ (s.cache.policy.pair (0, 6)).inUse = true
      ∧ ¬ ∃ s', (passSystem clearedPool sevenChunks (fun _ => 0) 1 s).Reach (WithinPass sevenChunks 1) s'
        ∧ (s'.pool 1).evicting = some .gcFree ∧ Collected sevenChunks 0 s.cache s'.cache := by
  obtain ⟨s, hr, hs⟩ := pick_reach
  simp only [picksAndAborts, Bool.and_eq_true, List.all_eq_true, List.mem_range, beq_iff_eq] at hs
  obtain ⟨⟨hstart, huse⟩, -⟩ := hs
  have ht := evicting_of_startsPass hstart
  have h6 : (s.cache.policy.pair (0, 6)).inUse = true := huse 6 (by decide)
  exact ⟨s, ht, h6, gc_never_collects (hr.mono fun _ _ h => h.2.2.1) ht ⟨6, by decide, h6⟩⟩

end Abort

end ZnCache
