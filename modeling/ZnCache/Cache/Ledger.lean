/-
  ZnCache.Cache.Ledger — what the counters of the cache count.

  `zn_cache_get` counts a hit or a miss, in the middle of the call, or nothing
  where it gives up.  The number of calls is kept nowhere, nor is that of the
  zones that were reset.  A `Ledger` notes these beside a run; the counters and
  the zones have to agree with it:

    * every call that was made is a hit, a miss, a failure, or still open;
    * every miss is a chunk that is committed, was reset with its zone, or is
      about to be committed.  The collector's copies are never committed.

  Main results, for every interleaving under either policy:
    * `ledger_balances` — and what it says of the hit ratio and of the resets;
    * `working_set_hits` — a workload that fits the device.
-/
import ZnCache.Cache.WorkingSet
import ZnCache.Cache.WritePointers
import ZnCache.Chunk.Gc
import ZnCache.Lib.Observed
import Mathlib.Algebra.Order.Field.Rat

namespace ZnCache

open Lib Lib.ThreadPool

universe u

variable {P E : Type} {pol : EvictPolicy P E} {g : Geometry} {rb : Buffer} {Tid : Type u}

/-! ## §1. The ledger. -/

/-- What is noted of a run. -/
structure Ledger where
  /-- Calls of `zn_cache_get`. -/
  calls : Nat
  /-- Those that gave their id up, at `UNDO_MAP`. -/
  failures : Nat
  /-- Zones that were reset. -/
  resets : Nat
  deriving Repr

/-- A call that is to be counted: as a hit, a miss or a failure. -/
def Pc.uncounted : Pc E → Nat
  | .get (.find _) | .get (.findWait ..) | .get (.read ..) | .get (.readUpdate ..)
  | .get (.readDone ..) | .get (.hit ..) | .get (.acquire _) | .get (.evict ..) | .get (.write ..)
  | .get (.miss ..) | .get (.undoZoneGet ..) | .get (.undoMap _) => 1
  | .idle | .evictor _ | .get (.commit ..) | .get (.writeUpdate ..) | .get (.publish ..)
  | .get (.done ..) => 0

/-- A miss that is counted, and whose chunk is not committed. -/
def Pc.uncommitted : Pc E → Nat
  | .get (.commit ..) => 1
  | _ => 0

/-- A call that gives its id up. -/
def Pc.failing : Pc E → Nat
  | .get (.undoMap _) => 1
  | _ => 0

/-- A call is made. -/
def SysLabel.calls : SysLabel Tid → Nat
  | .get .. => 1
  | .fgEvict _ | .evictTask _ | .step .. | .ret _ => 0

/-- The call at `UNDO_MAP` that moves on. -/
def SysLabel.fails (s : Sys P E Tid) : SysLabel Tid → Nat
  | .step t _ => (s.pool t).failing
  | .get .. | .fgEvict _ | .evictTask _ | .ret _ => 0

/-- What one step adds to the ledger. -/
def Ledger.note (g : Geometry) (n : Ledger) (s : Sys P E Tid) (l : SysLabel Tid) (s' : Sys P E Tid) :
    Ledger where
  calls := n.calls + l.calls
  failures := n.failures + l.fails s
  resets := n.resets + zonesReset g s.cache.zoneState s'.cache.zoneState

variable [DecidableEq Tid]

/-- The runs of the cache, with their ledger. -/
def ledgerSystem (Tid : Type u) [DecidableEq Tid] (pol : EvictPolicy P E) (g : Geometry)
    (rb : Buffer) : TransSys (Sys P E Tid × Ledger) (SysLabel Tid) :=
  (cacheSystem Tid pol g rb).observed ⟨0, 0, 0⟩ (Ledger.note g)

variable [Fintype Tid]

/-- **The balance.** -/
structure InBalance (g : Geometry) (s : Sys P E Tid) (n : Ledger) : Prop where
  calls : n.calls = s.cache.hits + s.cache.misses + n.failures + total Pc.uncounted s.pool
  misses : s.cache.misses = g.maxZoneChunks * n.resets + chunksFilled g s.cache.zoneState
    + total Pc.uncommitted s.pool

/-! ## §2. What is asked of the policy. -/

/-- The zones after a step that commits nothing: what is gone was reset. -/
def Recycled (g : Geometry) (z z' : ZoneStateManager) : Prop :=
  chunksFilled g z' + g.maxZoneChunks * zonesReset g z z' = chunksFilled g z

theorem Recycled.refl (z : ZoneStateManager) : Recycled g z z := by
  unfold Recycled
  rw [zonesReset_self]
  rfl

/-- No zone changes its number of chunks, and those that were full still are. -/
theorem Recycled.of_same {z z' : ZoneStateManager}
    (hfilled : ∀ y, (z'.state y).filled g = (z.state y).filled g)
    (hfull : ∀ y, (z.state y).state = .full → (z'.state y).state = .full) : Recycled g z z' := by
  unfold Recycled
  rw [zonesReset_eq_zero hfull, chunksFilled_congr hfilled]
  rfl

/-- A zone is handed out. -/
theorem Recycled.acquire {z z' : ZoneStateManager} {r : ZsmGetActiveZone}
    (hc : GetActiveZoneCase g z r z') : Recycled g z z' := by
  refine .of_same hc.filled fun y hy => ?_
  have hother : ∀ {i : Nat}, (z.state i).state ≠ .full →
      (Function.update z.state i (writingZone z i) y).state = .full := by
    intro i hi
    have hne : y ≠ i := by
      intro heq
      rw [heq] at hy
      exact hi hy
    rw [Function.update_of_ne hne]
    exact hy
  cases hc with
  | evict | retry => exact hy
  | reuse ha hst => exact hother (by rw [hst]; decide)
  | opened ha hf hst => exact hother (by rw [hst]; decide)

/-- A chunk is marked invalid. -/
theorem Recycled.mark (z : ZoneStateManager) (l : ZnPair) : Recycled g z (zsmMarkChunkInvalid z l) := by
  have hsame := zsmMarkChunkInvalid_same z l
  apply Recycled.of_same
  · intro y
    unfold ZnZone.filled
    rw [(hsame y).2.1, (hsame y).2.2]
  · intro y hy
    rw [(hsame y).2.1]
    exact hy

/-- A zone is reset. -/
theorem Recycled.reset {z z' : ZoneStateManager} (h : ZsmInv g z) {ret r : Int}
    (hret : DeviceOk g ret) {i : Nat} (hr : zsmEvict g ret z i = .ok (r, z')) : Recycled g z z' := by
  obtain ⟨hst, -⟩ := zsmEvict_returns hr
  rw [zsmEvict_spec hret hst] at hr
  cases hr
  obtain ⟨hone, hfilled⟩ := evicted_filled h hst
  unfold Recycled
  rw [hone]
  omega

/-- A policy that counts nothing, commits nothing and keeps the zones in order. -/
structure EvictPolicy.Recycles (pol : EvictPolicy P E) (g : Geometry) : Prop where
  counters : ∀ {a s e s' e'}, pol.step g a s e = some (.ok (s', e')) →
    s'.hits = s.hits ∧ s'.misses = s.misses
  zsm : ∀ a s e s' e', DeviceOk g a.ret → ZsmInv g s.zoneState →
    pol.step g a s e = some (.ok (s', e')) → ZsmInv g s'.zoneState
  zones : ∀ {a s e s' e'}, DeviceOk g a.ret → ZsmInv g s.zoneState →
    pol.step g a s e = some (.ok (s', e')) → Recycled g s.zoneState s'.zoneState

theorem promotional_recycles : promotional.Recycles g where
  counters h := by
    cases fgEvictStep_cases h <;> exact ⟨rfl, rfl⟩
  zsm := promotional_zsm_inv g
  zones ha hzsm h := by
    cases fgEvictStep_cases h with
    | start | leave | pop | clear | wait | drained => exact .refl _
    | reset hr => exact .reset hzsm ha hr

theorem chunk_recycles {mem : Nat → EvictionPolicyChunkZone} (hpos : 1 ≤ g.maxZoneChunks) :
    (chunk mem).Recycles g where
  counters h := by
    cases chunkEvictStep_cases h <;> exact ⟨rfl, rfl⟩
  zsm := chunk_zsm_inv hpos
  zones ha hzsm h := by
    cases chunkEvictStep_cases h with
    | refuse | enter | pop | popped | clear | gcSkip | gcStart | gcDone | gcPick | gcSkipChunk
    | gcScanned | gcRead | gcWrite | gcInsert | gcClear | gcFree | unlock => exact .refl _
    | mark => exact .mark _ _
    | gcAcquire _ hr =>
      obtain ⟨r, z, heq, hc⟩ := zsmGetActiveZone_spec hzsm ha
      rw [hr] at heq
      cases heq
      exact .acquire hc
    | gcReset hr => exact .reset hzsm ha hr

/-! ## §3. Every run. -/

/-- Whatever a call does next, it is counted once. -/
theorem GetCase.counted (hpol : pol.Recycles g) {a : Answers} {c c' : CacheState P}
    {pc pc' : GetPc E} (h : GetCase pol g rb a c pc c' pc') :
    c'.hits + c'.misses + (Pc.get pc).failing + (Pc.get pc').uncounted
      = c.hits + c.misses + (Pc.get pc).uncounted := by
  cases h with
  | @find id r | @wake id cond seen r => cases r <;> rfl
  | read | readUpdate | readDone | commit | writeUpdate | publish | undoZoneGet => rfl
  | hit =>
    show c.hits + 1 + c.misses = c.hits + c.misses + 1
    omega
  | miss => rfl
  | @acquire id r => cases r <;> rfl
  | @evict id e c' e' hstep =>
    rw [(hpol.counters hstep).1, (hpol.counters hstep).2]
    cases e' <;> rfl
  | @write id l r => by_cases hr : r = 0 <;> simp [hr, Pc.uncounted, Pc.failing]
  | undoMap => rfl

/-- A miss is counted, and then committed; nothing else changes either number
but a reset. -/
theorem GetCase.committed (hpol : pol.Recycles g) (hmax : g.maxZoneChunks < 2 ^ 32) {a : Answers}
    (ha : DeviceOk g a.ret) {c c' : CacheState P} (hzsm : ZsmInv g c.zoneState) {pc pc' : GetPc E}
    (h : GetCase pol g rb a c pc c' pc') :
    c'.misses + chunksFilled g c.zoneState + (Pc.get pc).uncommitted
      = c.misses + g.maxZoneChunks * zonesReset g c.zoneState c'.zoneState
        + chunksFilled g c'.zoneState + (Pc.get pc').uncommitted := by
  -- all but the miss and the commit
  have hquiet : c'.misses = c.misses → Recycled g c.zoneState c'.zoneState →
      (Pc.get pc).uncommitted = 0 → (Pc.get pc').uncommitted = 0 →
      c'.misses + chunksFilled g c.zoneState + (Pc.get pc).uncommitted
        = c.misses + g.maxZoneChunks * zonesReset g c.zoneState c'.zoneState
          + chunksFilled g c'.zoneState + (Pc.get pc').uncommitted := by
    intro hmisses hzones hbefore hafter
    unfold Recycled at hzones
    omega
  cases h with
  | @find id r | @wake id cond seen r => exact hquiet rfl (.refl _) rfl (by cases r <;> rfl)
  | read | readUpdate | readDone | hit | writeUpdate | publish | undoMap =>
    exact hquiet rfl (.refl _) rfl rfl
  | @acquire id r z hr =>
    obtain ⟨r', z', heq, hcase⟩ := zsmGetActiveZone_spec hzsm ha
    rw [hr] at heq
    cases heq
    exact hquiet rfl (.acquire hcase) rfl (by cases r <;> rfl)
  | @evict id e c' e' hstep =>
    exact hquiet (hpol.counters hstep).2 (hpol.zones ha hzsm hstep) rfl (by cases e' <;> rfl)
  | @write id l r => exact hquiet rfl (.refl _) rfl (by by_cases hr : r = 0 <;> simp [hr, Pc.uncommitted])
  | miss =>
    show c.misses + 1 + chunksFilled g c.zoneState + 0
      = c.misses + _ * zonesReset g c.zoneState c.zoneState + chunksFilled g c.zoneState + 1
    rw [zonesReset_self]
    omega
  | commit hr =>
    obtain ⟨hst, hoff, -⟩ := zsmReturnActiveZone_cases hr
    rw [zsmReturnActiveZone_spec hzsm ha hst hoff] at hr
    cases hr
    obtain ⟨zn, hzn, -⟩ := committed_state hmax hzsm hst hoff
    have hnone : zonesReset g c.zoneState (ZnCache.committed g c.zoneState _) = 0 :=
      zonesReset_update hzn (by rw [hst]; decide)
    have hmore := chunksFilled_commit hmax hzsm hst hoff
    show c.misses + chunksFilled g c.zoneState + 1
      = c.misses + _ * zonesReset g c.zoneState (ZnCache.committed g c.zoneState _) + chunksFilled g _ + 0
    rw [hnone, hmore]
    omega
  | undoZoneGet hz =>
    obtain ⟨hst, hoff, rfl⟩ := zsmFailedToWrite_cases hz
    refine hquiet rfl (.of_same (abandoned_filled hst hoff) fun y hy => ?_) rfl rfl
    show (Function.update c.zoneState.state _ _ y).state = _
    rw [Function.update_of_ne fun heq => by rw [heq, hst] at hy; cases hy]
    exact hy

namespace InBalance

variable {s s' : Sys P E Tid} {n : Ledger}

/-- A step of one thread, by what it does to the counters and to the zones. -/
theorem goto (h : InBalance g s n) {t : Tid} {c : CacheState P} {pc : Pc E} {calls fails : Nat}
    (hcalls : c.hits + c.misses + fails + pc.uncounted
      = s.cache.hits + s.cache.misses + (s.pool t).uncounted + calls)
    (hmisses : c.misses + chunksFilled g s.cache.zoneState + (s.pool t).uncommitted
      = s.cache.misses + g.maxZoneChunks * zonesReset g s.cache.zoneState c.zoneState
        + chunksFilled g c.zoneState + pc.uncommitted) :
    InBalance g (s.goto t c pc) ⟨n.calls + calls, n.failures + fails,
      n.resets + zonesReset g s.cache.zoneState c.zoneState⟩ := by
  constructor
  · have hopen := total_update Pc.uncounted s.pool t pc
    have hold := h.calls
    show n.calls + calls = c.hits + c.misses + (n.failures + fails)
      + total Pc.uncounted (Function.update s.pool t pc)
    omega
  · have hopen := total_update Pc.uncommitted s.pool t pc
    have hold := h.misses
    show c.misses = g.maxZoneChunks * (n.resets + _) + chunksFilled g c.zoneState
      + total Pc.uncommitted (Function.update s.pool t pc)
    rw [Nat.mul_add]
    omega

/-- **Step lemma.** -/
theorem step (hpol : pol.Recycles g) (hmax : g.maxZoneChunks < 2 ^ 32)
    (hzsm : ZsmInv g s.cache.zoneState) (h : InBalance g s n) {l : SysLabel Tid} (hok : l.ZoneOk g)
    (hs : sysStep pol g rb s l = some (.ok s')) : InBalance g s' (n.note g s l s') := by
  have hfails : ∀ {t : Tid} {a : Answers} {pc : Pc E}, s.pool t = pc →
      (SysLabel.step t a).fails s = pc.failing := by
    intro t a pc ht
    show (s.pool t).failing = _
    rw [ht]
  cases sysStep_cases hs with
  | get ht | fgEvict ht | taskEvicts ht | ret ht =>
    refine h.goto ?_ ?_
    · rw [ht]
      rfl
    · rw [ht, zonesReset_self]
      rfl
  | taskSleeps ht =>
    unfold Ledger.note
    rw [zonesReset_self]
    exact h
  | @step t a pc pc' c ht hcase =>
    have hcounted := hcase.counted hpol
    have hcommitted := hcase.committed hpol hmax hok hzsm
    rw [← ht] at hcounted hcommitted
    exact h.goto hcounted hcommitted
  | @evict t a e e' c ht hstep =>
    obtain ⟨hhits, hmisses⟩ := hpol.counters hstep
    have hzones := hpol.zones hok hzsm hstep
    unfold Recycled at hzones
    refine h.goto ?_ ?_
    · rw [hfails ht, ht, hhits, hmisses]
      cases e' <;> rfl
    · rw [ht, hmisses]
      have hafter : (evictorPc e').uncommitted = 0 := by cases e' <;> rfl
      rw [hafter]
      show _ + 0 = _
      omega

omit [DecidableEq Tid] in
theorem init (bytes : Buffer) :
    InBalance g (⟨initCache pol g bytes, fun _ => .idle⟩ : Sys P E Tid) ⟨0, 0, 0⟩ := by
  have hidle : ∀ w : Pc E → Nat, w .idle = 0 → total w (fun _ : Tid => Pc.idle) = 0 :=
    fun w hw => (total_eq_zero_iff w _).mpr fun _ => hw
  constructor
  · show 0 = 0 + 0 + 0 + total Pc.uncounted fun _ => Pc.idle
    rw [hidle _ rfl]
  · show 0 = g.maxZoneChunks * 0 + chunksFilled g (zsmInit g) + total Pc.uncommitted fun _ => Pc.idle
    rw [hidle _ rfl, chunksFilled_init]
    rfl

/-- **Run lemma.** -/
theorem reach (hpol : pol.Recycles g) (hpos : 1 ≤ g.maxZoneChunks) (hmax : g.maxZoneChunks < 2 ^ 32)
    (hr : (ledgerSystem Tid pol g rb).Reach (fun _ l => l.ZoneOk g) (s, n)) : InBalance g s n := by
  apply TransSys.Reach.observed_invariant (T := cacheSystem Tid pol g rb)
    (C := fun _ l => l.ZoneOk g) (N := Ledger) _ _ hr
  · intro s hs
    obtain ⟨bytes, rfl⟩ := hs
    exact init bytes
  · intro s n l s' hreach h hok hs
    exact h.step hpol hmax (zsm_inv_reach hpos hpol.zsm (fun _ _ h => h) hreach) hok hs

end InBalance

/-! ## §4. At rest. -/

/-- `zn_cache_get_hit_ratio`, in exact arithmetic. -/
def znCacheGetHitRatio (s : CacheState P) : ℚ :=
  let num : ℚ := s.hits
  let den : ℚ := (s.misses + s.hits : ℕ)
  if den = 0 then 0 else num / den

omit [DecidableEq Tid] [Fintype Tid] in
/-- The hit ratio is the share of the hits in the calls that are counted. -/
theorem znCacheGetHitRatio_mul (s : CacheState P) :
    znCacheGetHitRatio s * (s.misses + s.hits : ℕ) = s.hits := by
  unfold znCacheGetHitRatio
  dsimp only
  split
  · rename_i hden
    have hzero : s.misses + s.hits = 0 := by exact_mod_cast hden
    have hhits : s.hits = 0 := by omega
    rw [hhits, zero_mul, Nat.cast_zero]
  · rename_i hden
    exact div_mul_cancel₀ _ hden

/-- **The books of a run**: the balance, and what is left of it at rest. -/
structure Audited (g : Geometry) (s : Sys P E Tid) (n : Ledger) : Prop extends InBalance g s n where
  ratio : (∀ t, s.pool t = .idle) →
    n.failures ≤ n.calls ∧ znCacheGetHitRatio s.cache * (n.calls - n.failures : ℕ) = s.cache.hits
  resets : (∀ t, s.pool t = .idle) →
    g.maxZoneChunks * n.resets ≤ s.cache.misses
      ∧ s.cache.misses ≤ g.maxZoneChunks * (n.resets + g.nrZones)

omit [DecidableEq Tid] in
theorem InBalance.audited {s : Sys P E Tid} {n : Ledger} (h : InBalance g s n)
    (hzsm : ZsmInv g s.cache.zoneState) : Audited g s n := by
  have hrest : (∀ t, s.pool t = .idle) → ∀ w : Pc E → Nat, w .idle = 0 → total w s.pool = 0 := by
    intro hidle w hw
    rw [total_eq_zero_iff]
    intro t
    rw [hidle t]
    exact hw
  constructor
  case toInBalance => exact h
  case ratio =>
    intro hidle
    have hcalls := h.calls
    rw [hrest hidle _ rfl] at hcalls
    have hcounted : n.calls - n.failures = s.cache.misses + s.cache.hits := by omega
    rw [hcounted]
    exact ⟨by omega, znCacheGetHitRatio_mul s.cache⟩
  case resets =>
    intro hidle
    have hmisses := h.misses
    have hroom := chunksFilled_le hzsm
    rw [hrest hidle _ rfl] at hmisses
    rw [Nat.mul_add, Nat.mul_comm _ g.nrZones]
    omega

theorem Audited.reach (hpol : pol.Recycles g) (hpos : 1 ≤ g.maxZoneChunks)
    (hmax : g.maxZoneChunks < 2 ^ 32) {s : Sys P E Tid} {n : Ledger}
    (hr : (ledgerSystem Tid pol g rb).Reach (fun _ l => l.ZoneOk g) (s, n)) : Audited g s n := by
  have hrun : (cacheSystem Tid pol g rb).Reach (fun _ l => l.ZoneOk g) s :=
    TransSys.Reach.forget (T := cacheSystem Tid pol g rb) (C := fun _ l => l.ZoneOk g) (N := Ledger) hr
  have hzsm := zsm_inv_reach hpos hpol.zsm (fun _ _ h => h) hrun
  exact (InBalance.reach hpol hpos hmax hr).audited hzsm

/-- **THE BOOKS BALANCE**, under either policy, whatever the interleaving, and
whichever transfers fail. -/
theorem ledger_balances {mem : Nat → EvictionPolicyChunkZone} (hpos : 1 ≤ g.maxZoneChunks)
    (hmax : g.maxZoneChunks < 2 ^ 32) :
    (∀ (s : Sys ZnPolicyPromotional FgEvict Tid) (n : Ledger),
      (ledgerSystem Tid promotional g rb).Reach (fun _ l => l.ZoneOk g) (s, n) → Audited g s n)
    ∧ ∀ (s : Sys ZnPolicyChunk ChunkEvict Tid) (n : Ledger),
      (ledgerSystem Tid (chunk mem) g rb).Reach (fun _ l => l.ZoneOk g) (s, n) → Audited g s n :=
  ⟨fun _ _ => Audited.reach promotional_recycles hpos hmax,
    fun _ _ => Audited.reach (chunk_recycles hpos) hpos hmax⟩

/-- Thread `t` fetches chunk 1, and chunk 2 in its place, and reads chunk 2. -/
def fetchTwice (t : Tid) : List (SysLabel Tid) :=
  .get t 1 :: List.replicate 7 (.step t allWell) ++ .ret t :: .get t 2
    :: List.replicate 14 (.step t allWell) ++ .ret t :: .get t 2 :: List.replicate 5 (.step t allWell)
    ++ [.ret t]

/-- A hit and two misses, with a reset between these. -/
theorem ledger_balances_refetched : ∃ (s : Sys ZnPolicyPromotional FgEvict (Fin 2)) (n : Ledger),
    s.cache.hits = 1 ∧ s.cache.misses = 2 ∧ Audited oneChunk s n := by
  obtain ⟨s, hr, hs⟩ := TransSys.Reach.exists_of_exec
    (T := cacheSystem (Fin 2) promotional oneChunk fun _ => 0) (C := fun _ l => l.ZoneOk oneChunk)
    sysExec_ok ⟨fun _ => 0, rfl⟩ (fun s => s.cache.hits = 1 ∧ s.cache.misses = 2) (fetchTwice 0)
    (by decide)
  obtain ⟨n, hn⟩ := hr.observe
  obtain ⟨hhits, hmisses⟩ := of_decide_eq_true hs
  have hbooks := @ledger_balances oneChunk (fun _ => 0) (Fin 2) _ _ clearedPool (by decide) (by decide)
  exact ⟨s, n, hhits, hmisses, hbooks.1 s n hn⟩

/-! ## §5. A workload that fits. -/

/-- **ALL BUT |W| CALLS ARE HITS.**  As long as calls are for ids of a set no
larger than the device has chunks, and the eviction task does not run: of the
calls that are counted and have not failed, at most so many are misses as there
are ids. -/
theorem working_set_hits (hpol : pol.Recycles g) {W : Finset Nat} (hpos : 1 ≤ g.maxZoneChunks)
    (hmax : g.maxZoneChunks < 2 ^ 32) (hW : W.card ≤ g.nrZones * g.maxZoneChunks)
    {s : Sys P E Tid} {n : Ledger}
    (hr : (ledgerSystem Tid pol g rb).Reach (fun _ l => l.Fits g W) (s, n)) :
    n.calls ≤ s.cache.hits + W.card + n.failures + total Pc.uncounted s.pool := by
  have hrun : (cacheSystem Tid pol g rb).Reach (fun _ l => l.Fits g W) s :=
    TransSys.Reach.forget (T := cacheSystem Tid pol g rb) (C := fun _ l => l.Fits g W) (N := Ledger) hr
  have hok : (ledgerSystem Tid pol g rb).Reach (fun _ l => l.ZoneOk g) (s, n) :=
    hr.mono fun _ _ hfits => hfits.2.2
  have hcalls := (InBalance.reach hpol hpos hmax hok).calls
  -- every miss is an id of `W` that is kept
  have hmisses := (accounted_of_calm hpos hmax hW (calm_reach hpos hmax hW hrun)).2.misses
  have hkept : (idsKept Pc.fetched W s).card ≤ W.card := Finset.card_le_card (Finset.filter_subset ..)
  omega

/-- One id, one chunk: two calls, one of them a hit. -/
theorem working_set_hits_shared : ∃ (s : Sys ZnPolicyPromotional FgEvict (Fin 2)) (n : Ledger),
    s.cache.hits = 1 ∧ n.calls ≤ s.cache.hits + 1 + n.failures + total Pc.uncounted s.pool := by
  obtain ⟨s, hr, hhits⟩ := TransSys.Reach.exists_of_exec
    (T := cacheSystem (Fin 2) promotional oneChunk fun _ => 0)
    (C := fun _ l => l.Fits oneChunk {7}) sysExec_ok ⟨fun _ => 0, rfl⟩
    (fun s => s.cache.hits = 1) (askTogether 0 1) (by decide)
  obtain ⟨n, hn⟩ := hr.observe
  exact ⟨s, n, of_decide_eq_true hhits,
    working_set_hits promotional_recycles (by decide) (by decide) (by decide) hn⟩

end ZnCache
