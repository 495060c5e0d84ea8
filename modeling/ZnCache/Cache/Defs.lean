/-
  ZnCache.Cache.Defs — `cache.c`: `zn_cache_get` over a shared cache, for any
  number of threads and either eviction policy.

  A thread inside `zn_cache_get` is at a `GetPc`; one step of it (`getStep`) is
  one mutex-protected function body, one transfer of a chunk, or one atomic
  update, in the order of the source.  What the kernel and the device answer to
  a step is its `Answers`.  A step is `none` while the thread cannot move.

  A policy is the pair of functions `zn_evict_policy` points to, with the part
  of `zn_fg_evict` that belongs to it (`EvictPolicy`).  The profiler is left
  out: it reads clocks and writes a log.
-/
import ZnCache.CacheMap.Spec
import ZnCache.Device
import ZnCache.ZoneState.Invariant
import ZnCache.Lib.Transition
import Mathlib.Tactic.Simps.Basic

namespace ZnCache

open Lib

universe u

/-! ## §1. The shared state, and the policy. -/

/-- What is answered to one step: the return value of a zone command, the
results of the `pwrite` calls, the result of `pread`. -/
structure Answers where
  ret : Int
  pwrites : List PwriteResult
  pread : Int
  deriving Repr

/-- `struct zn_cache`, less the parameters of `Geometry`; `active_readers` is
the array that `cacheMap` points to.  With it, the device. -/
structure CacheState (P : Type) where
  cacheMap : ZnCachemap
  policy : P
  zoneState : ZoneStateManager
  hits : Nat
  misses : Nat
  device : Device

/-- What a step comes to: `none` while the thread waits. -/
abbrev Stepped (α : Type u) := Option (Except Fault α)

/-- `struct zn_evict_policy`, and the case of `zn_fg_evict` for it: where it
starts, and its steps (`none` where it returns). -/
structure EvictPolicy (P E : Type) where
  init : Geometry → P
  update : Geometry → P → ZnPair → ZnIoType → Stepped P
  entry : E
  step : Geometry → Answers → CacheState P → E → Stepped (CacheState P × Option E)

/-! ## §2. `zn_cache_get`. -/

/-- Where a thread is in `zn_cache_get`. -/
inductive GetPc (E : Type) where
  | find (id : Nat)
  | findWait (id cond seen : Nat)
  | read (id : Nat) (location : ZnPair)
  | readUpdate (id : Nat) (location : ZnPair) (data : Option Buffer)
  | readDone (id : Nat) (location : ZnPair) (data : Option Buffer)
  | hit (id : Nat) (data : Option Buffer)
  | acquire (id : Nat)
  | evict (id : Nat) (e : E)
  | write (id : Nat) (location : ZnPair)
  | miss (id : Nat) (location : ZnPair) (data : Buffer)
  | commit (id : Nat) (location : ZnPair) (data : Buffer)
  | writeUpdate (id : Nat) (location : ZnPair) (data : Buffer)
  | publish (id : Nat) (location : ZnPair) (data : Buffer)
  | undoZoneGet (id : Nat) (location : ZnPair)
  | undoMap (id : Nat)
  /-- About to return. -/
  | done (id : Nat) (data : Option Buffer)

/-- The branch on `result.type`. -/
def FindResult.getPc {E : Type} (id : Nat) : FindResult → GetPc E
  | .located l => .read id l
  | .sleep c seen => .findWait id c seen
  | .write _ => .acquire id

variable {P E : Type}

/-- The branch on `enum zsm_get_active_zone_error`. -/
def ZsmGetActiveZone.getPc (pol : EvictPolicy P E) (id : Nat) : ZsmGetActiveZone → GetPc E
  | .retry => .acquire id
  | .error => .undoMap id
  | .evict => .evict id pol.entry
  | .success location => .write id location

/-- `zn_fg_evict` goes on, or returns to the loop of `zn_cache_get`. -/
def evictPc (id : Nat) : Option E → GetPc E
  | none => .acquire id
  | some e => .evict id e

/-- **One step of `zn_cache_get`.** -/
def getStep (pol : EvictPolicy P E) (g : Geometry) (randomBuffer : Buffer) (a : Answers)
    (s : CacheState P) : GetPc E → Stepped (CacheState P × GetPc E)
  | .find id =>
    some ((znCachemapFind s.cacheMap id).map fun r => ({ s with cacheMap := r.2 }, r.1.getPc id))
  | .findWait id c _ =>
    some ((znCachemapWake s.cacheMap id c).map fun r => ({ s with cacheMap := r.2 }, r.1.getPc id))
  -- a read that fails is a hit all the same, and NULL what it returns
  | .read id l => some (.ok (s, .readUpdate id l (znReadFromDisk g s.device l a.pread)))
  | .readUpdate id l data =>
    (pol.update g s.policy l .read).map fun r =>
      r.map fun p => ({ s with policy := p }, .readDone id l data)
  | .readDone id l data =>
    some (.ok ({ s with cacheMap := s.cacheMap.addReaders l.zone (-1) }, .hit id data))
  | .hit id data => some (.ok ({ s with hits := s.hits + 1 }, .done id data))
  | .acquire id =>
    some ((zsmGetActiveZone g a.ret s.zoneState).map fun r =>
      ({ s with zoneState := r.2 }, r.1.getPc pol id))
  | .evict id e => (pol.step g a s e).map fun r => r.map fun x => (x.1, evictPc id x.2)
  | .write id l =>
    (writeChunk g s.device l id (znGenWriteBuffer id randomBuffer) a.pwrites).map fun r =>
      .ok ({ s with device := r.2 },
        if r.1 ≠ 0 then .undoZoneGet id l else .miss id l (znGenWriteBuffer id randomBuffer))
  | .miss id l data => some (.ok ({ s with misses := s.misses + 1 }, .commit id l data))
  | .commit id l data =>
    -- nobody looks at the return value
    some ((zsmReturnActiveZone g a.ret s.zoneState l).map fun r =>
      ({ s with zoneState := r.2 }, .writeUpdate id l data))
  | .writeUpdate id l data =>
    (pol.update g s.policy l .write).map fun r =>
      r.map fun p => ({ s with policy := p }, .publish id l data)
  | .publish id l data =>
    some ((znCachemapInsert s.cacheMap id l).map fun m =>
      ({ s with cacheMap := m }, .done id (some data)))
  | .undoZoneGet id l =>
    some ((zsmFailedToWrite g s.zoneState l).map fun z => ({ s with zoneState := z }, .undoMap id))
  | .undoMap id =>
    some ((znCachemapFail s.cacheMap id).map fun m => ({ s with cacheMap := m }, .done id none))
  -- `SysLabel.ret` leaves from here
  | .done _ _ => none

/-! ## §3. The threads. -/

/-- Where a thread is. -/
inductive Pc (E : Type) where
  | idle
  | get (pc : GetPc E)
  | evictor (e : E)

/-- Where a thread is in `zn_fg_evict`, called from wherever. -/
def Pc.evicting {E : Type} : Pc E → Option E
  | .evictor e | .get (.evict _ e) => some e
  | _ => none

/-- The id and the result of a call that is about to return. -/
def Pc.returned {E : Type} : Pc E → Option (Nat × Option Buffer)
  | .get (.done id data) => some (id, data)
  | _ => none

theorem Pc.eq_of_returned {E : Type} {pc : Pc E} {id : Nat} {data : Option Buffer}
    (h : pc.returned = some (id, data)) : pc = .get (.done id data) := by
  unfold Pc.returned at h
  split at h
  · cases h; rfl
  · cases h

/-- The cache, the device and the threads. -/
structure Sys (P E : Type) (Tid : Type u) where
  cache : CacheState P
  pool : Tid → Pc E

/-- One step of the system: a thread enters `zn_cache_get` or `zn_fg_evict`,
runs one round of `evict_task`, moves on, or returns from `zn_cache_get`. -/
inductive SysLabel (Tid : Type u) where
  | get (t : Tid) (id : UInt32)
  | fgEvict (t : Tid)
  | evictTask (t : Tid)
  | step (t : Tid) (a : Answers)
  | ret (t : Tid)

/-- `zn_fg_evict` goes on, or returns to a thread that has nothing to do. -/
def evictorPc : Option E → Pc E
  | none => .idle
  | some e => .evictor e

variable {Tid : Type u} [DecidableEq Tid]

/-- Thread `t` goes on at `pc`. -/
@[simps -fullyApplied] def Sys.goto (s : Sys P E Tid) (t : Tid) (c : CacheState P) (pc : Pc E) : Sys P E Tid :=
  ⟨c, Function.update s.pool t pc⟩

/-- One step of the system. -/
def sysStep (pol : EvictPolicy P E) (g : Geometry) (randomBuffer : Buffer) (s : Sys P E Tid) :
    SysLabel Tid → Stepped (Sys P E Tid)
  | .get t id =>
    match s.pool t with
    | .idle => some (.ok (s.goto t s.cache (.get (.find id.toNat))))
    | _ => none
  | .fgEvict t =>
    match s.pool t with
    | .idle => some (.ok (s.goto t s.cache (.evictor pol.entry)))
    | _ => none
  | .evictTask t =>
    match s.pool t with
    | .idle =>
      let freeZones := zsmGetNumFreeZones s.cache.zoneState
      if evictHighThreshZones < freeZones then some (.ok s)
      else some ((check (0 < u32Sub evictLowThreshZones freeZones)).map fun _ =>
        s.goto t s.cache (.evictor pol.entry))
    | _ => none
  | .step t a =>
    match s.pool t with
    | .idle => none
    | .get pc =>
      (getStep pol g randomBuffer a s.cache pc).map fun r => r.map fun x => s.goto t x.1 (.get x.2)
    | .evictor e =>
      (pol.step g a s.cache e).map fun r => r.map fun x => s.goto t x.1 (evictorPc x.2)
  | .ret t =>
    match s.pool t with
    | .get (.done _ _) => some (.ok (s.goto t s.cache .idle))
    | _ => none

/-- `zn_init_cache` on a device with any contents.  `active_readers` starts at
zero here; the code leaves it as `malloc` gave it (`Cache.ActiveReaders`). -/
def initCache (pol : EvictPolicy P E) (g : Geometry) (bytes : Buffer) : CacheState P where
  cacheMap := znCachemapInit g.nrZones
  policy := pol.init g
  zoneState := zsmInit g
  hits := 0
  misses := 0
  device := { bytes := bytes, written := fun _ _ => none }

/-- The runs of the cache from `zn_init_cache`, with no call in progress. -/
def cacheSystem (Tid : Type u) [DecidableEq Tid] (pol : EvictPolicy P E) (g : Geometry)
    (randomBuffer : Buffer) : TransSys (Sys P E Tid) (SysLabel Tid) where
  init s := ∃ bytes, s = ⟨initCache pol g bytes, fun _ => .idle⟩
  step s l s' := sysStep pol g randomBuffer s l = some (.ok s')

/-- One step that meets `C` and returns. -/
def sysExec (pol : EvictPolicy P E) (g : Geometry) (randomBuffer : Buffer)
    (C : Sys P E Tid → SysLabel Tid → Prop) [∀ s l, Decidable (C s l)] (s : Sys P E Tid)
    (l : SysLabel Tid) : Option (Sys P E Tid) :=
  if C s l then (sysStep pol g randomBuffer s l).bind Except.toOption else none

theorem sysExec_ok {pol : EvictPolicy P E} {g : Geometry} {rb : Buffer}
    {C : Sys P E Tid → SysLabel Tid → Prop} [∀ s l, Decidable (C s l)] (s : Sys P E Tid)
    (l : SysLabel Tid) (s' : Sys P E Tid) (h : sysExec pol g rb C s l = some s') :
    C s l ∧ (cacheSystem Tid pol g rb).step s l s' := by
  unfold sysExec at h
  split at h
  · exact ⟨‹_›, bind_toOption_eq_some h⟩
  · cases h

/-! ## §4. What is assumed of the callers and of the device. -/

/-- Ids are below `2^31`. -/
def SysLabel.SmallId : SysLabel Tid → Prop
  | .get _ id => id.toNat < 2 ^ 31
  | _ => True

instance SysLabel.decSmallId (l : SysLabel Tid) : Decidable l.SmallId := by
  cases l <;> unfold SysLabel.SmallId <;> infer_instance

/-- Zone commands succeed, or the backend issues none. -/
def SysLabel.ZoneOk (g : Geometry) : SysLabel Tid → Prop
  | .step _ a => DeviceOk g a.ret
  | _ => True

instance SysLabel.decZoneOk (g : Geometry) (l : SysLabel Tid) : Decidable (l.ZoneOk g) := by
  cases l <;> unfold SysLabel.ZoneOk <;> unfold DeviceOk <;> infer_instance

/-- Transfers succeed. -/
def SysLabel.TransferOk (g : Geometry) : SysLabel Tid → Prop
  | .step _ a => TransfersOk a.pwrites ∧ a.pread = g.chunkSz
  | _ => True

instance SysLabel.decTransferOk (g : Geometry) (l : SysLabel Tid) : Decidable (l.TransferOk g) := by
  cases l <;> unfold SysLabel.TransferOk <;> unfold TransfersOk <;> infer_instance

/-- The device succeeds at whatever it is asked for. -/
def Answers.Obeys (g : Geometry) (a : Answers) : Prop :=
  DeviceOk g a.ret ∧ TransfersOk a.pwrites ∧ g.chunkSz ≤ writeGranularity * a.pwrites.length
    ∧ a.pread = g.chunkSz

theorem Answers.exists_obeys (g : Geometry) : ∃ a : Answers, a.Obeys g := by
  refine ⟨⟨0, List.replicate g.chunkSz ⟨writeGranularity, 0⟩, g.chunkSz⟩, Or.inr rfl, ?_, ?_, rfl⟩
  · intro r hr
    exact List.eq_of_mem_replicate hr
  · show g.chunkSz ≤ 4096 * (List.replicate g.chunkSz _).length
    rw [List.length_replicate]
    omega

/-- The thread that moves. -/
def SysLabel.thread : SysLabel Tid → Tid
  | .get t _ | .fgEvict t | .evictTask t | .step t _ | .ret t => t

/-- A thread with no call in progress. -/
def Pc.isIdle : Pc E → Bool
  | .idle => true
  | _ => false

/-- One call at a time: a thread moves only while the others have none in
progress. -/
def SysLabel.Alone (s : Sys P E Tid) (l : SysLabel Tid) : Prop :=
  ∀ u, u ≠ l.thread → (s.pool u).isIdle = true

instance SysLabel.decAlone [Fintype Tid] (s : Sys P E Tid) (l : SysLabel Tid) :
    Decidable (l.Alone s) := by
  unfold SysLabel.Alone
  infer_instance

end ZnCache
