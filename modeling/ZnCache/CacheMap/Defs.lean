/-
  ZnCache.CacheMap.Defs — `cachemap.c`, function by function.

  `zone_map` maps a data id, encoded as a pointer, to where its chunk is or to
  the condition its readers wait on; `data_map[z]` maps a chunk offset of zone
  `z`, encoded as a pointer, to the data id stored there.  NULL and 0 are the
  same pointer, so a failed lookup reads as id 0.

  Every body runs under `cache_map_mutex`.  `zn_cachemap_find` gives the mutex
  up while it waits, so it is cut where it waits: `znCachemapFind` runs up to
  an answer or to `g_cond_wait`, `znCachemapWake` from there on.

  A condition variable lives in a reference-counted box: `rc` counts the
  references, `broadcasts` how often it was signalled, `cleared` how often it
  was destroyed.  Boxes are not reused.  A thread that went to sleep when the
  count of broadcasts was `seen` has been notified when it is larger now.
-/
import ZnCache.Backend
import Mathlib.Data.List.AList
import Mathlib.Tactic.Simps.Basic

namespace ZnCache

/-! ## §1. The state. -/

/-- `struct zone_map_result`. -/
inductive ZoneMapResult where
  | loc (location : ZnPair)
  | cond (writeFinished : Nat)
  deriving DecidableEq, Repr

/-- A condition variable in its reference-counted box. -/
structure RcCond where
  rc : Nat
  broadcasts : Nat
  cleared : Nat
  deriving DecidableEq, Repr

/-- `struct zn_cachemap`; `numZones` is the length of the two arrays, `conds`
the memory behind the condition pointers, `nextCond` the next free box. -/
structure ZnCachemap where
  numZones : Nat
  zoneMap : Nat → Option ZoneMapResult
  dataMap : Nat → AList (fun _ : Nat => Nat)
  activeReaders : Nat → Int
  conds : Nat → RcCond
  nextCond : Nat

/-- What one stretch of `zn_cachemap_find` comes to. -/
inductive FindResult where
  | located (location : ZnPair)
  | sleep (cond seen : Nat)
  | write (cond : Nat)
  deriving DecidableEq, Repr

namespace ZnCachemap

/-- `zone_map[key] = r`, or removal. -/
@[simps -fullyApplied] def setEntry (m : ZnCachemap) (key : Nat) (r : Option ZoneMapResult) : ZnCachemap :=
  { m with zoneMap := Function.update m.zoneMap key r }

/-- `data_map[zone] = t`. -/
@[simps -fullyApplied] def setData (m : ZnCachemap) (zone : Nat) (t : AList (fun _ : Nat => Nat)) : ZnCachemap :=
  { m with dataMap := Function.update m.dataMap zone t }

/-- Add to the reader count of a zone, atomically. -/
@[simps -fullyApplied] def addReaders (m : ZnCachemap) (zone : Nat) (n : Int) : ZnCachemap :=
  { m with activeReaders := Function.update m.activeReaders zone (m.activeReaders zone + n) }

/-- Overwrite one condition box. -/
@[simps -fullyApplied] def setCond (m : ZnCachemap) (c : Nat) (b : RcCond) : ZnCachemap :=
  { m with conds := Function.update m.conds c b }

end ZnCachemap

/-! ## §2. Reference-counted condition variables. -/

/-- `g_atomic_rc_box_acquire`. -/
def rcBoxAcquire (m : ZnCachemap) (c : Nat) : Except Fault ZnCachemap :=
  if (m.conds c).rc = 0 then .error .badPointer
  else .ok (m.setCond c { m.conds c with rc := (m.conds c).rc + 1 })

/-- `g_atomic_rc_box_release_full(cond, free_cond_var)`: the last reference
clears the condition. -/
def rcBoxRelease (m : ZnCachemap) (c : Nat) : Except Fault ZnCachemap :=
  match (m.conds c).rc with
  | 0 => .error .badPointer
  | 1 => .ok (m.setCond c { m.conds c with rc := 0, cleared := (m.conds c).cleared + 1 })
  | rc + 2 => .ok (m.setCond c { m.conds c with rc := rc + 1 })

/-- `g_cond_broadcast`. -/
def gCondBroadcast (m : ZnCachemap) (c : Nat) : Except Fault ZnCachemap :=
  if (m.conds c).rc = 0 then .error .badPointer
  else .ok (m.setCond c { m.conds c with broadcasts := (m.conds c).broadcasts + 1 })

/-! ## §3. The interface. -/

/-- `zn_cachemap_init`, over an array of reader counts that are zero.
`num_zones` is an `int`, so it cannot be passed a number from `2 ^ 31` on. -/
def znCachemapInit (numZones : Nat) : ZnCachemap where
  numZones := numZones
  zoneMap := fun _ => none
  dataMap := fun _ => ∅
  activeReaders := fun _ => 0
  conds := fun _ => { rc := 0, broadcasts := 0, cleared := 0 }
  nextCond := 0

/-- `zn_cachemap_find`, from the top of its loop to an answer or to the wait.
The zone of an entry was checked against the array when the entry was made. -/
def znCachemapFind (m : ZnCachemap) (dataId : Nat) : Except Fault (FindResult × ZnCachemap) :=
  match m.zoneMap (gintToPointer dataId) with
  | some (.cond c) => do
    let m' ← rcBoxAcquire m c
    return (.sleep c (m.conds c).broadcasts, m')
  | some (.loc location) => .ok (.located location, m.addReaders location.zone 1)
  | none =>
    -- the one reference is the writer's
    let c := m.nextCond
    let m' := { m.setCond c { rc := 1, broadcasts := 0, cleared := 0 } with nextCond := c + 1 }
    .ok (.write c, m'.setEntry (gintToPointer dataId) (some (.cond c)))

/-- `zn_cachemap_find`, from the return of `g_cond_wait` on: give the reference
back and go to the top of the loop. -/
def znCachemapWake (m : ZnCachemap) (dataId c : Nat) : Except Fault (FindResult × ZnCachemap) := do
  let m' ← rcBoxRelease m c
  znCachemapFind m' dataId

/-- `zn_cachemap_insert`. -/
def znCachemapInsert (m : ZnCachemap) (dataId : Nat) (location : ZnPair) :
    Except Fault ZnCachemap :=
  match m.zoneMap (guintToPointer dataId) with
  | some (.cond c) =>
    if location.zone < m.numZones then do
      let m₁ := m.setEntry (guintToPointer dataId) (some (.loc location))
      let m₂ := m₁.setData location.zone
        ((m₁.dataMap location.zone).insert (guintToPointer location.chunkOffset)
          (gintToPointer dataId))
      let m₃ ← gCondBroadcast m₂ c
      -- the writer's reference; the sleepers have their own
      rcBoxRelease m₃ c
    else .error .outOfBounds
  | _ => .error .assertion

/-- `zn_cachemap_clear_chunk`. -/
def znCachemapClearChunk (m : ZnCachemap) (location : ZnPair) : Except Fault ZnCachemap :=
  if location.zone < m.numZones then do
    let chunk := guintToPointer location.chunkOffset
    -- a chunk that is not in the table reads as NULL, which is id 0
    let dataId := gpointerToInt (((m.dataMap location.zone).lookup chunk).getD 0)
    match m.zoneMap (gintToPointer dataId) with
    | some (.loc l) =>
      check (l.zone = location.zone)
      check (l.chunkOffset = location.chunkOffset)
      let m' := m.setEntry (gintToPointer dataId) none
      return m'.setData location.zone ((m.dataMap location.zone).erase chunk)
    | _ => .error .assertion
  else .error .outOfBounds

/-- The loop of `zn_cachemap_clear_zone` over the entries still to visit. -/
def clearEntries (zone : Nat) :
    List (Sigma fun _ : Nat => Nat) → ZnCachemap → Except Fault ZnCachemap
  | [], m => .ok m
  | entry :: rest, m =>
    let dataId := gpointerToInt entry.2
    match m.zoneMap (gintToPointer dataId) with
    | some (.loc l) =>
      if l.zone = zone then clearEntries zone rest (m.setEntry (gintToPointer dataId) none)
      else .error .assertion
    | _ => .error .assertion

/-- `zn_cachemap_clear_zone`; `iter` is the order in which the table is
iterated over, a permutation of its entries. -/
def znCachemapClearZone (m : ZnCachemap) (zone : Nat) (iter : List (Sigma fun _ : Nat => Nat)) :
    Except Fault ZnCachemap :=
  if zone < m.numZones then do
    let m' ← clearEntries zone iter m
    return m'.setData zone ∅
  else .error .outOfBounds

/-- `zn_cachemap_fail`. -/
def znCachemapFail (m : ZnCachemap) (id : Nat) : Except Fault ZnCachemap :=
  match m.zoneMap (gintToPointer id) with
  | some (.cond c) => do
    let m₁ ← gCondBroadcast m c
    let m₂ ← rcBoxRelease m₁ c
    return m₂.setEntry (gintToPointer id) none
  | _ => .error .assertion

end ZnCache
