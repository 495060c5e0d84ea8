/-
  ZnCache.ZoneState.Defs — `zone_state_manager.c`, function by function.

  The manager keeps one record per zone, a queue of free zones, a queue of
  active zones and the number of zones being written.  Queues hold pointers
  into the zone array, so here they hold zone numbers.  Every function body
  runs under `state_mutex`, hence is one function of the state.

  A zone command of libzbd is an argument `ret`, the value the command
  returns; on the block backend no command is issued and `ret` is not read.
-/
import ZnCache.Backend
import ZnCache.Lib.ThreadPool

namespace ZnCache

/-! ## §1. The state. -/

/-- `enum zn_zone_condition`. -/
inductive ZnZoneCondition where
  | free
  | full
  | active
  | writeOccuring
  deriving DecidableEq, Repr

/-- `struct zn_zone`. -/
structure ZnZone where
  state : ZnZoneCondition
  zoneId : Nat
  chunkOffset : Nat
  invalid : List Nat
  deriving DecidableEq, Repr

/-- `struct zone_state_manager`, less the parameters of `Geometry`. -/
structure ZoneStateManager where
  active : List Nat
  free : List Nat
  state : Nat → ZnZone
  writesOccurring : Int

/-- `enum zsm_get_active_zone_error`, with the location written on success. -/
inductive ZsmGetActiveZone where
  | success (pair : ZnPair)
  | retry
  | error
  | evict
  deriving DecidableEq, Repr

/-- Overwrite the record of one zone. -/
def ZoneStateManager.setZone (s : ZoneStateManager) (z : Nat) (zn : ZnZone) : ZoneStateManager :=
  { s with state := Function.update s.state z zn }

namespace ZoneStateManager

variable (s : ZoneStateManager) (z : Nat) (zn : ZnZone)

@[simp] theorem setZone_active : (s.setZone z zn).active = s.active := rfl
@[simp] theorem setZone_free : (s.setZone z zn).free = s.free := rfl
@[simp] theorem setZone_writes : (s.setZone z zn).writesOccurring = s.writesOccurring := rfl
@[simp] theorem setZone_state : (s.setZone z zn).state = Function.update s.state z zn := rfl

end ZoneStateManager

/-! ## §2. The static helpers. -/

/-- `close_zone`. -/
def closeZone (g : Geometry) (ret : Int) (s : ZoneStateManager) (z : Nat) :
    Int × ZoneStateManager :=
  if (s.state z).state = .full then (0, s)
  else if g.backend = .zns ∧ ret ≠ 0 then (ret, s)
  else (0, s.setZone z { s.state z with state := .full, chunkOffset := 0 })

/-- `reset_zone`. -/
def resetZone (g : Geometry) (ret : Int) (s : ZoneStateManager) (z : Nat) :
    Int × ZoneStateManager :=
  if (s.state z).state = .free then (0, s)
  else if g.backend = .zns ∧ ret ≠ 0 then (ret, s)
  else (0, { s.setZone z { s.state z with state := .free, chunkOffset := 0 } with
    free := s.free ++ [z] })

/-- `open_zone`. -/
def openZone (g : Geometry) (ret : Int) (s : ZoneStateManager) (z : Nat) :
    Except Fault (Int × ZoneStateManager) := do
  check ((s.state z).state = .free)
  -- a zone that is being written has left the active queue, and counts as well
  if (g.maxNrActiveZones : Int) ≤ s.active.length + s.writesOccurring then
    return (-1, s)
  else if g.backend = .zns ∧ ret ≠ 0 then
    return (ret, s)
  else
    return (0, { s.setZone z { s.state z with state := .active, chunkOffset := 0 } with
      active := s.active ++ [z] })

/-! ## §3. The interface. -/

/-- `zsm_init`. -/
def zsmInit (g : Geometry) : ZoneStateManager where
  active := []
  free := List.range g.nrZones
  state := fun i => { state := .free, zoneId := i, chunkOffset := 0, invalid := [] }
  writesOccurring := 0

/-- The end of `zsm_get_active_zone`: hand out the head of the active queue. -/
def takeActiveZone (s : ZoneStateManager) : Except Fault (ZsmGetActiveZone × ZoneStateManager) :=
  match s.active with
  | [] => .error .nullDeref
  | z :: active => do
    check ((s.state z).state = .active)
    return (.success { zone := (s.state z).zoneId, chunkOffset := (s.state z).chunkOffset,
                       id := 0, inUse := false },
      { s.setZone z { s.state z with state := .writeOccuring } with
        active := active, writesOccurring := s.writesOccurring + 1 })

/-- `zsm_get_active_zone`. -/
def zsmGetActiveZone (g : Geometry) (ret : Int) (s : ZoneStateManager) :
    Except Fault (ZsmGetActiveZone × ZoneStateManager) :=
  if s.active.length + s.writesOccurring = 0 ∧ s.free.length = 0 then
    .ok (.evict, s)
  else do
    check (0 < s.active.length + s.writesOccurring ∨ 0 < s.free.length)
    if s.active.length = 0 then
      if s.active.length + s.writesOccurring < g.maxNrActiveZones ∧ 0 < s.free.length then
        match s.free with
        | [] => .error .nullDeref
        | z :: free =>
          check ((s.state z).state = .free)
          -- the zone has left the free queue whether or not it can be opened
          let (r, s') ← openZone g ret { s with free := free } z
          if r ≠ 0 then return (.error, s') else takeActiveZone s'
      -- all open zones are being written, and no more can be opened
      else return (.retry, s)
    else takeActiveZone s

/-- `zsm_return_active_zone`. -/
def zsmReturnActiveZone (g : Geometry) (ret : Int) (s : ZoneStateManager) (pair : ZnPair) :
    Except Fault (Int × ZoneStateManager) := do
  check (s.active.length + s.writesOccurring ≤ g.maxNrActiveZones)
  let zone := s.state pair.zone
  check (zone.state = .writeOccuring)
  check (zone.chunkOffset = pair.chunkOffset)
  -- `chunk_offset` is a `uint32_t`, `max_zone_chunks` a `uint64_t`
  let offset := (zone.chunkOffset + 1) % 2 ^ 32
  let s' := { s.setZone pair.zone { zone with chunkOffset := offset } with
    writesOccurring := s.writesOccurring - 1 }
  if offset = g.maxZoneChunks then
    return closeZone g ret s' pair.zone
  else
    return (0, { s'.setZone pair.zone { s'.state pair.zone with state := .active } with
      active := s'.active ++ [pair.zone] })

/-- `zsm_evict`.  `zone_to_free` is an `int`, so a zone from `2 ^ 31` on cannot
be named. -/
def zsmEvict (g : Geometry) (ret : Int) (s : ZoneStateManager) (zoneToFree : Nat) :
    Except Fault (Int × ZoneStateManager) := do
  check ((s.state zoneToFree).state = .full)
  let (r, s') := resetZone g ret s zoneToFree
  -- success leaves here, with the invalid queue as it is
  if r = 0 then return (r, s')
  else
    check ((s'.state zoneToFree).state = .free)
    return (0, s'.setZone zoneToFree { s'.state zoneToFree with invalid := [] })

/-- `zsm_failed_to_write`. -/
def zsmFailedToWrite (g : Geometry) (s : ZoneStateManager) (pair : ZnPair) :
    Except Fault ZoneStateManager := do
  check (s.active.length + s.writesOccurring ≤ g.maxNrActiveZones)
  let zone := s.state pair.zone
  check (zone.state = .writeOccuring)
  check (zone.chunkOffset = pair.chunkOffset)
  check (zone.chunkOffset < g.maxZoneChunks)
  -- the offset stays, and so the next writer gets the same chunk
  return { s.setZone pair.zone { zone with state := .active } with
    active := s.active ++ [pair.zone], writesOccurring := s.writesOccurring - 1 }

/-- `zsm_get_num_active_zones`. -/
def zsmGetNumActiveZones (s : ZoneStateManager) : Int := s.active.length + s.writesOccurring

/-- `zsm_get_num_free_zones`. -/
def zsmGetNumFreeZones (s : ZoneStateManager) : Nat := s.free.length

/-- `zsm_get_num_full_zones`: the loop over the zone array. -/
def zsmGetNumFullZones (g : Geometry) (s : ZoneStateManager) : Nat :=
  (List.range g.nrZones).foldl
    (fun count i => if (s.state i).state = .full then count + 1 else count) 0

/-- `zsm_get_num_invalid_chunks`. -/
def zsmGetNumInvalidChunks (s : ZoneStateManager) (zone : Nat) : Nat :=
  (s.state zone).invalid.length

/-- `zsm_mark_chunk_invalid`. -/
def zsmMarkChunkInvalid (s : ZoneStateManager) (location : ZnPair) : ZoneStateManager :=
  s.setZone location.zone { s.state location.zone with
    invalid := (s.state location.zone).invalid ++ [location.chunkOffset] }

end ZnCache
