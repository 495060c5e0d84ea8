/-
  ZnCache.Promotional.FgEvict — `zn_fg_evict` under `ZN_EVICT_PROMOTE_ZONE`.

  One step is one mutex-protected call, one read of `active_readers`, or the
  reset of a zone.  The bound of the loop is a difference of 32-bit values and
  wraps when more than `EVICT_LOW_THRESH_ZONES` zones are free.

  `zn_policy_promotional_get_zone_to_evict` answers a zone number in an `int`;
  the number of zones is an `int` too (`zn_cachemap_init`), so -1 is no zone.
-/
import ZnCache.Cache.Defs
import ZnCache.Promotional.Policy

namespace ZnCache

/-- Where a thread is in `zn_fg_evict`. -/
inductive FgEvict where
  | start
  | loop (i bound : Nat)
  | clear (i bound zone : Nat)
  | wait (i bound zone : Nat)
  | reset (i bound zone : Nat)
  deriving DecidableEq, Repr

/-- `zsm_evict`, and the assertion on its result. -/
def evictAndCheck (g : Geometry) (ret : Int) (s : ZoneStateManager) (zone : Nat) :
    Except Fault ZoneStateManager := do
  let (r, s') ← zsmEvict g ret s zone
  check (r = 0)
  return s'

/-- One step of `zn_fg_evict`. -/
def fgEvictStep (g : Geometry) (a : Answers) (s : CacheState ZnPolicyPromotional) :
    FgEvict → Stepped (CacheState ZnPolicyPromotional × Option FgEvict)
  | .start =>
    let freeZones := zsmGetNumFreeZones s.zoneState
    some (.ok (s, some (.loop 0 (u32Sub evictLowThreshZones freeZones))))
  | .loop i bound =>
    if i < bound then
      match znPolicyPromotionalGetZoneToEvict s.policy with
      | (none, p) => some (.ok ({ s with policy := p }, none))
      | (some zone, p) => some (.ok ({ s with policy := p }, some (.clear i bound zone)))
    else some (.ok (s, none))
  | .clear i bound zone =>
    some ((znCachemapClearZone s.cacheMap zone (s.cacheMap.dataMap zone).entries).map fun m =>
      ({ s with cacheMap := m }, some (.wait i bound zone)))
  | .wait i bound zone =>
    if 0 < s.cacheMap.activeReaders zone then some (.ok (s, some (.wait i bound zone)))
    else some (.ok (s, some (.reset i bound zone)))
  | .reset i bound zone =>
    some ((evictAndCheck g a.ret s.zoneState zone).map fun z =>
      ({ s with zoneState := z, device := s.device.forget zone },
        some (.loop ((i + 1) % 2 ^ 32) bound)))

/-- The promotional policy. -/
def promotional : EvictPolicy ZnPolicyPromotional FgEvict where
  init := znPolicyPromotionalInit
  update := fun _ p l io => some (znPolicyPromotionalUpdate p l io)
  entry := .start
  step := fgEvictStep

/-- **What one step of `zn_fg_evict` can do.** -/
inductive FgEvictCase (g : Geometry) (a : Answers) (s : CacheState ZnPolicyPromotional) :
    FgEvict → CacheState ZnPolicyPromotional → Option FgEvict → Prop
  | start {bound : Nat} : FgEvictCase g a s .start s (some (.loop 0 bound))
  | leave {i bound : Nat} : FgEvictCase g a s (.loop i bound) s none
  | pop {i bound zone : Nat} {p : ZnPolicyPromotional}
      (h : znPolicyPromotionalGetZoneToEvict s.policy = (some zone, p)) :
      FgEvictCase g a s (.loop i bound) { s with policy := p } (some (.clear i bound zone))
  | clear {i bound zone : Nat} {m : ZnCachemap}
      (h : znCachemapClearZone s.cacheMap zone (s.cacheMap.dataMap zone).entries = .ok m) :
      FgEvictCase g a s (.clear i bound zone) { s with cacheMap := m } (some (.wait i bound zone))
  | wait {i bound zone : Nat} :
      FgEvictCase g a s (.wait i bound zone) s (some (.wait i bound zone))
  | drained {i bound zone : Nat} (h : s.cacheMap.activeReaders zone ≤ 0) :
      FgEvictCase g a s (.wait i bound zone) s (some (.reset i bound zone))
  | reset {i bound zone i' : Nat} {z : ZoneStateManager}
      (h : zsmEvict g a.ret s.zoneState zone = .ok (0, z)) :
      FgEvictCase g a s (.reset i bound zone)
        { s with zoneState := z, device := s.device.forget zone } (some (.loop i' bound))

theorem evictAndCheck_ok {g : Geometry} {ret : Int} {s s' : ZoneStateManager} {zone : Nat}
    (h : evictAndCheck g ret s zone = .ok s') : zsmEvict g ret s zone = .ok (0, s') := by
  obtain ⟨⟨r, s''⟩, he, hcheck⟩ := bind_eq_ok h
  obtain ⟨rfl, heq⟩ := check_bind_ok hcheck
  cases heq
  exact he

/-- An empty queue leaves the policy as it is. -/
theorem getZoneToEvict_none {p p' : ZnPolicyPromotional}
    (h : znPolicyPromotionalGetZoneToEvict p = (none, p')) : p' = p := by
  unfold znPolicyPromotionalGetZoneToEvict at h
  split at h
  · cases h; rfl
  · cases h

theorem fgEvictStep_cases {g : Geometry} {a : Answers} {s s' : CacheState ZnPolicyPromotional}
    {e : FgEvict} {e' : Option FgEvict} (h : fgEvictStep g a s e = some (.ok (s', e'))) :
    FgEvictCase g a s e s' e' := by
  cases e with
  | start => cases h; exact .start
  | loop i bound =>
    simp only [fgEvictStep] at h
    split at h
    · split at h
      · rename_i p hp
        obtain rfl := getZoneToEvict_none hp
        cases h
        exact .leave
      · rename_i zone p hp
        cases h
        exact .pop hp
    · cases h; exact .leave
  | clear i bound zone =>
    obtain ⟨m, hc, heq⟩ := map_eq_ok (Option.some.inj h)
    cases heq
    exact .clear hc
  | wait i bound zone =>
    simp only [fgEvictStep] at h
    split at h
    · cases h; exact .wait
    · rename_i hle
      cases h
      exact .drained (not_lt.mp hle)
  | reset i bound zone =>
    obtain ⟨z, hc, heq⟩ := map_eq_ok (Option.some.inj h)
    cases heq
    exact .reset (evictAndCheck_ok hc)

/-- Eviction leaves `active_readers` alone. -/
theorem promotional_readers (g : Geometry) (a : Answers) (s : CacheState ZnPolicyPromotional)
    (e : FgEvict) (s' : CacheState ZnPolicyPromotional) (e' : Option FgEvict)
    (h : promotional.step g a s e = some (.ok (s', e'))) :
    s'.cacheMap.activeReaders = s.cacheMap.activeReaders := by
  cases fgEvictStep_cases h with
  | start | leave | pop | wait | drained | reset => rfl
  | clear hc =>
    obtain ⟨-, zm, rfl, -⟩ := znCachemapClearZone_ok hc
    rfl

/-- Eviction makes no entries. -/
theorem promotional_keys (g : Geometry) (a : Answers) (s : CacheState ZnPolicyPromotional)
    (e : FgEvict) (s' : CacheState ZnPolicyPromotional) (e' : Option FgEvict)
    (h : promotional.step g a s e = some (.ok (s', e'))) (k : Nat)
    (hk : s'.cacheMap.zoneMap k ≠ none) : s.cacheMap.zoneMap k ≠ none := by
  cases fgEvictStep_cases h with
  | start | leave | pop | wait | drained | reset => exact hk
  | clear hc =>
    obtain ⟨-, zm, rfl, hzm, -⟩ := znCachemapClearZone_ok hc
    rcases hzm k with heq | ⟨hnone, -⟩
    · exact heq ▸ hk
    · exact absurd hnone hk

end ZnCache
