/-
  ZnCache.Promotional.Cached — what is committed is cached.

  A chunk is committed when its location is given back, and stays so until its
  zone is reset.  Under the promotional policy, in a run that publishes first,
  the committed chunks are those that the cache map has an id for, those that
  wait to be published, and, for as long as an evictor has cleared their zone
  and not reset it, those of that zone (`CachedExact`).

  So with no call in progress the cache is the committed chunks.  What
  `zn_evict_policy_get_cache_size` reports is not their size: it leaves out what
  is in the open zones, and counts the rest of a zone after its last chunk.

  Main result: `promotional_idle_cached`.
-/
import ZnCache.Promotional.Finish
import ZnCache.ZoneState.Filled

namespace ZnCache

open Lib Lib.PartialBijection

universe u

/-! ## §1. Committed chunks. -/

variable {Tid : Type u} {g : Geometry} {zsm : ZoneStateManager} {policy : ZnPolicyPromotional}
  {loc : Nat → Option (Nat × Nat)} {data : Nat → Nat → Option Nat} {role : Tid → Role}

/-- Chunk `c` of zone `z` is mapped, or waits to be. -/
def Kept (loc : Nat → Option (Nat × Nat)) (role : Tid → Role) (z c : Nat) : Prop :=
  (∃ id, loc id = some (z, c))
    ∨ ∃ t id l, (role t).pending = some (id, l) ∧ l.zone = z ∧ l.chunkOffset = c

/-- **What is committed is kept**, until its zone has been cleared. -/
structure CachedExact (g : Geometry) (zsm : ZoneStateManager) (loc : Nat → Option (Nat × Nat))
    (role : Tid → Role) : Prop where
  below : ∀ z c, Kept loc role z c → c < (zsm.state z).filled g
  kept : ∀ z c, c < (zsm.state z).filled g → Kept loc role z c ∨ ∃ t, (role t).cleared = some z

variable [DecidableEq Tid] {t : Tid} {r : Role}

/-- A thread goes on to say what it said. -/
theorem said_same {α : Type} {f : Role → Option α} (h : f r = f (role t)) (u : Tid) :
    f (Function.update role t r u) = f (role u) := by
  by_cases hut : u = t
  · rw [hut, Function.update_self]
    exact h
  · rw [Function.update_of_ne hut]

theorem Kept.goto (h : r.pending = (role t).pending) (z c : Nat) :
    Kept loc (Function.update role t r) z c ↔ Kept loc role z c := by
  unfold Kept
  simp only [said_same h]

namespace CachedExact

/-- No chunk is committed, published or cleared. -/
theorem goto (h : CachedExact g zsm loc role) {zsm' : ZoneStateManager}
    (hfilled : ∀ z, (zsm'.state z).filled g = (zsm.state z).filled g)
    (hpending : r.pending = (role t).pending) (hcleared : r.cleared = (role t).cleared) :
    CachedExact g zsm' loc (Function.update role t r) := by
  constructor
  · intro z c hk
    rw [hfilled]
    exact h.below z c ((Kept.goto hpending z c).mp hk)
  · intro z c hlt
    rw [hfilled] at hlt
    rcases h.kept z c hlt with hk | ⟨u, hu⟩
    · exact Or.inl ((Kept.goto hpending z c).mpr hk)
    · refine Or.inr ⟨u, ?_⟩
      rw [said_same hcleared]
      exact hu

/-- **A chunk is committed**, and waits to be published. -/
theorem commit (h : CachedExact g zsm loc role) (hmax : g.maxZoneChunks < 2 ^ 32)
    (hinv : ZsmInv g zsm) {id : Nat} {l : ZnPair} {d : Buffer} (ht : role t = .wrote id l d)
    (hst : (zsm.state l.zone).state = .writeOccuring)
    (hoff : (zsm.state l.zone).chunkOffset = l.chunkOffset) :
    CachedExact g (committed g zsm l) loc (Function.update role t (.pushing id l d)) := by
  obtain ⟨zn, hzn, hfilled⟩ := committed_state hmax hinv hst hoff
  have hopen : (zsm.state l.zone).state ≠ .full := by
    rw [hst]
    decide
  -- what was kept is kept, and the chunk is new
  have hkept : ∀ z c, Kept loc (Function.update role t (.pushing id l d)) z c
      ↔ Kept loc role z c ∨ l.zone = z ∧ l.chunkOffset = c := by
    intro z c
    constructor
    · rintro (hid | ⟨u, id', l', hu, hz, hc⟩)
      · exact Or.inl (Or.inl hid)
      · by_cases hut : u = t
        · rw [hut, Function.update_self] at hu
          cases hu
          exact Or.inr ⟨hz, hc⟩
        · rw [Function.update_of_ne hut] at hu
          exact Or.inl (Or.inr ⟨u, id', l', hu, hz, hc⟩)
    · rintro ((hid | ⟨u, id', l', hu, hz, hc⟩) | ⟨hz, hc⟩)
      · exact Or.inl hid
      · have hut : u ≠ t := by
          intro heq
          rw [heq, ht] at hu
          cases hu
        refine Or.inr ⟨u, id', l', ?_, hz, hc⟩
        rw [Function.update_of_ne hut]
        exact hu
      · refine Or.inr ⟨t, id, l, ?_, hz, hc⟩
        rw [Function.update_self]
        rfl
  have hcleared : ∀ u, (Function.update role t (.pushing id l d) u).cleared = (role u).cleared :=
    fun u => said_same (by rw [ht]; rfl) u
  have hold := ZnZone.filled_open (g := g) hopen
  rw [hoff] at hold
  constructor
  · intro z c hk
    rw [hzn]
    by_cases hz : z = l.zone
    · rw [hz, Function.update_self, hfilled]
      rcases (hkept z c).mp hk with hk | ⟨-, hc⟩
      · have hlt := h.below z c hk
        rw [hz, hold] at hlt
        omega
      · omega
    · rw [Function.update_of_ne hz]
      rcases (hkept z c).mp hk with hk | ⟨hz', -⟩
      · exact h.below z c hk
      · exact absurd hz'.symm hz
  · intro z c hlt
    have hbefore : c < (zsm.state z).filled g → Kept loc (Function.update role t (.pushing id l d)) z c
        ∨ ∃ u, (Function.update role t (.pushing id l d) u).cleared = some z := by
      intro hlt
      refine (h.kept z c hlt).imp (fun hk => (hkept z c).mpr (Or.inl hk)) fun hu => ?_
      obtain ⟨u, hu⟩ := hu
      exact ⟨u, (hcleared u).trans hu⟩
    rw [hzn] at hlt
    by_cases hz : z = l.zone
    · rw [hz, Function.update_self, hfilled] at hlt
      by_cases hc : c = l.chunkOffset
      · exact Or.inl ((hkept z c).mpr (Or.inr ⟨hz.symm, hc.symm⟩))
      · apply hbefore
        rw [hz, hold]
        omega
    · rw [Function.update_of_ne hz] at hlt
      exact hbefore hlt

/-- **A chunk is published**: it waited, and is mapped. -/
theorem publish (h : CachedExact g zsm loc role) {id : Nat} {l : ZnPair} {d : Buffer}
    (ht : role t = .publishing id l d) (hloc : loc id = none) :
    CachedExact g zsm (Function.update loc id (some (l.zone, l.chunkOffset)))
      (Function.update role t (.result id d)) := by
  have hmine : (role t).pending = some (id, l) := by
    rw [ht]
    rfl
  have hkept : ∀ z c, Kept (Function.update loc id (some (l.zone, l.chunkOffset)))
      (Function.update role t (.result id d)) z c ↔ Kept loc role z c := by
    intro z c
    constructor
    · rintro (⟨k, hk⟩ | ⟨u, id', l', hu, hz, hc⟩)
      · by_cases hkid : k = id
        · rw [hkid, Function.update_self] at hk
          cases hk
          exact Or.inr ⟨t, id, l, hmine, rfl, rfl⟩
        · rw [Function.update_of_ne hkid] at hk
          exact Or.inl ⟨k, hk⟩
      · exact Or.inr ⟨u, id', l', (said_else hu rfl).2, hz, hc⟩
    · rintro (⟨k, hk⟩ | ⟨u, id', l', hu, hz, hc⟩)
      · -- the id published had no location
        have hkid : k ≠ id := by
          intro heq
          rw [heq, hloc] at hk
          cases hk
        refine Or.inl ⟨k, ?_⟩
        rw [Function.update_of_ne hkid]
        exact hk
      · by_cases hut : u = t
        · rw [hut, hmine] at hu
          cases hu
          refine Or.inl ⟨id, ?_⟩
          rw [Function.update_self, hz, hc]
        · refine Or.inr ⟨u, id', l', ?_, hz, hc⟩
          rw [Function.update_of_ne hut]
          exact hu
  constructor
  · exact fun z c hk => h.below z c ((hkept z c).mp hk)
  · intro z c hlt
    refine (h.kept z c hlt).imp (hkept z c).mpr fun hu => ?_
    obtain ⟨u, hu⟩ := hu
    exact ⟨u, (said_same (by rw [ht]; rfl) u).trans hu⟩

/-- **A zone is cleared**: no other zone loses a chunk. -/
theorem clear (h : CachedExact g zsm loc role) (hok : ChunksOk g zsm loc data role) {zone : Nat}
    {loc' : Nat → Option (Nat × Nat)} (ht : role t = .clearing zone)
    (hc : ClearsZone zone loc loc' data) :
    CachedExact g zsm loc' (Function.update role t (.waiting zone)) := by
  have hpending : ∀ u, (Function.update role t (.waiting zone) u).pending = (role u).pending :=
    fun u => said_same (by rw [ht]; rfl) u
  constructor
  · intro z c hk
    apply h.below z c
    rcases hk with ⟨k, hk⟩ | ⟨u, id, l, hu, hl⟩
    · exact Or.inl ⟨k, (hok.loc_clear hc hk).1⟩
    · exact Or.inr ⟨u, id, l, (hpending u).symm.trans hu, hl⟩
  · intro z c hlt
    by_cases hz : z = zone
    · refine Or.inr ⟨t, ?_⟩
      rw [Function.update_self, hz]
      rfl
    · rcases h.kept z c hlt with (⟨k, hk⟩ | ⟨u, id, l, hu, hl⟩) | ⟨u, hu⟩
      · refine Or.inl (Or.inl ⟨k, ?_⟩)
        rcases hc.only k with heq | ⟨-, c', hk'⟩
        · rw [heq]
          exact hk
        · rw [hk] at hk'
          cases hk'
          exact absurd rfl hz
      · exact Or.inl (Or.inr ⟨u, id, l, (hpending u).trans hu, hl⟩)
      · have hut : u ≠ t := by
          intro heq
          rw [heq, ht] at hu
          cases hu
        refine Or.inr ⟨u, ?_⟩
        rw [Function.update_of_ne hut]
        exact hu

/-- **A zone is reset**: it was cleared, and nothing of it waits. -/
theorem reset (h : CachedExact g zsm loc role) (hok : ChunksOk g zsm loc data role) {zone : Nat}
    (ht : role t = .resetting zone) :
    CachedExact g (evicted zsm zone) loc (Function.update role t .out) := by
  have hcl : (role t).cleared = some zone := by
    rw [ht]
    rfl
  have hpending : Role.out.pending = (role t).pending := by
    rw [ht]
    rfl
  have hstate : ∀ z, z ≠ zone → (evicted zsm zone).state z = zsm.state z :=
    fun z hz => Function.update_of_ne hz _ _
  constructor
  · intro z c hk
    have hk := (Kept.goto hpending z c).mp hk
    have hz : z ≠ zone := by
      rintro rfl
      rcases hk with ⟨k, hk⟩ | ⟨u, id, l, hu, hl, -⟩
      · exact hok.cleared t z hcl k c hk
      · exact hok.cleared_pending t z hcl u id l hu hl
    rw [hstate z hz]
    exact h.below z c hk
  · intro z c hlt
    by_cases hz : z = zone
    · -- a zone that is free holds no chunk
      have hempty : ((evicted zsm zone).state z).filled g = 0 := by
        rw [hz]
        show (Function.update zsm.state zone _ zone).filled g = 0
        rw [Function.update_self]
        exact ZnZone.filled_open fun h => by cases h
      omega
    · rw [hstate z hz] at hlt
      rcases h.kept z c hlt with hk | ⟨u, hu⟩
      · exact Or.inl ((Kept.goto hpending z c).mpr hk)
      · have hut : u ≠ t := by
          intro heq
          rw [heq, hcl] at hu
          cases hu
          exact hz rfl
        refine Or.inr ⟨u, ?_⟩
        rw [Function.update_of_ne hut]
        exact hu

end CachedExact

/-! ## §2. Every run. -/

/-- **One event.** -/
theorem LifeStep.cachedExact (hmax : g.maxZoneChunks < 2 ^ 32) {rb : Buffer} {s s' : Life Tid}
    {l : LifeLabel Tid} (hinv : ZsmInv g s.zsm) (hok : ChunksOk g s.zsm s.loc s.data s.role)
    (h : CachedExact g s.zsm s.loc s.role) (hl : l.ZoneOk g) (hs : LifeStep g rb s l s') :
    CachedExact g s'.zsm s'.loc s'.role := by
  cases hs with
  | @acquire t ret id r zsm _ ht hr =>
    obtain ⟨r', z, heq, hc⟩ := zsmGetActiveZone_spec hinv hl
    rw [hr] at heq
    cases heq
    apply h.goto hc.filled
    · rw [ht]
      cases r <;> rfl
    · rw [ht]
      cases r <;> rfl
  | @write t id l results r d ht =>
    apply h.goto (fun _ => rfl)
    · rw [ht]
      split <;> rfl
    · rw [ht]
      split <;> rfl
  | commit ht hr =>
    obtain ⟨hst, hoff, -⟩ := zsmReturnActiveZone_cases hr
    rw [zsmReturnActiveZone_spec hinv hl hst hoff] at hr
    cases hr
    exact h.commit hmax hinv ht hst hoff
  | abandon ht hr =>
    obtain ⟨hst, hoff, rfl⟩ := zsmFailedToWrite_cases hr
    exact h.goto (abandoned_filled hst hoff) (by rw [ht]; rfl) (by rw [ht]; rfl)
  | publish ht _ hloc => exact h.publish ht hloc
  | touch => exact h
  | clear ht hc => exact h.clear hok ht hc
  | reset ht hr =>
    obtain ⟨-, rfl⟩ := zsmEvict_cases hr
    exact h.reset hok ht
  | push ht | enter _ ht | read ht | drop ht | pop ht | drain ht =>
    exact h.goto (fun _ => rfl) (by rw [ht]; rfl) (by rw [ht]; rfl)
  | leave ht =>
    apply h.goto (fun _ => rfl)
    · rw [ht, Role.pending_ofData]
      rfl
    · rw [ht, Role.cleared_ofData]
      rfl

/-- The zone state manager is right at every event. -/
theorem life_zsm_reach (hpos : 1 ≤ g.maxZoneChunks) {rb : Buffer}
    {D : Life Tid → LifeLabel Tid → Prop} (hD : ∀ s l, D s l → l.ZoneOk g) {s : Life Tid}
    (hr : (lifeSystem Tid g rb).Reach D s) : ZsmInv g s.zsm := by
  apply TransSys.Reach.invariant (I := fun s => ZsmInv g s.zsm) _ _ hr
  · intro s hs
    obtain ⟨bytes, rfl⟩ := hs
    exact zsmInit_inv g
  · intro s l s' _ h hl hs
    have hok := hD s l hl
    cases hs with
    | acquire _ _ hr => exact h.acquire_ok hpos hok hr
    | commit _ hr => exact h.return_ok hok hr
    | abandon _ hr => exact h.failed_ok hr
    | reset _ hr => exact h.evict_ok hok hr
    | write | push | publish | enter | read | touch | leave | drop | pop | clear | drain => exact h

/-- **Every run** that clears a zone only when its chunks are published. -/
theorem cachedExact_reach (hpos : 1 ≤ g.maxZoneChunks) (hmax : g.maxZoneChunks < 2 ^ 32) {rb : Buffer}
    {s : Life Tid}
    (hr : (lifeSystem Tid g rb).Reach (fun s l => l.ZoneOk g ∧ l.PublishedFirst s) s) :
    CachedExact g s.zsm s.loc s.role := by
  apply TransSys.Reach.invariant (I := fun s => CachedExact g s.zsm s.loc s.role) _ _ hr
  · intro s hs
    obtain ⟨bytes, rfl⟩ := hs
    constructor
    · rintro z c (⟨k, hk⟩ | ⟨u, id, l, hu, -⟩)
      · cases hk
      · cases hu
    · intro z c hlt
      exact absurd hlt (Nat.not_lt_zero c)
  · intro s l s' hreach h hl hs
    exact hs.cachedExact hmax (life_zsm_reach hpos (fun _ _ h => h.1) hreach)
      (chunks_reach hmax (fun _ _ h => h.2) hreach) h hl.1

/-! ## §3. With no call in progress. -/

/-- `zn_evict_policy_get_cache_size`, the case `ZN_EVICT_PROMOTE_ZONE`: the length
of a queue is a `guint`, and the size a `size_t`. -/
def znPolicyPromotionalGetCacheSize (g : Geometry) (p : ZnPolicyPromotional) : Nat :=
  p.lruQueue.length % 2 ^ 32 * g.zoneCap % 2 ^ 64

omit [DecidableEq Tid] in
/-- The size does not wrap on a device that fits its addresses. -/
theorem znPolicyPromotionalGetCacheSize_eq {p : ZnPolicyPromotional} (hlen : p.lru.length ≤ g.nrZones)
    (hzones : g.nrZones < 2 ^ 32) (hsize : g.nrZones * g.zoneCap < 2 ^ 64) :
    znPolicyPromotionalGetCacheSize g p = p.lru.length * g.zoneCap := by
  have hfits : p.lru.length * g.zoneCap ≤ g.nrZones * g.zoneCap := Nat.mul_le_mul_right _ hlen
  unfold znPolicyPromotionalGetCacheSize
  rw [LinkQueue.length_eq]
  show p.lru.length % 2 ^ 32 * g.zoneCap % 2 ^ 64 = _
  rw [Nat.mod_eq_of_lt (Nat.lt_of_le_of_lt hlen hzones),
    Nat.mod_eq_of_lt (Nat.lt_of_le_of_lt hfits hsize)]

/-- **The cache is the committed chunks.** -/
structure CacheIsCommitted (g : Geometry) (c : CacheState ZnPolicyPromotional) : Prop where
  /-- A chunk is committed exactly if some id is mapped to it. -/
  mapped : ∀ z k, k < (c.zoneState.state z).filled g ↔ ∃ id, locOf c.cacheMap id = some (z, k)
  /-- The ids in the map, by place; what is reported leaves out the chunks of the
  open zones, and counts the rest of every full zone after its last chunk. -/
  sized : ∃ ids : List Nat, ids.Nodup ∧ (∀ k, k ∈ ids ↔ c.cacheMap.zoneMap k ≠ none)
    ∧ ids.map (locOf c.cacheMap) = (committedChunks g c.zoneState).map some
    ∧ znPolicyPromotionalGetCacheSize g c.policy
        + (c.zoneState.active.map fun z => (c.zoneState.state z).chunkOffset).sum * g.chunkSz
      = ids.length * g.chunkSz + c.policy.lru.length * (g.zoneCap % g.chunkSz)

/-- The two tables of the cache map, as a partial bijection. -/
def ChunksOk.pairs {zsm : ZoneStateManager} {loc : Nat → Option (Nat × Nat)}
    {data : Nat → Nat → Option Nat} {role : Tid → Role} (h : ChunksOk g zsm loc data role) :
    PEquiv Nat (Nat × Nat) where
  toFun := loc
  invFun p := data p.1 p.2
  inv id p := (h.inverse id p.1 p.2).symm

variable [Fintype Tid] {rb : Buffer}

/-- **WITH NO CALL IN PROGRESS WHAT IS COMMITTED IS CACHED**, and what is cached is
committed, in every run that publishes first. -/
theorem promotional_idle_cached (hpos : 1 ≤ g.maxZoneChunks) (hmax : g.maxZoneChunks < 2 ^ 32)
    (hzones : g.nrZones < 2 ^ 32) (hsize : g.nrZones * g.zoneCap < 2 ^ 64)
    {s : Sys ZnPolicyPromotional FgEvict Tid}
    (hr : (cacheSystem Tid promotional g rb).Reach
      (fun s l => l.SmallId ∧ l.ZoneOk g ∧ l.PublishedFirst s) s)
    (hidle : ∀ t, s.pool t = .idle) : CacheIsCommitted g s.cache := by
  have horderly := Orderly.of_reach hpos hmax (hr.mono fun _ _ hc => ⟨hc.1, hc.2.1⟩)
  have hlife : (lifeSystem Tid g rb).Reach (fun s l => l.ZoneOk g ∧ l.PublishedFirst s) s.life :=
    life_simulates (fun _ _ _ hc hz _ hp => ⟨hz hc.2.1, hp hc.2.2⟩) hr
  have hexact := cachedExact_reach hpos hmax hlife
  have hok := chunks_reach hmax (fun _ _ h => h.2) hlife
  have hout : ∀ t, s.life.role t = .out := by
    intro t
    rw [life_role, hidle t]
    rfl
  have hmapped : ∀ z k, k < (s.cache.zoneState.state z).filled g
      ↔ ∃ id, locOf s.cache.cacheMap id = some (z, k) := by
    intro z k
    constructor
    · intro hlt
      -- nobody is to publish, and nobody evicts
      rcases hexact.kept z k hlt with (hid | ⟨t, id, l, ht, -⟩) | ⟨t, ht⟩
      · exact hid
      · rw [hout t] at ht
        cases ht
      · rw [hout t] at ht
        cases ht
    · exact fun hid => hexact.below z k (Or.inl hid)
  have hused : ∀ p ∈ committedChunks g s.cache.zoneState, ∃ id, hok.pairs id = some p := by
    rintro ⟨z, k⟩ hp
    exact (hmapped z k).mp (mem_committedChunks.mp hp).2
  refine ⟨hmapped, leftEnds hok.pairs (committedChunks g s.cache.zoneState),
    nodup_leftEnds hused nodup_committedChunks, fun k => ?_, map_leftEnds hused, ?_⟩
  · rw [mem_leftEnds]
    constructor
    · rintro ⟨p, -, hk⟩ hnone
      obtain ⟨l, hl, -⟩ := locOf_eq_some.mp hk
      rw [hnone] at hl
      cases hl
    · intro hk
      obtain ⟨r, hr⟩ := Option.ne_none_iff_exists'.mp hk
      cases r with
      | cond i => exact absurd hr ((nothing_pending horderly.attended hidle).1 k i)
      | loc l =>
        have hloc : locOf s.cache.cacheMap k = some (l.zone, l.chunkOffset) :=
          locOf_eq_some.mpr ⟨l, hr, rfl⟩
        have hlt := (hmapped l.zone l.chunkOffset).mpr ⟨k, hloc⟩
        exact ⟨_, mem_committedChunks.mpr ⟨(horderly.zsm.chunk_in hlt).1, hlt⟩, hloc⟩
  · have hlru := horderly.lru_full_iff hidle
    have hlen : (leftEnds hok.pairs (committedChunks g s.cache.zoneState)).length
        = chunksFilled g s.cache.zoneState := by
      rw [← List.length_map hok.pairs, map_leftEnds hused, List.length_map, length_committedChunks]
    have hsum := chunksFilled_queued horderly.zsm (horderly.queued hidle) fun z hz => (hlru z).mp hz
    have hle : s.cache.policy.lru.length ≤ g.nrZones := by
      have hperm := (horderly.queued hidle).length_eq
      rw [List.length_append, List.length_range] at hperm
      omega
    -- a zone is its chunks, and a rest
    have hcap : g.maxZoneChunks * g.chunkSz + g.zoneCap % g.chunkSz = g.zoneCap := Nat.div_add_mod' ..
    have hfull : s.cache.policy.lru.length * g.zoneCap
        = s.cache.policy.lru.length * g.maxZoneChunks * g.chunkSz
          + s.cache.policy.lru.length * (g.zoneCap % g.chunkSz) := by
      rw [Nat.mul_assoc, ← Nat.mul_add, hcap]
    rw [znPolicyPromotionalGetCacheSize_eq hle hzones hsize, hlen, hsum, hfull, Nat.add_mul]
    omega

/-- Two zones of two chunks, and 808 bytes. -/
abbrev twoAndRest : Geometry := ⟨2, 1, 4096, 9000, 9000, .block⟩

/-- Thread `t` caches three ids, thread `u` evicts the zone of the first two, and
thread `t` caches two more. -/
def cacheAround {Tid : Type u} (t u : Tid) : List (SysLabel Tid) :=
  let cached (ids : List UInt32) : List (SysLabel Tid) :=
    ids.flatMap fun id => .get t id :: List.replicate 7 (.step t allWell) ++ [.ret t]
  cached [1, 2, 3] ++ .evictTask u :: List.replicate 6 (.step u allWell) ++ cached [4, 5]

/-- Three chunks are cached, two of them in the zone that is full: 9000 bytes are
reported, and 12288 are in use. -/
theorem promotional_idle_cached_around : ∃ s : Sys ZnPolicyPromotional FgEvict (Fin 2),
    s.cache.policy.lru = [1] ∧ s.cache.zoneState.active = [0]
      ∧ znPolicyPromotionalGetCacheSize twoAndRest s.cache.policy = 9000
      ∧ CacheIsCommitted twoAndRest s.cache := by
  obtain ⟨s, hr, hs⟩ := TransSys.Reach.exists_of_exec
    (T := cacheSystem (Fin 2) promotional twoAndRest fun _ => 0)
    (C := fun s l => l.SmallId ∧ l.ZoneOk twoAndRest ∧ l.PublishedFirst s)
    sysExec_ok ⟨fun _ => 0, rfl⟩
    (fun s => (s.cache.policy.lru = [1] ∧ s.cache.zoneState.active = [0]
      ∧ znPolicyPromotionalGetCacheSize twoAndRest s.cache.policy = 9000)
      ∧ ∀ t, (s.pool t).isIdle = true) (cacheAround 0 1) (by decide +kernel)
  obtain ⟨⟨hlru, hactive, hsize⟩, hidle⟩ := of_decide_eq_true hs
  exact ⟨s, hlru, hactive, hsize, promotional_idle_cached (by decide) (by decide) (by decide)
    (by decide) hr (idle_of_isIdle hidle)⟩

end ZnCache
