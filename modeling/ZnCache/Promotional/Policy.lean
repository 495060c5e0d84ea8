/-
  ZnCache.Promotional.Policy — `eviction/promotional.c`.

  A queue of full zones in recency order and a table from a zone to its link.
  Zone numbers are 32-bit, so they survive the trip through a pointer and are
  kept as they are.  Both functions run under `policy_mutex`.

  `LruOk` is `LinkQueue.Indexed` at this policy; the `_spec` lemmas say what
  the two functions do to the order of the queue.
-/
import ZnCache.Backend
import ZnCache.Lib.LinkQueue

namespace ZnCache

open Lib

/-- `struct zn_policy_promotional`, less the pointer to the cache.  A zone that
is absent from `zone_to_lru_map` and one that is mapped to NULL read the same. -/
structure ZnPolicyPromotional where
  lruQueue : LinkQueue Nat
  zoneToLruMap : Nat → Option Nat
  zoneMaxChunks : Nat

/-- `zn_evict_policy_init`, the case `ZN_EVICT_PROMOTE_ZONE`; the field is a
`uint32_t`. -/
def znPolicyPromotionalInit (g : Geometry) : ZnPolicyPromotional where
  lruQueue := LinkQueue.empty
  zoneToLruMap := fun _ => none
  zoneMaxChunks := g.maxZoneChunks % 2 ^ 32

/-- `zn_policy_promotional_update`. -/
def znPolicyPromotionalUpdate (policy : ZnPolicyPromotional) (location : ZnPair)
    (ioType : ZnIoType) : Except Fault ZnPolicyPromotional :=
  match ioType with
  | .write =>
    if location.chunkOffset = u32Sub policy.zoneMaxChunks 1 then
      let queue := policy.lruQueue.pushTail location.zone
      .ok { policy with
        lruQueue := queue
        zoneToLruMap := Function.update policy.zoneToLruMap location.zone queue.peekTailLink }
    else .ok policy
  | .read =>
    match policy.zoneToLruMap location.zone with
    -- not full yet, or evicted while it was read
    | none => .ok policy
    | some node =>
      match policy.lruQueue.linkData node with
      | none => .error .badPointer
      | some data =>
        let queue := (policy.lruQueue.deleteLink node).pushTail data
        .ok { policy with
          lruQueue := queue
          zoneToLruMap := Function.update policy.zoneToLruMap location.zone queue.peekTailLink }

/-- `zn_policy_promotional_get_zone_to_evict`: `none` is the answer -1. -/
def znPolicyPromotionalGetZoneToEvict (policy : ZnPolicyPromotional) :
    Option Nat × ZnPolicyPromotional :=
  match policy.lruQueue.popHead with
  | (none, _) => (none, policy)
  | (some zoneId, queue) =>
    (some zoneId, { policy with
      lruQueue := queue, zoneToLruMap := Function.update policy.zoneToLruMap zoneId none })

namespace ZnPolicyPromotional

/-- The full zones the policy knows, least recent first. -/
def lru (policy : ZnPolicyPromotional) : List Nat := policy.lruQueue.toList

/-- The table maps exactly the queued zones, each to its link. -/
def LruOk (policy : ZnPolicyPromotional) : Prop :=
  LinkQueue.Indexed policy.lruQueue policy.zoneToLruMap

theorem LruOk.nodup {policy : ZnPolicyPromotional} (h : policy.LruOk) : policy.lru.Nodup :=
  LinkQueue.Indexed.nodup_toList h

theorem init_ok (g : Geometry) : (znPolicyPromotionalInit g).LruOk := LinkQueue.indexed_empty

@[simp] theorem lru_init (g : Geometry) : (znPolicyPromotionalInit g).lru = [] := rfl

end ZnPolicyPromotional

open ZnPolicyPromotional

variable {policy policy' : ZnPolicyPromotional}

/-- **A write to the last chunk** queues the zone; any other write does nothing. -/
theorem znPolicyPromotionalUpdate_write (h : policy.LruOk) (location : ZnPair)
    (hnew : location.chunkOffset = u32Sub policy.zoneMaxChunks 1 → location.zone ∉ policy.lru) :
    ∃ policy', znPolicyPromotionalUpdate policy location .write = .ok policy'
      ∧ policy'.LruOk ∧ policy'.zoneMaxChunks = policy.zoneMaxChunks
      ∧ policy'.lru = if location.chunkOffset = u32Sub policy.zoneMaxChunks 1
          then policy.lru ++ [location.zone] else policy.lru := by
  unfold znPolicyPromotionalUpdate
  by_cases hlast : location.chunkOffset = u32Sub policy.zoneMaxChunks 1
  · simp only [if_pos hlast]
    refine ⟨_, rfl, ?_, rfl, LinkQueue.toList_pushTail ..⟩
    show LinkQueue.Indexed _ (Function.update _ _ (LinkQueue.peekTailLink _))
    rw [LinkQueue.peekTailLink_pushTail]
    exact LinkQueue.Indexed.push h (hnew hlast)
  · simp only [if_neg hlast]
    exact ⟨policy, rfl, h, rfl, rfl⟩

/-- **A read** moves the zone to the tail if it is queued, else does nothing. -/
theorem znPolicyPromotionalUpdate_read (h : policy.LruOk) (location : ZnPair) :
    ∃ policy', znPolicyPromotionalUpdate policy location .read = .ok policy'
      ∧ policy'.LruOk ∧ policy'.zoneMaxChunks = policy.zoneMaxChunks
      ∧ policy'.lru = if location.zone ∈ policy.lru
          then policy.lru.erase location.zone ++ [location.zone] else policy.lru := by
  unfold znPolicyPromotionalUpdate
  cases hnode : policy.zoneToLruMap location.zone with
  | none =>
    have hnot := (LinkQueue.Indexed.eq_none_iff h location.zone).mp hnode
    exact ⟨policy, rfl, h, rfl, (if_neg hnot).symm⟩
  | some node =>
    have hin : location.zone ∈ policy.lru :=
      (LinkQueue.Indexed.isSome_iff h location.zone).mp (by rw [hnode]; rfl)
    have hdata := LinkQueue.linkData_eq_some ((h location.zone node).mp hnode)
    simp only [hdata]
    refine ⟨_, rfl, ?_, rfl, ?_⟩
    · show LinkQueue.Indexed _ (Function.update _ _ (LinkQueue.peekTailLink _))
      rw [LinkQueue.peekTailLink_pushTail]
      exact LinkQueue.Indexed.touch h hnode
    · rw [if_pos hin]
      exact LinkQueue.Indexed.toList_touch h hnode

/-- **Eviction** takes the least recent zone, or answers -1 on an empty queue. -/
theorem znPolicyPromotionalGetZoneToEvict_spec (h : policy.LruOk) :
    (policy.lru = [] ∧ znPolicyPromotionalGetZoneToEvict policy = (none, policy))
    ∨ ∃ z rest policy', policy.lru = z :: rest
        ∧ znPolicyPromotionalGetZoneToEvict policy = (some z, policy')
        ∧ policy'.LruOk ∧ policy'.lru = rest ∧ policy'.zoneMaxChunks = policy.zoneMaxChunks := by
  unfold znPolicyPromotionalGetZoneToEvict
  cases hl : policy.lru with
  | nil =>
    refine Or.inl ⟨rfl, ?_⟩
    have hlinks : policy.lruQueue.links = [] := List.map_eq_nil_iff.mp hl
    simp [LinkQueue.popHead, hlinks]
  | cons z rest =>
    obtain ⟨hidx, htail, hpop⟩ := LinkQueue.Indexed.pop h hl
    have heq : policy.lruQueue.popHead = (some z, policy.lruQueue.dropHead) := Prod.ext hpop rfl
    refine Or.inr ⟨z, rest, { policy with
      lruQueue := policy.lruQueue.dropHead
      zoneToLruMap := Function.update policy.zoneToLruMap z none }, rfl, ?_, hidx, htail, rfl⟩
    rw [heq]

end ZnCache
