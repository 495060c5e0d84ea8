/-
  ZnCache.Sequential.Settled — the cache between the steps of one caller.

  With one caller the five structures of the cache say the same thing five
  times: the zone states and their two queues, the LRU queue, the two maps and
  the bytes of the device.  `Settled` is that agreement, and `view` reads the
  cache of zones (`ZoneLru`) off it.  It holds between calls, and within a call
  except while a chunk is on its way from `zsm_get_active_zone` to
  `zn_cachemap_insert`; `pend` is the entry being written.

  Main results, one for each thing a call does: `Settled.touch`, `.claim`,
  `.evict`, and `Appends.settled` with `Appends.view_eq`.
-/
import ZnCache.Promotional.Places
import ZnCache.Lib.Listed
import ZnCache.Sequential.Reference

namespace ZnCache

open Lib

/-! ## §1. The invariant and the view. -/

/-- The ids `data_map` has in a zone. -/
def dataAt (m : ZnCachemap) (z c : Nat) : Option Nat := (m.dataMap z).lookup c

/-- How many chunks of a zone are cached. -/
def filling (g : Geometry) (zsm : ZoneStateManager) (z : Nat) : Nat :=
  if (zsm.state z).state = .full then g.maxZoneChunks else (zsm.state z).chunkOffset

/-- The ids of a zone, in the order of its chunks. -/
def zoneIds (g : Geometry) (m : ZnCachemap) (z : Nat) : List Nat :=
  listed (dataAt m z) g.maxZoneChunks

/-- The cache of zones that a state stands for. -/
def view (g : Geometry) (s : CacheState ZnPolicyPromotional) : ZoneLru Nat where
  full := s.policy.lru.map (zoneIds g s.cacheMap)
  current := s.zoneState.active.head?.map (zoneIds g s.cacheMap)
  free := s.zoneState.free.length

/-- **The five structures agree**; `pend` is the id being written, with its
condition. -/
structure Settled (g : Geometry) (rb : Buffer) (pend : Option (Nat × Nat))
    (s : CacheState ZnPolicyPromotional) : Prop where
  zsm : ZsmInv g s.zoneState
  no_writer : s.zoneState.writesOccurring = 0
  one_open : s.zoneState.active.length ≤ 1
  lru_ok : s.policy.LruOk
  max_eq : s.policy.zoneMaxChunks = g.maxZoneChunks % 2 ^ 32
  mem_lru : ∀ z, z ∈ s.policy.lru ↔ (s.zoneState.state z).state = .full
  inverse : ∃ e, Represents s.cacheMap e
  zones : s.cacheMap.numZones = g.nrZones
  pending : ∀ k c, s.cacheMap.zoneMap k = some (.cond c) ↔ pend = some (k, c)
  cond_held : ∀ k c, pend = some (k, c) → (s.cacheMap.conds c).rc ≠ 0
  readers : ∀ z, s.cacheMap.activeReaders z = 0
  filled : ∀ z, FilledTo (dataAt s.cacheMap z) (filling g s.zoneState z)
  stored : ∀ z c id, dataAt s.cacheMap z c = some id → s.device.written z c = some id
  holds : s.device.Holds g rb

/-- The cache with its least recent zone `z` cleared and reset, and the policy
told. -/
def zoneEvicted (s : CacheState ZnPolicyPromotional) (z : Nat) (p : ZnPolicyPromotional) :
    CacheState ZnPolicyPromotional :=
  { s with
    policy := p
    cacheMap := zoneCleared s.cacheMap z
    zoneState := evicted s.zoneState z
    device := s.device.forget z }

variable {g : Geometry} {rb : Buffer} {pend : Option (Nat × Nat)}
  {s : CacheState ZnPolicyPromotional}

namespace Settled

/-! ## §2. What it says. -/

/-- No zone is handed out. -/
theorem not_writing (h : Settled g rb pend s) (z : Nat) :
    (s.zoneState.state z).state ≠ .writeOccuring := by
  intro hz
  have hlt : z < g.nrZones := h.zsm.lt_of_state (by simp [hz])
  have hzero : zonesIn g s.zoneState .writeOccuring = 0 := by
    have hw := h.zsm.writes
    rw [h.no_writer] at hw
    omega
  exact (ThreadPool.countOn_eq_zero_iff _ _).mp hzero z (Finset.mem_range.mpr hlt) hz

theorem filling_le (h : Settled g rb pend s) (z : Nat) :
    filling g s.zoneState z ≤ g.maxZoneChunks := by
  unfold filling
  split
  · exact Nat.le_refl _
  · rename_i hfull
    cases hst : (s.zoneState.state z).state with
    | full => exact absurd hst hfull
    | writeOccuring => exact absurd hst (h.not_writing z)
    | free => rw [h.zsm.free_offset z hst]; exact Nat.zero_le _
    | active => exact Nat.le_of_lt (h.zsm.open_offset z (Or.inl hst)).1

/-- An id is mapped where its zone lists it. -/
theorem mem_zoneIds (h : Settled g rb pend s) {id z : Nat} :
    id ∈ zoneIds g s.cacheMap z ↔ ∃ l, s.cacheMap.zoneMap id = some (.loc l) ∧ l.zone = z := by
  obtain ⟨e, he⟩ := h.inverse
  rw [zoneIds, mem_listed]
  constructor
  · intro hex
    obtain ⟨c, -, hc⟩ := hex
    have hloc : e id = some (z, c) := e.eq_some_iff.mp ((he.bwd z c).symm.trans hc)
    obtain ⟨l, hl, hz, -⟩ := he.to_loc hloc
    exact ⟨l, hl, hz⟩
  · intro hex
    obtain ⟨l, hl, rfl⟩ := hex
    have hc : dataAt s.cacheMap l.zone l.chunkOffset = some id :=
      (he.bwd _ _).trans (e.eq_some_iff.mpr (he.of_loc hl))
    have hlt := (h.filled l.zone l.chunkOffset).mp (by rw [hc]; rfl)
    exact ⟨_, Nat.lt_of_lt_of_le hlt (h.filling_le l.zone), hc⟩

/-- The zone of an entry is full or open. -/
theorem queued_of_mapped (h : Settled g rb pend s) {id : Nat} {l : ZnPair}
    (hl : s.cacheMap.zoneMap id = some (.loc l)) :
    l.zone ∈ s.policy.lru ∨ l.zone ∈ s.zoneState.active := by
  obtain ⟨e, he⟩ := h.inverse
  have hc : dataAt s.cacheMap l.zone l.chunkOffset = some id :=
    (he.bwd _ _).trans (e.eq_some_iff.mpr (he.of_loc hl))
  have hlt := (h.filled l.zone l.chunkOffset).mp (by rw [hc]; rfl)
  cases hst : (s.zoneState.state l.zone).state with
  | full => exact Or.inl ((h.mem_lru _).mpr hst)
  | writeOccuring => exact absurd hst (h.not_writing _)
  | active =>
    exact Or.inr ((h.zsm.mem_active _).mpr ⟨h.zsm.lt_of_state (by simp [hst]), hst⟩)
  | free =>
    rw [filling, if_neg (by simp [hst]), h.zsm.free_offset _ hst] at hlt
    omega

/-- **What the view holds** is what is mapped. -/
theorem view_holds (h : Settled g rb pend s) (id : Nat) :
    (view g s).Holds id ↔ ∃ l, s.cacheMap.zoneMap id = some (.loc l) := by
  constructor
  · intro hh
    rcases hh with ⟨zone, hzone, hid⟩ | ⟨zone, hzone, hid⟩
    · obtain ⟨z, -, rfl⟩ := List.mem_map.mp hzone
      obtain ⟨l, hl, -⟩ := h.mem_zoneIds.mp hid
      exact ⟨l, hl⟩
    · obtain ⟨z, -, rfl⟩ := Option.mem_map.mp hzone
      obtain ⟨l, hl, -⟩ := h.mem_zoneIds.mp hid
      exact ⟨l, hl⟩
  · intro hex
    obtain ⟨l, hl⟩ := hex
    have hid := h.mem_zoneIds.mpr ⟨l, hl, rfl⟩
    rcases h.queued_of_mapped hl with hz | hz
    · exact Or.inl ⟨_, List.mem_map_of_mem hz, hid⟩
    · -- the open zone is the head of the active queue
      have hone := h.one_open
      refine Or.inr ⟨_, Option.mem_map.mpr ⟨l.zone, ?_, rfl⟩, hid⟩
      match hact : s.zoneState.active with
      | [] => rw [hact] at hz; cases hz
      | [z] =>
        rw [hact, List.mem_singleton] at hz
        rw [hz]
        rfl
      | _ :: _ :: _ =>
        rw [hact] at hone
        simp at hone

/-! ## §3. A hit. -/

/-- **A read** touches the policy and nothing else. -/
theorem touch (h : Settled g rb pend s) {l : ZnPair} {id : Nat}
    (hl : s.cacheMap.zoneMap id = some (.loc l)) (hits : Nat) :
    ∃ p, znPolicyPromotionalUpdate s.policy l .read = .ok p
      ∧ Settled g rb pend { s with policy := p, hits := hits }
      ∧ view g { s with policy := p, hits := hits } = (view g s).touch id := by
  obtain ⟨p, hp, hok, hmax, hlru⟩ := znPolicyPromotionalUpdate_read h.lru_ok l
  have hmem : ∀ z, z ∈ p.lru ↔ z ∈ s.policy.lru := by
    intro z
    rw [hlru]
    split
    · rename_i hin
      rw [((List.perm_append_singleton _ _).trans (List.perm_cons_erase hin).symm).mem_iff]
    · rfl
  refine ⟨p, hp, ?_, ?_⟩
  · exact { h with
      lru_ok := hok
      max_eq := hmax.trans h.max_eq
      mem_lru := fun z => (hmem z).trans (h.mem_lru z) }
  · have hunique : ∀ z ∈ s.policy.lru, id ∈ zoneIds g s.cacheMap z ↔ z = l.zone := by
      intro z _
      rw [h.mem_zoneIds]
      constructor
      · intro hex
        obtain ⟨l', hl', hz⟩ := hex
        rw [hl] at hl'
        cases hl'
        exact hz.symm
      · intro hz
        exact ⟨l, hl, hz.symm⟩
    rw [view, view, ZoneLru.touch_map h.lru_ok.nodup hunique, ← hlru]

/-! ## §4. A miss claims its entry. -/

/-- **A find** that sees no entry makes one. -/
theorem claim (h : Settled g rb none s) {id : Nat} (hid : id < 2 ^ 31)
    (hnone : s.cacheMap.zoneMap id = none) :
    znCachemapFind s.cacheMap id = .ok (.write s.cacheMap.nextCond, claimed s.cacheMap id)
      ∧ Settled g rb (some (id, s.cacheMap.nextCond)) { s with cacheMap := claimed s.cacheMap id } := by
  have hptr : gintToPointer id = id := ptr_eq hid
  obtain ⟨e, he⟩ := h.inverse
  refine ⟨?_, ?_⟩
  · unfold znCachemapFind
    simp only [hptr, hnone]
    unfold claimed
    rw [hptr]
  · have hpending : ∀ k c, (claimed s.cacheMap id).zoneMap k = some (.cond c)
        ↔ some (id, s.cacheMap.nextCond) = some (k, c) := by
      intro k c
      show Function.update s.cacheMap.zoneMap (gintToPointer id) _ k = _ ↔ _
      rw [hptr]
      by_cases hk : k = id
      · subst hk
        rw [Function.update_self]
        simp
      · rw [Function.update_of_ne hk]
        have hno : s.cacheMap.zoneMap k ≠ some (.cond c) := fun hc => by
          cases (h.pending k c).mp hc
        simp [hno, Ne.symm hk]
    exact { h with
      inverse := ⟨e, he.find (.write (by rw [hptr]; exact hnone))⟩
      zones := h.zones
      pending := hpending
      cond_held := fun k c hk => by
        cases hk
        show (Function.update s.cacheMap.conds _ _ _).rc ≠ 0
        rw [Function.update_self]
        decide
      readers := h.readers
      filled := h.filled
      stored := h.stored }

/-! ## §5. A zone is evicted. -/

theorem dataAt_zoneCleared (m : ZnCachemap) (z y : Nat) :
    dataAt (zoneCleared m z) y = if y = z then fun _ => none else dataAt m y := by
  funext c
  by_cases hy : y = z
  · subst hy
    simp [dataAt, zoneCleared]
  · simp [dataAt, zoneCleared, hy]

/-- Clearing a zone leaves the conditions. -/
theorem zoneCleared_cond (m : ZnCachemap) (z k c : Nat) :
    (zoneCleared m z).zoneMap k = some (.cond c) ↔ m.zoneMap k = some (.cond c) := by
  show (if _ then none else m.zoneMap k) = _ ↔ _
  cases hk : m.zoneMap k with
  | none => simp
  | some r =>
    cases r with
    | loc l => simp
    | cond c' =>
      have hno : locOf m k = none := locOf_eq_none fun l => by simp [hk]
      simp [hno]

theorem state_evicted (zs : ZoneStateManager) (z y : Nat) : (evicted zs z).state y
    = if y = z then { zs.state z with state := .free, chunkOffset := 0 } else zs.state y := by
  show Function.update zs.state z _ y = _
  by_cases hy : y = z
  · subst hy
    rw [Function.update_self, if_pos rfl]
  · rw [Function.update_of_ne hy, if_neg hy]

section Evict

variable {z : Nat} {rest : List Nat} {p : ZnPolicyPromotional}

/-- The head of the queue is a full zone, and there once. -/
theorem head_full (h : Settled g rb pend s) (hl : s.policy.lru = z :: rest) :
    (s.zoneState.state z).state = .full ∧ z ∉ rest := by
  have hin : z ∈ s.policy.lru := by rw [hl]; exact List.mem_cons_self ..
  have hnd := h.lru_ok.nodup
  change s.policy.lru.Nodup at hnd
  rw [hl, List.nodup_cons] at hnd
  exact ⟨(h.mem_lru z).mp hin, hnd.1⟩

theorem evict_settled (h : Settled g rb pend s) (hl : s.policy.lru = z :: rest) (hok : p.LruOk)
    (hmax : p.zoneMaxChunks = s.policy.zoneMaxChunks) (hlru : p.lru = rest) :
    Settled g rb pend (zoneEvicted s z p) := by
  obtain ⟨hfull, hout⟩ := h.head_full hl
  obtain ⟨e, he⟩ := h.inverse
  -- the zone is one of the array, so it can be cleared
  have hz : z < s.cacheMap.numZones := by
    rw [h.zones]
    exact h.zsm.lt_of_state (by simp [hfull])
  constructor
  case zsm => exact evicted_inv h.zsm hfull
  case no_writer => exact h.no_writer
  case one_open => exact h.one_open
  case lru_ok => exact hok
  case max_eq => exact hmax.trans h.max_eq
  case mem_lru =>
    intro y
    show y ∈ p.lru ↔ ((evicted s.zoneState z).state y).state = .full
    rw [hlru, state_evicted]
    by_cases hy : y = z
    · subst hy
      simp [hout]
    · rw [if_neg hy, ← h.mem_lru y, hl]
      simp [hy]
  case inverse => exact ⟨_, (he.clearZone hz (List.Perm.refl _)).2⟩
  case zones => exact h.zones
  case pending => exact fun k c => (zoneCleared_cond ..).trans (h.pending k c)
  case cond_held => exact h.cond_held
  case readers => exact h.readers
  case filled =>
    -- the evicted zone stands at chunk 0 and has none
    intro y
    show FilledTo (dataAt (zoneCleared s.cacheMap z) y) (filling g (evicted s.zoneState z) y)
    rw [dataAt_zoneCleared, filling, state_evicted]
    by_cases hy : y = z
    · rw [if_pos hy, if_pos hy, if_neg (by simp)]
      intro c
      simp
    · rw [if_neg hy, if_neg hy]
      exact h.filled y
  case stored =>
    intro y c id hc
    replace hc : dataAt (zoneCleared s.cacheMap z) y c = some id := hc
    rw [dataAt_zoneCleared] at hc
    by_cases hy : y = z
    · rw [if_pos hy] at hc
      cases hc
    · rw [if_neg hy] at hc
      show Function.update s.device.written z _ y c = some id
      rw [Function.update_of_ne hy]
      exact h.stored y c id hc
  case holds => exact h.holds.forget z

/-- No zone but the evicted one loses an id. -/
theorem evict_view (h : Settled g rb pend s) (hl : s.policy.lru = z :: rest) (hlru : p.lru = rest) :
    view g (zoneEvicted s z p) = (view g s).evict 1 := by
  obtain ⟨hfull, hout⟩ := h.head_full hl
  have hids : ∀ y, y ≠ z → zoneIds g (zoneCleared s.cacheMap z) y = zoneIds g s.cacheMap y := by
    intro y hy
    rw [zoneIds, dataAt_zoneCleared, if_neg hy]
    rfl
  have hactive : z ∉ s.zoneState.active := by simp [h.zsm.mem_active, hfull]
  unfold view ZoneLru.evict
  congr 1
  · show p.lru.map (zoneIds g (zoneCleared s.cacheMap z)) = _
    rw [hlru, hl, List.map_cons, List.drop_one, List.tail_cons]
    refine List.map_congr_left fun y hy => hids y ?_
    intro hyz
    exact hout (hyz ▸ hy)
  · show s.zoneState.active.head?.map _ = _
    refine Option.map_congr fun y hy => hids y ?_
    intro hyz
    exact hactive (hyz ▸ List.mem_of_mem_head? hy)
  · show (s.zoneState.free ++ [z]).length = _
    rw [List.length_append]
    rfl

/-- **The least recent zone** is cleared and reset. -/
theorem evict (h : Settled g rb pend s) (hl : s.policy.lru = z :: rest) (hok : p.LruOk)
    (hmax : p.zoneMaxChunks = s.policy.zoneMaxChunks) (hlru : p.lru = rest) :
    Settled g rb pend (zoneEvicted s z p) ∧ view g (zoneEvicted s z p) = (view g s).evict 1 :=
  ⟨h.evict_settled hl hok hmax hlru, h.evict_view hl hlru⟩

end Evict

end Settled

/-! ## §6. A chunk is appended. -/

/-- The zone states while zone `z` is handed out. -/
def handedOut (zs : ZoneStateManager) (z : Nat) (free : List Nat) : ZoneStateManager :=
  { zs.setZone z (writingZone zs z) with active := [], free := free, writesOccurring := 1 }

/-- **Zone `z` can be handed out**: it is the open zone, or a free one that
becomes so. -/
structure Opens (g : Geometry) (s : CacheState ZnPolicyPromotional) (z : Nat) (free : List Nat) :
    Prop where
  not_full : (s.zoneState.state z).state ≠ .full
  inv : ZsmInv g (handedOut s.zoneState z free)
  view_eq : ∀ k, (view g s).openZone k
    = { full := (view g s).full, current := some (zoneIds g s.cacheMap z), free := free.length }

namespace Settled

/-- **A zone is handed out** unless there is none. -/
theorem opens (h : Settled g rb pend s) (hpos : 1 ≤ g.maxZoneChunks) (hact : 1 ≤ g.maxNrActiveZones)
    {ret : Int} (hret : DeviceOk g ret) (hroom : s.zoneState.active ≠ [] ∨ s.zoneState.free ≠ []) :
    ∃ z free, zsmGetActiveZone g ret s.zoneState
        = .ok (.success (locationOf s.zoneState z), handedOut s.zoneState z free)
      ∧ Opens g s z free := by
  obtain ⟨r, zs, hr, hcase⟩ := zsmGetActiveZone_spec h.zsm hret
  have hinv := hcase.inv hpos h.zsm
  have hw := h.no_writer
  cases hcase with
  | evict ha hf =>
    rcases hroom with hne | hne
    · exact absurd ha hne
    · exact absurd hf hne
  | retry ha hbusy hany =>
    rcases hbusy with hf | hbusy
    · exact absurd ⟨hf, hw⟩ hany
    · omega
  | @reuse z rest ha hst =>
    have hone := h.one_open
    rw [ha, List.length_cons] at hone
    obtain rfl : rest = [] := List.eq_nil_of_length_eq_zero (by omega)
    have hzs : { s.zoneState.setZone z (writingZone s.zoneState z) with
        active := [], writesOccurring := s.zoneState.writesOccurring + 1 }
        = handedOut s.zoneState z s.zoneState.free := by
      rw [hw]
      rfl
    rw [hzs] at hr hinv
    refine ⟨z, _, hr, by simp [hst], hinv, fun k => ?_⟩
    simp [ZoneLru.openZone, view, ha]
  | @opened z rest ha hf hst hroom' =>
    have hzs : { s.zoneState.setZone z (writingZone s.zoneState z) with
        free := rest, writesOccurring := s.zoneState.writesOccurring + 1 }
        = handedOut s.zoneState z rest := by
      rw [hw]
      simp [handedOut, ZoneStateManager.setZone, ha]
    rw [hzs] at hr hinv
    -- nothing is in a free zone
    have hnil : zoneIds g s.cacheMap z = [] := by
      have hfill := h.filled z
      rw [filling, if_neg (by simp [hst]), h.zsm.free_offset z hst] at hfill
      rw [zoneIds, listed_of_filledTo hfill (Nat.zero_le _)]
      rfl
    refine ⟨z, _, hr, by simp [hst], hinv, fun k => ?_⟩
    simp [ZoneLru.openZone, view, ha, hf, hnil]

end Settled

/-- The zone states after the chunk is given back. -/
theorem committed_handedOut {zs : ZoneStateManager} {z : Nat} {free : List Nat}
    (hmax : g.maxZoneChunks < 2 ^ 32) (hlt : (zs.state z).chunkOffset < g.maxZoneChunks) :
    committed g (handedOut zs z free) (locationOf zs z)
      = { active := if (zs.state z).chunkOffset + 1 = g.maxZoneChunks then [] else [z]
          free := free
          writesOccurring := 0
          state := Function.update zs.state z { zs.state z with
            state := if (zs.state z).chunkOffset + 1 = g.maxZoneChunks then .full else .active
            chunkOffset := if (zs.state z).chunkOffset + 1 = g.maxZoneChunks then 0
              else (zs.state z).chunkOffset + 1 } } := by
  have hmod : ((zs.state z).chunkOffset + 1) % 2 ^ 32 = (zs.state z).chunkOffset + 1 :=
    Nat.mod_eq_of_lt (by omega)
  unfold committed locationOf
  dsimp only
  rw [hmod]
  split
  · simp [handedOut, ZoneStateManager.setZone, closedZone, writingZone]
  · simp [handedOut, ZoneStateManager.setZone, reopenedZone, writingZone]

theorem dataAt_published {m : ZnCachemap} {id c : Nat} {l : ZnPair} (hid : id < 2 ^ 31)
    (hl : l.chunkOffset < 2 ^ 32) (y : Nat) :
    dataAt (published m id l c) y = if y = l.zone
      then Function.update (dataAt m y) l.chunkOffset (some id) else dataAt m y := by
  funext x
  unfold dataAt
  rw [lookup_published (by omega) (by omega)]
  by_cases hy : y = l.zone
  · rw [if_pos hy]
    by_cases hx : x = l.chunkOffset
    · rw [if_pos ⟨hy, hx⟩, hx, Function.update_self]
    · rw [if_neg fun h => hx h.2, Function.update_of_ne hx]
  · rw [if_neg hy, if_neg fun h => hy h.1]

/-- **A chunk is appended** to zone `z`, which was handed out: `s'` is the cache
after the transfer, the commit, the report and the insert. -/
structure Appends (g : Geometry) (rb : Buffer) (s : CacheState ZnPolicyPromotional) (id c z : Nat)
    (free : List Nat) (s' : CacheState ZnPolicyPromotional) : Prop where
  opens : Opens g s z free
  lru_ok : s'.policy.LruOk
  max_eq : s'.policy.zoneMaxChunks = s.policy.zoneMaxChunks
  lru_eq : s'.policy.lru = if (s.zoneState.state z).chunkOffset + 1 = g.maxZoneChunks
    then s.policy.lru ++ [z] else s.policy.lru
  holds : s'.device.Holds g rb
  written_eq : s'.device.written
    = (s.device.record s.device.bytes z (s.zoneState.state z).chunkOffset (some id)).written
  map_eq : s'.cacheMap = published s.cacheMap id (locationOf s.zoneState z) c
  zsm_eq : s'.zoneState = committed g (handedOut s.zoneState z free) (locationOf s.zoneState z)

namespace Appends

variable {id c z : Nat} {free : List Nat} {s' : CacheState ZnPolicyPromotional}

theorem handed_offset : ((handedOut s.zoneState z free).state z).chunkOffset
    = (s.zoneState.state z).chunkOffset := by simp [handedOut, writingZone]

theorem room (ha : Appends g rb s id c z free s') :
    (s.zoneState.state z).chunkOffset < g.maxZoneChunks
      ∧ (s.zoneState.state z).chunkOffset < 2 ^ 32 := by
  have hroom := ha.opens.inv.open_offset z (Or.inr (by simp [handedOut, writingZone]))
  rwa [handed_offset] at hroom

theorem not_queued (ha : Appends g rb s id c z free s') (h : Settled g rb pend s) :
    z ∉ s.policy.lru := fun hin => ha.opens.not_full ((h.mem_lru z).mp hin)

/-- The zone is filled up to the chunk that is written now. -/
theorem filled_to (ha : Appends g rb s id c z free s') (h : Settled g rb pend s) :
    FilledTo (dataAt s.cacheMap z) (s.zoneState.state z).chunkOffset := by
  have hz := h.filled z
  rwa [filling, if_neg ha.opens.not_full] at hz

theorem state_self (ha : Appends g rb s id c z free s') (hmax : g.maxZoneChunks < 2 ^ 32) :
    s'.zoneState.state z = { s.zoneState.state z with
      state := if (s.zoneState.state z).chunkOffset + 1 = g.maxZoneChunks then .full else .active
      chunkOffset := if (s.zoneState.state z).chunkOffset + 1 = g.maxZoneChunks then 0
        else (s.zoneState.state z).chunkOffset + 1 } := by
  rw [ha.zsm_eq, committed_handedOut hmax ha.room.1]
  exact Function.update_self ..

theorem state_ne (ha : Appends g rb s id c z free s') (hmax : g.maxZoneChunks < 2 ^ 32) {y : Nat}
    (hy : y ≠ z) : s'.zoneState.state y = s.zoneState.state y := by
  rw [ha.zsm_eq, committed_handedOut hmax ha.room.1]
  exact Function.update_of_ne hy _ _

theorem dataAt_eq (ha : Appends g rb s id c z free s') (hid : id < 2 ^ 31) (y : Nat) :
    dataAt s'.cacheMap y = if y = z
      then Function.update (dataAt s.cacheMap y) (s.zoneState.state z).chunkOffset (some id)
      else dataAt s.cacheMap y := by
  rw [ha.map_eq]
  exact dataAt_published hid ha.room.2 y

theorem mem_lru (ha : Appends g rb s id c z free s') (h : Settled g rb pend s)
    (hmax : g.maxZoneChunks < 2 ^ 32) (y : Nat) :
    y ∈ s'.policy.lru ↔ (s'.zoneState.state y).state = .full := by
  have hnot := ha.not_queued h
  rw [ha.lru_eq]
  by_cases hy : y = z
  · subst hy
    rw [ha.state_self hmax]
    split <;> simp [hnot]
  · rw [ha.state_ne hmax hy, ← h.mem_lru y]
    split <;> simp [hy]

theorem inverse (ha : Appends g rb s id c z free s') (h : Settled g rb (some (id, c)) s)
    (hid : id < 2 ^ 31) : ∃ e, Represents s'.cacheMap e := by
  obtain ⟨e, he⟩ := h.inverse
  have hzlt : z < g.nrZones := ha.opens.inv.lt_of_state (by simp [handedOut, writingZone])
  have hnone : e id = none := by
    refine he.of_not_loc fun l hl => ?_
    have hc := (h.pending id c).mpr rfl
    rw [hl] at hc
    cases hc
  have hfresh : e.symm (z, (s.zoneState.state z).chunkOffset) = none := by
    rw [← he.bwd, ← Option.not_isSome_iff_eq_none]
    exact fun hsome => Nat.lt_irrefl _ ((ha.filled_to h _).mp hsome)
  rw [ha.map_eq]
  exact ⟨_, he.insert hid (h.zones ▸ hzlt) ha.room.2 hnone hfresh⟩

/-- The condition is gone, and was the only one. -/
theorem none_pending (ha : Appends g rb s id c z free s') (h : Settled g rb (some (id, c)) s)
    (hid : id < 2 ^ 31) (k c' : Nat) : s'.cacheMap.zoneMap k ≠ some (.cond c') := by
  rw [ha.map_eq]
  show Function.update s.cacheMap.zoneMap (guintToPointer id) _ k ≠ _
  rw [guintToPointer_eq (by omega)]
  by_cases hk : k = id
  · rw [hk, Function.update_self]
    simp
  · rw [Function.update_of_ne hk]
    intro hc
    cases (h.pending k c').mp hc
    exact hk rfl

theorem filled (ha : Appends g rb s id c z free s') (h : Settled g rb pend s) (hid : id < 2 ^ 31)
    (hmax : g.maxZoneChunks < 2 ^ 32) (y : Nat) :
    FilledTo (dataAt s'.cacheMap y) (filling g s'.zoneState y) := by
  rw [ha.dataAt_eq hid]
  by_cases hy : y = z
  · subst hy
    have hfilling : filling g s'.zoneState y = (s.zoneState.state y).chunkOffset + 1 := by
      unfold filling
      rw [ha.state_self hmax]
      by_cases hlast : (s.zoneState.state y).chunkOffset + 1 = g.maxZoneChunks
      · simp [hlast]
      · simp [hlast]
    rw [hfilling, if_pos rfl]
    exact ((ha.filled_to h).listed_update ha.room.1 id).1
  · rw [if_neg hy, filling, ha.state_ne hmax hy]
    exact h.filled y

theorem stored (ha : Appends g rb s id c z free s') (h : Settled g rb pend s) (hid : id < 2 ^ 31)
    (y x id' : Nat) (hx : dataAt s'.cacheMap y x = some id') : s'.device.written y x = some id' := by
  rw [ha.dataAt_eq hid] at hx
  rw [ha.written_eq]
  show Function.update s.device.written z _ y x = _
  by_cases hy : y = z
  · subst hy
    rw [if_pos rfl] at hx
    rw [Function.update_self]
    by_cases hxo : x = (s.zoneState.state y).chunkOffset
    · rw [hxo, Function.update_self] at hx ⊢
      exact hx
    · rw [Function.update_of_ne hxo] at hx ⊢
      exact h.stored y x id' hx
  · rw [if_neg hy] at hx
    rw [Function.update_of_ne hy]
    exact h.stored y x id' hx

/-- The structures agree again, with nothing being written. -/
theorem settled (ha : Appends g rb s id c z free s') (h : Settled g rb (some (id, c)) s)
    (hid : id < 2 ^ 31) (hmax : g.maxZoneChunks < 2 ^ 32) : Settled g rb none s' := by
  have hcommit := @committed_handedOut g s.zoneState z free hmax ha.room.1
  constructor
  case zsm =>
    rw [ha.zsm_eq]
    exact committed_inv ha.opens.inv (by simp [handedOut, writingZone, locationOf]) handed_offset
  case no_writer => rw [ha.zsm_eq, hcommit]
  case one_open =>
    rw [ha.zsm_eq, hcommit]
    dsimp only
    split <;> simp
  case lru_ok => exact ha.lru_ok
  case max_eq => exact ha.max_eq.trans h.max_eq
  case mem_lru => exact ha.mem_lru h hmax
  case inverse => exact ha.inverse h hid
  case zones => rw [ha.map_eq]; exact h.zones
  case pending => exact fun k c' => iff_of_false (ha.none_pending h hid k c') (by simp)
  case cond_held => exact fun k c' hk => by cases hk
  case readers => rw [ha.map_eq]; exact h.readers
  case filled => exact ha.filled h hid hmax
  case stored => exact ha.stored h hid
  case holds => exact ha.holds

/-- **The zone gains the id**; no other zone changes. -/
theorem view_eq (ha : Appends g rb s id c z free s') (h : Settled g rb pend s) (hid : id < 2 ^ 31)
    (hmax : g.maxZoneChunks < 2 ^ 32) (k : Nat) :
    view g s' = ((view g s).openZone k).append g.maxZoneChunks id := by
  have hfill := ha.filled_to h
  have hzone : zoneIds g s'.cacheMap z = zoneIds g s.cacheMap z ++ [id] := by
    rw [zoneIds, ha.dataAt_eq hid, if_pos rfl]
    exact (hfill.listed_update ha.room.1 id).2
  have hother : s.policy.lru.map (zoneIds g s'.cacheMap) = s.policy.lru.map (zoneIds g s.cacheMap) := by
    refine List.map_congr_left fun y hy => ?_
    have hne : y ≠ z := fun hyz => ha.not_queued h (hyz ▸ hy)
    rw [zoneIds, ha.dataAt_eq hid, if_neg hne]
    rfl
  have hlen : (zoneIds g s.cacheMap z).length = (s.zoneState.state z).chunkOffset :=
    hfill.length_listed (Nat.le_of_lt ha.room.1)
  rw [ha.opens.view_eq k, ZoneLru.append]
  dsimp only
  rw [hlen, view, ha.zsm_eq, committed_handedOut hmax ha.room.1, ha.lru_eq]
  split
  · simp [hother, hzone, view]
  · simp [hother, hzone, view]

end Appends

end ZnCache
