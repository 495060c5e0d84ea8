/-
  ZnCache.ZoneState.Invariant — the representation invariant of the zone state
  manager and one specification lemma for each of its operations.

  `ZsmInv g s` ties the two queues and the counter to the zone records.  Every
  operation moves exactly ONE zone from one condition to another, so all of
  them go through `ZsmInv.move`; the `_spec` lemmas give the resulting state as
  an equation, and later modules never unfold an operation again.

  Device zone commands are taken to succeed (`DeviceOk`): the return value is
  0, or the backend issues no command.
-/
import ZnCache.ZoneState.Defs

namespace ZnCache

open Lib.ThreadPool

/-- The device command behind an operation succeeds, or there is none. -/
def DeviceOk (g : Geometry) (ret : Int) : Prop := g.backend = .block ∨ ret = 0

theorem DeviceOk.not_failed {g : Geometry} {ret : Int} (h : DeviceOk g ret) :
    ¬ (g.backend = .zns ∧ ret ≠ 0) := by
  rintro ⟨hb, hr⟩
  rcases h with h | h
  · rw [h] at hb; cases hb
  · exact hr h

/-- How many of the zones are in condition `c`. -/
def zonesIn (g : Geometry) (s : ZoneStateManager) (c : ZnZoneCondition) : Nat :=
  countOn (Finset.range g.nrZones) (fun zn : ZnZone => zn.state = c) s.state

/-- **The representation invariant.** -/
structure ZsmInv (g : Geometry) (s : ZoneStateManager) : Prop where
  free_nodup : s.free.Nodup
  mem_free : ∀ z, z ∈ s.free ↔ z < g.nrZones ∧ (s.state z).state = .free
  active_nodup : s.active.Nodup
  mem_active : ∀ z, z ∈ s.active ↔ z < g.nrZones ∧ (s.state z).state = .active
  writes : s.writesOccurring = zonesIn g s .writeOccuring
  room : s.active.length + s.writesOccurring ≤ g.maxNrActiveZones
  /-- Records beyond the array are never touched. -/
  outside : ∀ z, g.nrZones ≤ z → (s.state z).state = .free
  zone_id : ∀ z, (s.state z).zoneId = z
  free_offset : ∀ z, (s.state z).state = .free → (s.state z).chunkOffset = 0
  /-- A zone that can be written has room for one more chunk. -/
  open_offset : ∀ z, (s.state z).state = .active ∨ (s.state z).state = .writeOccuring →
    (s.state z).chunkOffset < g.maxZoneChunks ∧ (s.state z).chunkOffset < 2 ^ 32

namespace ZsmInv

variable {g : Geometry} {s : ZoneStateManager}

theorem lt_of_state (h : ZsmInv g s) {z : Nat} (hz : (s.state z).state ≠ .free) :
    z < g.nrZones := by
  by_contra hlt
  exact hz (h.outside z (Nat.le_of_not_lt hlt))

theorem writes_nonneg (h : ZsmInv g s) : 0 ≤ s.writesOccurring := by
  rw [h.writes]
  exact Int.natCast_nonneg _

/-- The invariant after one zone has moved to the record `zn`: the queues must
gain and lose exactly that zone, and the counter exactly its write. -/
theorem move (h : ZsmInv g s) {z : Nat} (hz : z < g.nrZones) {zn : ZnZone}
    {free' active' : List Nat} {writes' : Int}
    (hid : zn.zoneId = z)
    (hfree : free'.Nodup) (hmf : ∀ y, y ∈ free' ↔ if y = z then zn.state = .free else y ∈ s.free)
    (hactive : active'.Nodup)
    (hma : ∀ y, y ∈ active' ↔ if y = z then zn.state = .active else y ∈ s.active)
    (hw : writes' + (if (s.state z).state = .writeOccuring then 1 else 0)
      = s.writesOccurring + (if zn.state = .writeOccuring then 1 else 0))
    (hroom : active'.length + writes' ≤ g.maxNrActiveZones)
    (hoff0 : zn.state = .free → zn.chunkOffset = 0)
    (hoff : zn.state = .active ∨ zn.state = .writeOccuring →
      zn.chunkOffset < g.maxZoneChunks ∧ zn.chunkOffset < 2 ^ 32) :
    ZsmInv g { active := active', free := free', state := Function.update s.state z zn,
               writesOccurring := writes' } where
  free_nodup := hfree
  mem_free := by
    intro y
    rw [hmf y]
    by_cases hy : y = z
    · subst hy; simp [hz]
    · simp [hy, h.mem_free y]
  active_nodup := hactive
  mem_active := by
    intro y
    rw [hma y]
    by_cases hy : y = z
    · subst hy; simp [hz]
    · simp [hy, h.mem_active y]
  writes := by
    have hcount := countOn_update (D := Finset.range g.nrZones)
      (fun zn : ZnZone => zn.state = .writeOccuring) s.state (Finset.mem_range.mpr hz) zn
    have hwr := h.writes
    unfold zonesIn at hwr ⊢
    dsimp only
    split_ifs at hcount hw <;> omega
  room := hroom
  outside := by
    intro y hy
    dsimp only
    rw [Function.update_of_ne (by omega)]
    exact h.outside y hy
  zone_id := by
    intro y
    dsimp only
    by_cases hy : y = z
    · subst hy; rw [Function.update_self, hid]
    · rw [Function.update_of_ne hy]; exact h.zone_id y
  free_offset := by
    intro y
    dsimp only
    by_cases hy : y = z
    · subst hy; rw [Function.update_self]; exact hoff0
    · rw [Function.update_of_ne hy]; exact h.free_offset y
  open_offset := by
    intro y
    dsimp only
    by_cases hy : y = z
    · subst hy; rw [Function.update_self]; exact hoff
    · rw [Function.update_of_ne hy]; exact h.open_offset y

end ZsmInv

/-- Membership after popping the head of a duplicate-free queue. -/
theorem mem_of_pop {l : List Nat} {z : Nat} (h : (z :: l).Nodup) (y : Nat) :
    y ∈ l ↔ if y = z then False else y ∈ z :: l := by
  have hz := (List.nodup_cons.mp h).1
  by_cases hy : y = z
  · subst hy; simp [hz]
  · simp [hy]

/-- Membership after pushing a zone that was not queued. -/
theorem mem_of_push {l : List Nat} {z : Nat} (y : Nat) :
    y ∈ l ++ [z] ↔ if y = z then True else y ∈ l := by
  by_cases hy : y = z <;> simp [hy]

/-- Membership in the queue a zone neither enters nor leaves. -/
theorem mem_of_unmoved {l : List Nat} {z : Nat} {P : Prop} (hz : z ∉ l) (hP : ¬ P) (y : Nat) :
    y ∈ l ↔ if y = z then P else y ∈ l := by
  by_cases hy : y = z
  · subst hy; simp [hz, hP]
  · simp [hy]

theorem nodup_push {l : List Nat} {z : Nat} (h : l.Nodup) (hz : z ∉ l) : (l ++ [z]).Nodup := by
  rw [List.nodup_append]
  refine ⟨h, by simp, ?_⟩
  intro a ha b hb
  rw [List.mem_singleton] at hb
  rintro rfl
  exact hz (hb ▸ ha)

/-! ## §1. `zsm_init`. -/

theorem zsmInit_inv (g : Geometry) : ZsmInv g (zsmInit g) where
  free_nodup := List.nodup_range
  mem_free := by simp [zsmInit]
  active_nodup := List.nodup_nil
  mem_active := by simp [zsmInit]
  writes := by
    have hzero : zonesIn g (zsmInit g) .writeOccuring = 0 := by
      unfold zonesIn
      rw [countOn_eq_zero_iff]
      simp [zsmInit]
    rw [hzero]; rfl
  room := by simp [zsmInit]
  outside := by simp [zsmInit]
  zone_id := by simp [zsmInit]
  free_offset := by simp [zsmInit]
  open_offset := by simp [zsmInit]

/-! ## §2. `zsm_get_active_zone`. -/

/-- The location `zsm_get_active_zone` hands out for zone `z`. -/
def locationOf (s : ZoneStateManager) (z : Nat) : ZnPair :=
  { zone := z, chunkOffset := (s.state z).chunkOffset, id := 0, inUse := false }

/-- The record of a zone that has been handed out. -/
def writingZone (s : ZoneStateManager) (z : Nat) : ZnZone :=
  { s.state z with state := .writeOccuring }

/-- **What `zsm_get_active_zone` can do** when the device obeys. -/
inductive GetActiveZoneCase (g : Geometry) (s : ZoneStateManager) :
    ZsmGetActiveZone → ZoneStateManager → Prop
  | evict (ha : s.active = []) (hf : s.free = []) (hw : s.writesOccurring = 0) :
      GetActiveZoneCase g s .evict s
  | retry (ha : s.active = [])
      (hbusy : s.free = [] ∨ (g.maxNrActiveZones : Int) ≤ s.writesOccurring)
      (hany : ¬ (s.free = [] ∧ s.writesOccurring = 0)) :
      GetActiveZoneCase g s .retry s
  | reuse {z : Nat} {rest : List Nat} (ha : s.active = z :: rest)
      (hst : (s.state z).state = .active) :
      GetActiveZoneCase g s (.success (locationOf s z))
        { s.setZone z (writingZone s z) with
          active := rest, writesOccurring := s.writesOccurring + 1 }
  | opened {z : Nat} {rest : List Nat} (ha : s.active = []) (hf : s.free = z :: rest)
      (hst : (s.state z).state = .free) (hroom : s.writesOccurring < g.maxNrActiveZones) :
      GetActiveZoneCase g s (.success (locationOf s z))
        { s.setZone z (writingZone s z) with
          free := rest, writesOccurring := s.writesOccurring + 1 }

/-- **`zsm_get_active_zone` returns**, in one of the four ways: it needs of the
state only that its queues hold what they say. -/
theorem zsmGetActiveZone_returns {g : Geometry} {ret : Int} {s : ZoneStateManager}
    (hw0 : 0 ≤ s.writesOccurring) (hactive : ∀ z ∈ s.active, (s.state z).state = .active)
    (hfree : ∀ z ∈ s.free, (s.state z).state = .free) (hid : ∀ z, (s.state z).zoneId = z)
    (hoff : ∀ z, (s.state z).state = .free → (s.state z).chunkOffset = 0) (hret : DeviceOk g ret) :
    ∃ r s', zsmGetActiveZone g ret s = .ok (r, s') ∧ GetActiveZoneCase g s r s' := by
  cases ha : s.active with
  | cons z rest =>
    have hst : (s.state z).state = .active := hactive z (by rw [ha]; simp)
    refine ⟨_, _, ?_, GetActiveZoneCase.reuse ha hst⟩
    have hpos : (0 : Int) < (z :: rest).length + s.writesOccurring := by
      rw [List.length_cons]; omega
    simp only [zsmGetActiveZone, ha, takeActiveZone]
    rw [if_neg (by omega), check_of (Or.inl hpos), if_neg (by simp), check_of hst]
    simp [bind, Except.bind, pure, Except.pure, hid z, locationOf, writingZone]
  | nil =>
    cases hf : s.free with
    | nil =>
      by_cases hw : s.writesOccurring = 0
      · exact ⟨_, _, by simp [zsmGetActiveZone, ha, hf, hw], .evict ha hf hw⟩
      · refine ⟨_, _, ?_, GetActiveZoneCase.retry ha (Or.inl hf) (by simp [hw])⟩
        have hpos : 0 < s.writesOccurring := by omega
        simp [zsmGetActiveZone, ha, hf, hw, check, hpos, bind, Except.bind, pure, Except.pure]
    | cons z rest =>
      have hst : (s.state z).state = .free := hfree z (by rw [hf]; simp)
      by_cases hroom : s.writesOccurring < g.maxNrActiveZones
      · have hz0 := hoff z hst
        refine ⟨_, _, ?_, GetActiveZoneCase.opened ha hf hst hroom⟩
        simp [zsmGetActiveZone, openZone, takeActiveZone, ha, hf, check, hst, hroom,
          hret.not_failed, bind, Except.bind, pure, Except.pure, ZoneStateManager.setZone,
          hid z, locationOf, writingZone, hz0, not_le.mpr hroom]
      · refine ⟨_, _, ?_, GetActiveZoneCase.retry ha (Or.inr (by omega)) (by simp [hf])⟩
        simp [zsmGetActiveZone, ha, hf, check, hroom, bind, Except.bind, pure, Except.pure]

theorem zsmGetActiveZone_spec {g : Geometry} {ret : Int} {s : ZoneStateManager}
    (h : ZsmInv g s) (hret : DeviceOk g ret) :
    ∃ r s', zsmGetActiveZone g ret s = .ok (r, s') ∧ GetActiveZoneCase g s r s' :=
  zsmGetActiveZone_returns h.writes_nonneg (fun z hz => ((h.mem_active z).mp hz).2)
    (fun z hz => ((h.mem_free z).mp hz).2) h.zone_id h.free_offset hret

/-- Every way `zsm_get_active_zone` returns keeps the invariant. -/
theorem GetActiveZoneCase.inv {g : Geometry} {s s' : ZoneStateManager} {r : ZsmGetActiveZone}
    (hmax : 1 ≤ g.maxZoneChunks) (h : ZsmInv g s) (hc : GetActiveZoneCase g s r s') :
    ZsmInv g s' := by
  cases hc with
  | evict | retry => exact h
  | @reuse z rest ha hst =>
    have hnd := h.active_nodup
    rw [ha] at hnd
    have hnf : z ∉ s.free := by simp [h.mem_free, hst]
    refine h.move ((h.mem_active z).mp (by rw [ha]; simp)).1 (h.zone_id z) h.free_nodup
      (mem_of_unmoved hnf (by simp [writingZone])) (List.nodup_cons.mp hnd).2 ?_ ?_ ?_
      (by simp [writingZone]) ?_
    · intro y
      rw [mem_of_pop hnd y, ha]
      simp [writingZone]
    · simp [hst, writingZone]
    · have := h.room
      rw [ha, List.length_cons] at this
      push_cast at this
      omega
    · intro _
      exact h.open_offset z (Or.inl hst)
  | @opened z rest ha hf hst hroom =>
    have hnd := h.free_nodup
    rw [hf] at hnd
    have hna : z ∉ s.active := by simp [h.mem_active, hst]
    refine h.move ((h.mem_free z).mp (by rw [hf]; simp)).1 (h.zone_id z)
      (List.nodup_cons.mp hnd).2 ?_ h.active_nodup (mem_of_unmoved hna (by simp [writingZone]))
      ?_ ?_ (by simp [writingZone]) ?_
    · intro y
      rw [mem_of_pop hnd y, hf]
      simp [writingZone]
    · simp [hst, writingZone]
    · show (s.active.length : Int) + (s.writesOccurring + 1) ≤ _
      rw [ha]; simp; omega
    · intro _
      show (s.state z).chunkOffset < _ ∧ (s.state z).chunkOffset < _
      rw [h.free_offset z hst]
      omega

/-! ## §3. `zsm_return_active_zone` and `zsm_failed_to_write`. -/

/-- The record of a zone closed after its last chunk. -/
def closedZone (s : ZoneStateManager) (z : Nat) : ZnZone :=
  { s.state z with state := .full, chunkOffset := 0 }

/-- The record of a zone that goes back to the active queue at `offset`. -/
def reopenedZone (s : ZoneStateManager) (z offset : Nat) : ZnZone :=
  { s.state z with state := .active, chunkOffset := offset }

/-- The state after a committed chunk. -/
def committed (g : Geometry) (s : ZoneStateManager) (pair : ZnPair) : ZoneStateManager :=
  if (pair.chunkOffset + 1) % 2 ^ 32 = g.maxZoneChunks then
    { s.setZone pair.zone (closedZone s pair.zone) with
      writesOccurring := s.writesOccurring - 1 }
  else
    { s.setZone pair.zone (reopenedZone s pair.zone ((pair.chunkOffset + 1) % 2 ^ 32)) with
      active := s.active ++ [pair.zone], writesOccurring := s.writesOccurring - 1 }

/-- The state after an abandoned chunk. -/
def abandoned (s : ZoneStateManager) (pair : ZnPair) : ZoneStateManager :=
  { s.setZone pair.zone (reopenedZone s pair.zone pair.chunkOffset) with
    active := s.active ++ [pair.zone], writesOccurring := s.writesOccurring - 1 }

variable {g : Geometry} {ret : Int} {s : ZoneStateManager} {pair : ZnPair}

/-- **`zsm_return_active_zone` returns 0** on a location that is handed out. -/
theorem zsmReturnActiveZone_spec (h : ZsmInv g s) (hret : DeviceOk g ret)
    (hst : (s.state pair.zone).state = .writeOccuring)
    (hoff : (s.state pair.zone).chunkOffset = pair.chunkOffset) :
    zsmReturnActiveZone g ret s pair = .ok (0, committed g s pair) := by
  unfold zsmReturnActiveZone committed
  rw [check_of h.room]
  by_cases hlast : (pair.chunkOffset + 1) % 2 ^ 32 = g.maxZoneChunks
  · have hcond : (pair.chunkOffset + 1) % 4294967296 = g.maxZoneChunks := hlast
    simp [check, hst, hoff, hcond, closeZone, hret.not_failed, bind, Except.bind, pure,
      Except.pure, ZoneStateManager.setZone, closedZone]
  · have hcond : ¬ (pair.chunkOffset + 1) % 4294967296 = g.maxZoneChunks := hlast
    simp [check, hst, hoff, hcond, bind, Except.bind, pure, Except.pure,
      ZoneStateManager.setZone, reopenedZone]

/-- **`zsm_failed_to_write` returns** on a location that is handed out. -/
theorem zsmFailedToWrite_spec (h : ZsmInv g s)
    (hst : (s.state pair.zone).state = .writeOccuring)
    (hoff : (s.state pair.zone).chunkOffset = pair.chunkOffset) :
    zsmFailedToWrite g s pair = .ok (abandoned s pair) := by
  have hlt := (h.open_offset _ (Or.inr hst)).1
  rw [hoff] at hlt
  unfold zsmFailedToWrite abandoned
  rw [check_of h.room]
  simp [check, hst, hoff, hlt, bind, Except.bind, pure, Except.pure,
    ZoneStateManager.setZone, reopenedZone]

/-- A handed-out zone that goes back to the active queue keeps the invariant. -/
theorem ZsmInv.reopen (h : ZsmInv g s) {z offset : Nat}
    (hst : (s.state z).state = .writeOccuring)
    (hlt : offset < g.maxZoneChunks) (hlt32 : offset < 2 ^ 32) :
    ZsmInv g { s.setZone z (reopenedZone s z offset) with
      active := s.active ++ [z], writesOccurring := s.writesOccurring - 1 } := by
  have hz : z < g.nrZones := h.lt_of_state (by simp [hst])
  have hna : z ∉ s.active := by simp [h.mem_active, hst]
  have hnf : z ∉ s.free := by simp [h.mem_free, hst]
  refine h.move hz (h.zone_id z) h.free_nodup (mem_of_unmoved hnf (by simp [reopenedZone]))
    (nodup_push h.active_nodup hna) ?_ ?_ ?_ (by simp [reopenedZone]) (fun _ => ⟨hlt, hlt32⟩)
  · intro y
    rw [mem_of_push y]
    simp [reopenedZone]
  · simp [hst, reopenedZone]
  · have := h.room
    rw [List.length_append]
    simp
    omega

theorem abandoned_inv (h : ZsmInv g s) (hst : (s.state pair.zone).state = .writeOccuring)
    (hoff : (s.state pair.zone).chunkOffset = pair.chunkOffset) :
    ZsmInv g (abandoned s pair) := by
  obtain ⟨hlt, hlt32⟩ := h.open_offset _ (Or.inr hst)
  rw [hoff] at hlt hlt32
  exact h.reopen hst hlt hlt32

theorem committed_inv (h : ZsmInv g s) (hst : (s.state pair.zone).state = .writeOccuring)
    (hoff : (s.state pair.zone).chunkOffset = pair.chunkOffset) :
    ZsmInv g (committed g s pair) := by
  obtain ⟨hlt, hlt32⟩ := h.open_offset _ (Or.inr hst)
  rw [hoff] at hlt hlt32
  have hz : pair.zone < g.nrZones := h.lt_of_state (by simp [hst])
  unfold committed
  split
  · -- the last chunk: the zone is in no queue any more
    have hnf : pair.zone ∉ s.free := by simp [h.mem_free, hst]
    have hna : pair.zone ∉ s.active := by simp [h.mem_active, hst]
    refine h.move hz (h.zone_id _) h.free_nodup (mem_of_unmoved hnf (by simp [closedZone]))
      h.active_nodup (mem_of_unmoved hna (by simp [closedZone])) ?_ ?_
      (by simp [closedZone]) (by simp [closedZone])
    · simp [hst, closedZone]
    · have := h.room
      show (s.active.length : Int) + (s.writesOccurring - 1) ≤ _
      omega
  · rename_i hnot
    exact h.reopen hst (by omega) (Nat.mod_lt _ (by decide))

/-! ## §4. `zsm_evict`. -/

/-- The state after a zone has been reset. -/
def evicted (s : ZoneStateManager) (z : Nat) : ZoneStateManager :=
  { s.setZone z { s.state z with state := .free, chunkOffset := 0 } with free := s.free ++ [z] }

/-- **`zsm_evict` returns 0** on a full zone. -/
theorem zsmEvict_spec {z : Nat} (hret : DeviceOk g ret) (hst : (s.state z).state = .full) :
    zsmEvict g ret s z = .ok (0, evicted s z) := by
  unfold zsmEvict
  rw [check_of hst]
  simp [resetZone, hst, hret.not_failed, bind, Except.bind, pure, Except.pure, evicted]

theorem evicted_inv (h : ZsmInv g s) {z : Nat} (hst : (s.state z).state = .full) :
    ZsmInv g (evicted s z) := by
  have hz : z < g.nrZones := h.lt_of_state (by simp [hst])
  have hnf : z ∉ s.free := by simp [h.mem_free, hst]
  have hna : z ∉ s.active := by simp [h.mem_active, hst]
  refine h.move hz (h.zone_id z) (nodup_push h.free_nodup hnf) ?_ h.active_nodup
    (mem_of_unmoved hna (by simp)) ?_ h.room (by simp) (by simp)
  · intro y
    rw [mem_of_push y]
    simp
  · simp [hst]

end ZnCache
