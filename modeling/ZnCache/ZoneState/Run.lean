/-
  ZnCache.ZoneState.Run — the zone state manager over whole runs.

  A run starts at `zsm_init` and calls the four operations that change zone
  conditions, in any order.  Since every body runs under `state_mutex`, a run
  of calls from any number of threads is such a sequence.  `handedOut` records
  the locations that callers hold; callers give back what they hold, once, and
  evict full zones only (`ZsmOp.Allowed`).

  Main result: `zsm_reach_partition` — in every reachable state the two queues
  and the counter describe the zone conditions exactly, the three getters add
  up to the number of zones, and no call can fail an assertion.
-/
import ZnCache.ZoneState.Invariant
import ZnCache.Lib.Transition
import Mathlib.Algebra.BigOperators.Group.Finset.Basic
import Mathlib.Algebra.BigOperators.Ring.Finset

namespace ZnCache

open Lib Lib.ThreadPool

/-! ## §1. Runs. -/

/-- The manager, and the locations handed out and not given back. -/
structure ZsmRun where
  zsm : ZoneStateManager
  handedOut : List ZnPair

/-- One call, with what its device command returns. -/
inductive ZsmOp where
  | get (ret : Int)
  | giveBack (pair : ZnPair) (ret : Int)
  | fail (pair : ZnPair)
  | evict (zone : Nat) (ret : Int)

/-- The callers' side: the device obeys, a location is given back by its
holder, and only full zones are evicted. -/
def ZsmOp.Allowed (g : Geometry) (r : ZsmRun) : ZsmOp → Prop
  | .get ret => DeviceOk g ret
  | .giveBack pair ret => pair ∈ r.handedOut ∧ DeviceOk g ret
  | .fail pair => pair ∈ r.handedOut
  | .evict zone ret => (r.zsm.state zone).state = .full ∧ DeviceOk g ret

instance DeviceOk.dec (g : Geometry) (ret : Int) : Decidable (DeviceOk g ret) :=
  inferInstanceAs (Decidable (_ ∨ _))

instance ZsmOp.decAllowed (g : Geometry) (r : ZsmRun) (op : ZsmOp) : Decidable (op.Allowed g r) := by
  cases op <;> unfold ZsmOp.Allowed <;> infer_instance

/-- One call on a run. -/
def zsmOp (g : Geometry) (r : ZsmRun) : ZsmOp → Except Fault ZsmRun
  | .get ret => do
    let (res, s) ← zsmGetActiveZone g ret r.zsm
    match res with
    | .success pair => return ⟨s, pair :: r.handedOut⟩
    | _ => return ⟨s, r.handedOut⟩
  | .giveBack pair ret => do
    let (_, s) ← zsmReturnActiveZone g ret r.zsm pair
    return ⟨s, r.handedOut.erase pair⟩
  | .fail pair => do
    let s ← zsmFailedToWrite g r.zsm pair
    return ⟨s, r.handedOut.erase pair⟩
  | .evict zone ret => do
    let (_, s) ← zsmEvict g ret r.zsm zone
    return ⟨s, r.handedOut⟩

/-- The runs from `zsm_init`. -/
def zsmSystem (g : Geometry) : TransSys ZsmRun ZsmOp where
  init r := r = ⟨zsmInit g, []⟩
  step r op r' := zsmOp g r op = .ok r'

/-- The representation invariant, and the books on handed-out locations. -/
structure ZsmRunInv (g : Geometry) (r : ZsmRun) : Prop where
  inv : ZsmInv g r.zsm
  zones_nodup : (r.handedOut.map ZnPair.zone).Nodup
  writing_iff : ∀ z, (r.zsm.state z).state = .writeOccuring ↔ ∃ p ∈ r.handedOut, p.zone = z
  offset : ∀ p ∈ r.handedOut, (r.zsm.state p.zone).chunkOffset = p.chunkOffset

namespace ZsmRunInv

variable {g : Geometry} {r : ZsmRun}

theorem state_of_mem (h : ZsmRunInv g r) {p : ZnPair} (hp : p ∈ r.handedOut) :
    (r.zsm.state p.zone).state = .writeOccuring := (h.writing_iff _).mpr ⟨p, hp, rfl⟩

/-- Two held locations of one zone are the same location. -/
theorem eq_of_zone (h : ZsmRunInv g r) {p q : ZnPair} (hp : p ∈ r.handedOut)
    (hq : q ∈ r.handedOut) (hpq : p.zone = q.zone) : p = q :=
  List.inj_on_of_nodup_map h.zones_nodup hp hq hpq

/-! ## §2. What each call keeps. -/

/-- A zone enters the books when it is handed out. -/
theorem handOut (h : ZsmRunInv g r) {z : Nat} {s' : ZoneStateManager}
    (hinv : ZsmInv g s') (hst : (r.zsm.state z).state ≠ .writeOccuring)
    (hs' : s'.state = Function.update r.zsm.state z (writingZone r.zsm z)) :
    ZsmRunInv g ⟨s', locationOf r.zsm z :: r.handedOut⟩ where
  inv := hinv
  zones_nodup := by
    rw [List.map_cons, List.nodup_cons]
    refine ⟨?_, h.zones_nodup⟩
    intro hm
    obtain ⟨p, hp, hpz⟩ := List.mem_map.mp hm
    exact hst ((h.writing_iff z).mpr ⟨p, hp, hpz⟩)
  writing_iff := by
    intro y
    dsimp only
    rw [hs']
    by_cases hy : y = z
    · subst hy
      simp [writingZone, locationOf]
    · rw [Function.update_of_ne hy, h.writing_iff y]
      simp [locationOf, Ne.symm hy]
  offset := by
    intro p hp
    dsimp only
    rw [hs']
    rcases List.mem_cons.mp hp with rfl | hp
    · simp [locationOf, writingZone]
    · have hne : p.zone ≠ z := fun heq => hst (heq ▸ h.state_of_mem hp)
      rw [Function.update_of_ne hne]
      exact h.offset p hp

/-- A zone leaves the books when its location is given back. -/
theorem giveBack (h : ZsmRunInv g r) {p : ZnPair} (hp : p ∈ r.handedOut)
    {s' : ZoneStateManager} {zn : ZnZone} (hinv : ZsmInv g s')
    (hzn : zn.state ≠ .writeOccuring) (hs' : s'.state = Function.update r.zsm.state p.zone zn) :
    ZsmRunInv g ⟨s', r.handedOut.erase p⟩ := by
  have hnd : r.handedOut.Nodup := List.Nodup.of_map _ h.zones_nodup
  have hother : ∀ q ∈ r.handedOut.erase p, q.zone ≠ p.zone := by
    intro q hq hqz
    have hmem := hnd.mem_erase_iff.mp hq
    exact hmem.1 (h.eq_of_zone hmem.2 hp hqz)
  refine ⟨hinv, h.zones_nodup.sublist (List.erase_sublist.map _), ?_, ?_⟩
  · intro y
    dsimp only
    rw [hs']
    by_cases hy : y = p.zone
    · subst hy
      rw [Function.update_self]
      constructor
      · exact fun hw => absurd hw hzn
      · rintro ⟨q, hq, hqz⟩
        exact absurd hqz (hother q hq)
    · rw [Function.update_of_ne hy, h.writing_iff y]
      constructor
      · rintro ⟨q, hq, hqz⟩
        exact ⟨q, hnd.mem_erase_iff.mpr ⟨fun heq => hy (by rw [← hqz, heq]), hq⟩, hqz⟩
      · rintro ⟨q, hq, hqz⟩
        exact ⟨q, List.mem_of_mem_erase hq, hqz⟩
  · intro q hq
    dsimp only
    rw [hs', Function.update_of_ne (hother q hq)]
    exact h.offset q (List.mem_of_mem_erase hq)

/-- **Step lemma.**  An allowed call returns, and keeps the invariant. -/
theorem step (hmax : 1 ≤ g.maxZoneChunks) (h : ZsmRunInv g r) {op : ZsmOp}
    (hop : op.Allowed g r) : ∃ r', zsmOp g r op = .ok r' ∧ ZsmRunInv g r' := by
  cases op with
  | get ret =>
    obtain ⟨res, s', heq, hcase⟩ := zsmGetActiveZone_spec h.inv hop
    have hinv := hcase.inv hmax h.inv
    simp only [zsmOp, heq]
    cases hcase with
    | evict | retry => exact ⟨_, rfl, h⟩
    | reuse _ hst => exact ⟨_, rfl, h.handOut hinv (by simp [hst]) rfl⟩
    | opened _ _ hst => exact ⟨_, rfl, h.handOut hinv (by simp [hst]) rfl⟩
  | giveBack pair ret =>
    obtain ⟨hp, hret⟩ := hop
    have hst := h.state_of_mem hp
    have hoff := h.offset pair hp
    have hinv := committed_inv h.inv hst hoff
    simp only [zsmOp, zsmReturnActiveZone_spec h.inv hret hst hoff]
    refine ⟨_, rfl, ?_⟩
    by_cases hlast : (pair.chunkOffset + 1) % 2 ^ 32 = g.maxZoneChunks
    · have hne : (closedZone r.zsm pair.zone).state ≠ .writeOccuring := by simp [closedZone]
      refine h.giveBack hp hinv hne ?_
      rw [committed, if_pos hlast, ZoneStateManager.setZone_state]
    · have hne : (reopenedZone r.zsm pair.zone ((pair.chunkOffset + 1) % 2 ^ 32)).state
          ≠ .writeOccuring := by simp [reopenedZone]
      refine h.giveBack hp hinv hne ?_
      rw [committed, if_neg hlast, ZoneStateManager.setZone_state]
  | fail pair =>
    have hst := h.state_of_mem hop
    have hoff := h.offset pair hop
    simp only [zsmOp, zsmFailedToWrite_spec h.inv hst hoff]
    exact ⟨_, rfl, h.giveBack hop (abandoned_inv h.inv hst hoff) (by simp [reopenedZone]) rfl⟩
  | evict z ret =>
    obtain ⟨hst, hret⟩ := hop
    simp only [zsmOp, zsmEvict_spec hret hst]
    refine ⟨_, rfl, evicted_inv h.inv hst, h.zones_nodup, ?_, ?_⟩
    · intro y
      show ((Function.update r.zsm.state z _) y).state = _ ↔ _
      by_cases hy : y = z
      · subst hy
        rw [Function.update_self, ← h.writing_iff y, hst]
        simp
      · rw [Function.update_of_ne hy]
        exact h.writing_iff y
    · intro p hp
      have hne : p.zone ≠ z := fun heq => by
        have := h.state_of_mem hp
        rw [heq, hst] at this
        cases this
      show ((Function.update r.zsm.state z _) p.zone).chunkOffset = _
      rw [Function.update_of_ne hne]
      exact h.offset p hp

end ZsmRunInv

/-- **Run lemma.** -/
theorem zsmRun_inv {g : Geometry} (hmax : 1 ≤ g.maxZoneChunks) {r : ZsmRun}
    (hr : (zsmSystem g).Reach (fun r op => op.Allowed g r) r) : ZsmRunInv g r := by
  refine TransSys.Reach.invariant (I := ZsmRunInv g) ?_ ?_ hr
  · rintro _ rfl
    exact ⟨zsmInit_inv g, by simp, by simp [zsmInit], by simp⟩
  · intro r op r' _ hinv hop hstep
    obtain ⟨r'', heq, hinv'⟩ := hinv.step hmax hop
    have : r'' = r' := Except.ok.inj (heq.symm.trans hstep)
    exact this ▸ hinv'

/-! ## §3. The getters. -/

theorem length_eq_zonesIn {g : Geometry} {s : ZoneStateManager} {c : ZnZoneCondition}
    {l : List Nat} (hnd : l.Nodup) (hm : ∀ z, z ∈ l ↔ z < g.nrZones ∧ (s.state z).state = c) :
    l.length = zonesIn g s c := by
  rw [← List.toFinset_card_of_nodup hnd]
  unfold zonesIn countOn
  congr 1
  ext z
  simp [hm z]

theorem zsmGetNumFullZones_eq (g : Geometry) (s : ZoneStateManager) :
    zsmGetNumFullZones g s = zonesIn g s .full := by
  unfold zsmGetNumFullZones zonesIn countOn
  induction g.nrZones with
  | zero => rfl
  | succ n ih =>
    rw [List.range_succ, List.foldl_append, ih, Finset.range_add_one, Finset.filter_insert]
    by_cases hn : (s.state n).state = .full
    · rw [if_pos hn, Finset.card_insert_of_notMem (by simp)]
      simp [hn]
    · rw [if_neg hn]
      simp [hn]

/-- Every zone is in exactly one condition. -/
theorem zonesIn_sum (g : Geometry) (s : ZoneStateManager) :
    zonesIn g s .free + zonesIn g s .active + zonesIn g s .writeOccuring + zonesIn g s .full
      = g.nrZones := by
  unfold zonesIn countOn
  simp only [Finset.card_filter]
  rw [← Finset.sum_add_distrib, ← Finset.sum_add_distrib, ← Finset.sum_add_distrib]
  have hone : ∀ z ∈ Finset.range g.nrZones,
      ((((if (s.state z).state = .free then 1 else 0)
        + (if (s.state z).state = .active then 1 else 0))
        + (if (s.state z).state = .writeOccuring then 1 else 0))
        + (if (s.state z).state = .full then 1 else 0)) = 1 := by
    intro z _
    cases (s.state z).state <;> simp
  rw [Finset.sum_congr rfl hone]
  simp

/-- The three getters of the manager add up to the number of zones. -/
theorem ZsmInv.getters_sum {g : Geometry} {s : ZoneStateManager} (h : ZsmInv g s) :
    (zsmGetNumFreeZones s : Int) + zsmGetNumActiveZones s + zsmGetNumFullZones g s
      = g.nrZones := by
  have hf := length_eq_zonesIn h.free_nodup h.mem_free
  have ha := length_eq_zonesIn h.active_nodup h.mem_active
  have hw := h.writes
  have hsum := zonesIn_sum g s
  unfold zsmGetNumFreeZones zsmGetNumActiveZones
  rw [zsmGetNumFullZones_eq, hw, hf, ha]
  omega

/-! ## §4. The whole run. -/

/-- **THE PARTITION THEOREM.**  In every state reached from `zsm_init`, by any
calls of any threads: the free queue lists the free zones, the active queue the
active zones, each once; the counter counts the zones being written, which are
those handed out; the active slots are respected; the getters add up; and every
further call returns. -/
theorem zsm_reach_partition (g : Geometry) (hmax : 1 ≤ g.maxZoneChunks) (r : ZsmRun)
    (hr : (zsmSystem g).Reach (fun r op => op.Allowed g r) r) :
    (r.zsm.free.Nodup ∧ ∀ z, z ∈ r.zsm.free ↔ z < g.nrZones ∧ (r.zsm.state z).state = .free)
    ∧ (r.zsm.active.Nodup
        ∧ ∀ z, z ∈ r.zsm.active ↔ z < g.nrZones ∧ (r.zsm.state z).state = .active)
    ∧ (r.zsm.writesOccurring = zonesIn g r.zsm .writeOccuring
        ∧ (r.handedOut.map ZnPair.zone).Nodup
        ∧ ∀ z, (z < g.nrZones ∧ (r.zsm.state z).state = .writeOccuring)
            ↔ ∃ p ∈ r.handedOut, p.zone = z)
    ∧ r.zsm.active.length + r.zsm.writesOccurring ≤ g.maxNrActiveZones
    ∧ (zsmGetNumFreeZones r.zsm : Int) + zsmGetNumActiveZones r.zsm + zsmGetNumFullZones g r.zsm
        = g.nrZones
    ∧ ∀ op : ZsmOp, op.Allowed g r → ∃ r', zsmOp g r op = .ok r' := by
  have h := zsmRun_inv hmax hr
  refine ⟨⟨h.inv.free_nodup, h.inv.mem_free⟩, ⟨h.inv.active_nodup, h.inv.mem_active⟩,
    ⟨h.inv.writes, h.zones_nodup, ?_⟩, h.inv.room, h.inv.getters_sum, ?_⟩
  · intro z
    rw [← h.writing_iff z]
    exact ⟨And.right, fun hw => ⟨h.inv.lt_of_state (by simp [hw]), hw⟩⟩
  · intro op hop
    obtain ⟨r', heq, -⟩ := h.step hmax hop
    exact ⟨r', heq⟩

/-- Replay one allowed call. -/
def zsmReplay (g : Geometry) (r : ZsmRun) (op : ZsmOp) : Option ZsmRun :=
  if op.Allowed g r then (zsmOp g r op).toOption else none

theorem zsmReplay_sound (g : Geometry) (r : ZsmRun) (op : ZsmOp) (r' : ZsmRun)
    (h : zsmReplay g r op = some r') : op.Allowed g r ∧ (zsmSystem g).step r op r' := by
  unfold zsmReplay at h
  split at h
  · exact ⟨‹_›, toOption_eq_some h⟩
  · cases h

/-- Two zones of two chunks: one is handed out, written once and returned. -/
theorem zsm_reach_partition_two_zones :
    ∃ r : ZsmRun, r.handedOut = [] ∧ r.zsm.active = [0]
      ∧ (zsmGetNumFreeZones r.zsm : Int) + zsmGetNumActiveZones r.zsm
          + zsmGetNumFullZones ⟨2, 1, 1, 2, 2, .block⟩ r.zsm = 2 := by
  obtain ⟨r, hr, hp⟩ := TransSys.Reach.exists_of_exec (zsmReplay_sound ⟨2, 1, 1, 2, 2, .block⟩) rfl
    (fun r => r.handedOut = [] ∧ r.zsm.active = [0])
    [.get 0, .giveBack ⟨0, 0, 0, false⟩ 0] (by decide)
  simp only [decide_eq_true_eq] at hp
  exact ⟨r, hp.1, hp.2, (zsm_reach_partition _ (by decide) r hr).2.2.2.2.1⟩

end ZnCache
