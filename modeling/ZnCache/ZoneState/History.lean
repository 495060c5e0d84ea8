/-
  ZnCache.ZoneState.History — the chunks of a zone over a whole run.

  `ZsmLog` is a run of the zone state manager with the log of what it handed
  out, took back and reset.  Since its last reset, a zone is a resource that is
  filled slot by slot (`Lib.SlotLog`): the zone leaves both queues while it is
  written, and its offset moves on when the location is returned.

  Main result: `allocation_sequential`.
-/
import ZnCache.ZoneState.Run
import ZnCache.Lib.SlotLog

namespace ZnCache

open Lib

/-! ## §1. The log. -/

/-- What happened to a location, or to a zone. -/
inductive ZsmEvent where
  | handOut (pair : ZnPair)
  | commit (pair : ZnPair)
  | failed (pair : ZnPair)
  | reset (zone : Nat)
  deriving DecidableEq

/-- A run, with its log, latest event first. -/
structure ZsmLog where
  run : ZsmRun
  log : List ZsmEvent

/-- What a call that returns adds to the log. -/
def ZsmOp.events (g : Geometry) (r : ZsmRun) : ZsmOp → List ZsmEvent
  | .get ret =>
    match zsmGetActiveZone g ret r.zsm with
    | .ok (.success pair, _) => [.handOut pair]
    | _ => []
  | .giveBack pair _ => [.commit pair]
  | .fail pair => [.failed pair]
  | .evict zone _ => [.reset zone]

/-- The runs from `zsm_init`, logged. -/
def zsmLogSystem (g : Geometry) : TransSys ZsmLog ZsmOp where
  init r := r = ⟨⟨zsmInit g, []⟩, []⟩
  step r op r' := zsmOp g r.run op = .ok r'.run ∧ r'.log = op.events g r.run ++ r.log

/-- What an event is to zone `z`. -/
def ZsmEvent.slot (z : Nat) : ZsmEvent → Option SlotEvent
  | .handOut p => if p.zone = z then some (.take p.chunkOffset) else none
  | .commit p => if p.zone = z then some (.commit p.chunkOffset) else none
  | .failed p => if p.zone = z then some (.giveUp p.chunkOffset) else none
  | .reset _ => none

/-- What happened to zone `z` since its last reset. -/
def zoneLife (z : Nat) (log : List ZsmEvent) : List SlotEvent :=
  (log.takeWhile fun e => decide (e ≠ .reset z)).filterMap (ZsmEvent.slot z)

/-- The offsets of zone `z` committed since its last reset, in order. -/
def committedOffsets (z : Nat) (log : List ZsmEvent) : List Nat :=
  ((zoneLife z log).filterMap SlotEvent.committed).reverse

/-- An event of another zone. -/
theorem zoneLife_other {z : Nat} {e : ZsmEvent} {log : List ZsmEvent} (hslot : e.slot z = none)
    (hreset : e ≠ .reset z) : zoneLife z (e :: log) = zoneLife z log := by
  unfold zoneLife
  rw [List.takeWhile_cons_of_pos (by simpa using hreset), List.filterMap_cons, hslot]

/-- An event of this zone. -/
theorem zoneLife_slot {z : Nat} {e : ZsmEvent} {x : SlotEvent} {log : List ZsmEvent}
    (hslot : e.slot z = some x) : zoneLife z (e :: log) = x :: zoneLife z log := by
  have hreset : e ≠ .reset z := by
    intro heq
    rw [heq] at hslot
    cases hslot
  unfold zoneLife
  rw [List.takeWhile_cons_of_pos (by simpa using hreset), List.filterMap_cons, hslot]

theorem zoneLife_reset (z : Nat) (log : List ZsmEvent) : zoneLife z (.reset z :: log) = [] := by
  unfold zoneLife
  rw [List.takeWhile_cons_of_neg (by simp)]
  rfl

/-! ## §2. The lives of the zones. -/

/-- How many chunks of a zone are committed, by its record. -/
def ZnZone.filled (g : Geometry) (zn : ZnZone) : Nat :=
  if zn.state = .full then g.maxZoneChunks else zn.chunkOffset

/-- **The record of a zone tells its life**, and locations are of the array. -/
structure ZsmLogInv (g : Geometry) (r : ZsmLog) : Prop where
  run : ZsmRunInv g r.run
  life : ∀ z, SlotLife ((r.run.zsm.state z).filled g)
    (decide ((r.run.zsm.state z).state = .writeOccuring)) (zoneLife z r.log)
  handed : ∀ p, .handOut p ∈ r.log → p.zone < g.nrZones ∧ p.chunkOffset < g.maxZoneChunks

/-- A zone that is not full stands at a chunk of it. -/
theorem ZsmInv.offset_lt {g : Geometry} {s : ZoneStateManager} (h : ZsmInv g s)
    (hmax : 1 ≤ g.maxZoneChunks) {z : Nat} (hz : (s.state z).state ≠ .full) :
    (s.state z).chunkOffset < g.maxZoneChunks := by
  cases hst : (s.state z).state with
  | free =>
    rw [h.free_offset z hst]
    exact hmax
  | full => exact absurd hst hz
  | active => exact (h.open_offset z (Or.inl hst)).1
  | writeOccuring => exact (h.open_offset z (Or.inr hst)).1

namespace ZsmLogInv

variable {g : Geometry} {r : ZsmLog}

/-- Another zone's record, and its life. -/
theorem life_other (h : ZsmLogInv g r) {s' : ZoneStateManager} {z y : Nat} {zn : ZnZone}
    {e : ZsmEvent} (hs' : s'.state = Function.update r.run.zsm.state z zn) (hy : y ≠ z)
    (hslot : e.slot y = none) (hreset : e ≠ .reset y) :
    SlotLife ((s'.state y).filled g) (decide ((s'.state y).state = .writeOccuring))
      (zoneLife y (e :: r.log)) := by
  rw [hs', Function.update_of_ne hy, zoneLife_other hslot hreset]
  exact h.life y

/-- A zone is handed out where it stands. -/
theorem handOut (h : ZsmLogInv g r) {z : Nat} {s' : ZoneStateManager}
    (hrun : ZsmRunInv g ⟨s', locationOf r.run.zsm z :: r.run.handedOut⟩)
    (hst : (r.run.zsm.state z).state = .active ∨ (r.run.zsm.state z).state = .free)
    (hs' : s'.state = Function.update r.run.zsm.state z (writingZone r.run.zsm z)) :
    ZsmLogInv g ⟨⟨s', locationOf r.run.zsm z :: r.run.handedOut⟩,
      [.handOut (locationOf r.run.zsm z)] ++ r.log⟩ := by
  have hfull : (r.run.zsm.state z).state ≠ .full := by
    rcases hst with hst | hst
    · simp [hst]
    · simp [hst]
  have hwriting : (r.run.zsm.state z).state ≠ .writeOccuring := by
    rcases hst with hst | hst
    · simp [hst]
    · simp [hst]
  constructor
  · exact hrun
  · intro y
    by_cases hy : y = z
    · subst hy
      have hslot : (ZsmEvent.handOut (locationOf r.run.zsm y)).slot y
          = some (.take (r.run.zsm.state y).chunkOffset) := if_pos rfl
      have hlife := h.life y
      rw [decide_eq_false hwriting, ZnZone.filled, if_neg hfull] at hlife
      show SlotLife ((s'.state y).filled g) _ (zoneLife y (_ :: r.log))
      rw [hs', Function.update_self, zoneLife_slot hslot]
      exact hlife.take
    · apply h.life_other hs' hy _ (by simp)
      exact if_neg fun heq => hy heq.symm
  · intro p hp
    rcases List.mem_cons.mp hp with heq | hp
    · cases heq
      -- the zone is of the array: it is handed out now
      have hrec : s'.state z = writingZone r.run.zsm z := by rw [hs', Function.update_self]
      have hnow : (s'.state z).state = .writeOccuring := by rw [hrec]; rfl
      have hoff := (hrun.inv.open_offset z (Or.inr hnow)).1
      have hz : z < g.nrZones := hrun.inv.lt_of_state fun hfree => by
        rw [hnow] at hfree
        cases hfree
      rw [hrec] at hoff
      exact ⟨hz, hoff⟩
    · exact h.handed p hp

/-- A location is given back, and the zone's record says how its life went on. -/
theorem giveBack (h : ZsmLogInv g r) (zn : ZnZone) (x : SlotEvent) {p : ZnPair}
    {s' : ZoneStateManager} {e : ZsmEvent} {handedOut' : List ZnPair}
    (hrun : ZsmRunInv g ⟨s', handedOut'⟩)
    (hs' : s'.state = Function.update r.run.zsm.state p.zone zn)
    (he : ∀ q, e ≠ .handOut q) (hslot : ∀ z, e.slot z = if p.zone = z then some x else none)
    (hlife : SlotLife (zn.filled g) (decide (zn.state = .writeOccuring))
      (x :: zoneLife p.zone r.log)) :
    ZsmLogInv g ⟨⟨s', handedOut'⟩, [e] ++ r.log⟩ := by
  constructor
  · exact hrun
  · intro y
    by_cases hy : y = p.zone
    · subst hy
      show SlotLife ((s'.state p.zone).filled g) _ (zoneLife p.zone (e :: r.log))
      rw [hs', Function.update_self, zoneLife_slot ((hslot p.zone).trans (if_pos rfl))]
      exact hlife
    · have hnone : e.slot y = none := (hslot y).trans (if_neg fun heq => hy heq.symm)
      apply h.life_other hs' hy hnone
      intro heq
      have hhere := hslot p.zone
      rw [heq, if_pos rfl] at hhere
      cases hhere
  · intro q hq
    rcases List.mem_cons.mp hq with heq | hq
    · exact absurd heq.symm (he q)
    · exact h.handed q hq

/-- A reset begins a new life. -/
theorem reset (h : ZsmLogInv g r) {z : Nat}
    (hrun : ZsmRunInv g ⟨evicted r.run.zsm z, r.run.handedOut⟩) :
    ZsmLogInv g ⟨⟨evicted r.run.zsm z, r.run.handedOut⟩, [.reset z] ++ r.log⟩ := by
  have hs' : (evicted r.run.zsm z).state
      = Function.update r.run.zsm.state z { r.run.zsm.state z with state := .free, chunkOffset := 0 } :=
    rfl
  constructor
  · exact hrun
  · intro y
    by_cases hy : y = z
    · subst hy
      show SlotLife (((evicted r.run.zsm y).state y).filled g) _ (zoneLife y (.reset y :: r.log))
      rw [hs', Function.update_self, zoneLife_reset]
      exact .fresh
    · apply h.life_other hs' hy rfl
      intro heq
      cases heq
      exact hy rfl
  · intro p hp
    rcases List.mem_cons.mp hp with heq | hp
    · cases heq
    · exact h.handed p hp

/-- **Step lemma.** -/
theorem step (hmax : 1 ≤ g.maxZoneChunks) (hwide : g.maxZoneChunks < 2 ^ 32)
    (h : ZsmLogInv g r) {op : ZsmOp}
    (hop : op.Allowed g r.run) {r' : ZsmLog} (hs : (zsmLogSystem g).step r op r') :
    ZsmLogInv g r' := by
  obtain ⟨hrun, hlog⟩ := hs
  obtain ⟨run', heq, hinv⟩ := h.run.step hmax hop
  obtain rfl : run' = r'.run := Except.ok.inj (heq.symm.trans hrun)
  obtain ⟨run', log'⟩ := r'
  dsimp only at hrun hinv hlog
  subst hlog
  cases op with
  | get ret =>
    obtain ⟨res, s', hget, hcase⟩ := zsmGetActiveZone_spec h.run.inv hop
    simp only [zsmOp, hget] at hrun
    simp only [ZsmOp.events, hget]
    cases hcase with
    | evict | retry =>
      cases hrun
      exact ⟨hinv, h.life, h.handed⟩
    | reuse _ hst =>
      cases hrun
      exact h.handOut hinv (Or.inl hst) rfl
    | opened _ _ hst =>
      cases hrun
      exact h.handOut hinv (Or.inr hst) rfl
  | giveBack pair ret =>
    obtain ⟨hp, hret⟩ := hop
    have hst := h.run.state_of_mem hp
    have hoff := h.run.offset pair hp
    simp only [zsmOp, zsmReturnActiveZone_spec h.run.inv hret hst hoff] at hrun
    cases hrun
    -- the chunk committed is the one the zone stood at
    have hlife := h.life pair.zone
    rw [decide_eq_true hst, ZnZone.filled, if_neg (by simp [hst]), hoff] at hlife
    have hlt := h.run.inv.open_offset pair.zone (Or.inr hst)
    rw [hoff] at hlt
    by_cases hlast : (pair.chunkOffset + 1) % 2 ^ 32 = g.maxZoneChunks
    · apply h.giveBack (closedZone r.run.zsm pair.zone) (.commit pair.chunkOffset) hinv
      · rw [committed, if_pos hlast, ZoneStateManager.setZone_state]
      · simp
      · intro z
        rfl
      · show SlotLife g.maxZoneChunks false _
        rw [show g.maxZoneChunks = pair.chunkOffset + 1 by omega]
        exact hlife.commit
    · apply h.giveBack (reopenedZone r.run.zsm pair.zone ((pair.chunkOffset + 1) % 2 ^ 32))
        (.commit pair.chunkOffset) hinv
      · rw [committed, if_neg hlast, ZoneStateManager.setZone_state]
      · simp
      · intro z
        rfl
      · show SlotLife ((pair.chunkOffset + 1) % 2 ^ 32) false _
        rw [Nat.mod_eq_of_lt (by omega)]
        exact hlife.commit
  | fail pair =>
    have hst := h.run.state_of_mem hop
    have hoff := h.run.offset pair hop
    simp only [zsmOp, zsmFailedToWrite_spec h.run.inv hst hoff] at hrun
    cases hrun
    have hlife := h.life pair.zone
    rw [decide_eq_true hst, ZnZone.filled, if_neg (by simp [hst]), hoff] at hlife
    apply h.giveBack (reopenedZone r.run.zsm pair.zone pair.chunkOffset)
      (.giveUp pair.chunkOffset) hinv rfl
    · simp
    · intro z
      rfl
    · exact hlife.giveUp
  | evict z ret =>
    obtain ⟨hst, hret⟩ := hop
    simp only [zsmOp, zsmEvict_spec hret hst] at hrun
    cases hrun
    exact h.reset hinv

/-- **Run lemma.** -/
theorem reach (hmax : 1 ≤ g.maxZoneChunks) (hwide : g.maxZoneChunks < 2 ^ 32)
    (hr : (zsmLogSystem g).Reach (fun r op => op.Allowed g r.run) r) : ZsmLogInv g r := by
  apply TransSys.Reach.invariant (I := ZsmLogInv g) _ _ hr
  · intro r hinit
    obtain rfl : r = ⟨⟨zsmInit g, []⟩, []⟩ := hinit
    constructor
    · exact zsmRun_inv hmax (.start rfl)
    · intro z
      exact .fresh
    · intro p hp
      cases hp
  · intro r op r' _ h hop hs
    exact h.step hmax hwide hop hs

end ZsmLogInv

/-! ## §3. The addresses. -/

/-- The bytes of a chunk lie in the first `zone_cap` bytes of its zone, and no
address wraps around. -/
theorem wp_in_zone {g : Geometry} (hsize : g.zoneCap ≤ g.zoneSize)
    (haddr : g.nrZones * g.zoneSize < 2 ^ 64) {z c : Nat} (hz : z < g.nrZones)
    (hc : c < g.maxZoneChunks) :
    g.wp z c = g.zoneSize * z + c * g.chunkSz
      ∧ g.wp z c + g.chunkSz ≤ g.zoneSize * z + g.zoneCap
      ∧ g.zoneSize * z + g.zoneCap ≤ g.zoneSize * (z + 1) := by
  have hend := g.chunk_end_le_cap hc
  have hnext : g.zoneSize * (z + 1) ≤ g.nrZones * g.zoneSize := by
    rw [Nat.mul_comm]
    exact Nat.mul_le_mul_right _ hz
  rw [Nat.mul_succ] at hnext ⊢
  have hwp : g.wp z c = g.zoneSize * z + c * g.chunkSz := by
    unfold Geometry.wp chunkPointer
    -- a chunk of no bytes is at the start of its zone, which may be its end
    have hle : g.zoneSize * z + c * g.chunkSz < 2 ^ 64 := by omega
    rw [Nat.mod_eq_of_lt (by omega : g.zoneSize * z < 2 ^ 64),
      Nat.mod_eq_of_lt (by omega : c * g.chunkSz < 2 ^ 64), Nat.mod_eq_of_lt hle]
  omega

/-- Distinct chunks have no byte in common. -/
theorem wp_apart {g : Geometry} (hsize : g.zoneCap ≤ g.zoneSize)
    (haddr : g.nrZones * g.zoneSize < 2 ^ 64) {z c z' c' : Nat} (hz : z < g.nrZones)
    (hc : c < g.maxZoneChunks) (hz' : z' < g.nrZones) (hc' : c' < g.maxZoneChunks)
    (hne : (z, c) ≠ (z', c')) :
    g.wp z c + g.chunkSz ≤ g.wp z' c' ∨ g.wp z' c' + g.chunkSz ≤ g.wp z c := by
  obtain ⟨hwp, hin, hnext⟩ := wp_in_zone hsize haddr hz hc
  obtain ⟨hwp', hin', hnext'⟩ := wp_in_zone hsize haddr hz' hc'
  rcases Nat.lt_trichotomy z z' with h | h | h
  · have hzones : g.zoneSize * (z + 1) ≤ g.zoneSize * z' := Nat.mul_le_mul_left _ h
    omega
  · subst h
    rcases Nat.lt_trichotomy c c' with h | h | h
    · have hchunks : (c + 1) * g.chunkSz ≤ c' * g.chunkSz := Nat.mul_le_mul_right _ h
      rw [Nat.succ_mul] at hchunks
      omega
    · exact absurd (by rw [h]) hne
    · have hchunks : (c' + 1) * g.chunkSz ≤ c * g.chunkSz := Nat.mul_le_mul_right _ h
      rw [Nat.succ_mul] at hchunks
      omega
  · have hzones : g.zoneSize * (z' + 1) ≤ g.zoneSize * z := Nat.mul_le_mul_left _ h
    omega

/-! ## §4. The whole run. -/

/-- **THE ALLOCATION THEOREM.**  In every run: no zone is held twice; since its
last reset a zone's chunks were committed in order, each once, and it is full
exactly when all of them are; an offset is handed out again only after its
write failed; and the bytes of the chunks ever handed out lie in their zones
and are disjoint. -/
theorem allocation_sequential (g : Geometry) (hchunk : 1 ≤ g.chunkSz)
    (hcap : g.chunkSz ≤ g.zoneCap) (hsize : g.zoneCap ≤ g.zoneSize)
    (hwide : g.maxZoneChunks < 2 ^ 32) (haddr : g.nrZones * g.zoneSize < 2 ^ 64) (r : ZsmLog)
    (hr : (zsmLogSystem g).Reach (fun r op => op.Allowed g r.run) r) :
    (r.run.handedOut.map ZnPair.zone).Nodup
    ∧ (∀ z, ∃ n ≤ g.maxZoneChunks, committedOffsets z r.log = List.range n
        ∧ ((r.run.zsm.state z).state = .full ↔ n = g.maxZoneChunks))
    ∧ (∀ z k newer between older,
        zoneLife z r.log = newer ++ .take k :: (between ++ .take k :: older) →
          .giveUp k ∈ between)
    ∧ (∀ p, .handOut p ∈ r.log → g.zoneSize * p.zone ≤ g.wp p.zone p.chunkOffset
        ∧ g.wp p.zone p.chunkOffset + g.chunkSz ≤ g.zoneSize * p.zone + g.zoneCap)
    ∧ ∀ p q, .handOut p ∈ r.log → .handOut q ∈ r.log →
        (p.zone, p.chunkOffset) ≠ (q.zone, q.chunkOffset) →
          g.wp p.zone p.chunkOffset + g.chunkSz ≤ g.wp q.zone q.chunkOffset
            ∨ g.wp q.zone q.chunkOffset + g.chunkSz ≤ g.wp p.zone p.chunkOffset := by
  have hmax : 1 ≤ g.maxZoneChunks := Nat.div_pos hcap hchunk
  have h := ZsmLogInv.reach hmax hwide hr
  refine ⟨h.run.zones_nodup, ?_, ?_, ?_, ?_⟩
  · intro z
    refine ⟨(r.run.zsm.state z).filled g, ?_, (h.life z).commits, ?_⟩
    · by_cases hfull : (r.run.zsm.state z).state = .full
      · rw [ZnZone.filled, if_pos hfull]
      · rw [ZnZone.filled, if_neg hfull]
        exact Nat.le_of_lt (h.run.inv.offset_lt hmax hfull)
    · by_cases hfull : (r.run.zsm.state z).state = .full
      · rw [ZnZone.filled, if_pos hfull]
        exact iff_of_true hfull rfl
      · rw [ZnZone.filled, if_neg hfull]
        apply iff_of_false hfull
        exact Nat.ne_of_lt (h.run.inv.offset_lt hmax hfull)
  · intro z k newer between older hlog
    exact (h.life z).retaken hlog
  · intro p hp
    obtain ⟨hz, hc⟩ := h.handed p hp
    obtain ⟨hwp, hin, -⟩ := wp_in_zone hsize haddr hz hc
    omega
  · intro p q hp hq hne
    obtain ⟨hz, hc⟩ := h.handed p hp
    obtain ⟨hz', hc'⟩ := h.handed q hq
    exact wp_apart hsize haddr hz hc hz' hc' hne

/-- Replay one allowed call, with its log. -/
def zsmLogReplay (g : Geometry) (r : ZsmLog) (op : ZsmOp) : Option ZsmLog :=
  (zsmReplay g r.run op).map fun run => ⟨run, op.events g r.run ++ r.log⟩

theorem zsmLogReplay_sound (g : Geometry) (r : ZsmLog) (op : ZsmOp) (r' : ZsmLog)
    (h : zsmLogReplay g r op = some r') : op.Allowed g r.run ∧ (zsmLogSystem g).step r op r' := by
  obtain ⟨run, hrun, rfl⟩ := Option.map_eq_some_iff.mp h
  obtain ⟨hop, hs⟩ := zsmReplay_sound g r.run op run hrun
  exact ⟨hop, hs, rfl⟩

/-- One zone of two chunks: the first is written at the second try, the zone is
filled, reset, and handed out again. -/
theorem allocation_sequential_refilled :
    ∃ r : ZsmLog, r.log = [.handOut ⟨0, 0, 0, false⟩, .reset 0, .commit ⟨0, 1, 0, false⟩,
        .handOut ⟨0, 1, 0, false⟩, .commit ⟨0, 0, 0, false⟩, .handOut ⟨0, 0, 0, false⟩,
        .failed ⟨0, 0, 0, false⟩, .handOut ⟨0, 0, 0, false⟩]
      ∧ (r.run.handedOut.map ZnPair.zone).Nodup := by
  obtain ⟨r, hr, hlog⟩ := TransSys.Reach.exists_of_exec (zsmLogReplay_sound ⟨1, 1, 1, 2, 2, .block⟩)
    rfl (fun r => r.log = [.handOut ⟨0, 0, 0, false⟩, .reset 0, .commit ⟨0, 1, 0, false⟩,
      .handOut ⟨0, 1, 0, false⟩, .commit ⟨0, 0, 0, false⟩, .handOut ⟨0, 0, 0, false⟩,
      .failed ⟨0, 0, 0, false⟩, .handOut ⟨0, 0, 0, false⟩])
    [.get 0, .fail ⟨0, 0, 0, false⟩, .get 0, .giveBack ⟨0, 0, 0, false⟩ 0, .get 0,
      .giveBack ⟨0, 1, 0, false⟩ 0, .evict 0 0, .get 0] (by decide)
  simp only [decide_eq_true_eq] at hlog
  have h := allocation_sequential ⟨1, 1, 1, 2, 2, .block⟩ (by decide) (by decide) (by decide)
    (by decide) (by decide) r hr
  exact ⟨r, hlog, h.1⟩

end ZnCache
