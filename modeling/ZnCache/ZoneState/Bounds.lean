/-
  ZnCache.ZoneState.Bounds — which geometries keep the chunks in their zones.

  A zone is closed when its offset, a `uint32_t`, equals the quotient
  `zone_cap / chunk_size`, a `uint64_t`, and nothing compares the two sizes
  before.  A quotient of zero is met only after the offset has gone round, and
  one of `2 ^ 32` or more is never met.

  Main result: `stays_in_zones_iff`.
-/
import ZnCache.ZoneState.History

namespace ZnCache

open Lib

/-- Every location handed out lies in its zone, and a zone takes only so many
chunks until it is full. -/
structure StaysInZones (g : Geometry) : Prop where
  inside : ∀ r, (zsmLogSystem g).Reach (fun r op => op.Allowed g r.run) r →
    ∀ p, .handOut p ∈ r.log → p.zone < g.nrZones ∧ (p.chunkOffset + 1) * g.chunkSz ≤ g.zoneCap
  finite : ∀ z, ∃ n, ∀ r, (zsmLogSystem g).Reach (fun r op => op.Allowed g r.run) r →
    (committedOffsets z r.log).length ≤ n
      ∧ ((committedOffsets z r.log).length = n → (r.run.zsm.state z).state = .full)

/-- A zone holds a chunk, and its chunks can be counted in 32 bits. -/
def Geometry.Counts (g : Geometry) : Prop :=
  g.chunkSz ≤ g.zoneCap ∧ g.zoneCap < 2 ^ 32 * g.chunkSz

variable {g : Geometry}

/-! ## §1. A quotient that is met. -/

theorem Geometry.Counts.quotient (h : g.Counts) (hchunk : 1 ≤ g.chunkSz) :
    1 ≤ g.maxZoneChunks ∧ g.maxZoneChunks < 2 ^ 32 :=
  ⟨Nat.div_pos h.1 hchunk, Nat.div_lt_of_lt_mul (by rw [Nat.mul_comm]; exact h.2)⟩

theorem Geometry.Counts.stays_in_zones (h : g.Counts) (hchunk : 1 ≤ g.chunkSz) :
    StaysInZones g := by
  obtain ⟨hmax, hwide⟩ := h.quotient hchunk
  constructor
  · intro r hr p hp
    obtain ⟨hz, hc⟩ := (ZsmLogInv.reach hmax hwide hr).handed p hp
    refine ⟨hz, ?_⟩
    rw [Nat.succ_mul]
    exact g.chunk_end_le_cap hc
  -- a zone takes as many chunks as the quotient says, and is full then
  · intro z
    refine ⟨g.maxZoneChunks, fun r hr => ?_⟩
    have hlog := ZsmLogInv.reach hmax hwide hr
    have hlen : (committedOffsets z r.log).length = (r.run.zsm.state z).filled g := by
      rw [committedOffsets, (hlog.life z).commits, List.length_range]
    rw [hlen]
    by_cases hfull : (r.run.zsm.state z).state = .full
    · rw [ZnZone.filled, if_pos hfull]
      exact ⟨Nat.le_refl _, fun _ => hfull⟩
    · have hlt := hlog.run.inv.offset_lt hmax hfull
      rw [ZnZone.filled, if_neg hfull]
      exact ⟨Nat.le_of_lt hlt, fun heq => absurd heq (Nat.ne_of_lt hlt)⟩

/-! ## §2. No zone is ever opened. -/

/-- Without zones, and where none may be open, the manager stays as it was. -/
theorem idle (hidle : g.nrZones = 0 ∨ g.maxNrActiveZones = 0) {r : ZsmLog}
    (hr : (zsmLogSystem g).Reach (fun r op => op.Allowed g r.run) r) :
    r = ⟨⟨zsmInit g, []⟩, []⟩ := by
  apply TransSys.Reach.invariant (I := fun r => r = ⟨⟨zsmInit g, []⟩, []⟩) _ _ hr
  · intro r hinit
    exact hinit
  · intro r op r' _ hinv hop hs
    subst hinv
    obtain ⟨hrun, hlog⟩ := hs
    obtain ⟨run', log'⟩ := r'
    dsimp only at hrun hlog
    cases op with
    | get ret =>
      obtain ⟨res, s', hget, hcase⟩ := zsmGetActiveZone_spec (zsmInit_inv g) hop
      simp only [zsmOp, hget] at hrun
      simp only [ZsmOp.events, hget] at hlog
      cases hcase with
      | evict | retry =>
        cases hrun
        subst hlog
        rfl
      | reuse ha => cases ha
      | opened _ hf _ hroom =>
        exfalso
        -- a zone is opened if there is one, and a slot for it
        rcases hidle with hnone | hnone
        · have hf' : List.range g.nrZones = _ := hf
          rw [hnone] at hf'
          cases hf'
        · have hroom' : (0 : Int) < g.maxNrActiveZones := hroom
          omega
    | giveBack pair ret => exact absurd hop.1 (List.not_mem_nil)
    | fail pair => exact absurd hop (List.not_mem_nil)
    | evict z ret => cases hop.1

theorem stays_in_zones_of_idle (hidle : g.nrZones = 0 ∨ g.maxNrActiveZones = 0) :
    StaysInZones g := by
  constructor
  · intro r hr p hp
    rw [idle hidle hr] at hp
    cases hp
  · intro z
    refine ⟨1, fun r hr => ?_⟩
    rw [idle hidle hr]
    exact ⟨Nat.zero_le 1, fun heq => by cases heq⟩

/-! ## §3. A quotient that is not met. -/

/-- The first call hands out chunk 0 of zone 0. -/
theorem first_get (hzones : 1 ≤ g.nrZones) (hactive : 1 ≤ g.maxNrActiveZones) :
    ∃ s', zsmGetActiveZone g 0 (zsmInit g) = .ok (.success (locationOf (zsmInit g) 0), s')
      ∧ s'.active = [] := by
  obtain ⟨res, s', hget, hcase⟩ := zsmGetActiveZone_spec (zsmInit_inv g) (Or.inr rfl)
  cases hcase with
  | evict _ hf =>
    have hf' : List.range g.nrZones = [] := hf
    rw [List.range_eq_nil] at hf'
    omega
  | retry _ hbusy =>
    rcases hbusy with hf | hroom
    · have hf' : List.range g.nrZones = [] := hf
      rw [List.range_eq_nil] at hf'
      omega
    · have hroom' : (g.maxNrActiveZones : Int) ≤ 0 := hroom
      omega
  | reuse ha => cases ha
  | @opened z rest _ hf =>
    have hf' : List.range g.nrZones = z :: rest := hf
    obtain ⟨n, hn⟩ := Nat.exists_eq_succ_of_ne_zero (Nat.ne_of_gt hzones)
    rw [hn, List.range_succ_eq_map] at hf'
    obtain ⟨rfl, -⟩ := List.cons.inj hf'
    exact ⟨_, hget, rfl⟩

/-- A chunk that is larger than its zone is handed out at once. -/
theorem not_inside_of_large (hlarge : g.zoneCap < g.chunkSz) (hzones : 1 ≤ g.nrZones)
    (hactive : 1 ≤ g.maxNrActiveZones) : ¬ StaysInZones g := by
  intro h
  obtain ⟨s', hget, -⟩ := first_get hzones hactive
  have hr : (zsmLogSystem g).Reach (fun r op => op.Allowed g r.run)
      ⟨⟨s', [locationOf (zsmInit g) 0]⟩, [.handOut (locationOf (zsmInit g) 0)]⟩ := by
    refine .next (.start rfl) (l := .get 0) (Or.inr rfl) ⟨?_, ?_⟩
    · simp only [zsmOp, hget]
      rfl
    · simp only [ZsmOp.events, hget, List.append_nil]
  have hin := (h.inside _ hr _ (List.mem_singleton_self _)).2
  have hin' : (0 + 1) * g.chunkSz ≤ g.zoneCap := hin
  omega

/-- Zone 0 is being written, no other zone is open, and `n` of its chunks are
committed. -/
structure Filling (g : Geometry) (n : Nat) (r : ZsmLog) : Prop where
  reach : (zsmLogSystem g).Reach (fun r op => op.Allowed g r.run) r
  run : ZsmRunInv g r.run
  held : ∃ p, p.zone = 0 ∧ r.run.handedOut = [p]
  active : r.run.zsm.active = []
  count : (committedOffsets 0 r.log).length = n

/-- Zone 0 is handed out, and nothing else is. -/
theorem Filling.of_get (hmax : 1 ≤ g.maxZoneChunks) {r : ZsmLog}
    (hr : (zsmLogSystem g).Reach (fun r op => op.Allowed g r.run) r) (hrun : ZsmRunInv g r.run)
    (hnone : r.run.handedOut = []) {s' : ZoneStateManager}
    (hget : zsmGetActiveZone g 0 r.run.zsm = .ok (.success (locationOf r.run.zsm 0), s'))
    (hactive : s'.active = []) :
    Filling g (committedOffsets 0 r.log).length
      ⟨⟨s', [locationOf r.run.zsm 0]⟩, .handOut (locationOf r.run.zsm 0) :: r.log⟩ := by
  have hop : (ZsmOp.get 0).Allowed g r.run := Or.inr rfl
  have htake : zsmOp g r.run (.get 0) = .ok ⟨s', [locationOf r.run.zsm 0]⟩ := by
    simp only [zsmOp, hget, hnone]
    rfl
  obtain ⟨run', heq, hrun'⟩ := hrun.step hmax hop
  obtain rfl : run' = ⟨s', [locationOf r.run.zsm 0]⟩ := Except.ok.inj (heq.symm.trans htake)
  refine ⟨.next hr hop ⟨htake, ?_⟩, hrun', ⟨_, rfl, rfl⟩, hactive, ?_⟩
  · simp only [ZsmOp.events, hget]
    rfl
  · have hslot : (ZsmEvent.handOut (locationOf r.run.zsm 0)).slot 0
        = some (.take (r.run.zsm.state 0).chunkOffset) := by
      simp [ZsmEvent.slot, locationOf]
    unfold committedOffsets
    rw [zoneLife_slot hslot]
    rfl

/-- A chunk is committed, and the next one is handed out. -/
theorem Filling.next (hwide : 2 ^ 32 ≤ g.maxZoneChunks) {n : Nat} {r : ZsmLog}
    (h : Filling g n r) : ∃ r', Filling g (n + 1) r' := by
  have hmax : 1 ≤ g.maxZoneChunks := by omega
  obtain ⟨p, hzone, hheld⟩ := h.held
  have hp : p ∈ r.run.handedOut := by rw [hheld]; exact List.mem_singleton_self p
  have hst := h.run.state_of_mem hp
  have hoff := h.run.offset p hp
  -- the offset is below `2 ^ 32`, and so it is never the quotient
  have hnever : (p.chunkOffset + 1) % 2 ^ 32 ≠ g.maxZoneChunks := by omega
  have hback : zsmOp g r.run (.giveBack p 0) = .ok ⟨committed g r.run.zsm p, []⟩ := by
    simp only [zsmOp, zsmReturnActiveZone_spec h.run.inv (Or.inr rfl) hst hoff, hheld]
    rw [List.erase_cons_head]
    rfl
  have hgive : (ZsmOp.giveBack p 0).Allowed g r.run := ⟨hp, Or.inr rfl⟩
  obtain ⟨run₁, heq, hrun₁⟩ := h.run.step hmax hgive
  obtain rfl : run₁ = ⟨committed g r.run.zsm p, []⟩ := Except.ok.inj (heq.symm.trans hback)
  have hreach₁ : (zsmLogSystem g).Reach (fun r op => op.Allowed g r.run)
      ⟨⟨committed g r.run.zsm p, []⟩, .commit p :: r.log⟩ := .next h.reach hgive ⟨hback, rfl⟩
  have hcount : (committedOffsets 0 (.commit p :: r.log)).length = n + 1 := by
    have hslot : (ZsmEvent.commit p).slot 0 = some (.commit p.chunkOffset) := if_pos hzone
    rw [← h.count]
    unfold committedOffsets
    rw [zoneLife_slot hslot, List.length_reverse, List.length_reverse]
    rfl
  have hactive : (committed g r.run.zsm p).active = [0] := by
    rw [committed, if_neg hnever, h.active, hzone]
    rfl
  have hok : DeviceOk g 0 := Or.inr rfl
  obtain ⟨res, s', hget, hcase⟩ := zsmGetActiveZone_spec hrun₁.inv hok
  cases hcase with
  | evict ha | retry ha | opened ha =>
    have hnil : (committed g r.run.zsm p).active = [] := ha
    rw [hactive] at hnil
    cases hnil
  | @reuse z rest ha =>
    have hcons : (committed g r.run.zsm p).active = z :: rest := ha
    rw [hactive] at hcons
    obtain ⟨rfl, rfl⟩ := List.cons.inj hcons
    rw [← hcount]
    exact ⟨_, Filling.of_get hmax hreach₁ hrun₁ rfl hget rfl⟩

/-- A zone whose quotient is not met takes chunks for ever. -/
theorem not_finite_of_wide (hwide : 2 ^ 32 ≤ g.maxZoneChunks) (hzones : 1 ≤ g.nrZones)
    (hactive : 1 ≤ g.maxNrActiveZones) : ¬ StaysInZones g := by
  intro h
  have hmax : 1 ≤ g.maxZoneChunks := by omega
  have hfill : ∀ n, ∃ r, Filling g n r := by
    intro n
    induction n with
    | zero =>
      obtain ⟨s', hget, hnone⟩ := first_get hzones hactive
      exact ⟨_, Filling.of_get (r := ⟨⟨zsmInit g, []⟩, []⟩) hmax (.start rfl)
        (zsmRun_inv hmax (.start rfl)) rfl hget hnone⟩
    | succ n ih =>
      obtain ⟨r, hr⟩ := ih
      exact hr.next hwide
  obtain ⟨n, hn⟩ := h.finite 0
  obtain ⟨r, hr⟩ := hfill (n + 1)
  have hle := (hn r hr.reach).1
  rw [hr.count] at hle
  omega

/-! ## §4. The geometries. -/

/-- **The chunks stay in their zones, and a zone becomes full, if and only if a
zone holds a chunk and fewer than `2 ^ 32` of them**, or no zone is ever
opened. -/
theorem stays_in_zones_iff (g : Geometry) (hchunk : 1 ≤ g.chunkSz) :
    StaysInZones g ↔ g.Counts ∨ g.nrZones = 0 ∨ g.maxNrActiveZones = 0 := by
  constructor
  · intro h
    by_contra hnot
    push Not at hnot
    obtain ⟨hcounts, hzones, hactive⟩ := hnot
    have hzones' : 1 ≤ g.nrZones := Nat.one_le_iff_ne_zero.mpr hzones
    have hactive' : 1 ≤ g.maxNrActiveZones := Nat.one_le_iff_ne_zero.mpr hactive
    by_cases hcap : g.chunkSz ≤ g.zoneCap
    · have hwide : 2 ^ 32 ≤ g.maxZoneChunks := by
        rw [Geometry.maxZoneChunks, Nat.le_div_iff_mul_le hchunk]
        by_contra hlt
        exact hcounts ⟨hcap, Nat.lt_of_not_le hlt⟩
      exact not_finite_of_wide hwide hzones' hactive' h
    · exact not_inside_of_large (Nat.lt_of_not_le hcap) hzones' hactive' h
  · rintro (hcounts | hidle)
    · exact hcounts.stays_in_zones hchunk
    · exact stays_in_zones_of_idle hidle

/-- Zones of two chunks. -/
theorem stays_in_zones_two_chunks : StaysInZones ⟨4, 2, 4096, 8192, 8192, .zns⟩ :=
  (stays_in_zones_iff ⟨4, 2, 4096, 8192, 8192, .zns⟩ (by decide)).mpr
    (Or.inl ⟨by decide, by decide⟩)

/-- **Chunks of 8192 bytes in zones of 4096**: the first location handed out
reaches into the next zone; and when its write fails, `zsm_failed_to_write`
stops at its assertion. -/
theorem chunk_beyond_zone :
    (∃ r, (zsmLogSystem ⟨4, 2, 8192, 4096, 4096, .zns⟩).Reach
        (fun r op => op.Allowed ⟨4, 2, 8192, 4096, 4096, .zns⟩ r.run) r
      ∧ r.log = [.handOut ⟨0, 0, 0, false⟩]
      ∧ (zsmOp ⟨4, 2, 8192, 4096, 4096, .zns⟩ r.run (.fail ⟨0, 0, 0, false⟩)).map (fun _ => ())
        = .error .assertion)
    ∧ ¬ StaysInZones ⟨4, 2, 8192, 4096, 4096, .zns⟩ := by
  obtain ⟨r, hr, hlog⟩ := TransSys.Reach.exists_of_exec
    (zsmLogReplay_sound ⟨4, 2, 8192, 4096, 4096, .zns⟩) rfl
    (fun r => r.log = [.handOut ⟨0, 0, 0, false⟩]
      ∧ (zsmOp ⟨4, 2, 8192, 4096, 4096, .zns⟩ r.run (.fail ⟨0, 0, 0, false⟩)).map (fun _ => ())
        = .error .assertion) [.get 0] (by decide)
  rw [decide_eq_true_iff] at hlog
  refine ⟨⟨r, hr, hlog⟩, fun h => ?_⟩
  have hin := (h.inside r hr ⟨0, 0, 0, false⟩ (by rw [hlog.1]; exact .head _)).2
  exact absurd hin (by decide)

end ZnCache
