/-
  ZnCache.ZoneState.Cases — what a call to the zone state manager did, if it
  returned.

  `ZoneState.Invariant` says what a call does on a state that satisfies the
  representation invariant when the device obeys.  Here nothing is assumed of
  the state or of the device: the assertions inside the calls are the source
  of what is known.  A zone command that fails loses the zone: an opened zone
  has left the free queue, a closed one stays `WRITE_OCCURING` in no queue.
-/
import ZnCache.ZoneState.Invariant

namespace ZnCache

variable {g : Geometry} {ret : Int} {s s' : ZoneStateManager}

/-! ## §1. `zsm_get_active_zone`. -/

/-- The ways `zsm_get_active_zone` can return. -/
inductive AcquireCase (s : ZoneStateManager) : ZsmGetActiveZone → ZoneStateManager → Prop
  | unchanged {r : ZsmGetActiveZone} (hr : ∀ l, r ≠ .success l) : AcquireCase s r s
  | lost {z : Nat} {rest : List Nat} (hf : s.free = z :: rest) :
      AcquireCase s .error { s with free := rest }
  | reuse {z : Nat} {rest : List Nat} (ha : s.active = z :: rest)
      (hst : (s.state z).state = .active) :
      AcquireCase s (.success ⟨(s.state z).zoneId, (s.state z).chunkOffset, 0, false⟩)
        { s.setZone z { s.state z with state := .writeOccuring } with
          active := rest, writesOccurring := s.writesOccurring + 1 }
  | opened {z : Nat} {rest : List Nat} (hf : s.free = z :: rest)
      (hst : (s.state z).state = .free) :
      AcquireCase s (.success ⟨(s.state z).zoneId, 0, 0, false⟩)
        { s.setZone z { s.state z with state := .writeOccuring, chunkOffset := 0 } with
          free := rest, writesOccurring := s.writesOccurring + 1 }

theorem takeActiveZone_ok {r : ZsmGetActiveZone} (h : takeActiveZone s = .ok (r, s')) :
    ∃ z rest, s.active = z :: rest ∧ (s.state z).state = .active
      ∧ r = .success ⟨(s.state z).zoneId, (s.state z).chunkOffset, 0, false⟩
      ∧ s' = { s.setZone z { s.state z with state := .writeOccuring } with
          active := rest, writesOccurring := s.writesOccurring + 1 } := by
  unfold takeActiveZone at h
  split at h
  · cases h
  · rename_i z rest ha
    obtain ⟨hst, h⟩ := check_bind_ok h
    cases h
    exact ⟨z, rest, ha, hst, rfl, rfl⟩

/-- A failed `open_zone` leaves the state. -/
theorem openZone_ok {z : Nat} {r : Int} (h : openZone g ret s z = .ok (r, s')) :
    (s.state z).state = .free ∧ ((r ≠ 0 ∧ s' = s) ∨ (r = 0 ∧
      s' = { s.setZone z { s.state z with state := .active, chunkOffset := 0 } with
        active := s.active ++ [z] })) := by
  unfold openZone at h
  obtain ⟨hst, h⟩ := check_bind_ok h
  refine ⟨hst, ?_⟩
  split at h
  · cases h
    exact Or.inl ⟨by decide, rfl⟩
  · split at h
    · rename_i hfail
      cases h
      exact Or.inl ⟨hfail.2, rfl⟩
    · cases h
      exact Or.inr ⟨rfl, rfl⟩

theorem zsmGetActiveZone_cases {r : ZsmGetActiveZone}
    (h : zsmGetActiveZone g ret s = .ok (r, s')) : AcquireCase s r s' := by
  unfold zsmGetActiveZone at h
  split at h
  · cases h
    exact .unchanged (by simp)
  · obtain ⟨-, h⟩ := check_bind_ok h
    split at h
    · rename_i hempty
      split at h
      · split at h
        · cases h
        · rename_i z rest hf
          obtain ⟨hst, h⟩ := check_bind_ok h
          obtain ⟨⟨o, s₁⟩, ho, h⟩ := bind_eq_ok h
          have h' : (if o ≠ 0 then Except.ok (ZsmGetActiveZone.error, s₁)
            else takeActiveZone s₁) = .ok (r, s') := h
          obtain ⟨-, ⟨hr, rfl⟩ | ⟨hr, rfl⟩⟩ := openZone_ok ho
          · -- the zone is lost
            rw [if_pos hr] at h'
            cases h'
            exact .lost hf
          · rw [if_neg (by simpa using hr)] at h'
            obtain ⟨z', rest', ha', -, rfl, rfl⟩ := takeActiveZone_ok h'
            have hnil : s.active = [] := List.length_eq_zero_iff.mp hempty
            simp only [hnil, List.nil_append, List.cons.injEq] at ha'
            obtain ⟨rfl, rfl⟩ := ha'
            have hopen := AcquireCase.opened (s := s) hf hst
            simpa [ZoneStateManager.setZone, hnil] using hopen
      · cases h
        exact .unchanged (by simp)
    · obtain ⟨z, rest, ha, hst, rfl, rfl⟩ := takeActiveZone_ok h
      exact .reuse ha hst

/-- A full zone is not handed out. -/
theorem AcquireCase.full {r : ZsmGetActiveZone} (h : AcquireCase s r s') {z : Nat}
    (hz : (s.state z).state = .full) : (s'.state z).state = .full := by
  -- a zone that is handed out was active or free
  have hne : ∀ {z' : Nat}, (s.state z').state ≠ .full → z ≠ z' := by
    intro z' hst heq
    exact hst (heq ▸ hz)
  cases h with
  | unchanged | lost => exact hz
  | @reuse z' rest ha hst =>
    show (Function.update s.state z' _ z).state = _
    rw [Function.update_of_ne (hne (by rw [hst]; decide))]
    exact hz
  | @opened z' rest hf hst =>
    show (Function.update s.state z' _ z).state = _
    rw [Function.update_of_ne (hne (by rw [hst]; decide))]
    exact hz

/-! ## §2. The other calls. -/

/-- The ways `zsm_return_active_zone` can return. -/
inductive ReturnCase (g : Geometry) (s : ZoneStateManager) (pair : ZnPair) :
    ZoneStateManager → Prop
  | closed (hlast : (pair.chunkOffset + 1) % 2 ^ 32 = g.maxZoneChunks) :
      ReturnCase g s pair { s.setZone pair.zone (closedZone s pair.zone) with
        writesOccurring := s.writesOccurring - 1 }
  | stuck (hlast : (pair.chunkOffset + 1) % 2 ^ 32 = g.maxZoneChunks) :
      ReturnCase g s pair { s.setZone pair.zone { s.state pair.zone with
        chunkOffset := (pair.chunkOffset + 1) % 2 ^ 32 } with
        writesOccurring := s.writesOccurring - 1 }
  | reopened (hnot : (pair.chunkOffset + 1) % 2 ^ 32 ≠ g.maxZoneChunks) :
      ReturnCase g s pair { s.setZone pair.zone
          (reopenedZone s pair.zone ((pair.chunkOffset + 1) % 2 ^ 32)) with
        active := s.active ++ [pair.zone], writesOccurring := s.writesOccurring - 1 }

/-- Nothing happens to the other zones. -/
theorem ReturnCase.state_ne {pair : ZnPair} (h : ReturnCase g s pair s') {z : Nat}
    (hz : z ≠ pair.zone) : s'.state z = s.state z ∧ (z ∈ s'.active → z ∈ s.active) := by
  cases h <;> simp [hz]

theorem zsmReturnActiveZone_cases {pair : ZnPair} {r : Int}
    (h : zsmReturnActiveZone g ret s pair = .ok (r, s')) :
    (s.state pair.zone).state = .writeOccuring
      ∧ (s.state pair.zone).chunkOffset = pair.chunkOffset
      ∧ ReturnCase g s pair s' := by
  unfold zsmReturnActiveZone at h
  obtain ⟨-, h⟩ := check_bind_ok h
  obtain ⟨hst, h⟩ := check_bind_ok h
  obtain ⟨hoff, h⟩ := check_bind_ok h
  refine ⟨hst, hoff, ?_⟩
  simp only [hoff] at h
  split at h
  · rename_i hlast
    -- `close_zone` on a zone that is not full yet
    have hclose := Except.ok.inj h
    unfold closeZone at hclose
    rw [if_neg (by simp [hst])] at hclose
    split at hclose
    · obtain ⟨-, rfl⟩ := Prod.mk.inj hclose
      exact .stuck hlast
    · obtain ⟨-, rfl⟩ := Prod.mk.inj hclose
      have hc := ReturnCase.closed (s := s) hlast
      simpa [ZoneStateManager.setZone, closedZone] using hc
  · rename_i hnot
    cases h
    have hr := ReturnCase.reopened (s := s) hnot
    simpa [ZoneStateManager.setZone, reopenedZone] using hr

/-- When the device obeys, the last chunk closes its zone. -/
theorem zsmReturnActiveZone_deviceOk {pair : ZnPair} {r : Int} (hret : DeviceOk g ret)
    (h : zsmReturnActiveZone g ret s pair = .ok (r, s'))
    (hlast : (pair.chunkOffset + 1) % 2 ^ 32 = g.maxZoneChunks) :
    (s'.state pair.zone).state = .full := by
  unfold zsmReturnActiveZone at h
  obtain ⟨-, h⟩ := check_bind_ok h
  obtain ⟨hst, h⟩ := check_bind_ok h
  obtain ⟨hoff, h⟩ := check_bind_ok h
  simp only [hoff, if_pos hlast] at h
  have hclose := Except.ok.inj h
  unfold closeZone at hclose
  rw [if_neg (by simp [hst]), if_neg hret.not_failed] at hclose
  obtain ⟨-, rfl⟩ := Prod.mk.inj hclose
  simp

theorem zsmFailedToWrite_cases {pair : ZnPair} (h : zsmFailedToWrite g s pair = .ok s') :
    (s.state pair.zone).state = .writeOccuring
      ∧ (s.state pair.zone).chunkOffset = pair.chunkOffset ∧ s' = abandoned s pair := by
  unfold zsmFailedToWrite at h
  obtain ⟨-, h⟩ := check_bind_ok h
  obtain ⟨hst, h⟩ := check_bind_ok h
  obtain ⟨hoff, h⟩ := check_bind_ok h
  obtain ⟨-, h⟩ := check_bind_ok h
  refine ⟨hst, hoff, ?_⟩
  cases h
  simp [abandoned, reopenedZone, hoff, ZoneStateManager.setZone]

/-- Whatever the device answers, `zsm_evict` returns only from a successful
reset: the assertion after a failed one fails. -/
theorem zsmEvict_returns {z : Nat} {e : Int} (h : zsmEvict g ret s z = .ok (e, s')) :
    (s.state z).state = .full ∧ e = 0 ∧ ¬ (g.backend = .zns ∧ ret ≠ 0) ∧ s' = evicted s z := by
  unfold zsmEvict at h
  obtain ⟨hst, h⟩ := check_bind_ok h
  have hfree : ¬ (s.state z).state = .free := by simp [hst]
  unfold resetZone at h
  rw [if_neg hfree] at h
  by_cases hfail : g.backend = .zns ∧ ret ≠ 0
  · rw [if_pos hfail] at h
    simp only [if_neg hfail.2] at h
    obtain ⟨hf, -⟩ := check_bind_ok h
    exact absurd hf hfree
  · rw [if_neg hfail] at h
    simp only [if_true] at h
    cases h
    exact ⟨hst, rfl, hfail, rfl⟩

theorem zsmEvict_cases {z : Nat} (h : zsmEvict g ret s z = .ok (0, s')) :
    (s.state z).state = .full ∧ s' = evicted s z := by
  obtain ⟨hst, -, -, hs'⟩ := zsmEvict_returns h
  exact ⟨hst, hs'⟩

/-- Marking a chunk invalid changes nothing else of its zone, and nothing of
another. -/
theorem zsmMarkChunkInvalid_same (s : ZoneStateManager) (location : ZnPair) (z : Nat) :
    ((zsmMarkChunkInvalid s location).state z).zoneId = (s.state z).zoneId
      ∧ ((zsmMarkChunkInvalid s location).state z).state = (s.state z).state
      ∧ ((zsmMarkChunkInvalid s location).state z).chunkOffset = (s.state z).chunkOffset := by
  unfold zsmMarkChunkInvalid
  rw [ZoneStateManager.setZone_state]
  by_cases hz : z = location.zone
  · rw [hz, Function.update_self]
    exact ⟨rfl, rfl, rfl⟩
  · rw [Function.update_of_ne hz]
    exact ⟨rfl, rfl, rfl⟩

/-! ## §3. The zones are those of the array. -/

/-- Zones that are queued as free or in use are zones of the array. -/
structure InArray (g : Geometry) (s : ZoneStateManager) : Prop where
  free : ∀ z ∈ s.free, z < g.nrZones
  used : ∀ z, (s.state z).state ≠ .free → z < g.nrZones

namespace InArray

theorem init (g : Geometry) : InArray g (zsmInit g) where
  free _ hz := List.mem_range.mp hz
  used _ hz := absurd rfl hz

/-- A zone of the array may change its record, and be queued. -/
theorem setZone (h : InArray g s) {z : Nat} (hz : z < g.nrZones) {zn : ZnZone}
    {active' free' : List Nat} {writes' : Int} (hfree : ∀ y ∈ free', y = z ∨ y ∈ s.free) :
    InArray g { active := active', free := free', state := Function.update s.state z zn,
                writesOccurring := writes' } where
  free y hy := by
    rcases hfree y hy with rfl | hy
    · exact hz
    · exact h.free y hy
  used y hy := by
    by_cases hyz : y = z
    · exact hyz ▸ hz
    · have hy' : (Function.update s.state z zn y).state ≠ .free := hy
      rw [Function.update_of_ne hyz] at hy'
      exact h.used y hy'

theorem acquire (h : InArray g s) {r : ZsmGetActiveZone} (hc : AcquireCase s r s') :
    InArray g s' := by
  cases hc with
  | unchanged => exact h
  | lost hf => exact ⟨fun z hz => h.free z (by rw [hf]; exact List.mem_cons_of_mem _ hz), h.used⟩
  | @reuse z rest ha hst =>
    exact h.setZone (h.used z (by simp [hst])) fun y hy => Or.inr hy
  | @opened z rest hf hst =>
    refine h.setZone (h.free z (by rw [hf]; exact List.mem_cons_self ..)) fun y hy => Or.inr ?_
    rw [hf]
    exact List.mem_cons_of_mem z hy

theorem commit (h : InArray g s) {pair : ZnPair} (hst : (s.state pair.zone).state = .writeOccuring)
    (hc : ReturnCase g s pair s') : InArray g s' := by
  have hz := h.used pair.zone (by simp [hst])
  cases hc with
  | closed | stuck | reopened => exact h.setZone hz fun y hy => Or.inr hy

theorem abandon (h : InArray g s) {pair : ZnPair}
    (hst : (s.state pair.zone).state = .writeOccuring) : InArray g (abandoned s pair) :=
  h.setZone (h.used pair.zone (by simp [hst])) fun _ hy => Or.inr hy

theorem evict (h : InArray g s) {z : Nat} (hst : (s.state z).state = .full) :
    InArray g (evicted s z) := by
  refine h.setZone (h.used z (by simp [hst])) fun y hy => ?_
  rcases List.mem_append.mp hy with hy | hy
  · exact Or.inr hy
  · exact Or.inl (List.mem_singleton.mp hy)

end InArray

end ZnCache
