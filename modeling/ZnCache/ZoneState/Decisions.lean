/-
  ZnCache.ZoneState.Decisions — what the answers of `zsm_get_active_zone` say
  about the zones.

  The answer is computed from two queue lengths and a counter.  `ZonesQueued`
  says that the queues miss no zone and the counter no writer, so the answer
  can be read as a statement about the conditions of the zones.

  Zone commands succeed.  Nothing is assumed of the chunks: the invariant does
  not know how many a zone has.

  Main result: `get_active_zone_warranted`.
-/
import ZnCache.ZoneState.DeviceErrors

namespace ZnCache

open Lib

/-! ## §1. The queues miss nothing. -/

/-- The callers' side, chunks marked invalid among the calls. -/
def ZsmUse.Allowed (g : Geometry) (r : ZsmRun) : ZsmUse → Prop
  | .call op => op.Allowed g r
  | .mark _ => True

instance ZsmUse.decAllowed (g : Geometry) (r : ZsmRun) (use : ZsmUse) :
    Decidable (use.Allowed g r) :=
  match use with
  | .call op => ZsmOp.decAllowed g r op
  | .mark _ => isTrue trivial

theorem ZsmUse.Allowed.called {g : Geometry} {r : ZsmRun} {use : ZsmUse}
    (h : use.Allowed g r) : use.Called r := by
  cases use with
  | mark => exact trivial
  | call op =>
    cases op with
    | get => exact trivial
    | giveBack => exact h.1
    | fail => exact h
    | evict => exact h.1

/-- **Every zone is where its condition says.** -/
structure ZonesQueued (g : Geometry) (r : ZsmRun) : Prop where
  in_array : InArray g r.zsm
  active_nodup : r.zsm.active.Nodup
  active_iff : ∀ z, z ∈ r.zsm.active ↔ (r.zsm.state z).state = .active
  free_mem : ∀ z, z < g.nrZones → (r.zsm.state z).state = .free → z ∈ r.zsm.free
  free_offset : ∀ z, (r.zsm.state z).state = .free → (r.zsm.state z).chunkOffset = 0
  held : ∀ z, (r.zsm.state z).state = .writeOccuring → ∃ p ∈ r.handedOut, p.zone = z

namespace ZonesQueued

variable {g : Geometry} {r : ZsmRun}

theorem init (g : Geometry) : ZonesQueued g ⟨zsmInit g, []⟩ where
  in_array := InArray.init g
  active_nodup := List.nodup_nil
  active_iff := by simp [zsmInit]
  free_mem := fun z hz _ => List.mem_range.mpr hz
  free_offset := fun _ _ => rfl
  held := by simp [zsmInit]

/-- One zone of the array moves; the others stay where they are. -/
theorem move (h : ZonesQueued g r) {z : Nat} (hz : z < g.nrZones) {zn : ZnZone}
    {free' active' : List Nat} {writes' : Int} {handedOut' : List ZnPair}
    (hfree : ∀ y, y ∈ free' ↔ if y = z then zn.state = .free else y ∈ r.zsm.free)
    (hnd : active'.Nodup)
    (hactive : ∀ y, y ∈ active' ↔ if y = z then zn.state = .active else y ∈ r.zsm.active)
    (hoff : zn.state = .free → zn.chunkOffset = 0)
    (hheld : zn.state = .writeOccuring → ∃ p ∈ handedOut', p.zone = z)
    (hkeep : ∀ p ∈ r.handedOut, p.zone ≠ z → p ∈ handedOut') :
    ZonesQueued g ⟨{ active := active', free := free', state := Function.update r.zsm.state z zn,
                     writesOccurring := writes' }, handedOut'⟩ where
  in_array := by
    refine h.in_array.setZone hz fun y hy => ?_
    by_cases hyz : y = z
    · exact Or.inl hyz
    · have hin := (hfree y).mp hy
      rw [if_neg hyz] at hin
      exact Or.inr hin
  active_nodup := hnd
  active_iff := by
    intro y
    dsimp only
    rw [hactive y]
    by_cases hyz : y = z
    · subst hyz
      rw [if_pos rfl, Function.update_self]
    · rw [if_neg hyz, Function.update_of_ne hyz]
      exact h.active_iff y
  free_mem := by
    intro y hy
    dsimp only
    rw [hfree y]
    by_cases hyz : y = z
    · subst hyz
      rw [if_pos rfl, Function.update_self]
      exact id
    · rw [if_neg hyz, Function.update_of_ne hyz]
      exact h.free_mem y hy
  free_offset := by
    intro y
    dsimp only
    by_cases hyz : y = z
    · subst hyz
      rw [Function.update_self]
      exact hoff
    · rw [Function.update_of_ne hyz]
      exact h.free_offset y
  held := by
    intro y
    dsimp only
    by_cases hyz : y = z
    · subst hyz
      rw [Function.update_self]
      exact hheld
    · rw [Function.update_of_ne hyz]
      intro hy
      obtain ⟨p, hp, rfl⟩ := h.held y hy
      exact ⟨p, hkeep p hp hyz, rfl⟩

/-- The call returns: its checks find the queues as they say. -/
theorem get_returns (h : ZonesQueued g r) (hb : ZsmBooks g r) {ret : Int} (hret : DeviceOk g ret) :
    ∃ res s', zsmGetActiveZone g ret r.zsm = .ok (res, s') ∧ GetActiveZoneCase g r.zsm res s' := by
  refine zsmGetActiveZone_returns ?_ (fun z hz => (h.active_iff z).mp hz) hb.free_state hb.zone_id
    h.free_offset hret
  rw [hb.writes]
  exact Int.natCast_nonneg _

theorem not_free_of_ne (hb : ZsmBooks g r) {z : Nat} {c : ZnZoneCondition}
    (hst : (r.zsm.state z).state = c) (hc : c ≠ .free) : z ∉ r.zsm.free :=
  fun hin => hc (hst.symm.trans (hb.free_state z hin))

/-- A zone given back, to the active queue. -/
theorem reopen (h : ZonesQueued g r) (hb : ZsmBooks g r) {p : ZnPair} (hp : p ∈ r.handedOut)
    (offset : Nat) :
    ZonesQueued g ⟨{ r.zsm.setZone p.zone (reopenedZone r.zsm p.zone offset) with
      active := r.zsm.active ++ [p.zone], writesOccurring := r.zsm.writesOccurring - 1 },
      r.handedOut.erase p⟩ := by
  have hst := hb.writing p hp
  have hna : p.zone ∉ r.zsm.active := fun hin => by
    have hact := (h.active_iff p.zone).mp hin
    rw [hst] at hact
    cases hact
  have hz := h.in_array.used p.zone (by rw [hst]; decide)
  refine h.move hz ?_ (nodup_push h.active_nodup hna) ?_ ?_ ?_ ?_
  · exact mem_of_unmoved (not_free_of_ne hb hst (by decide)) (by simp [reopenedZone])
  · intro y
    rw [mem_of_push y]
    simp [reopenedZone]
  · simp [reopenedZone]
  · simp [reopenedZone]
  · intro q hq hne
    exact (List.mem_erase_of_ne fun heq => hne (congrArg ZnPair.zone heq)).mpr hq

/-- **Step lemma.** -/
theorem step (h : ZonesQueued g r) (hb : ZsmBooks g r) {op : ZsmOp} (hop : op.Allowed g r)
    {r' : ZsmRun} (hs : zsmOp g r op = .ok r') : ZonesQueued g r' := by
  cases op with
  | get ret =>
    obtain ⟨res, s', heq, hcase⟩ := h.get_returns hb hop
    simp only [zsmOp, heq] at hs
    cases hcase with
    | evict | retry =>
      cases hs
      exact h
    | @reuse z rest ha hst =>
      cases hs
      have hnd := h.active_nodup
      rw [ha] at hnd
      have hz := h.in_array.used z (by rw [hst]; decide)
      refine h.move hz ?_ (List.nodup_cons.mp hnd).2 ?_ ?_ ?_ ?_
      · exact mem_of_unmoved (not_free_of_ne hb hst (by decide)) (by simp [writingZone])
      · intro y
        rw [mem_of_pop hnd y, ha]
        simp [writingZone]
      · simp [writingZone]
      · intro _
        exact ⟨locationOf r.zsm z, List.mem_cons_self, rfl⟩
      · intro q hq _
        exact List.mem_cons_of_mem _ hq
    | @opened z rest ha hf hst =>
      cases hs
      have hnd := hb.free_nodup
      rw [hf] at hnd
      have hz := h.in_array.free z (by rw [hf]; exact List.mem_cons_self)
      have hna : z ∉ r.zsm.active := by simp [ha]
      refine h.move hz ?_ h.active_nodup ?_ ?_ ?_ ?_
      · intro y
        rw [mem_of_pop hnd y, hf]
        simp [writingZone]
      · exact mem_of_unmoved hna (by simp [writingZone])
      · simp [writingZone]
      · intro _
        exact ⟨locationOf r.zsm z, List.mem_cons_self, rfl⟩
      · intro q hq _
        exact List.mem_cons_of_mem _ hq
  | giveBack p ret =>
    obtain ⟨hp, hret⟩ := hop
    obtain ⟨⟨e, s'⟩, hback, hs⟩ := bind_eq_ok hs
    cases hs
    obtain ⟨hst, -, hcase⟩ := zsmReturnActiveZone_cases hback
    have hz := h.in_array.used p.zone (by rw [hst]; decide)
    cases hcase with
    | reopened => exact h.reopen hb hp _
    | stuck hlast =>
      -- the device obeyed, so the zone is full and cannot be stuck
      have hfull := zsmReturnActiveZone_deviceOk hret hback hlast
      simp [hst] at hfull
    | closed =>
      have hna : p.zone ∉ r.zsm.active := fun hin => by
        have hact := (h.active_iff p.zone).mp hin
        rw [hst] at hact
        cases hact
      refine h.move hz ?_ h.active_nodup ?_ ?_ ?_ ?_
      · exact mem_of_unmoved (not_free_of_ne hb hst (by decide)) (by simp [closedZone])
      · exact mem_of_unmoved hna (by simp [closedZone])
      · simp [closedZone]
      · simp [closedZone]
      · intro q hq hne
        exact (List.mem_erase_of_ne fun heq => hne (congrArg ZnPair.zone heq)).mpr hq
  | fail p =>
    obtain ⟨s', hfail, hs⟩ := bind_eq_ok hs
    cases hs
    obtain ⟨-, -, rfl⟩ := zsmFailedToWrite_cases hfail
    exact h.reopen hb hop p.chunkOffset
  | evict z ret =>
    obtain ⟨⟨e, s'⟩, hev, hs⟩ := bind_eq_ok hs
    cases hs
    obtain ⟨hst, -, -, rfl⟩ := zsmEvict_returns hev
    have hz := h.in_array.used z (by rw [hst]; decide)
    have hna : z ∉ r.zsm.active := fun hin => by
      have hact := (h.active_iff z).mp hin
      rw [hst] at hact
      cases hact
    refine h.move hz ?_ h.active_nodup ?_ ?_ ?_ ?_
    · intro y
      rw [mem_of_push y]
      simp
    · exact mem_of_unmoved hna (by simp)
    · simp
    · simp
    · exact fun q hq _ => hq

/-- Marking a chunk moves no zone. -/
theorem mark (h : ZonesQueued g r) (location : ZnPair) :
    ZonesQueued g ⟨zsmMarkChunkInvalid r.zsm location, r.handedOut⟩ := by
  have hstate : ∀ z, ((zsmMarkChunkInvalid r.zsm location).state z).state
      = (r.zsm.state z).state := fun z => (zsmMarkChunkInvalid_same r.zsm location z).2.1
  refine ⟨⟨h.in_array.free, fun z hz => ?_⟩, h.active_nodup, fun z => ?_, fun z hz hst => ?_,
    fun z hst => ?_, fun z hst => ?_⟩
  · exact h.in_array.used z (hstate z ▸ hz)
  · exact (h.active_iff z).trans (by rw [← hstate z])
  · exact h.free_mem z hz (hstate z ▸ hst)
  · exact (zsmMarkChunkInvalid_same r.zsm location z).2.2.trans (h.free_offset z (hstate z ▸ hst))
  · exact h.held z (hstate z ▸ hst)

/-- **Run lemma.** -/
theorem reach (hr : (zsmUseSystem g).Reach (fun r use => use.Allowed g r) r) :
    ZonesQueued g r ∧ ZsmBooks g r := by
  refine ⟨hr.invariant (fun r h0 => ?_) fun r use r' hr h hc hs => ?_,
    ZsmBooks.reach (hr.mono fun _ _ h => h.called)⟩
  · obtain rfl : r = ⟨zsmInit g, []⟩ := h0
    exact init g
  · have hb := ZsmBooks.reach (hr.mono fun _ _ h => h.called)
    cases use with
    | call op => exact h.step hb hc hs
    | mark location =>
      cases hs
      exact h.mark location

/-! ## §2. What an empty queue says. -/

theorem active_eq_nil_iff (h : ZonesQueued g r) :
    r.zsm.active = [] ↔ ∀ z, z < g.nrZones → (r.zsm.state z).state ≠ .active := by
  rw [List.eq_nil_iff_forall_not_mem]
  constructor
  · intro hno z _ hst
    exact hno z ((h.active_iff z).mpr hst)
  · intro hno z hin
    have hst := (h.active_iff z).mp hin
    exact hno z (h.in_array.used z (by rw [hst]; decide)) hst

theorem free_eq_nil_iff (h : ZonesQueued g r) (hb : ZsmBooks g r) :
    r.zsm.free = [] ↔ ∀ z, z < g.nrZones → (r.zsm.state z).state ≠ .free := by
  rw [List.eq_nil_iff_forall_not_mem]
  constructor
  · intro hno z hz hst
    exact hno z (h.free_mem z hz hst)
  · intro hno z hin
    exact hno z (h.in_array.free z hin) (hb.free_state z hin)

theorem writes_eq_zero_iff (h : ZonesQueued g r) (hb : ZsmBooks g r) :
    r.zsm.writesOccurring = 0 ↔ ∀ z, z < g.nrZones → (r.zsm.state z).state ≠ .writeOccuring := by
  rw [hb.writes]
  constructor
  · intro hzero z _ hst
    obtain ⟨p, hp, -⟩ := h.held z hst
    have hpos := List.length_pos_of_mem hp
    omega
  · intro hno
    cases hl : r.handedOut with
    | nil => rfl
    | cons p rest =>
      have hst := hb.writing p (by rw [hl]; exact List.mem_cons_self)
      exact absurd hst (hno p.zone (h.in_array.used p.zone (by rw [hst]; decide)))

/-- Nothing queued and nothing written: every zone is full. -/
theorem all_full_iff (h : ZonesQueued g r) (hb : ZsmBooks g r) :
    (r.zsm.active = [] ∧ r.zsm.free = [] ∧ r.zsm.writesOccurring = 0)
      ↔ ∀ z, z < g.nrZones → (r.zsm.state z).state = .full := by
  rw [h.active_eq_nil_iff, h.free_eq_nil_iff hb, h.writes_eq_zero_iff hb]
  constructor
  · rintro ⟨ha, hf, hw⟩ z hz
    cases hst : (r.zsm.state z).state with
    | full => rfl
    | free => exact absurd hst (hf z hz)
    | active => exact absurd hst (ha z hz)
    | writeOccuring => exact absurd hst (hw z hz)
  · intro hall
    refine ⟨?_, ?_, ?_⟩ <;>
      · intro z hz hst
        rw [hall z hz] at hst
        cases hst

/-- The zones being written, counted: one to each location handed out. -/
theorem writing_count (h : ZonesQueued g r) (hb : ZsmBooks g r) :
    zonesIn g r.zsm .writeOccuring = r.handedOut.length := by
  have hmem : ∀ z, z ∈ r.handedOut.map ZnPair.zone
      ↔ z < g.nrZones ∧ (r.zsm.state z).state = .writeOccuring := by
    intro z
    rw [List.mem_map]
    constructor
    · rintro ⟨p, hp, rfl⟩
      have hst := hb.writing p hp
      exact ⟨h.in_array.used p.zone (by rw [hst]; decide), hst⟩
    · rintro ⟨-, hst⟩
      exact h.held z hst
  rw [← length_eq_zonesIn hb.zones_nodup hmem, List.length_map]

end ZonesQueued

/-! ## §3. The answers. -/

/-- **RETRY AND EVICT ARE WARRANTED.**  In every reachable state the call
returns: EVICT exactly when every zone is full; RETRY only when no zone is
active, some caller holds a zone, and every active slot is being written or no
zone is free; never ERROR; and it succeeds whenever a zone is active, or is
free with an active slot unused. -/
theorem get_active_zone_warranted {g : Geometry} (hmax : 1 ≤ g.maxNrActiveZones) {r : ZsmRun}
    (hr : (zsmUseSystem g).Reach (fun r use => use.Allowed g r) r) {ret : Int}
    (hret : DeviceOk g ret) :
    ∃ res s', zsmGetActiveZone g ret r.zsm = .ok (res, s')
      ∧ (res = .evict ↔ ∀ z, z < g.nrZones → (r.zsm.state z).state = .full)
      ∧ (res = .retry → (∀ z, z < g.nrZones → (r.zsm.state z).state ≠ .active)
          ∧ r.handedOut ≠ []
          ∧ (zonesIn g r.zsm .writeOccuring = g.maxNrActiveZones
            ∨ ∀ z, z < g.nrZones → (r.zsm.state z).state ≠ .free))
      ∧ res ≠ .error
      ∧ (res = .evict ∨ res = .retry ∨ ∃ l, res = .success l)
      ∧ ((∃ z, z < g.nrZones ∧ (r.zsm.state z).state = .active)
          ∨ ((∃ z, z < g.nrZones ∧ (r.zsm.state z).state = .free)
            ∧ zonesIn g r.zsm .active + zonesIn g r.zsm .writeOccuring < g.maxNrActiveZones) →
          ∃ l, res = .success l) := by
  obtain ⟨h, hb⟩ := ZonesQueued.reach hr
  obtain ⟨res, s', heq, hcase⟩ := h.get_returns hb hret
  have hroom := hb.room
  have hwrites := hb.writes
  have hfull := h.all_full_iff hb
  refine ⟨res, s', heq, ?_⟩
  cases hcase with
  | evict ha hf hw =>
    have hall := hfull.mp ⟨ha, hf, hw⟩
    refine ⟨iff_of_true rfl hall, by simp, by simp, Or.inl rfl, ?_⟩
    rintro (⟨z, hz, hst⟩ | ⟨⟨z, hz, hst⟩, -⟩)
    · rw [hall z hz] at hst
      cases hst
    · rw [hall z hz] at hst
      cases hst
  | retry ha hbusy hany =>
    have hnone := h.active_eq_nil_iff.mp ha
    have hsome : r.handedOut ≠ [] := by
      intro hnil
      rw [hnil] at hwrites
      rcases hbusy with hf | hfullslots
      · exact hany ⟨hf, hwrites⟩
      · rw [hwrites] at hfullslots
        simp at hfullslots
        omega
    have hnotfull : ¬ ∀ z, z < g.nrZones → (r.zsm.state z).state = .full := fun hall =>
      hany ⟨(hfull.mpr hall).2.1, (hfull.mpr hall).2.2⟩
    have hslots : zonesIn g r.zsm .writeOccuring = g.maxNrActiveZones
        ∨ ∀ z, z < g.nrZones → (r.zsm.state z).state ≠ .free := by
      rcases hbusy with hf | hfullslots
      · exact Or.inr ((h.free_eq_nil_iff hb).mp hf)
      · refine Or.inl ?_
        rw [h.writing_count hb]
        omega
    refine ⟨iff_of_false (by simp) hnotfull, fun _ => ⟨hnone, hsome, hslots⟩, by simp,
      Or.inr (Or.inl rfl), ?_⟩
    rintro (⟨z, hz, hst⟩ | ⟨⟨z, hz, hst⟩, hslot⟩)
    · exact absurd hst (hnone z hz)
    · rcases hslots with hs | hs
      · omega
      · exact absurd hst (hs z hz)
  | @reuse z rest ha hst =>
    refine ⟨iff_of_false (by simp) fun hall => ?_, by simp, by simp, Or.inr (Or.inr ⟨_, rfl⟩),
      fun _ => ⟨_, rfl⟩⟩
    have hnil := (hfull.mpr hall).1
    rw [ha] at hnil
    cases hnil
  | @opened z rest ha hf hst =>
    refine ⟨iff_of_false (by simp) fun hall => ?_, by simp, by simp, Or.inr (Or.inr ⟨_, rfl⟩),
      fun _ => ⟨_, rfl⟩⟩
    have hnil := (hfull.mpr hall).2.1
    rw [hf] at hnil
    cases hnil

/-- One slot, two zones of one chunk, one of them handed out: the call answers
RETRY, and all the slots are being written. -/
theorem get_active_zone_warranted_retry :
    ∃ r : ZsmRun, ∃ s', zsmGetActiveZone ⟨2, 1, 1, 1, 1, .zns⟩ 0 r.zsm = .ok (.retry, s')
      ∧ r.handedOut ≠ [] ∧ ∀ z, z < 2 → (r.zsm.state z).state ≠ .active := by
  obtain ⟨r, hr, hp⟩ := TransSys.Reach.exists_of_exec
    (T := zsmUseSystem ⟨2, 1, 1, 1, 1, .zns⟩)
    (C := fun r use => use.Allowed ⟨2, 1, 1, 1, 1, .zns⟩ r)
    (f := fun r use => if use.Allowed ⟨2, 1, 1, 1, 1, .zns⟩ r then
      zsmUseReplay ⟨2, 1, 1, 1, 1, .zns⟩ r use else none)
    (by
      intro r use r' h
      by_cases hc : use.Allowed ⟨2, 1, 1, 1, 1, .zns⟩ r
      · simp only [if_pos hc] at h
        exact ⟨hc, (zsmUseReplay_sound _ r use r' h).2⟩
      · simp only [if_neg hc] at h
        cases h) rfl
    (fun r => ((zsmGetActiveZone ⟨2, 1, 1, 1, 1, .zns⟩ 0 r.zsm).map Prod.fst).toOption = some .retry)
    [.call (.get 0)] (by decide)
  have hanswer := of_decide_eq_true hp
  obtain ⟨res, s', heq, -, hretry, -⟩ := get_active_zone_warranted (by decide) hr (Or.inr rfl)
  rw [heq] at hanswer
  obtain rfl : res = .retry := Option.some.inj hanswer
  obtain ⟨hnone, hheld, -⟩ := hretry rfl
  exact ⟨r, s', heq, hheld, hnone⟩

end ZnCache
