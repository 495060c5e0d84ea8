/-
  ZnCache.ZoneState.DeviceErrors — calls whose zone command fails.

  `zsm_get_active_zone` takes a zone off the free queue before it asks the
  device to open it; `zsm_return_active_zone` counts the write as done, and the
  chunk as written, before it asks the device to finish the zone.  Neither puts
  anything back when the command fails, so the zone is lost: it is FREE and in
  no queue, or WRITE_OCCURING and not counted (`lost_on_error`).

  Main result: `atomic_iff_obeyed` — an error leaves the state as it was only
  in that there is none.
-/
import ZnCache.ZoneState.Run
import ZnCache.ZoneState.Cases

namespace ZnCache

open Lib

/-! ## §1. Runs on any device. -/

/-- The callers' side, whatever the device answers: a location is given back by
its holder, and only full zones are evicted. -/
def ZsmOp.Called (r : ZsmRun) : ZsmOp → Prop
  | .get _ => True
  | .giveBack pair _ | .fail pair => pair ∈ r.handedOut
  | .evict zone _ => (r.zsm.state zone).state = .full

instance ZsmOp.decCalled (r : ZsmRun) (op : ZsmOp) : Decidable (op.Called r) :=
  match op with
  | .get _ => isTrue trivial
  | .giveBack pair _ | .fail pair => inferInstanceAs (Decidable (pair ∈ r.handedOut))
  | .evict zone _ => inferInstanceAs (Decidable ((r.zsm.state zone).state = .full))

/-- A call, or a chunk marked as invalid. -/
inductive ZsmUse where
  | call (op : ZsmOp)
  | mark (location : ZnPair)

def ZsmUse.Called (r : ZsmRun) : ZsmUse → Prop
  | .call op => op.Called r
  | .mark _ => True

instance ZsmUse.decCalled (r : ZsmRun) (use : ZsmUse) : Decidable (use.Called r) :=
  match use with
  | .call op => inferInstanceAs (Decidable (op.Called r))
  | .mark _ => isTrue trivial

def zsmUse (g : Geometry) (r : ZsmRun) : ZsmUse → Except Fault ZsmRun
  | .call op => zsmOp g r op
  | .mark location => .ok ⟨zsmMarkChunkInvalid r.zsm location, r.handedOut⟩

/-- The runs from `zsm_init`, whatever the device answers. -/
def zsmUseSystem (g : Geometry) : TransSys ZsmRun ZsmUse where
  init r := r = ⟨zsmInit g, []⟩
  step r use r' := zsmUse g r use = .ok r'

/-- What a call did that returned, whatever the device answered. -/
inductive ZsmOpCase (g : Geometry) (r : ZsmRun) : ZsmOp → ZsmRun → Prop
  | nothing {ret : Int} {res : ZsmGetActiveZone} (hres : ∀ l, res ≠ .success l)
      (hget : zsmGetActiveZone g ret r.zsm = .ok (res, r.zsm)) : ZsmOpCase g r (.get ret) r
  | lost {ret : Int} {z : Nat} {rest : List Nat} (hf : r.zsm.free = z :: rest)
      (hget : zsmGetActiveZone g ret r.zsm = .ok (.error, { r.zsm with free := rest })) :
      ZsmOpCase g r (.get ret) ⟨{ r.zsm with free := rest }, r.handedOut⟩
  | took {ret : Int} {l : ZnPair} {s : ZoneStateManager} (hcase : AcquireCase r.zsm (.success l) s)
      (hget : zsmGetActiveZone g ret r.zsm = .ok (.success l, s)) :
      ZsmOpCase g r (.get ret) ⟨s, l :: r.handedOut⟩
  | gaveBack {p : ZnPair} {ret : Int} {s : ZoneStateManager}
      (hst : (r.zsm.state p.zone).state = .writeOccuring) (hcase : ReturnCase g r.zsm p s) :
      ZsmOpCase g r (.giveBack p ret) ⟨s, r.handedOut.erase p⟩
  | failed {p : ZnPair} : ZsmOpCase g r (.fail p) ⟨abandoned r.zsm p, r.handedOut.erase p⟩
  | evicted {z : Nat} {ret : Int} (hst : (r.zsm.state z).state = .full) :
      ZsmOpCase g r (.evict z ret) ⟨evicted r.zsm z, r.handedOut⟩

theorem zsmOp_cases {g : Geometry} {r r' : ZsmRun} {op : ZsmOp} (hs : zsmOp g r op = .ok r') :
    ZsmOpCase g r op r' := by
  cases op with
  | get ret =>
    obtain ⟨⟨res, s'⟩, hget, hs⟩ := bind_eq_ok hs
    have hcase := zsmGetActiveZone_cases hget
    cases res with
    | success l =>
      cases hs
      exact .took hcase hget
    | error =>
      cases hs
      cases hcase with
      | unchanged hres => exact .nothing hres hget
      | lost hf => exact .lost hf hget
    | retry | evict =>
      cases hs
      cases hcase with
      | unchanged hres => exact .nothing hres hget
  | giveBack p ret =>
    obtain ⟨⟨e, s'⟩, hret, hs⟩ := bind_eq_ok hs
    cases hs
    obtain ⟨hst, -, hcase⟩ := zsmReturnActiveZone_cases hret
    exact .gaveBack hst hcase
  | fail p =>
    obtain ⟨s', hret, hs⟩ := bind_eq_ok hs
    cases hs
    obtain ⟨-, -, rfl⟩ := zsmFailedToWrite_cases hret
    exact .failed
  | evict z ret =>
    obtain ⟨⟨e, s'⟩, hret, hs⟩ := bind_eq_ok hs
    cases hs
    obtain ⟨hst, -, -, rfl⟩ := zsmEvict_returns hret
    exact .evicted hst

/-! ## §2. What a run keeps. -/

/-- **What the checks of the two calls find**, on any device. -/
structure ZsmBooks (g : Geometry) (r : ZsmRun) : Prop where
  zone_id : ∀ z, (r.zsm.state z).zoneId = z
  free_nodup : r.zsm.free.Nodup
  free_state : ∀ z ∈ r.zsm.free, (r.zsm.state z).state = .free
  zones_nodup : (r.handedOut.map ZnPair.zone).Nodup
  writing : ∀ p ∈ r.handedOut, (r.zsm.state p.zone).state = .writeOccuring
  offset : ∀ p ∈ r.handedOut, (r.zsm.state p.zone).chunkOffset = p.chunkOffset
  writes : r.zsm.writesOccurring = r.handedOut.length
  room : r.zsm.active.length + r.zsm.writesOccurring ≤ g.maxNrActiveZones

/-- A call to `zsm_get_active_zone` respects the active slots. -/
theorem zsmGetActiveZone_room {g : Geometry} {ret : Int} {s s' : ZoneStateManager}
    {res : ZsmGetActiveZone} (hroom : s.active.length + s.writesOccurring ≤ g.maxNrActiveZones)
    (h : zsmGetActiveZone g ret s = .ok (res, s')) :
    s'.active.length + s'.writesOccurring ≤ g.maxNrActiveZones := by
  unfold zsmGetActiveZone at h
  split at h
  · cases h
    exact hroom
  · obtain ⟨-, h⟩ := check_bind_ok h
    split at h
    · split at h
      · rename_i hempty hslot
        split at h
        · cases h
        · rename_i z rest hf
          obtain ⟨-, h⟩ := check_bind_ok h
          obtain ⟨⟨o, s₁⟩, ho, h⟩ := bind_eq_ok h
          have h' : (if o ≠ 0 then Except.ok (ZsmGetActiveZone.error, s₁)
            else takeActiveZone s₁) = .ok (res, s') := h
          obtain ⟨-, ⟨hr, rfl⟩ | ⟨hr, rfl⟩⟩ := openZone_ok ho
          · rw [if_pos hr] at h'
            cases h'
            exact hroom
          · rw [if_neg (by simpa using hr)] at h'
            obtain ⟨z', rest', ha', -, -, rfl⟩ := takeActiveZone_ok h'
            have hlen := congrArg List.length ha'
            simp only [List.length_append, List.length_cons, List.length_nil] at hlen
            show (rest'.length : Int) + (s.writesOccurring + 1) ≤ g.maxNrActiveZones
            omega
      · cases h
        exact hroom
    · obtain ⟨z, rest, ha, -, -, rfl⟩ := takeActiveZone_ok h
      have hlen := congrArg List.length ha
      simp at hlen ⊢
      omega

namespace ZsmBooks

variable {g : Geometry} {r : ZsmRun}

/-- The zone of a location taken back was the only one of its zone. -/
theorem zone_ne_of_erase (h : ZsmBooks g r) {p q : ZnPair} (hp : p ∈ r.handedOut)
    (hq : q ∈ r.handedOut.erase p) : q.zone ≠ p.zone := by
  have hnd : r.handedOut.Nodup := List.Nodup.of_map _ h.zones_nodup
  obtain ⟨hne, hq⟩ := hnd.mem_erase_iff.mp hq
  exact fun heq => hne (List.inj_on_of_nodup_map h.zones_nodup hq hp heq)

/-- One zone changes its record, and is in no queue that says otherwise. -/
theorem move (h : ZsmBooks g r) {z : Nat} (zn : ZnZone) {free' active' : List Nat} {writes' : Int}
    {handedOut' : List ZnPair} (hid : zn.zoneId = z) (hnd : free'.Nodup)
    (hfree : ∀ y ∈ free', y = z ∧ zn.state = .free ∨ y ≠ z ∧ y ∈ r.zsm.free)
    (hnodup : (handedOut'.map ZnPair.zone).Nodup)
    (hhanded : ∀ p ∈ handedOut', p.zone = z ∧ zn.state = .writeOccuring ∧ zn.chunkOffset = p.chunkOffset
      ∨ p.zone ≠ z ∧ p ∈ r.handedOut)
    (hwrites : writes' = handedOut'.length)
    (hroom : active'.length + writes' ≤ g.maxNrActiveZones) :
    ZsmBooks g ⟨{ active := active', free := free', state := Function.update r.zsm.state z zn,
                  writesOccurring := writes' }, handedOut'⟩ where
  zone_id y := by
    dsimp only
    by_cases hy : y = z
    · subst hy
      rw [Function.update_self, hid]
    · rw [Function.update_of_ne hy]
      exact h.zone_id y
  free_nodup := hnd
  free_state y hy := by
    dsimp only
    rcases hfree y hy with ⟨rfl, hst⟩ | ⟨hne, hy⟩
    · rw [Function.update_self, hst]
    · rw [Function.update_of_ne hne]
      exact h.free_state y hy
  zones_nodup := hnodup
  writing p hp := by
    dsimp only
    rcases hhanded p hp with ⟨hz, hst, -⟩ | ⟨hne, hp⟩
    · rw [hz, Function.update_self, hst]
    · rw [Function.update_of_ne hne]
      exact h.writing p hp
  offset p hp := by
    dsimp only
    rcases hhanded p hp with ⟨hz, -, hoff⟩ | ⟨hne, hp⟩
    · rw [hz, Function.update_self, hoff]
    · rw [Function.update_of_ne hne]
      exact h.offset p hp
  writes := hwrites
  room := hroom

/-- A zone that is not being written enters the books. -/
theorem handOut (h : ZsmBooks g r) {z : Nat} (zn : ZnZone) {free' active' : List Nat} {p : ZnPair}
    (hst : (r.zsm.state z).state ≠ .writeOccuring) (hid : zn.zoneId = z) (hnd : free'.Nodup)
    (hfree : ∀ y ∈ free', y ≠ z ∧ y ∈ r.zsm.free) (hp : p.zone = z)
    (hzn : zn.state = .writeOccuring ∧ zn.chunkOffset = p.chunkOffset)
    (hroom : active'.length + (r.zsm.writesOccurring + 1) ≤ g.maxNrActiveZones) :
    ZsmBooks g ⟨{ active := active', free := free', state := Function.update r.zsm.state z zn,
                  writesOccurring := r.zsm.writesOccurring + 1 }, p :: r.handedOut⟩ := by
  have hother : ∀ q ∈ r.handedOut, q.zone ≠ z := fun q hq heq => hst (heq ▸ h.writing q hq)
  apply h.move zn hid hnd
  · intro y hy
    exact Or.inr (hfree y hy)
  · rw [List.map_cons, List.nodup_cons]
    apply And.intro _ h.zones_nodup
    intro hin
    obtain ⟨q, hq, heq⟩ := List.mem_map.mp hin
    exact hother q hq (heq.trans hp)
  · intro q hq
    rcases List.mem_cons.mp hq with heq | hq
    · exact Or.inl ⟨heq ▸ hp, heq ▸ hzn⟩
    · exact Or.inr ⟨hother q hq, hq⟩
  · rw [h.writes]
    simp
  · exact hroom

/-- A location leaves the books, with whatever record its zone is left. -/
theorem giveBack (h : ZsmBooks g r) {p : ZnPair} (hp : p ∈ r.handedOut) (zn : ZnZone)
    {active' : List Nat} (hid : zn.zoneId = (r.zsm.state p.zone).zoneId)
    (hroom : active'.length + (r.zsm.writesOccurring - 1) ≤ g.maxNrActiveZones) :
    ZsmBooks g ⟨{ active := active', free := r.zsm.free,
                  state := Function.update r.zsm.state p.zone zn,
                  writesOccurring := r.zsm.writesOccurring - 1 }, r.handedOut.erase p⟩ := by
  have hlen := List.length_erase_of_mem hp
  have hpos := List.length_pos_of_mem hp
  apply h.move zn (hid.trans (h.zone_id p.zone)) h.free_nodup
  · intro y hy
    apply Or.inr
    apply And.intro _ hy
    intro heq
    have hfree := h.free_state y hy
    rw [heq, h.writing p hp] at hfree
    cases hfree
  · exact h.zones_nodup.sublist (List.erase_sublist.map _)
  · intro q hq
    exact Or.inr ⟨h.zone_ne_of_erase hp hq, List.mem_of_mem_erase hq⟩
  · rw [h.writes, hlen]
    omega
  · exact hroom

/-- **Step lemma**, on any device. -/
theorem step (h : ZsmBooks g r) {op : ZsmOp} (hop : op.Called r) {r' : ZsmRun}
    (hs : zsmOp g r op = .ok r') : ZsmBooks g r' := by
  have hroom := h.room
  cases zsmOp_cases hs with
  | nothing => exact h
  | @lost ret z rest hf =>
    -- the zone is gone from the queue; what is left of it was there before
    have hsub : rest.Sublist r.zsm.free := hf ▸ List.sublist_cons_self z rest
    exact { h with
      free_nodup := h.free_nodup.sublist hsub
      free_state := fun y hy => h.free_state y (hsub.subset hy) }
  | took hcase hget =>
    have hroom' := zsmGetActiveZone_room hroom hget
    cases hcase with
    | unchanged hres => exact absurd rfl (hres _)
    | @reuse z rest ha hst =>
      apply h.handOut { r.zsm.state z with state := .writeOccuring }
      · rw [hst]
        decide
      · exact h.zone_id z
      · exact h.free_nodup
      · intro y hy
        apply And.intro _ hy
        intro heq
        have hfree := h.free_state y hy
        rw [heq, hst] at hfree
        cases hfree
      · exact h.zone_id z
      · exact ⟨rfl, rfl⟩
      · exact hroom'
    | @opened z rest hf hst =>
      have hnd := h.free_nodup
      rw [hf] at hnd
      apply h.handOut { r.zsm.state z with state := .writeOccuring, chunkOffset := 0 }
      · rw [hst]
        decide
      · exact h.zone_id z
      · exact (List.nodup_cons.mp hnd).2
      · intro y hy
        apply And.intro
        · exact fun heq => (List.nodup_cons.mp hnd).1 (heq ▸ hy)
        · rw [hf]
          exact List.mem_cons_of_mem z hy
      · exact h.zone_id z
      · exact ⟨rfl, rfl⟩
      · exact hroom'
  | @gaveBack p _ _ hst hcase =>
    -- whether the zone is finished, stuck or active again, its location is off the books
    cases hcase with
    | closed =>
      apply h.giveBack hop (closedZone r.zsm p.zone) rfl
      show (r.zsm.active.length : Int) + _ ≤ _
      omega
    | stuck =>
      apply h.giveBack hop { r.zsm.state p.zone with
        chunkOffset := (p.chunkOffset + 1) % 2 ^ 32 } rfl
      show (r.zsm.active.length : Int) + _ ≤ _
      omega
    | reopened =>
      apply h.giveBack hop (reopenedZone r.zsm p.zone ((p.chunkOffset + 1) % 2 ^ 32)) rfl
      rw [List.length_append, List.length_singleton]
      omega
  | @failed p =>
    apply h.giveBack hop (reopenedZone r.zsm p.zone p.chunkOffset) rfl
    rw [List.length_append, List.length_singleton]
    omega
  | @evicted z _ hst =>
    have hnot : z ∉ r.zsm.free := fun hin => by
      have hfree := h.free_state z hin
      rw [hst] at hfree
      cases hfree
    apply h.move { r.zsm.state z with state := .free, chunkOffset := 0 } (h.zone_id z)
      (nodup_push h.free_nodup hnot)
    · intro y hy
      rcases List.mem_append.mp hy with hy | hy
      · exact Or.inr ⟨fun heq => hnot (heq ▸ hy), hy⟩
      · exact Or.inl ⟨List.mem_singleton.mp hy, rfl⟩
    · exact h.zones_nodup
    · intro p hp
      apply Or.inr
      apply And.intro _ hp
      intro heq
      have hw := h.writing p hp
      rw [heq, hst] at hw
      cases hw
    · exact h.writes
    · exact hroom

/-- Marking a chunk touches no queue and no condition. -/
theorem mark (h : ZsmBooks g r) (location : ZnPair) :
    ZsmBooks g ⟨zsmMarkChunkInvalid r.zsm location, r.handedOut⟩ := by
  have hsame := zsmMarkChunkInvalid_same r.zsm location
  exact {
    zone_id := fun z => (hsame z).1.trans (h.zone_id z)
    free_nodup := h.free_nodup
    free_state := fun z hz => (hsame z).2.1.trans (h.free_state z hz)
    zones_nodup := h.zones_nodup
    writing := fun p hp => (hsame p.zone).2.1.trans (h.writing p hp)
    offset := fun p hp => (hsame p.zone).2.2.trans (h.offset p hp)
    writes := h.writes
    room := h.room }

/-- **Run lemma**, on any device. -/
theorem reach (hr : (zsmUseSystem g).Reach (fun r use => use.Called r) r) : ZsmBooks g r := by
  apply TransSys.Reach.invariant (I := ZsmBooks g) _ _ hr
  · intro r hinit
    obtain rfl : r = ⟨zsmInit g, []⟩ := hinit
    constructor
    · exact fun _ => rfl
    · exact List.nodup_range
    · exact fun _ _ => rfl
    · exact List.nodup_nil
    · exact fun _ hp => by cases hp
    · exact fun _ hp => by cases hp
    · rfl
    · show ((0 : Nat) : Int) + 0 ≤ g.maxNrActiveZones
      omega
  · intro r use r' _ h huse hs
    cases use with
    | call op => exact h.step huse hs
    | mark location =>
      cases hs
      exact h.mark location

end ZsmBooks

/-! ## §3. What an error leaves behind. -/

/-- Nothing has changed that a caller can see: the two queues, the condition
and the offset of every zone, the counter. -/
def SameBooks (s s' : ZoneStateManager) : Prop :=
  s'.free = s.free ∧ s'.active = s.active ∧ s'.writesOccurring = s.writesOccurring
    ∧ ∀ z, (s'.state z).state = (s.state z).state
      ∧ (s'.state z).chunkOffset = (s.state z).chunkOffset

/-- The call to `zsm_get_active_zone` asks the device to open a zone, and the
device refuses. -/
def OpenFails (g : Geometry) (ret : Int) (s : ZoneStateManager) : Prop :=
  (g.backend = .zns ∧ ret ≠ 0)
    ∧ s.active = [] ∧ s.free ≠ [] ∧ s.writesOccurring < g.maxNrActiveZones

/-- The call to `zsm_return_active_zone` asks the device to finish the zone, and
the device refuses. -/
def CloseFails (g : Geometry) (ret : Int) (pair : ZnPair) : Prop :=
  (g.backend = .zns ∧ ret ≠ 0) ∧ (pair.chunkOffset + 1) % 2 ^ 32 = g.maxZoneChunks

/-- A zone that cannot be opened has left the free queue for good. -/
theorem zsmGetActiveZone_openFails {g : Geometry} {ret : Int} {s : ZoneStateManager}
    (hfree : ∀ z ∈ s.free, (s.state z).state = .free) (h : OpenFails g ret s) :
    zsmGetActiveZone g ret s = .ok (.error, { s with free := s.free.tail }) := by
  obtain ⟨hfail, hactive, hne, hslot⟩ := h
  obtain ⟨z, rest, hf⟩ := List.exists_cons_of_ne_nil hne
  have hst : (s.state z).state = .free := hfree z (by simp [hf])
  have hpos : 0 < s.free.length := List.length_pos_iff.mpr hne
  have hlen : s.active.length = 0 := by rw [hactive, List.length_nil]
  have hopen : openZone g ret { s with free := rest } z = .ok (ret, { s with free := rest }) := by
    unfold openZone
    rw [check_of hst]
    show (if _ then _ else _) = _
    rw [if_neg (by simp only [hlen]; omega), if_pos hfail]
    rfl
  unfold zsmGetActiveZone
  rw [if_neg fun h => Nat.ne_of_gt hpos h.2, check_of (Or.inr hpos)]
  show (if _ then _ else _) = _
  rw [if_pos hlen, if_pos ⟨by omega, hpos⟩, hf]
  show (check _ >>= _) = _
  rw [check_of hst]
  show (openZone g ret { s with free := rest } z >>= _) = _
  rw [hopen]
  show (if ret ≠ 0 then _ else _) = _
  rw [if_pos hfail.2]
  rfl

/-- There is no other way to an error. -/
theorem zsmGetActiveZone_error {g : Geometry} {ret : Int} {s s' : ZoneStateManager}
    (h : zsmGetActiveZone g ret s = .ok (.error, s')) : OpenFails g ret s := by
  unfold zsmGetActiveZone at h
  split at h
  · cases h
  · obtain ⟨-, h⟩ := check_bind_ok h
    split at h
    · rename_i hempty
      split at h
      · rename_i hslot
        split at h
        · cases h
        · rename_i z rest hf
          obtain ⟨-, h⟩ := check_bind_ok h
          have hslots : ¬ (g.maxNrActiveZones : Int) ≤ s.active.length + s.writesOccurring := by
            omega
          apply And.intro _ ⟨List.length_eq_zero_iff.mp hempty, by simp [hf], by omega⟩
          apply Classical.byContradiction
          intro hok
          -- the zone is opened, and handed out
          unfold openZone at h
          cases hst : check (({ s with free := rest : ZoneStateManager }.state z).state = .free) with
          | error f => rw [hst] at h; cases h
          | ok _ =>
            rw [hst] at h
            simp only [bind, Except.bind, hslots, hok, if_false] at h
            obtain ⟨_, _, _, _, hres, _⟩ := takeActiveZone_ok h
            cases hres
      · cases h
    · obtain ⟨_, _, _, _, hres, _⟩ := takeActiveZone_ok h
      cases hres

/-- A zone that cannot be finished is not counted any more. -/
theorem zsmReturnActiveZone_closeFails {g : Geometry} {ret : Int} {s : ZoneStateManager}
    {pair : ZnPair} (hroom : s.active.length + s.writesOccurring ≤ g.maxNrActiveZones)
    (hst : (s.state pair.zone).state = .writeOccuring)
    (hoff : (s.state pair.zone).chunkOffset = pair.chunkOffset) (h : CloseFails g ret pair) :
    ∃ s', zsmReturnActiveZone g ret s pair = .ok (ret, s')
      ∧ s'.writesOccurring = s.writesOccurring - 1 := by
  have hlast : (pair.chunkOffset + 1) % 4294967296 = g.maxZoneChunks := h.2
  unfold zsmReturnActiveZone
  rw [check_of hroom]
  simp [check, hst, hoff, hlast, closeZone, h.1, bind, Except.bind, pure, Except.pure]

/-- There is no other way to a result that is not zero. -/
theorem zsmReturnActiveZone_error {g : Geometry} {ret e : Int} {s s' : ZoneStateManager}
    {pair : ZnPair} (h : zsmReturnActiveZone g ret s pair = .ok (e, s')) (he : e ≠ 0) :
    CloseFails g ret pair := by
  unfold zsmReturnActiveZone at h
  obtain ⟨-, h⟩ := check_bind_ok h
  obtain ⟨hst, h⟩ := check_bind_ok h
  obtain ⟨hoff, h⟩ := check_bind_ok h
  simp only [hoff] at h
  split at h
  · rename_i hlast
    have hclose := Except.ok.inj h
    unfold closeZone at hclose
    rw [if_neg (by simp [hst])] at hclose
    split at hclose
    · rename_i hfail
      exact ⟨hfail, hlast⟩
    · exact absurd (Prod.mk.inj hclose).1.symm he
  · cases h
    exact absurd rfl he

/-! ## §4. The whole run. -/

/-- **THE ATOMICITY THEOREM.**  In every state reached on any device: an error
of `zsm_get_active_zone` or of `zsm_return_active_zone` leaves the manager as it
was exactly when there is none, that is unless a zone command is issued and
fails. -/
theorem atomic_iff_obeyed (g : Geometry) (r : ZsmRun)
    (hr : (zsmUseSystem g).Reach (fun r use => use.Called r) r) :
    (∀ ret : Int,
      (∀ s', zsmGetActiveZone g ret r.zsm = .ok (.error, s') → SameBooks r.zsm s')
        ↔ ¬ OpenFails g ret r.zsm)
    ∧ ∀ pair ∈ r.handedOut, ∀ ret : Int,
      (∀ e s', zsmReturnActiveZone g ret r.zsm pair = .ok (e, s') → e ≠ 0 → SameBooks r.zsm s')
        ↔ ¬ CloseFails g ret pair := by
  have h := ZsmBooks.reach hr
  constructor
  · intro ret
    constructor
    · intro hsame hfails
      have hkept := hsame _ (zsmGetActiveZone_openFails h.free_state hfails)
      obtain ⟨z, rest, hf⟩ := List.exists_cons_of_ne_nil hfails.2.2.1
      have hlen := congrArg List.length hkept.1
      simp [hf] at hlen
    · intro hok s' hget
      exact absurd (zsmGetActiveZone_error hget) hok
  · intro pair hp ret
    constructor
    · intro hsame hfails
      obtain ⟨s', hret, hwrites⟩ :=
        zsmReturnActiveZone_closeFails h.room (h.writing pair hp) (h.offset pair hp) hfails
      have hkept := (hsame ret s' hret hfails.1.2).2.2.1
      omega
    · intro hok e s' hret he
      exact absurd (zsmReturnActiveZone_error hret he) hok

/-- Replay one call on any device. -/
def zsmUseReplay (g : Geometry) (r : ZsmRun) (use : ZsmUse) : Option ZsmRun :=
  if use.Called r then (zsmUse g r use).toOption else none

theorem zsmUseReplay_sound (g : Geometry) (r : ZsmRun) (use : ZsmUse) (r' : ZsmRun)
    (h : zsmUseReplay g r use = some r') : use.Called r ∧ (zsmUseSystem g).step r use r' := by
  unfold zsmUseReplay at h
  split at h
  · exact ⟨‹_›, toOption_eq_some h⟩
  · cases h

/-- One zone of one chunk, handed out: the device has to finish it, and refuses
with an error or does not. -/
theorem atomic_iff_obeyed_last_chunk :
    ∃ r : ZsmRun, r.handedOut = [⟨0, 0, 0, false⟩]
      ∧ (¬ ∀ e s', zsmReturnActiveZone ⟨1, 1, 1, 1, 1, .zns⟩ 5 r.zsm ⟨0, 0, 0, false⟩ = .ok (e, s') →
          e ≠ 0 → SameBooks r.zsm s')
      ∧ ∀ e s', zsmReturnActiveZone ⟨1, 1, 1, 1, 1, .zns⟩ 0 r.zsm ⟨0, 0, 0, false⟩ = .ok (e, s') →
          e ≠ 0 → SameBooks r.zsm s' := by
  obtain ⟨r, hr, hp⟩ := TransSys.Reach.exists_of_exec (zsmUseReplay_sound ⟨1, 1, 1, 1, 1, .zns⟩) rfl
    (fun r => r.handedOut = [⟨0, 0, 0, false⟩]) [.call (.get 0)] (by decide)
  simp only [decide_eq_true_eq] at hp
  have hatomic := (atomic_iff_obeyed _ r hr).2 ⟨0, 0, 0, false⟩ (by simp [hp])
  refine ⟨r, hp, fun hsame => ?_, (hatomic 0).mpr (by unfold CloseFails; decide)⟩
  exact (hatomic 5).mp hsame (by unfold CloseFails; decide)

/-- **ZONES ARE LOST.**  A zoned device of one zone of one chunk refuses: to
open it, and the FREE zone is in no queue; to finish it, and the zone still
`WRITE_OCCURING` is not counted. -/
theorem lost_on_error :
    (∃ s', zsmGetActiveZone ⟨1, 1, 1, 1, 1, .zns⟩ 5 (zsmInit ⟨1, 1, 1, 1, 1, .zns⟩) = .ok (.error, s')
      ∧ s'.free = [] ∧ s'.active = [] ∧ (s'.state 0).state = .free
      ∧ ¬ SameBooks (zsmInit ⟨1, 1, 1, 1, 1, .zns⟩) s')
    ∧ ∃ r : ZsmRun,
      (zsmUseSystem ⟨1, 1, 1, 1, 1, .zns⟩).Reach (fun r use => use.Called r) r
      ∧ ⟨0, 0, 0, false⟩ ∈ r.handedOut
      ∧ ∃ s', zsmReturnActiveZone ⟨1, 1, 1, 1, 1, .zns⟩ 5 r.zsm ⟨0, 0, 0, false⟩ = .ok (5, s')
        ∧ s'.writesOccurring = 0 ∧ (s'.state 0).state = .writeOccuring ∧ ¬ SameBooks r.zsm s' := by
  constructor
  · exact ⟨_, rfl, rfl, rfl, rfl, fun h => by cases h.1⟩
  · refine ⟨_, .next (l := .call (.get 0)) (.start rfl) trivial rfl, by decide, _, rfl, rfl, rfl, ?_⟩
    intro h
    cases h.2.2.1

end ZnCache
