/-
  ZnCache.Promotional.Agreement — the LRU queue of the promotional policy and
  the zone state manager agree on what is full.

  They have different locks and different tests, so between the two a full zone
  belongs to a thread: to the writer of its last chunk, which has not told the
  policy yet, or to the evictor the policy has given it to.  `FullOwned` says
  that the full zones are exactly the queued ones and the ones so owned; that
  there is one owner only is `Places`.

  Zone commands are taken to succeed: a zone that could not be closed would be
  queued without being full.  Chunk writes may fail.

  Main result: `lru_agrees`.
-/
import ZnCache.Promotional.Places

namespace ZnCache

open Lib

universe u

/-! ## §1. Owners. -/

/-- The full zone a thread owns. -/
def Role.ownsFull (g : Geometry) : Role → Option Nat
  | .pushing _ l _ => if g.LastChunk l then some l.zone else none
  | .clearing z | .waiting z | .resetting z => some z
  | _ => none

theorem Role.place_of_ownsFull {g : Geometry} {r : Role} {z : Nat} (h : r.ownsFull g = some z) :
    r.place g = some z := by
  cases r with
  | pushing id l data | clearing z | waiting z | resetting z => exact h
  | out | writing | failed | wrote | publishing | reading | leaving | result => cases h

@[simp] theorem Role.ownsFull_ofData (g : Geometry) (id : Nat) (data : Option Buffer) :
    (Role.ofData id data).ownsFull g = none := by
  cases data <;> rfl

variable {Tid : Type u} {g : Geometry} {zsm : ZoneStateManager} {policy : ZnPolicyPromotional}
  {role : Tid → Role}

/-- **The full zones** are the queued ones and the owned ones. -/
structure FullOwned (g : Geometry) (zsm : ZoneStateManager) (policy : ZnPolicyPromotional)
    (role : Tid → Role) : Prop where
  lru_full : ∀ z ∈ policy.lru, (zsm.state z).state = .full
  owner_full : ∀ t z, (role t).ownsFull g = some z → (zsm.state z).state = .full
  covered : ∀ z, (zsm.state z).state = .full →
    z ∈ policy.lru ∨ ∃ t, (role t).ownsFull g = some z

namespace FullOwned

variable [DecidableEq Tid] {t : Tid} {r : Role}

/-- The owners after a thread has moved, and before. -/
theorem owns_update {z : Nat} {u : Tid} (h : (Function.update role t r u).ownsFull g = some z) :
    (u = t ∧ r.ownsFull g = some z) ∨ (u ≠ t ∧ (role u).ownsFull g = some z) := by
  by_cases hut : u = t
  · subst hut
    rw [Function.update_self] at h
    exact Or.inl ⟨rfl, h⟩
  · rw [Function.update_of_ne hut] at h
    exact Or.inr ⟨hut, h⟩

/-- An owner that stays as it was still owns after another thread has moved. -/
theorem owns_still {z : Nat} (h : ∃ u, (role u).ownsFull g = some z)
    (ht : (role t).ownsFull g = some z → r.ownsFull g = some z) :
    ∃ u, (Function.update role t r u).ownsFull g = some z := by
  obtain ⟨u, hu⟩ := h
  by_cases hut : u = t
  · subst hut
    exact ⟨u, by rw [Function.update_self]; exact ht hu⟩
  · exact ⟨u, by rwa [Function.update_of_ne hut]⟩

/-- The zones and the policy may stay as they are while a thread owns the same. -/
theorem goto (h : FullOwned g zsm policy role) (hr : r.ownsFull g = (role t).ownsFull g) :
    FullOwned g zsm policy (Function.update role t r) where
  lru_full := h.lru_full
  owner_full u z hu := by
    rcases owns_update hu with ⟨-, hz⟩ | ⟨-, hz⟩
    · exact h.owner_full t z (hr ▸ hz)
    · exact h.owner_full u z hz
  covered z hz := (h.covered z hz).imp_right fun hex => owns_still hex fun ht => hr.trans ht

/-- A zone that is not queued may change its record under the one thread that
can own it. -/
theorem move (h : FullOwned g zsm policy role) {z : Nat} {zn : ZnZone} {free' active' : List Nat}
    {writes' : Int} (hz : z ∉ policy.lru) (hother : ∀ u, u ≠ t → (role u).place g ≠ some z)
    (hold : ∀ y, (role t).ownsFull g = some y → y = z)
    (hnew : ∀ y, r.ownsFull g = some y → y = z ∧ zn.state = .full)
    (hfull : zn.state = .full → r.ownsFull g = some z) :
    FullOwned g { active := active', free := free', state := Function.update zsm.state z zn,
                  writesOccurring := writes' } policy (Function.update role t r) where
  lru_full y hy := by
    have hne : y ≠ z := fun hyz => hz (hyz ▸ hy)
    show (Function.update zsm.state z zn y).state = .full
    rw [Function.update_of_ne hne]
    exact h.lru_full y hy
  owner_full u y hu := by
    show (Function.update zsm.state z zn y).state = .full
    rcases owns_update hu with ⟨-, hy⟩ | ⟨hut, hy⟩
    · obtain ⟨rfl, hst⟩ := hnew y hy
      rw [Function.update_self]
      exact hst
    · have hne : y ≠ z := fun hyz => hother u hut (hyz ▸ Role.place_of_ownsFull hy)
      rw [Function.update_of_ne hne]
      exact h.owner_full u y hy
  covered y hy := by
    have hy' : (Function.update zsm.state z zn y).state = .full := hy
    by_cases hyz : y = z
    · subst hyz
      rw [Function.update_self] at hy'
      exact Or.inr ⟨t, by rw [Function.update_self]; exact hfull hy'⟩
    · rw [Function.update_of_ne hyz] at hy'
      exact (h.covered y hy').imp_right fun hex => owns_still hex fun ht => absurd (hold y ht) hyz

/-! ## §2. The events. -/

theorem acquire (hp : Places g zsm policy role) (h : FullOwned g zsm policy role) {id : Nat}
    {r : ZsmGetActiveZone} {zsm' : ZoneStateManager} (ht : role t = .out)
    (hc : AcquireCase zsm r zsm') :
    FullOwned g zsm' policy (Function.update role t (r.role id)) := by
  have hnone : (r.role id).ownsFull g = (role t).ownsFull g := by
    rw [ht]
    cases r <;> rfl
  have hmine : ∀ {y z : Nat}, (role t).ownsFull g = some y → y = z := by
    intro y z hy
    rw [ht] at hy
    cases hy
  -- the zone handed out was queued elsewhere, so it is not in the LRU queue
  have hapart : ∀ {l₁ l₂ : List Nat} {z : Nat}, z ∈ l₁ → (l₁ ++ l₂).Nodup → z ∉ l₂ :=
    fun hz hnd hz' => (List.nodup_append.mp hnd).2.2 _ hz _ hz' rfl
  cases hc with
  | unchanged => exact h.goto hnone
  | lost =>
    have hgoto := h.goto hnone
    exact ⟨hgoto.lru_full, hgoto.owner_full, hgoto.covered⟩
  | @reuse z rest ha hst =>
    refine h.move (hapart (by simp [ha]) hp.tokens.nodup)
      (fun u _ => hp.not_held (by simp [queuedZones, ha]) u) (fun _ => hmine) ?_ ?_
    · intro y hy
      cases hy
    · intro hfull
      cases hfull
  | @opened z rest hf hst =>
    refine h.move (hapart (by simp [hf]) hp.tokens.nodup)
      (fun u _ => hp.not_held (by simp [queuedZones, hf]) u) (fun _ => hmine) ?_ ?_
    · intro y hy
      cases hy
    · intro hfull
      cases hfull

theorem commit (hp : Places g zsm policy role) (h : FullOwned g zsm policy role) {id : Nat}
    {l : ZnPair} {data : Buffer} {ret r : Int} {zsm' : ZoneStateManager} (hret : DeviceOk g ret)
    (ht : role t = .wrote id l data) (hr : zsmReturnActiveZone g ret zsm l = .ok (r, zsm')) :
    FullOwned g zsm' policy (Function.update role t (.pushing id l data)) := by
  have hheld : (role t).place g = some l.zone := by rw [ht]; rfl
  have hmine : ∀ y, (role t).ownsFull g = some y → y = l.zone := by
    intro y hy
    rw [ht] at hy
    cases hy
  have hfull := zsmReturnActiveZone_deviceOk hret hr
  obtain ⟨hst, -, hc⟩ := zsmReturnActiveZone_cases hr
  cases hc with
  | closed hlast =>
    have howns : (Role.pushing id l data).ownsFull g = some l.zone := if_pos hlast
    refine h.move (hp.not_lru hheld) (hp.not_held_else hheld) hmine ?_ fun _ => howns
    intro y hy
    rw [howns] at hy
    cases hy
    exact ⟨rfl, rfl⟩
  | stuck hlast =>
    -- a close that succeeds leaves no zone so
    have := hfull hlast
    simp [hst] at this
  | reopened hnot =>
    have howns : (Role.pushing id l data).ownsFull g = none := if_neg hnot
    refine h.move (hp.not_lru hheld) (hp.not_held_else hheld) hmine ?_ ?_
    · intro y hy
      rw [howns] at hy
      cases hy
    · intro hfull
      cases hfull

theorem abandon (hp : Places g zsm policy role) (h : FullOwned g zsm policy role) {l : ZnPair}
    (ht : role t = .failed l) : FullOwned g (abandoned zsm l) policy (Function.update role t .out) := by
  have hheld : (role t).place g = some l.zone := by rw [ht]; rfl
  refine h.move (hp.not_lru hheld) (hp.not_held_else hheld) ?_ ?_ ?_
  · intro y hy
    rw [ht] at hy
    cases hy
  · intro y hy
    cases hy
  · intro hfull
    cases hfull

theorem push (h : FullOwned g zsm policy role) {id : Nat} {l : ZnPair} {data : Buffer}
    {p : ZnPolicyPromotional} (ht : role t = .pushing id l data)
    (hlru : p.lru = if g.LastChunk l then policy.lru ++ [l.zone] else policy.lru) :
    FullOwned g zsm p (Function.update role t (.publishing id l data)) := by
  have howns : (role t).ownsFull g = if g.LastChunk l then some l.zone else none := by rw [ht]; rfl
  by_cases hl : g.LastChunk l
  · rw [if_pos hl] at hlru howns
    refine ⟨fun z hz => ?_, fun u z hu => ?_, fun z hz => ?_⟩
    · rw [hlru] at hz
      rcases List.mem_append.mp hz with hz | hz
      · exact h.lru_full z hz
      · obtain rfl := List.mem_singleton.mp hz
        exact h.owner_full t _ howns
    · rcases owns_update hu with ⟨-, hz⟩ | ⟨-, hz⟩
      · cases hz
      · exact h.owner_full u z hz
    · rw [hlru]
      rcases h.covered z hz with hin | ⟨u, hu⟩
      · exact Or.inl (List.mem_append_left _ hin)
      · by_cases hut : u = t
        · -- the writer's own zone is queued now
          subst hut
          rw [howns] at hu
          cases hu
          exact Or.inl (List.mem_append_right _ (List.mem_singleton_self _))
        · exact Or.inr ⟨u, by rwa [Function.update_of_ne hut]⟩
  · rw [if_neg hl] at hlru howns
    have hgoto := h.goto (t := t) (r := .publishing id l data) howns.symm
    exact ⟨hlru ▸ hgoto.lru_full, hgoto.owner_full, hlru ▸ hgoto.covered⟩

theorem pop (h : FullOwned g zsm policy role) {zone : Nat} {p : ZnPolicyPromotional}
    (ht : role t = .out) (hlru : policy.lru = zone :: p.lru) :
    FullOwned g zsm p (Function.update role t (.clearing zone)) := by
  refine ⟨fun z hz => h.lru_full z (by rw [hlru]; exact List.mem_cons_of_mem _ hz),
    fun u z hu => ?_, fun z hz => ?_⟩
  · rcases owns_update hu with ⟨-, hz⟩ | ⟨-, hz⟩
    · cases hz
      exact h.lru_full zone (by rw [hlru]; exact List.mem_cons_self ..)
    · exact h.owner_full u z hz
  · rcases h.covered z hz with hin | hex
    · rw [hlru] at hin
      rcases List.mem_cons.mp hin with rfl | hin
      · exact Or.inr ⟨t, by rw [Function.update_self]; rfl⟩
      · exact Or.inl hin
    · refine Or.inr (owns_still hex fun howns => ?_)
      rw [ht] at howns
      cases howns

theorem reset (hp : Places g zsm policy role) (h : FullOwned g zsm policy role) {zone : Nat}
    (ht : role t = .resetting zone) :
    FullOwned g (evicted zsm zone) policy (Function.update role t .out) := by
  have hheld : (role t).place g = some zone := by rw [ht]; rfl
  refine h.move (hp.not_lru hheld) (hp.not_held_else hheld) ?_ ?_ ?_
  · intro y hy
    rw [ht] at hy
    cases hy
    rfl
  · intro y hy
    cases hy
  · intro hfull
    cases hfull

end FullOwned

variable [DecidableEq Tid]

/-- **One event** keeps the agreement. -/
theorem LifeStep.fullOwned (hmax : g.maxZoneChunks < 2 ^ 32) {rb : Buffer} {s s' : Life Tid}
    {l : LifeLabel Tid} (hp : Places g s.zsm s.policy s.role)
    (h : FullOwned g s.zsm s.policy s.role) (hl : l.ZoneOk g) (hs : LifeStep g rb s l s') :
    FullOwned g s'.zsm s'.policy s'.role := by
  cases hs with
  | acquire _ ht hr => exact h.acquire hp ht (zsmGetActiveZone_cases hr)
  | @write t id l results r d ht =>
    refine h.goto ?_
    rw [ht]
    split <;> rfl
  | commit ht hr => exact h.commit hp hl ht hr
  | abandon ht hr =>
    obtain ⟨-, -, rfl⟩ := zsmFailedToWrite_cases hr
    exact h.abandon hp ht
  | push ht hr => exact h.push ht (hp.push hmax ht hr).2
  | touch _ hr =>
    have hperm := (hp.touch hr).2
    exact ⟨fun z hz => h.lru_full z (hperm.mem_iff.mp hz), h.owner_full,
      fun z hz => (h.covered z hz).imp_left hperm.mem_iff.mpr⟩
  | @pop t _ _ ht hr => exact h.pop ht (hp.pop (t := t) hr).2
  | reset ht hr =>
    obtain ⟨-, rfl⟩ := zsmEvict_cases hr
    exact h.reset hp ht
  | publish ht | enter _ ht | read ht | drop ht | clear ht | drain ht =>
    exact h.goto (by rw [ht]; rfl)
  | leave ht => exact h.goto (by rw [ht, Role.ownsFull_ofData]; rfl)

/-- **Every run** whose zone commands succeed keeps the agreement. -/
theorem fullOwned_reach (hmax : g.maxZoneChunks < 2 ^ 32) {rb : Buffer} {s : Life Tid}
    (hr : (lifeSystem Tid g rb).Reach (fun _ l => l.ZoneOk g) s) :
    FullOwned g s.zsm s.policy s.role := by
  refine TransSys.Reach.invariant (I := fun s => FullOwned g s.zsm s.policy s.role) ?_
    (fun s l s' hreach h hl hs => LifeStep.fullOwned hmax (places_reach hmax hreach) h hl hs) hr
  intro s hs
  obtain ⟨bytes, rfl⟩ := hs
  refine ⟨?_, ?_, ?_⟩
  · intro z hz
    cases hz
  · intro t z ht
    cases ht
  · intro z hz
    cases hz

/-! ## §3. In the cache. -/

/-- The zone an evictor has been given. -/
def FgEvict.zone : FgEvict → Option Nat
  | .start | .loop _ _ => none
  | .clear _ _ z | .wait _ _ z | .reset _ _ z => some z

/-- The zone a thread evicts. -/
def Pc.evictsZone (pc : Pc FgEvict) : Option Nat := pc.evicting.bind FgEvict.zone

/-- The full zone a thread owns: it has written the last chunk and stands
between `zsm_return_active_zone` and `update_policy`, or it evicts the zone and
stands between `do_evict` and `zsm_evict`. -/
def Pc.ownsFull (g : Geometry) : Pc FgEvict → Option Nat
  | .get (.writeUpdate _ l _) => if g.LastChunk l then some l.zone else none
  | pc => pc.evictsZone

theorem Pc.role_ownsFull (g : Geometry) (pc : Pc FgEvict) :
    pc.role.ownsFull g = pc.ownsFull g := by
  match pc with
  | .idle => rfl
  | .evictor e | .get (.evict _ e) => cases e <;> rfl
  | .get (.hit _ data) | .get (.done _ data) => cases data <;> rfl
  | .get (.find _) | .get (.findWait _ _ _) | .get (.acquire _) | .get (.undoMap _)
  | .get (.writeUpdate _ _ _) | .get (.publish _ _ _) | .get (.read _ _)
  | .get (.readUpdate _ _ _) | .get (.readDone _ _ _) | .get (.write _ _)
  | .get (.miss _ _ _) | .get (.commit _ _ _) | .get (.undoZoneGet _ _) => rfl

theorem Pc.ownsFull_of_evicts {g : Geometry} {pc : Pc FgEvict} {z : Nat}
    (h : pc.evictsZone = some z) : pc.ownsFull g = some z := by
  match pc with
  | .idle => cases h
  | .evictor e | .get (.evict _ e) => exact h
  | .get (.hit _ data) | .get (.done _ data) => cases h
  | .get (.find _) | .get (.findWait _ _ _) | .get (.acquire _) | .get (.undoMap _)
  | .get (.writeUpdate _ _ _) | .get (.publish _ _ _) | .get (.read _ _)
  | .get (.readUpdate _ _ _) | .get (.readDone _ _ _) | .get (.write _ _)
  | .get (.miss _ _ _) | .get (.commit _ _ _) | .get (.undoZoneGet _ _) => cases h

/-- **The LRU queue agrees with the zone states.** -/
structure LruAgrees (g : Geometry) (rb : Buffer) (s : Sys ZnPolicyPromotional FgEvict Tid) :
    Prop where
  nodup : s.cache.policy.lru.Nodup
  lru_full : ∀ z ∈ s.cache.policy.lru, (s.cache.zoneState.state z).state = .full
  /-- No full zone is lost, and none is owned twice. -/
  owned : ∀ z, (s.cache.zoneState.state z).state = .full →
    (z ∈ s.cache.policy.lru ∧ ∀ t, (s.pool t).ownsFull g ≠ some z)
      ∨ (z ∉ s.cache.policy.lru ∧ ∃! t, (s.pool t).ownsFull g = some z)
  evict_full : ∀ t z, (s.pool t).evictsZone = some z → (s.cache.zoneState.state z).state = .full
  /-- The step that calls `zsm_evict` meets no failed assertion. -/
  evict_returns : ∀ t a i bound z, (s.pool t).evicting = some (.reset i bound z) →
    DeviceOk g a.ret → ∃ s', sysStep promotional g rb s (.step t a) = some (.ok s')
  evict_once : ∀ t u z, (s.pool t).evictsZone = some z → (s.pool u).evictsZone = some z → t = u

omit [DecidableEq Tid] in
theorem evictAndCheck_full {ret : Int} {z : Nat} (hret : DeviceOk g ret)
    (hfull : (zsm.state z).state = .full) : evictAndCheck g ret zsm z = .ok (evicted zsm z) := by
  unfold evictAndCheck
  rw [zsmEvict_spec hret hfull]
  rfl

/-- The step that resets a full zone returns. -/
theorem reset_returns {rb : Buffer} {s : Sys ZnPolicyPromotional FgEvict Tid} {t : Tid}
    {a : Answers} {i bound z : Nat} (ht : (s.pool t).evicting = some (.reset i bound z))
    (hret : DeviceOk g a.ret) (hfull : (s.cache.zoneState.state z).state = .full) :
    ∃ s', sysStep promotional g rb s (.step t a) = some (.ok s') := by
  have hstep : fgEvictStep g a s.cache (.reset i bound z) = some (.ok
      ({ s.cache with zoneState := evicted s.cache.zoneState z, device := s.cache.device.forget z },
        some (.loop ((i + 1) % 2 ^ 32) bound))) := by
    simp only [fgEvictStep, evictAndCheck_full hret hfull]
    rfl
  exact evicting_returns ht hstep

/-- **THE AGREEMENT THEOREM.**  Any number of threads, in any order of steps;
zone commands succeed, chunk writes may fail. -/
theorem lru_agrees [Fintype Tid] (hmax : g.maxZoneChunks < 2 ^ 32) {rb : Buffer}
    {s : Sys ZnPolicyPromotional FgEvict Tid}
    (hr : (cacheSystem Tid promotional g rb).Reach (fun _ l => l.ZoneOk g) s) :
    LruAgrees g rb s := by
  have hlife : (lifeSystem Tid g rb).Reach (fun _ l => l.ZoneOk g) s.life :=
    life_simulates (fun _ _ _ hc hz _ _ => hz hc) hr
  have hp : Places g s.cache.zoneState s.cache.policy fun t => (s.pool t).role :=
    places_reach hmax hlife
  have hf : FullOwned g s.cache.zoneState s.cache.policy fun t => (s.pool t).role :=
    fullOwned_reach hmax hlife
  have hplace : ∀ {t z}, (s.pool t).ownsFull g = some z → (s.pool t).role.place g = some z :=
    fun h => Role.place_of_ownsFull ((Pc.role_ownsFull g _).trans h)
  have hfull : ∀ t z, (s.pool t).ownsFull g = some z → (s.cache.zoneState.state z).state = .full :=
    fun t z h => hf.owner_full t z ((Pc.role_ownsFull g _).trans h)
  have hevict : ∀ {t z}, (s.pool t).evictsZone = some z → (s.pool t).ownsFull g = some z :=
    Pc.ownsFull_of_evicts
  refine ⟨hp.lru_ok.nodup, hf.lru_full, ?_, fun t z ht => hfull t z (hevict ht), ?_, ?_⟩
  · intro z hz
    rcases hf.covered z hz with hin | ⟨t, ht⟩
    · exact Or.inl ⟨hin, fun t ht => hp.not_lru (hplace ht) hin⟩
    · have ht' : (s.pool t).ownsFull g = some z := (Pc.role_ownsFull g _).symm.trans ht
      refine Or.inr ⟨hp.not_lru (hplace ht'), t, ht', ?_⟩
      intro u hu
      exact hp.tokens.distinct u t z (hplace hu) (hplace ht')
  · intro t a i bound z ht hret
    have hz : (s.pool t).evictsZone = some z := by rw [Pc.evictsZone, ht]; rfl
    exact reset_returns ht hret (hfull t z (hevict hz))
  · intro t u z ht hu
    exact hp.tokens.distinct t u z (hplace (hevict ht)) (hplace (hevict hu))

/-- While one thread has filled zone 0 and not told the policy, another evicts
zone 1. -/
theorem lru_agrees_two_owners : ∃ s : Sys ZnPolicyPromotional FgEvict (Fin 2),
    (s.pool 0).ownsFull ⟨2, 2, 4096, 4096, 4096, .block⟩ = some 0
      ∧ (s.pool 1).evictsZone = some 1
      ∧ LruAgrees ⟨2, 2, 4096, 4096, 4096, .block⟩ (fun _ => 0) s := by
  let g : Geometry := ⟨2, 2, 4096, 4096, 4096, .block⟩
  let a : Answers := ⟨0, [⟨4096, 0⟩], 4096⟩
  -- thread 0 stops before `update_policy`; thread 1 fills a zone and evicts it
  obtain ⟨s, hr, hs⟩ := TransSys.Reach.exists_of_exec (T := cacheSystem (Fin 2) promotional g fun _ => 0)
    (C := fun _ l => l.ZoneOk g) sysExec_ok ⟨fun _ => 0, rfl⟩
    (fun s => (s.pool 0).ownsFull g = some 0 ∧ (s.pool 1).evictsZone = some 1)
    (.get 0 1 :: List.replicate 5 (.step 0 a) ++ .get 1 2 :: List.replicate 7 (.step 1 a)
      ++ [.ret 1, .evictTask 1, .step 1 a, .step 1 a]) (by decide)
  obtain ⟨h0, h1⟩ := of_decide_eq_true hs
  exact ⟨s, h0, h1, lru_agrees (by decide) hr⟩

end ZnCache
