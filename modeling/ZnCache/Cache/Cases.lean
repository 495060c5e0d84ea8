/-
  ZnCache.Cache.Cases — what one step of `zn_cache_get` can do, and the
  facts that hold of every run under every policy.

  `GetCase` is the inversion of `getStep`: one constructor for each way a step
  can end, with the results of the calls it makes.

  Main results, for any policy:
    * `ids_u32`, `keys_u32` — threads work on 32-bit ids, and `zone_map` has
      entries under such ids only, if eviction makes no entries;
    * `readers_exact` — `active_readers[z]` counts exactly the threads between
      the find that returned a location in `z` and their decrement.
-/
import ZnCache.Cache.Defs
import ZnCache.Lib.ThreadPool

namespace ZnCache

open Lib Lib.ThreadPool

universe u v w

variable {P E : Type} {pol : EvictPolicy P E} {g : Geometry} {rb : Buffer} {a : Answers}
  {s : CacheState P}

/-! ## §1. Inversion. -/

theorem stepped_map_eq_ok {α : Type v} {β : Type w} {x : Stepped α} {f : α → β} {y : β}
    (h : x.map (fun r => r.map f) = some (.ok y)) : ∃ v, x = some (.ok v) ∧ f v = y := by
  cases x with
  | none => cases h
  | some r =>
    obtain ⟨v, rfl, hv⟩ := map_eq_ok (Option.some.inj h)
    exact ⟨v, rfl, hv⟩

/-- **What one step of `zn_cache_get` can do.** -/
inductive GetCase (pol : EvictPolicy P E) (g : Geometry) (rb : Buffer) (a : Answers)
    (s : CacheState P) : GetPc E → CacheState P → GetPc E → Prop
  | find {id : Nat} {r : FindResult} {m : ZnCachemap} (h : FindCase s.cacheMap id r m) :
      GetCase pol g rb a s (.find id) { s with cacheMap := m } (r.getPc id)
  | wake {id c seen : Nat} {r : FindResult} {m : ZnCachemap}
      (h : FindCase (s.cacheMap.setCond c (s.cacheMap.conds c).released) id r m) :
      GetCase pol g rb a s (.findWait id c seen) { s with cacheMap := m } (r.getPc id)
  | read {id : Nat} {l : ZnPair} :
      GetCase pol g rb a s (.read id l) s
        (.readUpdate id l (znReadFromDisk g s.device l a.pread))
  | readUpdate {id : Nat} {l : ZnPair} {data : Option Buffer} {p : P}
      (h : pol.update g s.policy l .read = some (.ok p)) :
      GetCase pol g rb a s (.readUpdate id l data) { s with policy := p } (.readDone id l data)
  | readDone {id : Nat} {l : ZnPair} {data : Option Buffer} :
      GetCase pol g rb a s (.readDone id l data)
        { s with cacheMap := s.cacheMap.addReaders l.zone (-1) } (.hit id data)
  | hit {id : Nat} {data : Option Buffer} :
      GetCase pol g rb a s (.hit id data) { s with hits := s.hits + 1 } (.done id data)
  | acquire {id : Nat} {r : ZsmGetActiveZone} {z : ZoneStateManager}
      (h : zsmGetActiveZone g a.ret s.zoneState = .ok (r, z)) :
      GetCase pol g rb a s (.acquire id) { s with zoneState := z } (r.getPc pol id)
  | evict {id : Nat} {e : E} {s' : CacheState P} {e' : Option E}
      (h : pol.step g a s e = some (.ok (s', e'))) :
      GetCase pol g rb a s (.evict id e) s' (evictPc id e')
  | write {id : Nat} {l : ZnPair} {r : Int} {d : Device}
      (h : writeChunk g s.device l id (znGenWriteBuffer id rb) a.pwrites = some (r, d)) :
      GetCase pol g rb a s (.write id l) { s with device := d }
        (if r ≠ 0 then .undoZoneGet id l else .miss id l (znGenWriteBuffer id rb))
  | miss {id : Nat} {l : ZnPair} {data : Buffer} :
      GetCase pol g rb a s (.miss id l data) { s with misses := s.misses + 1 } (.commit id l data)
  | commit {id : Nat} {l : ZnPair} {data : Buffer} {r : Int} {z : ZoneStateManager}
      (h : zsmReturnActiveZone g a.ret s.zoneState l = .ok (r, z)) :
      GetCase pol g rb a s (.commit id l data) { s with zoneState := z } (.writeUpdate id l data)
  | writeUpdate {id : Nat} {l : ZnPair} {data : Buffer} {p : P}
      (h : pol.update g s.policy l .write = some (.ok p)) :
      GetCase pol g rb a s (.writeUpdate id l data) { s with policy := p } (.publish id l data)
  | publish {id : Nat} {l : ZnPair} {data : Buffer} {m : ZnCachemap}
      (h : znCachemapInsert s.cacheMap id l = .ok m) :
      GetCase pol g rb a s (.publish id l data) { s with cacheMap := m } (.done id (some data))
  | undoZoneGet {id : Nat} {l : ZnPair} {z : ZoneStateManager}
      (h : zsmFailedToWrite g s.zoneState l = .ok z) :
      GetCase pol g rb a s (.undoZoneGet id l) { s with zoneState := z } (.undoMap id)
  | undoMap {id : Nat} {m : ZnCachemap} (h : znCachemapFail s.cacheMap id = .ok m) :
      GetCase pol g rb a s (.undoMap id) { s with cacheMap := m } (.done id none)

theorem getStep_cases {pc pc' : GetPc E} {s' : CacheState P}
    (h : getStep pol g rb a s pc = some (.ok (s', pc'))) : GetCase pol g rb a s pc s' pc' := by
  cases pc with
  | find id =>
    obtain ⟨⟨r, m⟩, hr, heq⟩ := map_eq_ok (Option.some.inj h)
    cases heq
    exact .find (znCachemapFind_cases hr)
  | findWait id c seen =>
    obtain ⟨⟨r, m⟩, hr, heq⟩ := map_eq_ok (Option.some.inj h)
    cases heq
    exact .wake (znCachemapFind_cases (znCachemapWake_ok hr).2)
  | read id l => cases h; exact .read
  | readUpdate id l data =>
    obtain ⟨p, hp, heq⟩ := stepped_map_eq_ok h
    cases heq
    exact .readUpdate hp
  | readDone id l data => cases h; exact .readDone
  | hit id data => cases h; exact .hit
  | acquire id =>
    obtain ⟨⟨r, z⟩, hr, heq⟩ := map_eq_ok (Option.some.inj h)
    cases heq
    exact .acquire hr
  | evict id e =>
    obtain ⟨⟨s'', e'⟩, hr, heq⟩ := stepped_map_eq_ok h
    cases heq
    exact .evict hr
  | write id l =>
    obtain ⟨⟨r, d⟩, hr, heq⟩ := Option.map_eq_some_iff.mp h
    cases heq
    exact .write hr
  | miss id l data => cases h; exact .miss
  | commit id l data =>
    obtain ⟨⟨r, z⟩, hr, heq⟩ := map_eq_ok (Option.some.inj h)
    cases heq
    exact .commit hr
  | writeUpdate id l data =>
    obtain ⟨p, hp, heq⟩ := stepped_map_eq_ok h
    cases heq
    exact .writeUpdate hp
  | publish id l data =>
    obtain ⟨m, hm, heq⟩ := map_eq_ok (Option.some.inj h)
    cases heq
    exact .publish hm
  | undoZoneGet id l =>
    obtain ⟨z, hz, heq⟩ := map_eq_ok (Option.some.inj h)
    cases heq
    exact .undoZoneGet hz
  | undoMap id =>
    obtain ⟨m, hm, heq⟩ := map_eq_ok (Option.some.inj h)
    cases heq
    exact .undoMap hm
  | done id data => cases h

variable {Tid : Type u} [DecidableEq Tid]

/-- **What one step of the system can do.** -/
inductive SysCase (pol : EvictPolicy P E) (g : Geometry) (rb : Buffer) (s : Sys P E Tid) :
    SysLabel Tid → Sys P E Tid → Prop
  | get {t : Tid} {id : UInt32} (ht : s.pool t = .idle) :
      SysCase pol g rb s (.get t id) (s.goto t s.cache (.get (.find id.toNat)))
  | fgEvict {t : Tid} (ht : s.pool t = .idle) :
      SysCase pol g rb s (.fgEvict t) (s.goto t s.cache (.evictor pol.entry))
  | taskSleeps {t : Tid} (ht : s.pool t = .idle) : SysCase pol g rb s (.evictTask t) s
  | taskEvicts {t : Tid} (ht : s.pool t = .idle)
      (hfree : zsmGetNumFreeZones s.cache.zoneState ≤ evictHighThreshZones) :
      SysCase pol g rb s (.evictTask t) (s.goto t s.cache (.evictor pol.entry))
  | step {t : Tid} {a : Answers} {pc pc' : GetPc E} {c : CacheState P} (ht : s.pool t = .get pc)
      (h : GetCase pol g rb a s.cache pc c pc') :
      SysCase pol g rb s (.step t a) (s.goto t c (.get pc'))
  | evict {t : Tid} {a : Answers} {e : E} {e' : Option E} {c : CacheState P}
      (ht : s.pool t = .evictor e) (h : pol.step g a s.cache e = some (.ok (c, e'))) :
      SysCase pol g rb s (.step t a) (s.goto t c (evictorPc e'))
  | ret {t : Tid} {id : Nat} {data : Option Buffer} (ht : s.pool t = .get (.done id data)) :
      SysCase pol g rb s (.ret t) (s.goto t s.cache .idle)

theorem sysStep_cases {s s' : Sys P E Tid} {l : SysLabel Tid}
    (h : sysStep pol g rb s l = some (.ok s')) : SysCase pol g rb s l s' := by
  cases l with
  | get t id =>
    simp only [sysStep] at h
    split at h
    · cases h; exact .get ‹_›
    · cases h
  | fgEvict t =>
    simp only [sysStep] at h
    split at h
    · cases h; exact .fgEvict ‹_›
    · cases h
  | evictTask t =>
    simp only [sysStep] at h
    split at h
    · split at h
      · cases h; exact .taskSleeps ‹_›
      · rename_i hfree
        obtain ⟨-, -, heq⟩ := map_eq_ok (Option.some.inj h)
        cases heq
        exact .taskEvicts ‹_› (not_lt.mp hfree)
    · cases h
  | step t a =>
    simp only [sysStep] at h
    split at h
    · cases h
    · obtain ⟨⟨c, pc'⟩, hstep, heq⟩ := stepped_map_eq_ok h
      cases heq
      exact .step ‹_› (getStep_cases hstep)
    · obtain ⟨⟨c, e'⟩, hstep, heq⟩ := stepped_map_eq_ok h
      cases heq
      exact .evict ‹_› hstep
  | ret t =>
    simp only [sysStep] at h
    split at h
    · cases h; exact .ret ‹_›
    · cases h

/-- A step of a thread in `zn_fg_evict` is a step of its policy. -/
theorem evicting_step {s s' : Sys P E Tid} {t : Tid} {e : E} (ht : (s.pool t).evicting = some e)
    (h : sysStep pol g rb s (.step t a) = some (.ok s')) :
    ∃ e', pol.step g a s.cache e = some (.ok (s'.cache, e')) ∧ (s'.pool t).evicting = e' := by
  cases sysStep_cases h with
  | @step t a pc pc' c hpc hcase =>
    rw [hpc] at ht
    cases hcase with
    | @evict id e₁ c' e' hstep =>
      cases ht
      refine ⟨e', hstep, ?_⟩
      rw [Sys.goto_pool, Function.update_self]
      cases e' <;> rfl
    | find | wake | read | readUpdate | readDone | hit | acquire | write | miss | commit
    | writeUpdate | publish | undoZoneGet | undoMap => cases ht
  | @evict t a e₁ e' c hpc hstep =>
    rw [hpc] at ht
    cases ht
    refine ⟨e', hstep, ?_⟩
    rw [Sys.goto_pool, Function.update_self]
    cases e' <;> rfl

theorem evicting_eq {pc : Pc E} {e : E} (h : pc.evicting = some e) :
    pc = .evictor e ∨ ∃ id, pc = .get (.evict id e) := by
  match pc with
  | .evictor e' => cases h; exact Or.inl rfl
  | .get (.evict id e') => cases h; exact Or.inr ⟨id, rfl⟩

/-- A step of the policy that returns is a step of a thread in `zn_fg_evict`. -/
theorem evicting_returns {s : Sys P E Tid} {t : Tid} {e : E} {c : CacheState P} {e' : Option E}
    (ht : (s.pool t).evicting = some e) (h : pol.step g a s.cache e = some (.ok (c, e'))) :
    ∃ s', sysStep pol g rb s (.step t a) = some (.ok s') := by
  rcases evicting_eq ht with hpc | ⟨id, hpc⟩
  · exact ⟨s.goto t c (evictorPc e'), by simp only [sysStep, hpc, h]; rfl⟩
  · exact ⟨s.goto t c (.get (evictPc id e')), by simp only [sysStep, hpc, getStep, h]; rfl⟩

/-! ## §2. Views of the threads. -/

/-- A step is the business of one thread. -/
theorem SysCase.other {s s' : Sys P E Tid} {l : SysLabel Tid} (h : SysCase pol g rb s l s') {u : Tid}
    (hu : u ≠ l.thread) : s'.pool u = s.pool u := by
  cases h with
  | taskSleeps => rfl
  | get | fgEvict | taskEvicts | step | evict | ret => exact Function.update_of_ne hu ..

/-- What a step of thread `t` does to a view of the threads. -/
theorem Sys.goto_view {α : Type} (f : Pc E → α) (s : Sys P E Tid) (t : Tid) (c : CacheState P)
    (pc : Pc E) :
    (fun u => f ((s.goto t c pc).pool u)) = Function.update (fun u => f (s.pool u)) t (f pc) := by
  funext u
  rw [Sys.goto_pool]
  by_cases hu : u = t
  · rw [hu, Function.update_self, Function.update_self]
  · rw [Function.update_of_ne hu, Function.update_of_ne hu]

/-- A step of thread `t` that does not show. -/
theorem Sys.goto_view_same {α : Type} (f : Pc E → α) (s : Sys P E Tid) (t : Tid)
    (c : CacheState P) {pc : Pc E} (h : f pc = f (s.pool t)) :
    (fun u => f ((s.goto t c pc).pool u)) = fun u => f (s.pool u) := by
  rw [Sys.goto_view, h]
  exact Function.update_eq_self t _

/-- A property of every thread is kept if the one that moves keeps it. -/
theorem Sys.goto_forall {Q : Pc E → Prop} {s : Sys P E Tid} (h : ∀ u, Q (s.pool u)) (t : Tid)
    (c : CacheState P) {pc : Pc E} (hpc : Q pc) (u : Tid) : Q ((s.goto t c pc).pool u) := by
  rw [Sys.goto_pool]
  by_cases hu : u = t
  · rw [hu, Function.update_self]
    exact hpc
  · rw [Function.update_of_ne hu]
    exact h u

/-! ## §3. Ids. -/

/-- The id a call is about. -/
def GetPc.id : GetPc E → Nat
  | .find id | .findWait id _ _ | .read id _ | .readUpdate id _ _ | .readDone id _ _ | .hit id _
  | .acquire id | .evict id _ | .write id _ | .miss id _ _ | .commit id _ _ | .writeUpdate id _ _
  | .publish id _ _ | .undoZoneGet id _ | .undoMap id | .done id _ => id

/-- A call is about one id throughout. -/
theorem GetCase.id_eq {pc pc' : GetPc E} {s' : CacheState P} (h : GetCase pol g rb a s pc s' pc') :
    pc'.id = pc.id := by
  cases h with
  | @find id r | @wake id c seen r => cases r <;> rfl
  | @acquire id r => cases r <;> rfl
  | @evict id e s' e' => cases e' <;> rfl
  | @write id l r => by_cases hr : r = 0 <;> simp [hr, GetPc.id]
  | read | readUpdate | readDone | hit | miss | commit | writeUpdate | publish | undoZoneGet
  | undoMap => rfl

/-- Every call in progress is about an id with the property. -/
def IdsIn (Q : Nat → Prop) (s : Sys P E Tid) : Prop := ∀ t pc, s.pool t = .get pc → Q pc.id

theorem IdsIn.goto {Q : Nat → Prop} {s : Sys P E Tid} (h : IdsIn Q s) (t : Tid) (c : CacheState P)
    (pc : Pc E) (hpc : ∀ gp, pc = .get gp → Q gp.id) : IdsIn Q (s.goto t c pc) :=
  Sys.goto_forall (Q := fun pc => ∀ gp, pc = .get gp → Q gp.id) h t c hpc

/-- What is true of the ids that are asked for is true of the ids at work. -/
theorem ids_in {Q : Nat → Prop} {C : Sys P E Tid → SysLabel Tid → Prop}
    (hC : ∀ s t id, C s (.get t id) → Q id.toNat) {s : Sys P E Tid}
    (hr : (cacheSystem Tid pol g rb).Reach C s) : IdsIn Q s := by
  refine TransSys.Reach.invariant (I := IdsIn Q) ?_ ?_ hr
  · intro s hs t pc ht
    obtain ⟨bytes, rfl⟩ := hs
    cases ht
  · intro s l s' _ hinv hc hs
    cases sysStep_cases hs with
    | @get t id ht =>
      refine hinv.goto _ _ _ fun gp hgp => ?_
      cases hgp
      exact hC s t id hc
    | fgEvict | taskEvicts | ret => exact hinv.goto _ _ _ fun gp hgp => by cases hgp
    | taskSleeps => exact hinv
    | step ht hcase =>
      refine hinv.goto _ _ _ fun gp hgp => ?_
      cases hgp
      rw [hcase.id_eq]
      exact hinv _ _ ht
    | @evict t a e e' =>
      refine hinv.goto _ _ _ fun gp hgp => ?_
      cases e' <;> cases hgp

/-- Every call in progress is about a 32-bit id. -/
def IdsU32 (s : Sys P E Tid) : Prop := ∀ t pc, s.pool t = .get pc → pc.id < 2 ^ 32

theorem ids_u32 {C : Sys P E Tid → SysLabel Tid → Prop} {s : Sys P E Tid}
    (hr : (cacheSystem Tid pol g rb).Reach C s) : IdsU32 s :=
  ids_in (Q := fun id => id < 2 ^ 32) (fun _ _ id _ => id.toNat_lt) hr

/-- `zone_map` has entries under 32-bit ids only. -/
def KeysU32 (m : ZnCachemap) : Prop := ∀ k, m.zoneMap k ≠ none → k < 2 ^ 32

/-- Entries are removed, or made under the id of the call. -/
theorem GetCase.zoneMap_ne_none
    (hpol : ∀ g a s e s' e', pol.step g a s e = some (.ok (s', e')) →
      ∀ k, s'.cacheMap.zoneMap k ≠ none → s.cacheMap.zoneMap k ≠ none)
    {pc pc' : GetPc E} {s' : CacheState P} (h : GetCase pol g rb a s pc s' pc')
    (hid : pc.id < 2 ^ 32) (k : Nat) (hk : s'.cacheMap.zoneMap k ≠ none) :
    s.cacheMap.zoneMap k ≠ none ∨ k = pc.id := by
  have hptr : gintToPointer (pc.id : Int) = pc.id := gintToPointer_natCast (by omega)
  have hfind : ∀ {m m' : ZnCachemap} {r : FindResult}, FindCase m pc.id r m' →
      m'.zoneMap k ≠ none → m.zoneMap k ≠ none ∨ k = pc.id := by
    intro m m' r hf hk
    cases hf with
    | located | sleep => exact Or.inl hk
    | write =>
      by_cases heq : k = pc.id
      · exact Or.inr heq
      · have hk' : Function.update m.zoneMap (gintToPointer pc.id) _ k ≠ none := hk
        rw [hptr, Function.update_of_ne heq] at hk'
        exact Or.inl hk'
  cases h with
  | find hf => exact hfind hf hk
  | wake hf =>
    have hor := hfind hf hk
    exact hor
  | read | readUpdate | readDone | hit | acquire | write | miss | commit | writeUpdate
  | undoZoneGet => exact Or.inl hk
  | evict hs => exact Or.inl (hpol _ _ _ _ _ _ hs k hk)
  | @publish id l data m hi =>
    obtain ⟨c, hc, -, -, rfl⟩ := znCachemapInsert_ok hi
    have hk' : Function.update s.cacheMap.zoneMap (guintToPointer id) _ k ≠ none := hk
    by_cases heq : k = guintToPointer id
    · exact Or.inl (by rw [heq, hc]; simp)
    · rw [Function.update_of_ne heq] at hk'
      exact Or.inl hk'
  | @undoMap id m hf =>
    obtain ⟨c, -, -, rfl⟩ := znCachemapFail_ok hf
    have hk' : Function.update s.cacheMap.zoneMap (gintToPointer id) none k ≠ none := hk
    by_cases heq : k = gintToPointer id
    · subst heq
      rw [Function.update_self] at hk'
      exact absurd rfl hk'
    · rw [Function.update_of_ne heq] at hk'
      exact Or.inl hk'

/-- What is true of the ids that are asked for is true of the ids with entries. -/
theorem keys_in {Q : Nat → Prop}
    (hpol : ∀ g a s e s' e', pol.step g a s e = some (.ok (s', e')) →
      ∀ k, s'.cacheMap.zoneMap k ≠ none → s.cacheMap.zoneMap k ≠ none)
    {C : Sys P E Tid → SysLabel Tid → Prop} (hC : ∀ s t id, C s (.get t id) → Q id.toNat)
    {s : Sys P E Tid} (hr : (cacheSystem Tid pol g rb).Reach C s) (k : Nat)
    (hk : s.cache.cacheMap.zoneMap k ≠ none) : Q k := by
  have hall : ∀ k, s.cache.cacheMap.zoneMap k ≠ none → Q k := by
    refine TransSys.Reach.invariant
      (I := fun s => ∀ k, s.cache.cacheMap.zoneMap k ≠ none → Q k) ?_ ?_ hr
    · intro s hs k hk
      obtain ⟨bytes, rfl⟩ := hs
      exact absurd rfl hk
    · intro s l s' hreach hinv _ hs
      cases sysStep_cases hs with
      | get | fgEvict | taskSleeps | taskEvicts | ret => exact hinv
      | @step t a pc pc' c ht hcase =>
        intro k hk
        rcases hcase.zoneMap_ne_none hpol (ids_u32 hreach t pc ht) k hk with h | h
        · exact hinv k h
        · exact h ▸ ids_in hC hreach t pc ht
      | evict ht hstep => exact fun k hk => hinv k (hpol _ _ _ _ _ _ hstep k hk)
  exact hall k hk

theorem keys_u32
    (hpol : ∀ g a s e s' e', pol.step g a s e = some (.ok (s', e')) →
      ∀ k, s'.cacheMap.zoneMap k ≠ none → s.cacheMap.zoneMap k ≠ none)
    {C : Sys P E Tid → SysLabel Tid → Prop} {s : Sys P E Tid}
    (hr : (cacheSystem Tid pol g rb).Reach C s) : KeysU32 s.cache.cacheMap :=
  keys_in (Q := fun k => k < 2 ^ 32) hpol (fun _ _ id _ => id.toNat_lt) hr

/-- The number of zones is read only. -/
theorem GetCase.numZones
    (hpol : ∀ g a s e s' e', pol.step g a s e = some (.ok (s', e')) →
      s'.cacheMap.numZones = s.cacheMap.numZones)
    {pc pc' : GetPc E} {s' : CacheState P} (h : GetCase pol g rb a s pc s' pc') :
    s'.cacheMap.numZones = s.cacheMap.numZones := by
  have hfind : ∀ {m m' : ZnCachemap} {id : Nat} {r : FindResult}, FindCase m id r m' →
      m'.numZones = m.numZones := by
    intro m m' id r hf
    cases hf <;> rfl
  cases h with
  | find hf => exact hfind hf
  | wake hf =>
    have hsame := hfind hf
    exact hsame
  | read | readUpdate | readDone | hit | acquire | write | miss | commit | writeUpdate
  | undoZoneGet => rfl
  | evict hs => exact hpol _ _ _ _ _ _ hs
  | publish hi =>
    obtain ⟨c, -, -, -, rfl⟩ := znCachemapInsert_ok hi
    rfl
  | undoMap hf =>
    obtain ⟨c, -, -, rfl⟩ := znCachemapFail_ok hf
    rfl

theorem num_zones
    (hpol : ∀ g a s e s' e', pol.step g a s e = some (.ok (s', e')) →
      s'.cacheMap.numZones = s.cacheMap.numZones)
    {C : Sys P E Tid → SysLabel Tid → Prop} {s : Sys P E Tid}
    (hr : (cacheSystem Tid pol g rb).Reach C s) : s.cache.cacheMap.numZones = g.nrZones := by
  apply TransSys.Reach.invariant (I := fun s => s.cache.cacheMap.numZones = g.nrZones) _ _ hr
  · intro s hs
    obtain ⟨bytes, rfl⟩ := hs
    rfl
  · intro s l s' _ h _ hs
    cases sysStep_cases hs with
    | get | fgEvict | taskSleeps | taskEvicts | ret => exact h
    | step _ hcase => exact (hcase.numZones hpol).trans h
    | evict _ hstep => exact (hpol _ _ _ _ _ _ hstep).trans h

/-! ## §4. Readers. -/

/-- Between a find that returned a location in zone `z` and the decrement. -/
def GetPc.Reads (z : Nat) : GetPc E → Prop
  | .read _ l | .readUpdate _ l _ | .readDone _ l _ => l.zone = z
  | _ => False

/-- The same for a thread of the system. -/
def Pc.Reads (z : Nat) : Pc E → Prop
  | .get pc => pc.Reads z
  | _ => False

instance GetPc.decReads (z : Nat) : DecidablePred (GetPc.Reads (E := E) z) := fun pc => by
  cases pc <;> unfold GetPc.Reads <;> infer_instance

instance Pc.decReads (z : Nat) : DecidablePred (Pc.Reads (E := E) z) := fun pc => by
  cases pc <;> unfold Pc.Reads <;> infer_instance

/-- `active_readers` counts the readers. -/
def ReadersExact [Fintype Tid] (s : Sys P E Tid) : Prop :=
  ∀ z, s.cache.cacheMap.activeReaders z = countOn Finset.univ (Pc.Reads z) s.pool

/-- What a step must do to `active_readers` when its thread moves to `pc'`. -/
def ReadersMove (pc pc' : Pc E) (m m' : ZnCachemap) : Prop :=
  ∀ z, m'.activeReaders z + (if pc.Reads z then 1 else 0)
    = m.activeReaders z + (if pc'.Reads z then 1 else 0)

/-- A step that is no reader's before or after leaves the counts. -/
theorem ReadersMove.of_none {pc pc' : Pc E} {m m' : ZnCachemap} (h : ∀ z, ¬ pc.Reads z)
    (h' : ∀ z, ¬ pc'.Reads z) (hm : m'.activeReaders = m.activeReaders) :
    ReadersMove pc pc' m m' := by
  intro z
  rw [if_neg (h z), if_neg (h' z), hm]

/-- A find counts its reader in. -/
theorem FindCase.readersMove {m m' : ZnCachemap} {id : Nat} {r : FindResult} {pc : Pc E}
    (h : FindCase m id r m') (hpc : ∀ z, ¬ pc.Reads z) :
    ReadersMove pc (.get (r.getPc id)) m m' := by
  cases h with
  | @located l hl =>
    intro z
    rw [if_neg (hpc z)]
    show Function.update m.activeReaders l.zone _ z + 0 = _ + if l.zone = z then 1 else 0
    by_cases hz : z = l.zone
    · subst hz; simp
    · rw [Function.update_of_ne hz, if_neg (Ne.symm hz)]
  | sleep | write => exact .of_none hpc (fun _ hz => hz) rfl

theorem GetCase.readersMove
    (hpol : ∀ g a s e s' e', pol.step g a s e = some (.ok (s', e')) →
      s'.cacheMap.activeReaders = s.cacheMap.activeReaders)
    {pc pc' : GetPc E} {s' : CacheState P} (h : GetCase pol g rb a s pc s' pc') :
    ReadersMove (.get pc) (.get pc') s.cacheMap s'.cacheMap := by
  have hno : ∀ {pc : GetPc E}, (∀ z, ¬ pc.Reads z) → ∀ z, ¬ (Pc.get pc).Reads z := fun h => h
  cases h with
  | find hf => exact hf.readersMove fun _ hz => hz
  | wake hf =>
    have hmove := @FindCase.readersMove E _ _ _ _ (.get (.find 0)) hf fun _ hz => hz
    exact hmove
  | read | readUpdate => exact fun _ => rfl
  | @readDone id l data =>
    intro z
    show Function.update s.cacheMap.activeReaders l.zone _ z + (if l.zone = z then 1 else 0) = _ + 0
    by_cases hz : z = l.zone
    · subst hz; simp
    · rw [Function.update_of_ne hz, if_neg (Ne.symm hz)]
  | hit | miss | commit | writeUpdate => exact .of_none (fun _ hz => hz) (fun _ hz => hz) rfl
  | @acquire id r =>
    refine .of_none (fun _ hz => hz) (fun z hz => ?_) rfl
    cases r <;> exact hz
  | @evict id e s' e' hs =>
    refine .of_none (fun _ hz => hz) (fun z hz => ?_) (hpol _ _ _ _ _ _ hs)
    cases e' <;> exact hz
  | @write id l r =>
    refine .of_none (fun _ hz => hz) (fun z hz => ?_) rfl
    by_cases hr : r = 0
    · rw [if_neg (by simpa using hr)] at hz; exact hz
    · rw [if_pos hr] at hz; exact hz
  | publish hi =>
    obtain ⟨c, -, -, -, rfl⟩ := znCachemapInsert_ok hi
    exact .of_none (fun _ hz => hz) (fun _ hz => hz) rfl
  | undoZoneGet => exact .of_none (fun _ hz => hz) (fun _ hz => hz) rfl
  | undoMap hf =>
    obtain ⟨c, -, -, rfl⟩ := znCachemapFail_ok hf
    exact .of_none (fun _ hz => hz) (fun _ hz => hz) rfl

/-- `active_readers` counts the readers, on top of what it held at the start. -/
def ReadersFrom [Fintype Tid] (base : Nat → Int) (s : Sys P E Tid) : Prop :=
  ∀ z, s.cache.cacheMap.activeReaders z = base z + countOn Finset.univ (Pc.Reads z) s.pool

theorem ReadersFrom.goto [Fintype Tid] {base : Nat → Int} {s : Sys P E Tid}
    (h : ReadersFrom base s) {t : Tid} {c : CacheState P} {pc pc' : Pc E} (ht : s.pool t = pc)
    (hmove : ReadersMove pc pc' s.cache.cacheMap c.cacheMap) :
    ReadersFrom base (s.goto t c pc') := by
  intro z
  have hcount := countOn_update (D := Finset.univ) (Pc.Reads z) s.pool (Finset.mem_univ t) pc'
  have hz := hmove z
  have hs := h z
  rw [ht] at hcount
  show c.cacheMap.activeReaders z
    = base z + (countOn Finset.univ (Pc.Reads z) (Function.update s.pool t pc') : Int)
  split_ifs at hcount hz <;> omega

omit [DecidableEq Tid] in
/-- With no call in progress there is no reader. -/
theorem countOn_reads_idle [Fintype Tid] (z : Nat) :
    countOn Finset.univ (Pc.Reads (E := E) z) (fun _ : Tid => Pc.idle) = 0 :=
  (countOn_eq_zero_iff _ _).mpr fun _ _ hz => hz

/-- **Step lemma**: every step moves the counter with its thread. -/
theorem ReadersFrom.step [Fintype Tid]
    (hpol : ∀ g a s e s' e', pol.step g a s e = some (.ok (s', e')) →
      s'.cacheMap.activeReaders = s.cacheMap.activeReaders)
    {base : Nat → Int} {s s' : Sys P E Tid} {l : SysLabel Tid} (h : ReadersFrom base s)
    (hs : sysStep pol g rb s l = some (.ok s')) : ReadersFrom base s' := by
  cases sysStep_cases hs with
  | get ht => exact h.goto ht (.of_none (fun _ hz => hz) (fun _ hz => hz) rfl)
  | fgEvict ht => exact h.goto ht (.of_none (fun _ hz => hz) (fun _ hz => hz) rfl)
  | taskSleeps => exact h
  | taskEvicts ht => exact h.goto ht (.of_none (fun _ hz => hz) (fun _ hz => hz) rfl)
  | step ht hcase => exact h.goto ht (hcase.readersMove hpol)
  | @evict t a e e' c ht hstep =>
    refine h.goto ht (.of_none (fun _ hz => hz) (fun z hz => ?_) (hpol _ _ _ _ _ _ hstep))
    cases e' <;> exact hz
  | ret ht => exact h.goto ht (.of_none (fun _ hz => hz) (fun _ hz => hz) rfl)

/-- **`active_readers` is exact** in every run. -/
theorem readers_exact [Fintype Tid]
    (hpol : ∀ g a s e s' e', pol.step g a s e = some (.ok (s', e')) →
      s'.cacheMap.activeReaders = s.cacheMap.activeReaders)
    {C : Sys P E Tid → SysLabel Tid → Prop} {s : Sys P E Tid}
    (hr : (cacheSystem Tid pol g rb).Reach C s) : ReadersExact s := by
  have hfrom : ReadersFrom (fun _ => 0) s := by
    refine hr.invariant (fun s hs z => ?_) fun s l s' _ h _ hs => h.step hpol hs
    obtain ⟨bytes, rfl⟩ := hs
    rw [countOn_reads_idle]
    rfl
  intro z
  exact (hfrom z).trans (Int.zero_add _)

end ZnCache
