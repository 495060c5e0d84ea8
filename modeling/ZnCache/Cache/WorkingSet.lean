/-
  ZnCache.Cache.WorkingSet — a workload that fits the device.

  What the cache is for: while the ids that are asked for are no more than the
  chunks of the device, nothing is evicted, and an id is fetched once, however
  many threads ask for it and in whatever order they move.  The policy is any:
  it is never asked.  The eviction task does not run; it goes by the number of
  free zones, and does not wait for the device to be full.

  The argument counts.  A committed chunk belongs to an id that is in the map,
  or that one call is about to put there; so the chunks are as many as these
  ids (`Accounted`).  A call that has missed is about one more id, so a chunk
  is left when it asks for a zone, and `zsm_get_active_zone` does not tell it to
  evict.

  Main result: `working_set_stays`.
-/
import ZnCache.Cache.Entries
import ZnCache.Cache.Zones
import ZnCache.CacheMap.Bijection
import ZnCache.ZoneState.Filled
import ZnCache.Promotional.Publication

namespace ZnCache

open Lib Lib.ThreadPool

universe u

variable {P E : Type} {pol : EvictPolicy P E} {g : Geometry} {rb : Buffer} {Tid : Type u}
  {W : Finset Nat}

/-! ## §1. The ids the cache keeps. -/

/-- Calls ask for ids of `W`, and nobody evicts of his own accord. -/
def SysLabel.Within (W : Finset Nat) : SysLabel Tid → Prop
  | .get _ id => id.toNat ∈ W
  | .fgEvict _ | .evictTask _ => False
  | .step .. | .ret _ => True

instance SysLabel.decWithin (W : Finset Nat) : DecidablePred (fun l : SysLabel Tid => l.Within W)
  | .get _ id => inferInstanceAs (Decidable (id.toNat ∈ W))
  | .fgEvict _ | .evictTask _ => isFalse id
  | .step .. | .ret _ => isTrue trivial

/-- The id of a call that has counted its miss, up to the insert. -/
def Pc.fetched : Pc E → Option Nat
  | .get (.commit id _ _) | .get (.writeUpdate id _ _) | .get (.publish id _ _) => some id
  | _ => none

/-- The id of a call whose chunk is committed, up to the insert. -/
def Pc.kept : Pc E → Option Nat
  | .get (.writeUpdate id _ _) | .get (.publish id _ _) => some id
  | _ => none

variable [DecidableEq Tid] [Fintype Tid]

/-- The ids of `W` that are in the map, or in the hands of a call at a point
that `f` knows. -/
def idsKept (f : Pc E → Option Nat) (W : Finset Nat) (s : Sys P E Tid) : Finset Nat :=
  W.filter fun id => (locOf s.cache.cacheMap id).isSome ∨ ∃ t, f (s.pool t) = some id

section Kept

variable {f : Pc E → Option Nat} {s : Sys P E Tid} {t : Tid} {c : CacheState P} {pc : Pc E}

/-- The moving thread apart from the others. -/
theorem mem_idsKept_goto {id : Nat} : id ∈ idsKept f W (s.goto t c pc)
    ↔ id ∈ W ∧ (((locOf c.cacheMap id).isSome ∨ f pc = some id)
      ∨ ∃ u, u ≠ t ∧ f (s.pool u) = some id) := by
  unfold idsKept
  rw [Finset.mem_filter, Sys.goto_cache, Sys.goto_pool, or_assoc]
  refine and_congr_right fun _ => or_congr_right ?_
  constructor
  · rintro ⟨u, hu⟩
    by_cases hut : u = t
    · rw [hut, Function.update_self] at hu
      exact Or.inl hu
    · rw [Function.update_of_ne hut] at hu
      exact Or.inr ⟨u, hut, hu⟩
  · rintro (h | ⟨u, hut, hu⟩)
    · exact ⟨t, by rw [Function.update_self]; exact h⟩
    · exact ⟨u, by rw [Function.update_of_ne hut]; exact hu⟩

theorem mem_idsKept {id : Nat} (t : Tid) : id ∈ idsKept f W s
    ↔ id ∈ W ∧ (((locOf s.cache.cacheMap id).isSome ∨ f (s.pool t) = some id)
      ∨ ∃ u, u ≠ t ∧ f (s.pool u) = some id) := by
  have hsame : s.goto t s.cache (s.pool t) = s := by
    unfold Sys.goto
    rw [Function.update_eq_self]
  rw [← mem_idsKept_goto (s := s) (t := t), hsame]

/-- A step that changes neither side, or moves an id from one to the other. -/
theorem idsKept_goto (h : ∀ k, ((locOf c.cacheMap k).isSome ∨ f pc = some k)
    ↔ ((locOf s.cache.cacheMap k).isSome ∨ f (s.pool t) = some k)) :
    idsKept f W (s.goto t c pc) = idsKept f W s := by
  ext id
  rw [mem_idsKept_goto, mem_idsKept t, h]

/-- One more id. -/
theorem card_idsKept_goto {id : Nat} (hid : id ∈ W) (hnew : id ∉ idsKept f W s)
    (hmap : ∀ k, locOf c.cacheMap k = locOf s.cache.cacheMap k) (hbefore : f (s.pool t) = none)
    (hafter : f pc = some id) :
    (idsKept f W (s.goto t c pc)).card = (idsKept f W s).card + 1 := by
  have hinsert : idsKept f W (s.goto t c pc) = insert id (idsKept f W s) := by
    ext k
    rw [Finset.mem_insert, mem_idsKept_goto, mem_idsKept t, hmap, hbefore, hafter]
    constructor
    · rintro ⟨hk, (h | h) | h⟩
      · exact Or.inr ⟨hk, Or.inl (Or.inl h)⟩
      · exact Or.inl (Option.some.inj h).symm
      · exact Or.inr ⟨hk, Or.inr h⟩
    · rintro (rfl | ⟨hk, (h | h) | h⟩)
      · exact ⟨hid, Or.inl (Or.inr rfl)⟩
      · exact ⟨hk, Or.inl (Or.inl h)⟩
      · cases h
      · exact ⟨hk, Or.inr h⟩
  rw [hinsert, Finset.card_insert_of_notMem hnew]

end Kept

/-! ## §2. The accounts. -/

variable {s s' : Sys P E Tid} {t : Tid}

/-- **The accounts of a run without evictions.** -/
structure Accounted (g : Geometry) (W : Finset Nat) (s : Sys P E Tid) : Prop where
  zsm : ZsmInv g s.cache.zoneState
  calm : ∀ t, (s.pool t).evicting = none
  chunks : chunksFilled g s.cache.zoneState = (idsKept Pc.kept W s).card
  misses : s.cache.misses = (idsKept Pc.fetched W s).card

/-- An id that a call is to fill an entry for is nobody else's. -/
theorem Attended.not_kept (h : Attended s) {f : Pc E → Option Nat} {id : Nat} (hid : id < 2 ^ 31)
    (hplays : ∀ mp, (s.pool t).Plays mp → ∃ c, mp = .writer id c)
    (hf : ∀ pc : Pc E, f pc = some id → ∀ mp, pc.Plays mp → ∃ c, mp = .writer id c)
    (hnone : f (s.pool t) = none) : id ∉ idsKept f W s := by
  obtain ⟨c, hc, -⟩ := h.entry id hplays
  rw [ptr_eq hid] at hc
  rw [mem_idsKept t, hnone]
  rintro ⟨-, (hloc | hsome) | ⟨u, hut, hu⟩⟩
  · rw [locOf_eq_none fun l hl => by rw [hc] at hl; cases hl] at hloc
    cases hloc
  · cases hsome
  · exact hut (h.writer_unique (hf _ hu) hplays)

namespace Accounted

/-- A step that the accounts do not see. -/
theorem quiet (h : Accounted g W s) {c : CacheState P} {pc : Pc E}
    (hzsm : ZsmInv g c.zoneState)
    (hfill : chunksFilled g c.zoneState = chunksFilled g s.cache.zoneState)
    (hmisses : c.misses = s.cache.misses) (hcalm : pc.evicting = none)
    (hmap : ∀ k, locOf c.cacheMap k = locOf s.cache.cacheMap k)
    (hkept : pc.kept = (s.pool t).kept) (hfetched : pc.fetched = (s.pool t).fetched) :
    Accounted g W (s.goto t c pc) := by
  constructor
  case zsm => exact hzsm
  case calm => exact Sys.goto_forall (Q := fun pc => pc.evicting = none) h.calm t c hcalm
  case chunks =>
    rw [idsKept_goto fun k => by rw [hmap, hkept]]
    exact hfill.trans h.chunks
  case misses =>
    rw [idsKept_goto fun k => by rw [hmap, hfetched]]
    exact hmisses.trans h.misses

/-- A call that goes on as it is, with the cache as it is but for its readers,
its policy, its hits and its device. -/
theorem stay (h : Accounted g W s) {c : CacheState P} {pc : Pc E}
    (hz : c.zoneState = s.cache.zoneState) (hmisses : c.misses = s.cache.misses)
    (hmap : ∀ k, locOf c.cacheMap k = locOf s.cache.cacheMap k) (hcalm : pc.evicting = none)
    (hkept : pc.kept = (s.pool t).kept) (hfetched : pc.fetched = (s.pool t).fetched) :
    Accounted g W (s.goto t c pc) := by
  refine h.quiet ?_ ?_ hmisses hcalm hmap hkept hfetched
  · rw [hz]
    exact h.zsm
  · rw [hz]

/-- A call that asks for a zone is not told to evict. -/
theorem room (h : Accounted g W s) (hatt : Attended s) (hW : W.card ≤ g.nrZones * g.maxZoneChunks)
    {id : Nat} (ht : s.pool t = .get (.acquire id)) (hid : id ∈ W ∧ id < 2 ^ 31)
    {z : ZoneStateManager} : ¬ GetActiveZoneCase g s.cache.zoneState .evict z := by
  intro hc
  have hnot : id ∉ idsKept Pc.kept W s := by
    refine hatt.not_kept hid.2 (by rw [ht]; exact fun _ hmp => hmp) (fun pc hpc => ?_) (by rw [ht]; rfl)
    unfold Pc.kept at hpc
    split at hpc <;> cases hpc <;> exact fun _ hmp => hmp
  have hsub : insert id (idsKept Pc.kept W s) ⊆ W := by
    refine Finset.insert_subset hid.1 ?_
    unfold idsKept
    exact Finset.filter_subset ..
  have hcard := Finset.card_le_card hsub
  rw [Finset.card_insert_of_notMem hnot, ← h.chunks, chunksFilled_of_evict h.zsm hc] at hcard
  omega

/-- A miss is counted. -/
theorem miss (h : Accounted g W s) (hatt : Attended s) {id : Nat} {l : ZnPair} {data : Buffer}
    (ht : s.pool t = .get (.miss id l data)) (hid : id ∈ W ∧ id < 2 ^ 31) :
    Accounted g W (s.goto t { s.cache with misses := s.cache.misses + 1 }
      (.get (.commit id l data))) := by
  have hnot : id ∉ idsKept Pc.fetched W s := by
    refine hatt.not_kept hid.2 (by rw [ht]; exact fun _ hmp => hmp) (fun pc hpc => ?_) (by rw [ht]; rfl)
    unfold Pc.fetched at hpc
    split at hpc <;> cases hpc <;> exact fun _ hmp => hmp
  constructor
  case zsm => exact h.zsm
  case calm => exact Sys.goto_forall (Q := fun pc => pc.evicting = none) h.calm t _ rfl
  case chunks =>
    rw [idsKept_goto fun k => by rw [ht]; rfl]
    exact h.chunks
  case misses =>
    have hmore : (idsKept Pc.fetched W (s.goto t { s.cache with misses := s.cache.misses + 1 }
        (.get (.commit id l data)))).card = (idsKept Pc.fetched W s).card + 1 :=
      card_idsKept_goto hid.1 hnot (fun _ => rfl) (by rw [ht]; rfl) rfl
    rw [hmore, ← h.misses]
    rfl

/-- A chunk is committed. -/
theorem commit (h : Accounted g W s) (hatt : Attended s) (hmax : g.maxZoneChunks < 2 ^ 32)
    {id : Nat} {l : ZnPair} {data : Buffer} (ht : s.pool t = .get (.commit id l data))
    (hid : id ∈ W ∧ id < 2 ^ 31) {ret : Int} (hret : DeviceOk g ret) {r : Int} {z : ZoneStateManager}
    (hr : zsmReturnActiveZone g ret s.cache.zoneState l = .ok (r, z)) :
    Accounted g W (s.goto t { s.cache with zoneState := z } (.get (.writeUpdate id l data))) := by
  obtain ⟨hst, hoff, -⟩ := zsmReturnActiveZone_cases hr
  have hzsm := h.zsm.return_ok hret hr
  rw [zsmReturnActiveZone_spec h.zsm hret hst hoff] at hr
  cases hr
  have hnot : id ∉ idsKept Pc.kept W s := by
    refine hatt.not_kept hid.2 (by rw [ht]; exact fun _ hmp => hmp) (fun pc hpc => ?_) (by rw [ht]; rfl)
    unfold Pc.kept at hpc
    split at hpc <;> cases hpc <;> exact fun _ hmp => hmp
  constructor
  case zsm => exact hzsm
  case calm => exact Sys.goto_forall (Q := fun pc => pc.evicting = none) h.calm t _ rfl
  case chunks =>
    have hmore : (idsKept Pc.kept W (s.goto t
        { s.cache with zoneState := committed g s.cache.zoneState l }
        (.get (.writeUpdate id l data)))).card = (idsKept Pc.kept W s).card + 1 :=
      card_idsKept_goto hid.1 hnot (fun _ => rfl) (by rw [ht]; rfl) rfl
    rw [hmore, ← h.chunks]
    exact chunksFilled_commit hmax h.zsm hst hoff
  case misses =>
    rw [idsKept_goto fun k => by rw [ht]; rfl]
    exact h.misses

/-- An id changes hands, from its call to the map. -/
theorem publish (h : Accounted g W s) {id : Nat} {l : ZnPair} {data : Buffer}
    (ht : s.pool t = .get (.publish id l data)) (hid : id < 2 ^ 31) {m : ZnCachemap}
    (hi : znCachemapInsert s.cache.cacheMap id l = .ok m) :
    Accounted g W (s.goto t { s.cache with cacheMap := m } (.get (.done id (some data)))) := by
  obtain ⟨cond, -, -, -, rfl⟩ := znCachemapInsert_ok hi
  have hmove : ∀ {f : Pc E → Option Nat} {pc : Pc E}, f (s.pool t) = some id → f pc = none →
      ∀ k, (locOf (published s.cache.cacheMap id l cond) k).isSome ∨ f pc = some k
        ↔ (locOf s.cache.cacheMap k).isSome ∨ f (s.pool t) = some k := by
    intro f pc hf hpc k
    have hid64 : id < 2 ^ 64 := lt_trans hid (by decide)
    rw [locOf_published hid64, hf, hpc]
    by_cases hk : k = id
    · subst hk
      simp
    · rw [Function.update_of_ne hk]
      simp [Ne.symm hk]
  constructor
  case zsm => exact h.zsm
  case calm => exact Sys.goto_forall (Q := fun pc => pc.evicting = none) h.calm t _ rfl
  case chunks =>
    rw [idsKept_goto (hmove (by rw [ht]; rfl) rfl)]
    exact h.chunks
  case misses =>
    rw [idsKept_goto (hmove (by rw [ht]; rfl) rfl)]
    exact h.misses

/-- **A step of a call.** -/
theorem get (h : Accounted g W s) (hatt : Attended s) (hpos : 1 ≤ g.maxZoneChunks)
    (hmax : g.maxZoneChunks < 2 ^ 32) (hW : W.card ≤ g.nrZones * g.maxZoneChunks) {a : Answers}
    (ha : DeviceOk g a.ret) {pc pc' : GetPc E} {c : CacheState P} (ht : s.pool t = .get pc)
    (hid : pc.id ∈ W ∧ pc.id < 2 ^ 31) (hcase : GetCase pol g rb a s.cache pc c pc') :
    Accounted g W (s.goto t c (.get pc')) := by
  have hkept : (s.pool t).kept = (Pc.get pc).kept := by rw [ht]
  have hfetched : (s.pool t).fetched = (Pc.get pc).fetched := by rw [ht]
  cases hcase with
  | @find id r m hf | @wake id _ _ r m hf =>
    refine h.stay rfl rfl (fun k => locOf_find hf k) ?_ ?_ ?_
    · cases r <;> rfl
    · rw [hkept]; cases r <;> rfl
    · rw [hfetched]; cases r <;> rfl
  | read | readUpdate | readDone | hit | writeUpdate =>
    exact h.stay rfl rfl (fun _ => rfl) rfl hkept.symm hfetched.symm
  | @acquire id r z hr =>
    obtain ⟨r', z', heq, hget⟩ := zsmGetActiveZone_spec h.zsm ha
    rw [hr] at heq
    cases heq
    cases r with
    -- there is a chunk left for this id
    | evict => exact absurd hget (h.room hatt hW ht hid)
    | retry | error | success =>
      exact h.quiet (hget.inv hpos h.zsm) (chunksFilled_congr hget.filled) rfl rfl (fun _ => rfl)
        hkept.symm hfetched.symm
  | evict =>
    have hcalm := h.calm t
    rw [ht] at hcalm
    cases hcalm
  | @write id l r d hw =>
    refine h.stay rfl rfl (fun _ => rfl) ?_ ?_ ?_
    · by_cases hr : r = 0 <;> simp [hr, Pc.evicting]
    · rw [hkept]; by_cases hr : r = 0 <;> simp [hr, Pc.kept]
    · rw [hfetched]; by_cases hr : r = 0 <;> simp [hr, Pc.fetched]
  | miss => exact h.miss hatt ht hid
  | commit hr => exact h.commit hatt hmax ht hid ha hr
  | publish hi => exact h.publish ht hid.2 hi
  | @undoZoneGet id l z hz =>
    have hzsm := h.zsm.failed_ok hz
    obtain ⟨hst, hoff, rfl⟩ := zsmFailedToWrite_cases hz
    exact h.quiet hzsm (chunksFilled_congr (abandoned_filled hst hoff)) rfl rfl (fun _ => rfl) hkept.symm
      hfetched.symm
  | undoMap hf =>
    obtain ⟨cond, hc, -, rfl⟩ := znCachemapFail_ok hf
    exact h.stay rfl rfl (fun k => locOf_withdrawn hc k) rfl hkept.symm hfetched.symm

/-- **Step lemma.** -/
theorem step (h : Accounted g W s) (hatt : Attended s) (hpos : 1 ≤ g.maxZoneChunks)
    (hmax : g.maxZoneChunks < 2 ^ 32) (hW : W.card ≤ g.nrZones * g.maxZoneChunks)
    (hids : IdsIn (fun id => id ∈ W ∧ id < 2 ^ 31) s) {l : SysLabel Tid} (hin : l.Within W)
    (hok : l.ZoneOk g) (hs : sysStep pol g rb s l = some (.ok s')) : Accounted g W s' := by
  cases sysStep_cases hs with
  | get ht | ret ht => exact h.stay rfl rfl (fun _ => rfl) rfl (by rw [ht]; rfl) (by rw [ht]; rfl)
  | fgEvict => cases hin
  | taskSleeps | taskEvicts => cases hin
  | step ht hcase => exact h.get hatt hpos hmax hW hok ht (hids _ _ ht) hcase
  | @evict t a e e' c ht hstep =>
    have hcalm := h.calm t
    rw [ht] at hcalm
    cases hcalm

omit [DecidableEq Tid] in
theorem init (g : Geometry) (W : Finset Nat) (bytes : Buffer) :
    Accounted g W (⟨initCache pol g bytes, fun _ => .idle⟩ : Sys P E Tid) := by
  have hnone : ∀ f : Pc E → Option Nat, f .idle = none →
      idsKept f W (⟨initCache pol g bytes, fun _ => .idle⟩ : Sys P E Tid) = ∅ := by
    intro f hf
    unfold idsKept
    refine Finset.filter_eq_empty_iff.mpr fun id _ => ?_
    rintro (h | ⟨t, ht⟩)
    · cases h
    · rw [hf] at ht
      cases ht
  constructor
  case zsm => exact zsmInit_inv g
  case calm => exact fun _ => rfl
  case chunks =>
    rw [hnone _ rfl]
    exact chunksFilled_init g
  case misses =>
    rw [hnone _ rfl]
    rfl

end Accounted

/-! ## §3. Every run. -/

/-- Calls for small ids of `W`, with zone commands that succeed. -/
def SysLabel.Fits (g : Geometry) (W : Finset Nat) (l : SysLabel Tid) : Prop :=
  l.Within W ∧ l.SmallId ∧ l.ZoneOk g

instance SysLabel.decFits (g : Geometry) (W : Finset Nat) (l : SysLabel Tid) :
    Decidable (l.Fits g W) :=
  inferInstanceAs (Decidable (l.Within W ∧ l.SmallId ∧ l.ZoneOk g))

omit [Fintype Tid] in
theorem ids_fit {C : Sys P E Tid → SysLabel Tid → Prop} (hC : ∀ s l, C s l → l.Fits g W)
    (hr : (cacheSystem Tid pol g rb).Reach C s) : IdsIn (fun id => id ∈ W ∧ id < 2 ^ 31) s := by
  refine ids_in (fun s t id hc => ?_) hr
  obtain ⟨hin, hsmall, -⟩ := hC s _ hc
  exact ⟨hin, hsmall⟩

/-- The accounts of a run in which no thread is evicting, up to its last state. -/
theorem accounted_of_calm (hpos : 1 ≤ g.maxZoneChunks) (hmax : g.maxZoneChunks < 2 ^ 32)
    (hW : W.card ≤ g.nrZones * g.maxZoneChunks)
    (hr : (cacheSystem Tid pol g rb).Reach
      (fun s l => l.Fits g W ∧ ∀ t, (s.pool t).evicting = none) s) :
    Attended s ∧ Accounted g W s := by
  have hatt : ∀ {s : Sys P E Tid}, (cacheSystem Tid pol g rb).Reach
      (fun s l => l.Fits g W ∧ ∀ t, (s.pool t).evicting = none) s → Attended s := by
    refine fun hr => attended_reach (fun s l hc e a c e' he => ?_) hr
    rw [hc.2 l.thread] at he
    cases he
  refine ⟨hatt hr, hr.invariant (fun s hs => ?_) fun s l s' hr h hc hs => ?_⟩
  · obtain ⟨bytes, rfl⟩ := hs
    exact Accounted.init g W bytes
  · exact h.step (hatt hr) hpos hmax hW (ids_fit (fun _ _ hc => hc.1) hr) hc.1.1 hc.1.2.2 hs

/-- So no thread ever is. -/
theorem calm_reach (hpos : 1 ≤ g.maxZoneChunks) (hmax : g.maxZoneChunks < 2 ^ 32)
    (hW : W.card ≤ g.nrZones * g.maxZoneChunks)
    (hr : (cacheSystem Tid pol g rb).Reach (fun _ l => l.Fits g W) s) :
    (cacheSystem Tid pol g rb).Reach
      (fun s l => l.Fits g W ∧ ∀ t, (s.pool t).evicting = none) s := by
  induction hr with
  | start h => exact .start h
  | next _ hc hs ih => exact .next ih ⟨hc, (accounted_of_calm hpos hmax hW ih).2.calm⟩ hs

/-- What is in the map stays there, unless a thread evicts. -/
theorem GetCase.located {a : Answers} {c c' : CacheState P} {pc pc' : GetPc E}
    (h : GetCase pol g rb a c pc c' pc') (hcalm : (Pc.get pc).evicting = none) {k : Nat}
    {l : ZnPair} (hk : c.cacheMap.zoneMap k = some (.loc l)) :
    c'.cacheMap.zoneMap k = some (.loc l) := by
  have hfind : ∀ {m m' : ZnCachemap} {id : Nat} {r : FindResult}, FindCase m id r m' →
      m.zoneMap k = some (.loc l) → m'.zoneMap k = some (.loc l) := by
    intro m m' id r hf hk
    cases hf with
    | located | sleep => exact hk
    | write hnone =>
      show Function.update m.zoneMap _ _ k = _
      rw [Function.update_of_ne fun heq => by rw [heq, hnone] at hk; cases hk]
      exact hk
  cases h with
  | find hf => exact hfind hf hk
  | wake hf => exact hfind hf hk
  | read | readUpdate | readDone | hit | acquire | write | miss | commit | writeUpdate
  | undoZoneGet => exact hk
  | evict => cases hcalm
  | publish hi =>
    obtain ⟨cond, hc, -, -, rfl⟩ := znCachemapInsert_ok hi
    show Function.update c.cacheMap.zoneMap _ _ k = _
    rw [Function.update_of_ne fun heq => by rw [heq, hc] at hk; cases hk]
    exact hk
  | undoMap hf =>
    obtain ⟨cond, hc, -, rfl⟩ := znCachemapFail_ok hf
    show Function.update c.cacheMap.zoneMap _ _ k = _
    rw [Function.update_of_ne fun heq => by rw [heq, hc] at hk; cases hk]
    exact hk

/-- **A WORKLOAD THAT FITS IS FETCHED ONCE.**  As long as calls are for ids of
a set no larger than the device has chunks, and the eviction task does not run:
no thread ever evicts, what is in the map stays where it is, and the misses are
as many as the ids that are in the map or on their way there. -/
theorem working_set_stays (hpos : 1 ≤ g.maxZoneChunks) (hmax : g.maxZoneChunks < 2 ^ 32)
    (hW : W.card ≤ g.nrZones * g.maxZoneChunks)
    (hr : (cacheSystem Tid pol g rb).Reach (fun _ l => l.Fits g W) s) :
    (∀ t, (s.pool t).evicting = none)
      ∧ (∀ l s', l.Fits g W → (cacheSystem Tid pol g rb).step s l s' →
        ∀ k p, s.cache.cacheMap.zoneMap k = some (.loc p) → s'.cache.cacheMap.zoneMap k = some (.loc p))
      ∧ s.cache.misses = (idsKept Pc.fetched W s).card := by
  obtain ⟨-, h⟩ := accounted_of_calm hpos hmax hW (calm_reach hpos hmax hW hr)
  refine ⟨h.calm, fun l s' hl hs k p hk => ?_, h.misses⟩
  cases sysStep_cases hs with
  | get | fgEvict | taskSleeps | taskEvicts | ret => exact hk
  | @step t a pc pc' c ht hcase =>
    have hcalm := h.calm t
    rw [ht] at hcalm
    exact hcase.located hcalm hk
  | @evict t a e e' c ht hstep =>
    have hcalm := h.calm t
    rw [ht] at hcalm
    cases hcalm

/-- Threads `t` and `u` ask for the same id; `u` sleeps until `t` has it. -/
def askTogether {Tid : Type u} (t u : Tid) : List (SysLabel Tid) :=
  [.get t 7, .get u 7, .step t allWell, .step u allWell] ++ List.replicate 6 (.step t allWell)
    ++ .ret t :: List.replicate 5 (.step u allWell)

/-- A single chunk, and two calls for the same id: one fetch. -/
theorem working_set_stays_shared : ∃ s : Sys ZnPolicyPromotional FgEvict (Fin 2),
    s.cache.hits = 1 ∧ (∀ t, (s.pool t).evicting = none)
      ∧ s.cache.misses = (idsKept Pc.fetched {7} s).card := by
  obtain ⟨s, hr, hhits⟩ := TransSys.Reach.exists_of_exec
    (T := cacheSystem (Fin 2) promotional oneChunk fun _ => 0)
    (C := fun _ l => l.Fits oneChunk {7}) sysExec_ok ⟨fun _ => 0, rfl⟩
    (fun s => s.cache.hits = 1) (askTogether 0 1) (by decide)
  obtain ⟨hcalm, -, hmisses⟩ := working_set_stays (by decide) (by decide) (by decide) hr
  exact ⟨s, of_decide_eq_true hhits, hcalm, hmisses⟩

end ZnCache
