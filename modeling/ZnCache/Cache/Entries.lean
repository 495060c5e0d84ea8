/-
  ZnCache.Cache.Entries — the entries of the cache map inside the cache.

  `CacheMap.Waiters` runs the map under threads that do nothing else.  In the
  cache a thread has other business between its find and its insert, and an
  eviction may be any policy's; `Attended` says that the map sees the threads
  it knows from there all the same.  So an entry that is being written belongs
  to a call that has missed, and nobody sleeps on a condition that is gone.

  `Recorded` is the other direction of `data_map`: what it has at a place is an
  id whose entry is there.  It is the reason why `zn_cachemap_clear_zone`
  returns.

  Main results: `attended_reach`, `recorded_reach`, and `nothing_pending`: with
  no call in progress every condition ever made has been destroyed once.
-/
import ZnCache.Cache.Cases
import ZnCache.CacheMap.Waiters

namespace ZnCache

open Lib Lib.ThreadPool

universe u

variable {P E : Type} {pol : EvictPolicy P E} {g : Geometry} {rb : Buffer} {Tid : Type u}

/-! ## §1. What the map knows of a thread. -/

/-- The search a thread is in, the condition it sleeps on, or the entry it is to
fill. -/
def Pc.Plays : Pc E → MapPc → Prop
  | .get (.find id), mp => mp = .find id
  | .get (.findWait id c seen), mp => mp = .asleep id c seen
  | .get (.acquire id), mp | .get (.evict id _), mp | .get (.write id _), mp
  | .get (.miss id _ _), mp | .get (.commit id _ _), mp | .get (.writeUpdate id _ _), mp
  | .get (.publish id _ _), mp | .get (.undoZoneGet id _), mp | .get (.undoMap id), mp =>
    ∃ c, mp = .writer id c
  | .idle, mp | .evictor _, mp | .get (.read ..), mp | .get (.readUpdate ..), mp
  | .get (.readDone ..), mp | .get (.hit ..), mp | .get (.done ..), mp => WaitInv.Outside mp

/-- What is written, and who sleeps, is as it was. -/
structure KeepsConds (m m' : ZnCachemap) : Prop where
  entry : ∀ k c, m'.zoneMap k = some (.cond c) ↔ m.zoneMap k = some (.cond c)
  conds : m'.conds = m.conds
  next : m'.nextCond = m.nextCond

theorem KeepsConds.refl (m : ZnCachemap) : KeepsConds m m := ⟨fun _ _ => Iff.rfl, rfl, rfl⟩

theorem KeepsConds.clearZone {m m' : ZnCachemap} {zone : Nat} {iter : List (Sigma fun _ : Nat => Nat)}
    (h : znCachemapClearZone m zone iter = .ok m') : KeepsConds m m' := by
  obtain ⟨-, zm, rfl, hzm, -⟩ := znCachemapClearZone_ok h
  refine ⟨WaitInv.entry_iff_of_removed fun k => ?_, rfl, rfl⟩
  rcases hzm k with heq | ⟨hnone, l, hl, -⟩
  · exact Or.inl heq
  · exact Or.inr ⟨hnone, l, hl⟩

theorem KeepsConds.clearChunk {m m' : ZnCachemap} {l : ZnPair} (h : znCachemapClearChunk m l = .ok m') :
    KeepsConds m m' := by
  obtain ⟨l', hl', -, -, rfl⟩ := znCachemapClearChunk_ok h
  refine ⟨WaitInv.entry_iff_of_removed fun k => ?_, rfl, rfl⟩
  by_cases hk : k = keyAt m l
  · subst hk
    exact Or.inr ⟨by simp, l', hl'⟩
  · exact Or.inl (by simp [hk])

variable [DecidableEq Tid] [Fintype Tid]

/-- **The map and the threads of the cache** are those of `CacheMap.Waiters`. -/
def Attended (s : Sys P E Tid) : Prop :=
  ∃ pool : Tid → MapPc, WaitInv s.cache.cacheMap pool ∧ ∀ t, (s.pool t).Plays (pool t)

namespace Attended

variable {s s' : Sys P E Tid} {t : Tid}

/-- A thread moves, and so does the one that plays it. -/
theorem goto {pool : Tid → MapPc} {c : CacheState P} {pc : Pc E} {m : MapPc}
    (hplays : ∀ u, (s.pool u).Plays (pool u)) (hinv : WaitInv c.cacheMap (Function.update pool t m))
    (hpc : pc.Plays m) : Attended (s.goto t c pc) := by
  refine ⟨_, hinv, fun u => ?_⟩
  rw [Sys.goto_pool]
  by_cases hu : u = t
  · rw [hu, Function.update_self, Function.update_self]
    exact hpc
  · rw [Function.update_of_ne hu, Function.update_of_ne hu]
    exact hplays u

/-- A thread moves on as the map sees it where it was. -/
theorem stay (h : Attended s) {c : CacheState P} {pc : Pc E}
    (hm : KeepsConds s.cache.cacheMap c.cacheMap)
    (hpc : ∀ mp, (s.pool t).Plays mp → pc.Plays mp) : Attended (s.goto t c pc) := by
  obtain ⟨pool, hinv, hplays⟩ := h
  refine ⟨pool, hinv.evict hm.entry hm.conds hm.next, fun u => ?_⟩
  rw [Sys.goto_pool]
  by_cases hu : u = t
  · rw [hu, Function.update_self]
    exact hpc _ (hplays t)
  · rw [Function.update_of_ne hu]
    exact hplays u

/-- A find, from the top of its loop. -/
theorem find {pool : Tid → MapPc} {m : ZnCachemap} {id : Nat} {r : FindResult}
    (hplays : ∀ u, (s.pool u).Plays (pool u)) (hinv : WaitInv m pool) (ht : pool t = .find id)
    {c : CacheState P} (hf : FindCase m id r c.cacheMap) : Attended (s.goto t c (.get (r.getPc id))) := by
  apply goto hplays (hinv.find ht hf)
  cases r with
  | located l => exact WaitInv.outside_hit id l
  | sleep => rfl
  | write c => exact ⟨c, rfl⟩

/-- **One step of `zn_cache_get`.** -/
theorem get (h : Attended s) {a : Answers} {pc pc' : GetPc E} {c : CacheState P}
    (ht : s.pool t = .get pc) (hcase : GetCase pol g rb a s.cache pc c pc')
    (hevict : ∀ e e', (s.pool t).evicting = some e → pol.step g a s.cache e = some (.ok (c, e')) →
      KeepsConds s.cache.cacheMap c.cacheMap) :
    Attended (s.goto t c (.get pc')) := by
  have hstay : ∀ {c : CacheState P} {pc' : GetPc E}, KeepsConds s.cache.cacheMap c.cacheMap →
      (∀ mp, (Pc.get pc).Plays mp → (Pc.get pc').Plays mp) → Attended (s.goto t c (.get pc')) :=
    fun hm hpc => h.stay hm (by rw [ht]; exact hpc)
  have hkeep := KeepsConds.refl s.cache.cacheMap
  cases hcase with
  | find hf =>
    obtain ⟨pool, hinv, hplays⟩ := h
    have hmp := hplays t
    rw [ht] at hmp
    exact find hplays hinv hmp hf
  | @wake id cond seen r m hf =>
    obtain ⟨pool, hinv, hplays⟩ := h
    have hmp : pool t = .asleep id cond seen := by
      have hmp := hplays t
      rw [ht] at hmp
      exact hmp
    -- the thread gives its reference back before it looks again
    apply goto hplays (m := r.pc id)
    · have hfound := (hinv.wake hmp).find (Function.update_self ..) hf
      rwa [Function.update_idem] at hfound
    · cases r with
      | located l => exact WaitInv.outside_hit id l
      | sleep => rfl
      | write c => exact ⟨c, rfl⟩
  | read | readUpdate | hit | miss | commit | writeUpdate => exact hstay hkeep fun _ hmp => hmp
  | readDone => exact hstay ⟨fun _ _ => Iff.rfl, rfl, rfl⟩ fun _ hmp => hmp
  | @acquire id r =>
    refine hstay hkeep fun mp hmp => ?_
    cases r <;> exact hmp
  | @evict id e c e' hstep =>
    refine hstay (hevict e e' (by rw [ht]; rfl) hstep) fun mp hmp => ?_
    cases e' <;> exact hmp
  | @write id l r d =>
    refine hstay hkeep fun mp hmp => ?_
    by_cases hr : r = 0
    · rw [if_neg (by simpa using hr)]
      exact hmp
    · rw [if_pos hr]
      exact hmp
  | publish hi =>
    obtain ⟨pool, hinv, hplays⟩ := h
    have hmp := hplays t
    rw [ht] at hmp
    obtain ⟨cond, hmp⟩ := hmp
    exact goto hplays (hinv.insert hmp hi) WaitInv.outside_idle
  | undoZoneGet => exact hstay hkeep fun _ hmp => hmp
  | undoMap hf =>
    obtain ⟨pool, hinv, hplays⟩ := h
    have hmp := hplays t
    rw [ht] at hmp
    obtain ⟨cond, hmp⟩ := hmp
    exact goto hplays (hinv.failed hmp hf) WaitInv.outside_idle

/-- **Step lemma**, for evictions that leave what is being written. -/
theorem step (h : Attended s) {l : SysLabel Tid} (hs : SysCase pol g rb s l s')
    (hevict : ∀ e a c e', (s.pool l.thread).evicting = some e →
      pol.step g a s.cache e = some (.ok (c, e')) → KeepsConds s.cache.cacheMap c.cacheMap) :
    Attended s' := by
  have hkeep := KeepsConds.refl s.cache.cacheMap
  cases hs with
  | @get t id ht =>
    obtain ⟨pool, hinv, hplays⟩ := h
    have hmp := hplays t
    rw [ht] at hmp
    refine goto hplays (m := .find id.toNat) (hinv.move hmp (WaitInv.outside_find _) ?_
      (fun _ _ => Iff.rfl) rfl rfl) rfl
    intro id' hid'
    cases hid'
    exact id.toNat_lt
  | fgEvict ht => exact h.stay hkeep fun mp hmp => by rw [ht] at hmp; exact hmp
  | taskSleeps => exact h
  | taskEvicts ht => exact h.stay hkeep fun mp hmp => by rw [ht] at hmp; exact hmp
  | ret ht => exact h.stay hkeep fun mp hmp => by rw [ht] at hmp; exact hmp
  | @step t a pc pc' c ht hcase => exact h.get ht hcase fun e e' he hstep => hevict e a c e' he hstep
  | @evict t a e e' c ht hstep =>
    refine h.stay (hevict e a c e' (by show (s.pool t).evicting = _; rw [ht]; rfl) hstep)
      fun mp hmp => ?_
    rw [ht] at hmp
    cases e' <;> exact hmp

/-! ## §2. What it comes to. -/

omit [DecidableEq Tid] in
/-- A thread that searches finds something, or sleeps on a condition that is
alive. -/
theorem find_returns (h : Attended s) (id : Nat) :
    ∃ r m, znCachemapFind s.cache.cacheMap id = .ok (r, m) := by
  obtain ⟨pool, hinv, -⟩ := h
  exact znCachemapFind_returns id fun c hc => hinv.rc_pos hc

theorem wake_returns (h : Attended s) {id c seen : Nat} (ht : s.pool t = .get (.findWait id c seen)) :
    ∃ r m, znCachemapWake s.cache.cacheMap id c = .ok (r, m) := by
  obtain ⟨pool, hinv, hplays⟩ := h
  have hmp : pool t = .asleep id c seen := by
    have hmp := hplays t
    rw [ht] at hmp
    exact hmp
  rw [znCachemapWake_eq (hinv.rc_pos_of_asleep hmp)]
  exact znCachemapFind_returns id fun c' hc' => (hinv.wake hmp).rc_pos hc'

omit [DecidableEq Tid] in
/-- An entry that is being written belongs to a thread that has missed it. -/
theorem writer (h : Attended s) {k c : Nat} (hk : s.cache.cacheMap.zoneMap k = some (.cond c)) :
    ∃ (t : Tid) (id : Nat), (s.pool t).Plays (.writer id c) ∧ gintToPointer id = k := by
  obtain ⟨pool, hinv, hplays⟩ := h
  obtain ⟨t, id, ht, hkey⟩ := hinv.entry_writer k c hk
  exact ⟨t, id, ht ▸ hplays t, hkey⟩

omit [DecidableEq Tid] in
/-- The entry of a thread that is to fill it is there, and its condition alive. -/
theorem entry (h : Attended s) (id : Nat)
    (ht : ∀ mp, (s.pool t).Plays mp → ∃ c, mp = .writer id c) :
    ∃ c, s.cache.cacheMap.zoneMap (gintToPointer id) = some (.cond c)
      ∧ (s.cache.cacheMap.conds c).rc ≠ 0 := by
  obtain ⟨pool, hinv, hplays⟩ := h
  obtain ⟨c, hc⟩ := ht _ (hplays t)
  have hentry := hinv.writer_entry t id c hc
  exact ⟨c, hentry, hinv.rc_pos hentry⟩

omit [DecidableEq Tid] in
/-- No two threads are to fill the same entry. -/
theorem writer_unique (h : Attended s) {t u : Tid} {id : Nat}
    (ht : ∀ mp, (s.pool t).Plays mp → ∃ c, mp = .writer id c)
    (hu : ∀ mp, (s.pool u).Plays mp → ∃ c, mp = .writer id c) : t = u := by
  obtain ⟨pool, hinv, hplays⟩ := h
  obtain ⟨c, hc⟩ := ht _ (hplays t)
  obtain ⟨c', hc'⟩ := hu _ (hplays u)
  exact hinv.writer_unique t u id c c' hc hc'

end Attended

/-- **Every run**, as long as evictions leave what is being written. -/
theorem attended_reach {C : Sys P E Tid → SysLabel Tid → Prop}
    (hevict : ∀ s l, C s l → ∀ e a c e', (s.pool l.thread).evicting = some e →
      pol.step g a s.cache e = some (.ok (c, e')) → KeepsConds s.cache.cacheMap c.cacheMap)
    {s : Sys P E Tid} (hr : (cacheSystem Tid pol g rb).Reach C s) : Attended s := by
  refine hr.invariant ?_ fun s l s' _ h hc hs => h.step (sysStep_cases hs) (hevict s l hc)
  intro s hs
  obtain ⟨bytes, rfl⟩ := hs
  exact ⟨fun _ => .idle, WaitInv.init g.nrZones, fun _ => WaitInv.outside_idle⟩

omit [DecidableEq Tid] in
/-- **Nothing is left behind.**  With no call in progress no entry is being
written, and every condition has been destroyed once. -/
theorem nothing_pending {s : Sys P E Tid} (h : Attended s) (hidle : ∀ t, s.pool t = .idle) :
    (∀ k c, s.cache.cacheMap.zoneMap k ≠ some (.cond c))
      ∧ ∀ c, c < s.cache.cacheMap.nextCond → (s.cache.cacheMap.conds c).cleared = 1 := by
  obtain ⟨pool, hinv, hplays⟩ := h
  have hout : ∀ t, WaitInv.Outside (pool t) := by
    intro t
    have hmp := hplays t
    rw [hidle t] at hmp
    exact hmp
  have hno : ∀ k c, s.cache.cacheMap.zoneMap k ≠ some (.cond c) := by
    intro k c hk
    obtain ⟨t, id, ht, -⟩ := hinv.entry_writer k c hk
    exact (hout t).not_writer id c ht
  refine ⟨hno, fun c hc => ?_⟩
  have hsl : sleepers pool c = 0 := by
    refine (countOn_eq_zero_iff _ _).mpr fun t _ hs => ?_
    obtain ⟨id, seen, ht⟩ := MapPc.sleepsOn_iff.mp hs
    exact (hout t).not_asleep id c seen ht
  rw [hinv.cleared c hc, hinv.rc_no_entry c fun k => hno k c, hsl, if_pos rfl]

/-! ## §3. What `data_map` records. -/

/-- What `data_map` has at a place is an id whose entry is at that place. -/
def Recorded (m : ZnCachemap) : Prop :=
  ∀ z c k, (m.dataMap z).lookup c = some k →
    ∃ l, m.zoneMap k = some (.loc l) ∧ l.zone = z ∧ guintToPointer l.chunkOffset = c

namespace Recorded

variable {m m' : ZnCachemap}

/-- An entry that is no location may change. -/
theorem setEntry (h : Recorded m) {key : Nat} (hkey : ∀ l, m.zoneMap key ≠ some (.loc l))
    (hzone : ∃ r, m'.zoneMap = Function.update m.zoneMap key r) (hdata : m'.dataMap = m.dataMap) :
    Recorded m' := by
  obtain ⟨r, hzone⟩ := hzone
  intro z c k hk
  rw [hdata] at hk
  obtain ⟨l, hl, hlz⟩ := h z c k hk
  have hne : k ≠ key := by
    rintro rfl
    exact hkey l hl
  refine ⟨l, ?_, hlz⟩
  rw [hzone, Function.update_of_ne hne]
  exact hl

theorem find (h : Recorded m) {id : Nat} {r : FindResult} (hf : FindCase m id r m') : Recorded m' := by
  cases hf with
  | located | sleep => exact h
  | write hnone => exact h.setEntry (by simp [hnone]) ⟨_, rfl⟩ rfl

theorem insert (h : Recorded m) {id : Nat} (hid : id < 2 ^ 32) {l : ZnPair}
    (hi : znCachemapInsert m id l = .ok m') : Recorded m' := by
  obtain ⟨cond, hcond, -, -, rfl⟩ := znCachemapInsert_ok hi
  rw [guint_eq_gint hid] at hcond
  have hrest : Recorded (m.setEntry (gintToPointer id) (some (.loc l))) :=
    h.setEntry (by simp [hcond]) ⟨_, rfl⟩ rfl
  intro z c k hk
  change (Function.update m.dataMap l.zone _ z).lookup c = some k at hk
  show ∃ l', Function.update m.zoneMap (guintToPointer id) _ k = _ ∧ _
  rw [guint_eq_gint hid]
  by_cases hz : z = l.zone
  · subst hz
    rw [Function.update_self] at hk
    by_cases hc : c = guintToPointer l.chunkOffset
    · subst hc
      rw [AList.lookup_insert] at hk
      cases hk
      exact ⟨l, Function.update_self .., rfl, rfl⟩
    · rw [AList.lookup_insert_ne hc] at hk
      exact hrest _ c k hk
  · rw [Function.update_of_ne hz] at hk
    exact hrest z c k hk

theorem fail (h : Recorded m) {id : Nat} (hf : znCachemapFail m id = .ok m') : Recorded m' := by
  obtain ⟨cond, hcond, -, rfl⟩ := znCachemapFail_ok hf
  exact h.setEntry (by simp [hcond]) ⟨_, rfl⟩ rfl

theorem clearZone (h : Recorded m) {zone : Nat} {iter : List (Sigma fun _ : Nat => Nat)}
    (hc : znCachemapClearZone m zone iter = .ok m') : Recorded m' := by
  obtain ⟨-, zm, rfl, hzm, -⟩ := znCachemapClearZone_ok hc
  intro z c k hk
  change (Function.update m.dataMap zone ∅ z).lookup c = some k at hk
  by_cases hz : z = zone
  · rw [hz, Function.update_self] at hk
    cases hk
  · rw [Function.update_of_ne hz] at hk
    obtain ⟨l, hl, hlz, hlc⟩ := h z c k hk
    refine ⟨l, ?_, hlz, hlc⟩
    show zm k = _
    rcases hzm k with heq | ⟨-, l', hl', hz'⟩
    · rw [heq, hl]
    · -- an entry of another zone is not removed
      rw [hl] at hl'
      cases hl'
      exact absurd (hlz.symm.trans hz') hz

/-- **Clearing a zone returns.** -/
theorem clearZone_returns (h : Recorded m) {zone : Nat} (hz : zone < m.numZones)
    (hsmall : ∀ k, m.zoneMap k ≠ none → k < 2 ^ 31) :
    ∃ m', znCachemapClearZone m zone (m.dataMap zone).entries = .ok m' := by
  have hlisted : ∀ e ∈ (m.dataMap zone).entries, ∃ l, m.zoneMap e.2 = some (.loc l) ∧ l.zone = zone
      ∧ guintToPointer l.chunkOffset = e.1 := by
    intro e he
    exact h zone e.1 e.2 (AList.mem_lookup_iff.mpr he)
  unfold znCachemapClearZone
  rw [if_pos hz, clearEntries_eq]
  · exact ⟨_, rfl⟩
  · intro e he
    obtain ⟨l, hl, hlz, -⟩ := hlisted e he
    exact ⟨hsmall e.2 (by simp [hl]), l, hl, hlz⟩
  · -- two entries with one id are at one place
    refine List.Nodup.map_on (fun e he e' he' heq => ?_) (m.dataMap zone).nodupKeys.nodup
    obtain ⟨l, hl, -, hlc⟩ := hlisted e he
    obtain ⟨l', hl', -, hlc'⟩ := hlisted e' he'
    rw [← heq, hl] at hl'
    cases hl'
    exact Sigma.ext (hlc.symm.trans hlc') (heq_of_eq heq)

end Recorded

omit [Fintype Tid] in
/-- **Every run**, for a policy that clears what it evicts. -/
theorem recorded_reach
    (hpol : ∀ a s e s' e', Recorded s.cacheMap → pol.step g a s e = some (.ok (s', e')) →
      Recorded s'.cacheMap)
    {C : Sys P E Tid → SysLabel Tid → Prop} {s : Sys P E Tid}
    (hr : (cacheSystem Tid pol g rb).Reach C s) : Recorded s.cache.cacheMap := by
  refine TransSys.Reach.invariant (I := fun s => Recorded s.cache.cacheMap) ?_ ?_ hr
  · intro s hs z c k hk
    obtain ⟨bytes, rfl⟩ := hs
    cases hk
  · intro s l s' hreach h _ hs
    cases sysStep_cases hs with
    | get | fgEvict | taskSleeps | taskEvicts | ret => exact h
    | evict _ hstep => exact hpol _ _ _ _ _ h hstep
    | @step t a pc pc' c ht hcase =>
      cases hcase with
      | find hf => exact h.find hf
      | wake hf =>
        refine Recorded.find ?_ hf
        exact h
      | read | readUpdate | readDone | hit | acquire | write | miss | commit | writeUpdate
      | undoZoneGet => exact h
      | evict hstep => exact hpol _ _ _ _ _ h hstep
      | publish hi => exact h.insert (ids_u32 hreach t _ ht) hi
      | undoMap hf => exact h.fail hf

end ZnCache
