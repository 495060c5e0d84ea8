/-
  ZnCache.Chunk.Identity — what the chunk pool and the cache map call a chunk.

  `zn_cache_get` gives the location that `zsm_get_active_zone` builds to the
  policy, and its own id to the cache map.  Nobody writes the id into the
  location, so every chunk of the pool is called 0, whatever it holds.

  `pool_names_iff` is about one call at a time, between the calls: pool and map
  agree on which chunks hold data, and on where they are, and they agree on
  what the chunks hold exactly when no other id than 0 is cached.

  A collector that moves a live chunk would be an exception.  It never comes to
  that: it inserts the chunk under an id that has to be missed at that time,
  and the call that misses it fails its own assertion afterwards (`Robbed`).
-/
import ZnCache.Chunk.Unpublished

namespace ZnCache

open Lib Lib.ThreadPool

universe u

variable {P E : Type} {pol : EvictPolicy P E} {g : Geometry} {rb : Buffer} {Tid : Type u}

/-! ## §1. The id that is missed. -/

/-- The id of a call that has found no entry, and has still to insert or to fail
it. -/
def GetPc.missing : GetPc E → Option Nat
  | .acquire id | .evict id _ | .write id _ | .miss id _ _ | .commit id _ _ | .writeUpdate id _ _
  | .publish id _ _ | .undoZoneGet id _ | .undoMap id => some id
  | .find _ | .findWait .. | .read .. | .readUpdate .. | .readDone .. | .hit .. | .done .. => none

/-- The same for a thread of the system. -/
def Pc.missing : Pc E → Option Nat
  | .get pc => pc.missing
  | .idle | .evictor _ => none

/-- The thread that misses a key. -/
def Pc.Misses (pc : Pc E) (k : Nat) : Prop := ∃ id : Nat, pc.missing = some id ∧ gintToPointer id = k

/-- Every entry that is being written is missed by some thread. -/
def CondsMissed (s : Sys P E Tid) : Prop :=
  ∀ k c, s.cache.cacheMap.zoneMap k = some (.cond c) → Covered (Pc.Misses · k) s.pool

/-- Some thread misses an id whose entry is no longer its own. -/
def Robbed (s : Sys P E Tid) : Prop :=
  ∃ t k, (s.pool t).Misses k ∧ ∀ c, s.cache.cacheMap.zoneMap k ≠ some (.cond c)

/-- Eviction puts no entry that is being written. -/
def EvictPolicy.AddsNoCond (pol : EvictPolicy P E) (g : Geometry) : Prop :=
  ∀ a s e s' e', pol.step g a s e = some (.ok (s', e')) →
    ∀ k c, s'.cacheMap.zoneMap k = some (.cond c) → s.cacheMap.zoneMap k = some (.cond c)

theorem Pc.misses_iff {pc : Pc E} {id : Nat} (h : pc.missing = some id) {k : Nat} :
    pc.Misses k ↔ gintToPointer id = k := by
  unfold Pc.Misses
  rw [h]
  simp

theorem Pc.not_misses {pc : Pc E} (h : pc.missing = none) {k : Nat} : ¬ pc.Misses k := by
  unfold Pc.Misses
  rw [h]
  simp

/-- An entry that is being written after a step was there, and is not this
thread's, or is this thread's. -/
theorem GetCase.cond_missed {a : Answers} {s s' : CacheState P} {pc pc' : GetPc E}
    (hpol : pol.AddsNoCond g) (h : GetCase pol g rb a s pc s' pc') (hid : pc.id < 2 ^ 32) {k c : Nat}
    (hk : s'.cacheMap.zoneMap k = some (.cond c)) :
    (Pc.get pc').Misses k ∨ (s.cacheMap.zoneMap k = some (.cond c) ∧ ¬ (Pc.get pc).Misses k) := by
  -- the thread goes on missing what it missed
  have hkeeps : ∀ {pc pc' : GetPc E}, pc'.missing = pc.missing →
      s.cacheMap.zoneMap k = some (.cond c) →
      (Pc.get pc').Misses k ∨ (s.cacheMap.zoneMap k = some (.cond c) ∧ ¬ (Pc.get pc).Misses k) := by
    intro pc pc' hsame hk
    have hiff : (Pc.get pc').Misses k ↔ (Pc.get pc).Misses k := by
      show (∃ id : Nat, pc'.missing = some id ∧ _) ↔ ∃ id : Nat, pc.missing = some id ∧ _
      rw [hsame]
    by_cases hmiss : (Pc.get pc).Misses k
    · exact Or.inl (hiff.mpr hmiss)
    · exact Or.inr ⟨hk, hmiss⟩
  -- a find that misses makes the entry, and the thread its own
  have hfind : ∀ {m m' : ZnCachemap} {id : Nat} {r : FindResult}, FindCase m id r m' →
      m.zoneMap = s.cacheMap.zoneMap → m'.zoneMap k = some (.cond c) →
      (Pc.get (r.getPc id) : Pc E).Misses k ∨ s.cacheMap.zoneMap k = some (.cond c) := by
    intro m m' id r hf hm hk
    cases hf with
    | located | sleep =>
      rw [← hm]
      exact Or.inr hk
    | write =>
      have hk' : Function.update m.zoneMap (gintToPointer id) _ k = some (.cond c) := hk
      by_cases heq : k = gintToPointer id
      · exact Or.inl ⟨id, rfl, heq.symm⟩
      · rw [Function.update_of_ne heq] at hk'
        rw [← hm]
        exact Or.inr hk'
  cases h with
  | find hf =>
    rcases hfind hf rfl hk with hmiss | hold
    · exact Or.inl hmiss
    · exact Or.inr ⟨hold, Pc.not_misses rfl⟩
  | wake hf =>
    rcases hfind hf rfl hk with hmiss | hold
    · exact Or.inl hmiss
    · exact Or.inr ⟨hold, Pc.not_misses rfl⟩
  | read | readUpdate | readDone | hit | miss | commit | writeUpdate | undoZoneGet =>
    exact hkeeps rfl hk
  | @acquire id r =>
    have hsame : (r.getPc pol id).missing = (GetPc.acquire id : GetPc E).missing := by
      cases r <;> rfl
    exact hkeeps hsame hk
  | @evict id e s' e' hstep =>
    have hsame : (evictPc id e').missing = (GetPc.evict id e).missing := by
      cases e' <;> rfl
    exact hkeeps hsame (hpol _ _ _ _ _ hstep k c hk)
  | @write id l r d =>
    by_cases hr : r = 0
    · rw [if_neg (by simpa using hr)]
      exact hkeeps rfl hk
    · rw [if_pos hr]
      exact hkeeps rfl hk
  | @publish id l data m hins =>
    obtain ⟨cond, -, -, -, rfl⟩ := znCachemapInsert_ok hins
    have hk' : Function.update s.cacheMap.zoneMap (guintToPointer id) _ k = some (.cond c) := hk
    have hid' : id < 2 ^ 32 := hid
    by_cases heq : k = guintToPointer id
    · rw [heq, Function.update_self] at hk'
      cases hk'
    · rw [Function.update_of_ne heq] at hk'
      refine Or.inr ⟨hk', ?_⟩
      -- below 2^32 both conversions of the id give the same key
      rw [Pc.misses_iff rfl, gintToPointer_natCast (by omega)]
      rw [guintToPointer_eq (by omega)] at heq
      exact Ne.symm heq
  | @undoMap id m hf =>
    obtain ⟨cond, -, -, rfl⟩ := znCachemapFail_ok hf
    have hk' : Function.update s.cacheMap.zoneMap (gintToPointer id) none k = some (.cond c) := hk
    by_cases heq : k = gintToPointer id
    · rw [heq, Function.update_self] at hk'
      cases hk'
    · rw [Function.update_of_ne heq] at hk'
      refine Or.inr ⟨hk', ?_⟩
      rw [Pc.misses_iff rfl]
      exact Ne.symm heq

/-- A thread that has been robbed does not get its entry back, and goes on. -/
theorem GetCase.robbed {a : Answers} {s s' : CacheState P} {pc pc' : GetPc E}
    (hpol : pol.AddsNoCond g) (h : GetCase pol g rb a s pc s' pc') (hid : pc.id < 2 ^ 32) {k : Nat}
    (hmiss : (Pc.get pc).Misses k) (hno : ∀ c, s.cacheMap.zoneMap k ≠ some (.cond c)) :
    (Pc.get pc').Misses k ∧ ∀ c, s'.cacheMap.zoneMap k ≠ some (.cond c) := by
  obtain ⟨id', hsome, rfl⟩ := hmiss
  cases h with
  | find | wake | read | readUpdate | readDone | hit => cases hsome
  | miss | commit | writeUpdate | undoZoneGet => exact ⟨⟨id', hsome, rfl⟩, hno⟩
  | @acquire id r =>
    cases hsome
    exact ⟨⟨id', by cases r <;> rfl, rfl⟩, hno⟩
  | @evict id e s' e' hstep =>
    cases hsome
    refine ⟨⟨id', by cases e' <;> rfl, rfl⟩, ?_⟩
    intro c hc
    exact hno c (hpol _ _ _ _ _ hstep _ c hc)
  | @write id l r d =>
    cases hsome
    refine ⟨⟨id', ?_, rfl⟩, hno⟩
    by_cases hr : r = 0
    · rw [if_neg (by simpa using hr)]
      rfl
    · rw [if_pos hr]
      rfl
  | @publish id l data m hins =>
    cases hsome
    obtain ⟨c, hc, -⟩ := znCachemapInsert_ok hins
    have hid' : id' < 2 ^ 32 := hid
    rw [guintToPointer_eq (by omega)] at hc
    rw [gintToPointer_natCast (by omega)] at hno
    exact absurd hc (hno c)
  | @undoMap id m hf =>
    cases hsome
    obtain ⟨c, hc, -⟩ := znCachemapFail_ok hf
    exact absurd hc (hno c)

/-! ## §2. What the chunk policy does to entries. -/

/-- Eviction leaves an entry, removes it, or puts a location where a call was
still writing. -/
theorem chunk_entries {mem : Nat → EvictionPolicyChunkZone} {a : Answers}
    {s s' : CacheState ZnPolicyChunk} {e : ChunkEvict} {e' : Option ChunkEvict}
    (h : (chunk mem).step g a s e = some (.ok (s', e'))) (k : Nat) :
    s'.cacheMap.zoneMap k = s.cacheMap.zoneMap k ∨ s'.cacheMap.zoneMap k = none
      ∨ ((∃ c, s.cacheMap.zoneMap k = some (.cond c)) ∧ ∃ l, s'.cacheMap.zoneMap k = some (.loc l)) := by
  cases chunkEvictStep_cases h with
  | refuse | enter | pop | popped | mark | gcSkip | gcStart | gcDone | gcPick | gcSkipChunk
  | gcAcquire | gcScanned | gcRead | gcWrite | gcReset | gcFree | unlock => exact Or.inl rfl
  | @clear i i' nrEvict zp m hm =>
    obtain ⟨l, -, -, -, rfl⟩ := znCachemapClearChunk_ok hm
    show Function.update s.cacheMap.zoneMap (keyAt s.cacheMap zp) none k = _ ∨ _
    by_cases heq : k = keyAt s.cacheMap zp
    · exact Or.inr (Or.inl (by rw [heq]; exact Function.update_self ..))
    · exact Or.inl (Function.update_of_ne heq ..)
  | @gcInsert old i newLocation m hm =>
    obtain ⟨c, hc, -, -, rfl⟩ := znCachemapInsert_ok hm
    show Function.update s.cacheMap.zoneMap (guintToPointer _) _ k = _ ∨ _
    by_cases heq : k = guintToPointer (s.policy.pair (old, i)).id
    · rw [← heq] at hc
      refine Or.inr (Or.inr ⟨⟨c, hc⟩, newLocation, ?_⟩)
      rw [heq]
      exact Function.update_self ..
    · exact Or.inl (Function.update_of_ne heq ..)
  | gcClear hm =>
    obtain ⟨-, zm, rfl, hzm, -⟩ := znCachemapClearZone_ok hm
    exact (hzm k).imp_right fun hgone => Or.inl hgone.1

theorem chunk_conds (mem : Nat → EvictionPolicyChunkZone) : (chunk mem).AddsNoCond g := by
  intro a s e s' e' h k c hk
  rcases chunk_entries h k with heq | hnone | ⟨-, l, hl⟩
  · exact heq ▸ hk
  · rw [hnone] at hk
    cases hk
  · rw [hl] at hk
    cases hk

theorem chunk_keys (mem : Nat → EvictionPolicyChunkZone) (g : Geometry) (a : Answers)
    (s : CacheState ZnPolicyChunk) (e : ChunkEvict) (s' : CacheState ZnPolicyChunk)
    (e' : Option ChunkEvict) (h : (chunk mem).step g a s e = some (.ok (s', e'))) (k : Nat)
    (hk : s'.cacheMap.zoneMap k ≠ none) : s.cacheMap.zoneMap k ≠ none := by
  rcases chunk_entries h k with heq | hnone | ⟨⟨c, hc⟩, -⟩
  · exact heq ▸ hk
  · exact absurd hnone hk
  · rw [hc]
    simp

/-! ## §3. One call at a time. -/

/-- The location a thread was given, and has still to pass on. -/
def Pc.placed : Pc E → Option ZnPair
  | .get (.write _ l) | .get (.miss _ l _) | .get (.commit _ l _) | .get (.writeUpdate _ l _)
  | .get (.publish _ l _) | .get (.undoZoneGet _ l) => some l
  | _ => none

/-- Every chunk that is in use is called 0. -/
def ZnPolicyChunk.AllZero (p : ZnPolicyChunk) : Prop :=
  ∀ ch, (p.pair ch).inUse = true → (p.pair ch).id = 0

/-- `zsm_get_active_zone` leaves the id of the location it builds zero, and no
step sets it. -/
theorem GetCase.placed {a : Answers} {s s' : CacheState P} {pc pc' : GetPc E}
    (h : GetCase pol g rb a s pc s' pc') {l : ZnPair} (hl : (Pc.get pc').placed = some l) :
    l.id = 0 ∨ (Pc.get pc).placed = some l := by
  cases h with
  | @find id r | @wake id c seen r => cases r <;> cases hl
  | read | readUpdate | readDone | hit | publish | undoZoneGet | undoMap => cases hl
  | miss | commit | writeUpdate => exact Or.inr hl
  | @evict id e s' e' => cases e' <;> cases hl
  | @write id l' r d =>
    by_cases hr : r = 0
    · rw [if_neg (by simpa using hr)] at hl
      exact Or.inr hl
    · rw [if_pos hr] at hl
      exact Or.inr hl
  | @acquire id r z hr =>
    have hcase := zsmGetActiveZone_cases hr
    cases r with
    | success l' =>
      cases hl
      cases hcase with
      | unchanged hno => exact absurd rfl (hno l)
      | reuse | opened => exact Or.inl rfl
    | retry | error | evict => cases hl

/-- **What holds while one call is made at a time.** -/
structure AloneInv (g : Geometry) (s : Sys ZnPolicyChunk ChunkEvict Tid) : Prop where
  placed : ∀ t l, (s.pool t).placed = some l → l.id = 0
  conds : CondsMissed s
  agree : (ChunkSys g s ∧ s.cache.policy.AllZero) ∨ Robbed s

theorem Pc.Misses.ne_idle {pc : Pc E} {k : Nat} (h : pc.Misses k) : pc ≠ .idle := by
  rintro rfl
  obtain ⟨id, hid, -⟩ := h
  cases hid

/-- A thread that is not idle is the one that moves. -/
theorem SysLabel.Alone.eq {s : Sys P E Tid} {l : SysLabel Tid} (h : l.Alone s) {t : Tid}
    (ht : s.pool t ≠ .idle) : l.thread = t := by
  by_contra hne
  have hidle := h t (Ne.symm hne)
  cases hpc : s.pool t with
  | idle => exact ht hpc
  | get pc | evictor e =>
    rw [hpc] at hidle
    cases hidle

/-- While one call is made at a time, at most one thread has one in progress. -/
def Sys.Lone (s : Sys P E Tid) : Prop := ∀ t u, s.pool t ≠ .idle → s.pool u ≠ .idle → t = u

/-- While one call is made at a time, a chunk is inserted before the next is
taken from the queue. -/
theorem SysLabel.Alone.popsPublished {s : Sys ZnPolicyChunk ChunkEvict Tid} {l : SysLabel Tid}
    (h : l.Alone s) : l.PopsPublished s := by
  intro ch hpop u hu
  have hut : l.thread = u := by
    apply h.eq
    intro hidle
    rw [hidle] at hu
    cases hu
  obtain ⟨e, he⟩ := Sys.evicting_of_popping hpop
  rw [hut] at he
  rw [Pc.publishing_of_evicting he] at hu
  cases hu

variable [DecidableEq Tid]

theorem Sys.Lone.reach {C : Sys P E Tid → SysLabel Tid → Prop} (hC : ∀ s l, C s l → l.Alone s)
    {s : Sys P E Tid} (hr : (cacheSystem Tid pol g rb).Reach C s) : s.Lone := by
  apply TransSys.Reach.invariant (I := Sys.Lone) _ _ hr
  · intro s hs t u ht
    obtain ⟨bytes, rfl⟩ := hs
    exact absurd rfl ht
  · intro s l s' _ _ hc hs
    have halone := hC s l hc
    -- the others are idle, and stay so
    have hmover : ∀ t, s'.pool t ≠ .idle → t = l.thread := by
      intro t ht
      by_contra hne
      rw [(sysStep_cases hs).other hne] at ht
      exact hne (halone.eq ht).symm
    intro t u ht hu
    rw [hmover t ht, hmover u hu]

section Misses

variable {s s' : Sys P E Tid} {l : SysLabel Tid}

theorem CondsMissed.step
    (hpol : pol.AddsNoCond g) (h : CondsMissed s) (hids : IdsIn (fun id => id < 2 ^ 31) s) (hs : SysCase pol g rb s l s') :
    CondsMissed s' := by
  intro k c hk
  have hstays : ∀ {t : Tid} {c' : CacheState P} {pc : Pc E}, ¬ (s.pool t).Misses k →
      s.cache.cacheMap.zoneMap k = some (.cond c) → Covered (Pc.Misses · k) (s.goto t c' pc).pool :=
    fun hno hold => covered_update_of_not (h k c hold) _ _ hno
  cases hs with
  | get ht => exact hstays (Pc.not_misses (congrArg Pc.missing ht)) hk
  | fgEvict ht => exact hstays (Pc.not_misses (congrArg Pc.missing ht)) hk
  | taskSleeps => exact h k c hk
  | taskEvicts ht => exact hstays (Pc.not_misses (congrArg Pc.missing ht)) hk
  | ret ht => exact hstays (Pc.not_misses (congrArg Pc.missing ht)) hk
  | evict ht hstep =>
    exact hstays (Pc.not_misses (congrArg Pc.missing ht)) (hpol _ _ _ _ _ hstep k c hk)
  | @step t a pc pc' c' ht hcase =>
    have hid : pc.id < 2 ^ 31 := hids t pc ht
    rcases hcase.cond_missed hpol (by omega) hk with hmiss | ⟨hold, hno⟩
    · exact covered_update_self s.pool t hmiss
    · exact hstays (by rw [ht]; exact hno) hold

theorem Robbed.step
    (hpol : pol.AddsNoCond g) (h : Robbed s) (halone : l.Alone s)
    (hids : IdsIn (fun id => id < 2 ^ 31) s) (hs : SysCase pol g rb s l s') : Robbed s' := by
  obtain ⟨t, k, hmiss, hno⟩ := h
  have hmoves : l.thread = t := halone.eq hmiss.ne_idle
  subst hmoves
  obtain ⟨id, hsome, hptr⟩ := hmiss
  cases hs with
  | get ht | fgEvict ht | taskEvicts ht | ret ht | evict ht =>
    have hnone := (congrArg Pc.missing ht).symm.trans hsome
    cases hnone
  | @taskSleeps t ht => exact ⟨t, k, ⟨id, hsome, hptr⟩, hno⟩
  | @step t a pc pc' c' ht hcase =>
    have hid : pc.id < 2 ^ 31 := hids t pc ht
    have hat : (Pc.get pc).Misses k := by
      rw [← ht]
      exact ⟨id, hsome, hptr⟩
    obtain ⟨hmiss', hno'⟩ := hcase.robbed hpol (by omega) hat hno
    exact ⟨t, k, by rw [Sys.goto_pool, Function.update_self]; exact hmiss', hno'⟩

end Misses

/-! ## §4. Every run. -/

section Names

variable {mem : Nat → EvictionPolicyChunkZone} {s s' : Sys ZnPolicyChunk ChunkEvict Tid}
  {l : SysLabel Tid}

/-- The collector moves a live chunk: it takes the entry of the call it is in. -/
theorem robbed_of_moves (h : CondsMissed s) (halone : l.Alone s) {e : ChunkEvict}
    (he : (s.pool l.thread).evicting = some e) (hmoves : e.Moves)
    (hs : SysCase (chunk mem) g rb s l s') : Robbed s' := by
  have hinserts : ∀ {a : Answers} {e : ChunkEvict} {e' : Option ChunkEvict}
      {c : CacheState ZnPolicyChunk}, e.Moves →
      (chunk mem).step g a s.cache e = some (.ok (c, e')) →
      ∃ k, (s.pool l.thread).Misses k ∧ ∃ l, c.cacheMap.zoneMap k = some (.loc l) := by
    intro a e e' c hmoves hstep
    cases chunkEvictStep_cases hstep with
    | refuse | enter | pop | popped | mark | clear | gcSkip | gcStart | gcDone | gcPick | gcSkipChunk
    | gcAcquire | gcScanned | gcRead | gcWrite | gcClear | gcReset | gcFree | unlock =>
      exact hmoves.elim
    | @gcInsert old i newLocation m hm =>
      obtain ⟨cond, hcond, -, -, rfl⟩ := znCachemapInsert_ok hm
      obtain ⟨u, hu⟩ := h _ _ hcond
      have hmover : l.thread = u := halone.eq hu.ne_idle
      exact ⟨_, by rw [hmover]; exact hu, newLocation, Function.update_self ..⟩
  cases hs with
  | get ht | fgEvict ht | taskSleeps ht | taskEvicts ht | ret ht =>
    -- none of these is a step of an eviction
    have hnone := (congrArg Pc.evicting ht).symm.trans he
    cases hnone
  | @evict t a e₁ e' c ht hstep =>
    -- the background evictor misses no id, and would fail the assertion
    have hat := (congrArg Pc.evicting ht).symm.trans he
    cases hat
    obtain ⟨k, ⟨id, hsome, -⟩, -⟩ := hinserts hmoves hstep
    have hnone := (congrArg Pc.missing ht).symm.trans hsome
    cases hnone
  | @step t a pc pc' c ht hcase =>
    have hat := (congrArg Pc.evicting ht).symm.trans he
    cases hcase with
    | @evict id e₁ c e' hstep =>
      cases hat
      obtain ⟨k, ⟨id', hsome, hptr⟩, l', hl'⟩ := hinserts hmoves hstep
      have hid := (congrArg Pc.missing ht).symm.trans hsome
      cases hid
      refine ⟨t, k, ⟨id, ?_, hptr⟩, ?_⟩
      · rw [Sys.goto_pool, Function.update_self]
        cases e' <;> rfl
      · intro cond hcond
        rw [Sys.goto_cache, hl'] at hcond
        cases hcond
    | find | wake | read | readUpdate | readDone | hit | acquire | write | miss | commit
    | writeUpdate | publish | undoZoneGet | undoMap => cases hat

/-- An update of the policy by a location that is called 0. -/
theorem ZnPolicyChunk.AllZero.update {p p' : ZnPolicyChunk} (h : p.AllZero) {loc : ZnPair} {io : ZnIoType}
    (hzero : io = .write → loc.id = 0) (hcase : ChunkUpdateCase g p loc io p') : p'.AllZero := by
  have hwritten : loc.id = 0 → (p.written loc).AllZero := by
    intro hid ch huse
    rw [ZnPolicyChunk.pair_written] at huse ⊢
    by_cases hch : ch = (loc.zone, loc.chunkOffset)
    · rw [hch, Function.update_self]
      exact hid
    · rw [Function.update_of_ne hch] at huse ⊢
      exact h ch huse
  cases hcase with
  | write => exact hwritten (hzero rfl)
  | writeLast =>
    unfold ZnPolicyChunk.AllZero
    rw [ZnPolicyChunk.pair_filed]
    exact hwritten (hzero rfl)
  | absent => exact h
  | touch => exact h

/-- A step of an eviction that moves no live chunk. -/
theorem ZnPolicyChunk.AllZero.evict {a : Answers} {c c' : CacheState ZnPolicyChunk} {e : ChunkEvict}
    {e' : Option ChunkEvict} (h : c.policy.AllZero) (hb : ChunkBooks g c.policy) (hmoves : ¬ e.Moves)
    (hcase : ChunkEvictCase g a c e c' e') : c'.policy.AllZero := by
  cases hcase with
  | refuse | enter | popped | mark | clear | gcSkip | gcStart | gcDone | gcPick | gcSkipChunk
  | gcAcquire | gcScanned | gcRead | gcWrite | gcClear | gcReset | gcFree | unlock => exact h
  | gcInsert => exact absurd trivial hmoves
  | pop _ hpop =>
    obtain ⟨ch, rest, -, -, rfl⟩ := popChunk_ok hb hpop
    intro x huse
    rw [ZnPolicyChunk.pair_popped] at huse ⊢
    by_cases hx : x = ch
    · rw [hx, Function.update_self] at huse
      cases huse
    · rw [Function.update_of_ne hx] at huse ⊢
      exact h x huse

/-- The locations that threads have stay without an id. -/
theorem placed_step (h : ∀ t l, (s.pool t).placed = some l → l.id = 0)
    (hs : SysCase (chunk mem) g rb s l s') : ∀ t l, (s'.pool t).placed = some l → l.id = 0 := by
  cases hs with
  | get | fgEvict | taskEvicts | ret =>
    exact Sys.goto_forall (Q := fun pc => ∀ l, pc.placed = some l → l.id = 0) h _ _
      fun l hl => by cases hl
  | taskSleeps => exact h
  | @evict t a e e' c ht hstep =>
    apply Sys.goto_forall (Q := fun pc => ∀ l, pc.placed = some l → l.id = 0) h
    intro l hl
    cases e' <;> cases hl
  | @step t a pc pc' c ht hcase =>
    apply Sys.goto_forall (Q := fun pc => ∀ l, pc.placed = some l → l.id = 0) h
    intro l hl
    rcases hcase.placed hl with hzero | hold
    · exact hzero
    · exact h t l ((congrArg Pc.placed ht).trans hold)

/-- A step that moves no live chunk calls no chunk anything but 0. -/
theorem allZero_step (hb : ChunkBooks g s.cache.policy) (hzero : s.cache.policy.AllZero)
    (hplaced : ∀ t l, (s.pool t).placed = some l → l.id = 0) (hmoves : l.MovesNone s)
    (hs : SysCase (chunk mem) g rb s l s') : s'.cache.policy.AllZero := by
  cases hs with
  | get | fgEvict | taskSleeps | taskEvicts | ret => exact hzero
  | @evict t a e e' c ht hstep =>
    have hat : (s.pool t).evicting = some e := congrArg Pc.evicting ht
    exact hzero.evict hb (hmoves e hat) (chunkEvictStep_cases hstep)
  | @step t a pc pc' c ht hcase =>
    cases hcase with
    | find | wake | read | readDone | hit | acquire | write | miss | commit | publish | undoZoneGet
    | undoMap => exact hzero
    | @evict id e c e' hstep =>
      have hat : (s.pool t).evicting = some e := congrArg Pc.evicting ht
      exact hzero.evict hb (hmoves e hat) (chunkEvictStep_cases hstep)
    | readUpdate hup => exact hzero.update (fun hio => by cases hio) (chunkUpdate_cases hup).2
    | @writeUpdate id loc data p hup =>
      have hat : (s.pool t).placed = some loc := congrArg Pc.placed ht
      exact hzero.update (fun _ => hplaced t loc hat) (chunkUpdate_cases hup).2

/-- While no live chunk is moved, every chunk in use is called 0. -/
theorem allZero_reach (hmax : g.maxZoneChunks < 2 ^ 32)
    {C : Sys ZnPolicyChunk ChunkEvict Tid → SysLabel Tid → Prop}
    (hC : ∀ s l, C s l → l.SmallId ∧ l.MovesNone s ∧ l.PopsPublished s)
    (hr : (cacheSystem Tid (chunk mem) g rb).Reach C s) : s.cache.policy.AllZero := by
  have hall : (∀ t l, (s.pool t).placed = some l → l.id = 0) ∧ s.cache.policy.AllZero := by
    apply TransSys.Reach.invariant (I := fun s : Sys ZnPolicyChunk ChunkEvict Tid =>
      (∀ t l, (s.pool t).placed = some l → l.id = 0) ∧ s.cache.policy.AllZero) _ _ hr
    · intro s hs
      obtain ⟨bytes, rfl⟩ := hs
      constructor
      · intro t l hl
        cases hl
      · intro ch huse
        cases huse
    · intro s l s' hreach h hc hs
      obtain ⟨e, -, hsh⟩ := ChunkSys.reach hmax hC hreach
      have hcase := sysStep_cases hs
      exact ⟨placed_step h.1 hcase, allZero_step hsh.books h.2 h.1 (hC s l hc).2.1 hcase⟩
  exact hall.2

namespace AloneInv

/-- **Step lemma.** -/
theorem step (h : AloneInv g s) (hmax : g.maxZoneChunks < 2 ^ 32)
    (hids : IdsIn (fun id => id < 2 ^ 31) s) (halone : l.Alone s)
    (hs : SysCase (chunk mem) g rb s l s') : AloneInv g s' := by
  constructor
  · exact placed_step h.placed hs
  · exact h.conds.step (chunk_conds mem) hids hs
  · rcases h.agree with ⟨hsys, hzero⟩ | hrobbed
    · by_cases hmoves : l.MovesNone s
      · obtain ⟨e, -, hsh⟩ := id hsys
        exact Or.inl ⟨hsys.step hmax hids hmoves halone.popsPublished hs,
          allZero_step hsh.books hzero h.placed hmoves hs⟩
      · unfold SysLabel.MovesNone at hmoves
        push Not at hmoves
        obtain ⟨e, he, hmove⟩ := hmoves
        exact Or.inr (robbed_of_moves h.conds halone he hmove hs)
    · exact Or.inr (hrobbed.step (chunk_conds mem) halone hids hs)

/-- **Run lemma.** -/
theorem reach (hmax : g.maxZoneChunks < 2 ^ 32)
    {C : Sys ZnPolicyChunk ChunkEvict Tid → SysLabel Tid → Prop}
    (hC : ∀ s l, C s l → l.Alone s ∧ l.SmallId)
    (hr : (cacheSystem Tid (chunk mem) g rb).Reach C s) : AloneInv g s := by
  apply TransSys.Reach.invariant (I := AloneInv g) _ _ hr
  · intro s hs
    obtain ⟨bytes, rfl⟩ := hs
    constructor
    · exact fun t l hl => by cases hl
    · exact fun k c hk => by cases hk
    · exact Or.inl ⟨ChunkSys.init bytes, fun ch huse => by cases huse⟩
  · intro s l s' hreach h hc hs
    have hids := ids_in (Q := fun id => id < 2 ^ 31) (fun s t id hc => (hC s _ hc).2) hreach
    exact h.step hmax hids (hC s l hc).1 (sysStep_cases hs)

end AloneInv

end Names

/-! ## §5. Between the calls. -/

/-- **The pool and the map agree on which chunks hold data**, and where. -/
structure PoolPlaces (p : ZnPolicyChunk) (m : ZnCachemap) : Prop where
  used : ∀ z c, (p.pair (z, c)).inUse = true ↔ ∃ k, (m.dataMap z).lookup c = some k
  placed : ∀ z c k, (m.dataMap z).lookup c = some k →
    (p.pair (z, c)).zone = z ∧ (p.pair (z, c)).chunkOffset = c
  recorded : ∀ z c k, (m.dataMap z).lookup c = some k →
    ∃ l, m.zoneMap k = some (.loc l) ∧ l.zone = z ∧ l.chunkOffset = c

/-- **The pool and the map name the same data.** -/
structure PoolNames (p : ZnPolicyChunk) (m : ZnCachemap) : Prop extends PoolPlaces p m where
  named : ∀ z c k, (m.dataMap z).lookup c = some k → (p.pair (z, c)).id = k

section Between

variable {mem : Nat → EvictionPolicyChunkZone} {s : Sys ZnPolicyChunk ChunkEvict Tid}

omit [DecidableEq Tid] in
/-- Nobody is on the way between the policy and the map. -/
theorem AloneInv.settled (h : AloneInv g s) (hidle : ∀ t, s.pool t = .idle) :
    Shared g s.cache.policy s.cache.cacheMap (fun _ : Tid => none) none
      ∧ s.cache.policy.AllZero := by
  rcases h.agree with ⟨⟨e, hheld, hsh⟩, hzero⟩ | ⟨t, k, hmiss, -⟩
  · have hpub : (fun t => (s.pool t).publishing) = fun _ : Tid => none := by
      funext t
      rw [hidle t]
      rfl
    rw [hpub] at hsh
    have hnone : e = none := by
      apply hheld.unheld
      intro t
      rw [hidle t]
      rfl
    rw [hnone] at hsh
    exact ⟨hsh, hzero⟩
  · exact absurd (hidle t) hmiss.ne_idle

omit [DecidableEq Tid] in
/-- While no call is in progress, the chunks in use are those with an entry. -/
theorem Shared.poolPlaces {p : ZnPolicyChunk} {m : ZnCachemap}
    (h : Shared g p m (fun _ : Tid => none) none) : PoolPlaces p m := by
  obtain ⟨f, hf⟩ := h.represented
  have hlookup : ∀ z c k, (m.dataMap z).lookup c = some k ↔ f k = some (z, c) := by
    intro z c k
    rw [hf.bwd]
    exact f.eq_some_iff
  have huse : ∀ ch, (p.pair ch).inUse = true ↔ MappedAt m ch := by
    intro ch
    constructor
    · intro hin
      rcases h.used ch hin with hmapped | ⟨t, ht⟩
      · exact hmapped
      · cases ht
    · intro hmapped
      rcases h.mapped ch hmapped with hin | hno
      · exact hin
      · cases hno
  constructor
  · intro z c
    rw [huse, hf.mappedAt_iff]
    simp only [hlookup]
  · intro z c k hk
    have hmapped : MappedAt m (z, c) := hf.mappedAt_iff.mpr ⟨k, (hlookup z c k).mp hk⟩
    exact h.books.named (z, c) ((huse _).mpr hmapped)
  · intro z c k hk
    exact hf.to_loc ((hlookup z c k).mp hk)

/-- Ids are 0. -/
def SysLabel.IdZero : SysLabel Tid → Prop
  | .get _ id => id = 0
  | .fgEvict _ | .evictTask _ | .step .. | .ret _ => True

/-- **POOL AND MAP NAME THE SAME DATA EXACTLY WHEN IT IS DATUM 0.**  In every
run of one call at a time, between the calls: the chunks that are in use are
those with an entry, at their places; and the pool has the ids that the map has
exactly when no id but 0 is cached.  So it has them in every run that asks for
0 alone. -/
theorem pool_names_iff (hmax : g.maxZoneChunks < 2 ^ 32) :
    (∀ s : Sys ZnPolicyChunk ChunkEvict Tid,
      (cacheSystem Tid (chunk mem) g rb).Reach (fun s l => l.Alone s ∧ l.SmallId) s →
      (∀ t, s.pool t = .idle) →
      PoolPlaces s.cache.policy s.cache.cacheMap
        ∧ (PoolNames s.cache.policy s.cache.cacheMap
          ↔ ∀ k l, s.cache.cacheMap.zoneMap k = some (.loc l) → k = 0))
    ∧ ∀ s : Sys ZnPolicyChunk ChunkEvict Tid,
      (cacheSystem Tid (chunk mem) g rb).Reach (fun s l => l.Alone s ∧ l.IdZero) s →
      (∀ t, s.pool t = .idle) → PoolNames s.cache.policy s.cache.cacheMap := by
  have hiff : ∀ s : Sys ZnPolicyChunk ChunkEvict Tid,
      (cacheSystem Tid (chunk mem) g rb).Reach (fun s l => l.Alone s ∧ l.SmallId) s →
      (∀ t, s.pool t = .idle) →
      PoolPlaces s.cache.policy s.cache.cacheMap
        ∧ (PoolNames s.cache.policy s.cache.cacheMap
          ↔ ∀ k l, s.cache.cacheMap.zoneMap k = some (.loc l) → k = 0) := by
    intro s hr hidle
    obtain ⟨hsh, hzero⟩ := (AloneInv.reach hmax (fun _ _ h => h) hr).settled hidle
    have hplaces := hsh.poolPlaces
    have hcalled : ∀ z c k, (s.cache.cacheMap.dataMap z).lookup c = some k →
        (s.cache.policy.pair (z, c)).id = 0 :=
      fun z c k hk => hzero (z, c) ((hplaces.used z c).mpr ⟨k, hk⟩)
    refine ⟨hplaces, ?_, ?_⟩
    · intro hnames k l hl
      obtain ⟨f, hf⟩ := hsh.represented
      have hk : (s.cache.cacheMap.dataMap l.zone).lookup l.chunkOffset = some k := by
        rw [hf.bwd]
        exact f.eq_some_iff.mpr (hf.of_loc hl)
      have hnamed := hnames.named _ _ k hk
      rw [hcalled _ _ k hk] at hnamed
      exact hnamed.symm
    · intro honly
      refine ⟨hplaces, ?_⟩
      intro z c k hk
      obtain ⟨l, hl, -⟩ := hplaces.recorded z c k hk
      rw [hcalled z c k hk, honly k l hl]
  refine ⟨hiff, ?_⟩
  intro s hr hidle
  have hsmall : ∀ (s : Sys ZnPolicyChunk ChunkEvict Tid) (l : SysLabel Tid),
      l.Alone s ∧ l.IdZero → l.Alone s ∧ l.SmallId := by
    intro s l hl
    refine ⟨hl.1, ?_⟩
    cases l with
    | get t id =>
      obtain rfl : id = 0 := hl.2
      exact Nat.two_pow_pos 31
    | fgEvict | evictTask | step | ret => trivial
  apply (hiff s (hr.mono hsmall) hidle).2.mpr
  intro k l hl
  apply keys_in (Q := fun k => k = 0) (chunk_keys mem) _ hr k
  · rw [hl]
    simp
  · intro s t id hid
    obtain rfl : id = 0 := hid.2
    rfl

end Between

/-! ## §6. Two runs. -/

section Runs

instance SysLabel.decIdZero : (l : SysLabel Tid) → Decidable l.IdZero
  | .get _ id => inferInstanceAs (Decidable (id = 0))
  | .fgEvict _ | .evictTask _ | .step .. | .ret _ => isTrue trivial

/-- Only `zn_cache_get` is called. -/
def SysLabel.OfGet : SysLabel Tid → Prop
  | .get .. | .step .. | .ret _ => True
  | .fgEvict _ | .evictTask _ => False

instance SysLabel.decOfGet : (l : SysLabel Tid) → Decidable l.OfGet
  | .get .. | .step .. | .ret _ => isTrue trivial
  | .fgEvict _ | .evictTask _ => isFalse id

/-- Whether no call is in progress, and chunk 0 of zone 0 is in use, holds id
`k`, and is called 0. -/
def HoldsCalledZero (k : Nat) (s : Sys ZnPolicyChunk ChunkEvict (Fin 2)) : Prop :=
  (∀ t, (s.pool t).isIdle = true) ∧ (s.cache.policy.pair (0, 0)).inUse = true
    ∧ (s.cache.cacheMap.dataMap 0).lookup 0 = some k ∧ (s.cache.policy.pair (0, 0)).id = 0

instance (k : Nat) (s : Sys ZnPolicyChunk ChunkEvict (Fin 2)) : Decidable (HoldsCalledZero k s) :=
  inferInstanceAs (Decidable (_ ∧ _))

omit [DecidableEq Tid] in
theorem idle_of_isIdle {s : Sys P E Tid} (h : ∀ t, (s.pool t).isIdle = true) (t : Tid) :
    s.pool t = .idle := by
  have ht := h t
  cases hpc : s.pool t with
  | idle => rfl
  | get pc | evictor e =>
    rw [hpc] at ht
    cases ht

/-- Ids 1 and 2 are cached, each at its place, and the pool does not name them;
id 0 is cached, and it does. -/
theorem pool_names_iff_two :
    (∃ s : Sys ZnPolicyChunk ChunkEvict (Fin 2),
      HoldsCalledZero 1 s ∧ PoolPlaces s.cache.policy s.cache.cacheMap
        ∧ ¬ PoolNames s.cache.policy s.cache.cacheMap)
    ∧ ∃ s : Sys ZnPolicyChunk ChunkEvict (Fin 2),
      HoldsCalledZero 0 s ∧ PoolNames s.cache.policy s.cache.cacheMap := by
  constructor
  · obtain ⟨s, hr, hs⟩ := seven_reach (fun s l => l.Alone s ∧ l.SmallId)
      (fun s => decide (HoldsCalledZero 1 s)) (cacheAll 0 [1, 2]) (by decide +kernel)
    have hholds := of_decide_eq_true hs
    obtain ⟨hplaces, hiff⟩ := (pool_names_iff (by decide)).1 s hr (idle_of_isIdle hholds.1)
    refine ⟨s, hholds, hplaces, ?_⟩
    intro hnames
    obtain ⟨l, hl, -⟩ := hplaces.recorded 0 0 1 hholds.2.2.1
    cases hiff.mp hnames 1 l hl
  · obtain ⟨s, hr, hs⟩ := seven_reach (fun s l => l.Alone s ∧ l.IdZero)
      (fun s => decide (HoldsCalledZero 0 s)) (cacheAll 0 [0]) (by decide +kernel)
    have hholds := of_decide_eq_true hs
    exact ⟨s, hholds, (pool_names_iff (by decide)).2 s hr (idle_of_isIdle hholds.1)⟩

/-- **A chunk that holds id 1 and is called 0.** -/
theorem pool_calls_it_zero :
    ∃ s, (cacheSystem (Fin 2) (chunk clearedPool) sevenChunks fun _ => 0).Reach
        (fun s l => l.OfGet ∧ AloneAndWell sevenChunks s l) s
      ∧ HoldsCalledZero 1 s ∧ ¬ PoolNames s.cache.policy s.cache.cacheMap := by
  obtain ⟨s, hr, hs⟩ := seven_reach (fun s l => l.OfGet ∧ AloneAndWell sevenChunks s l)
    (fun s => decide (HoldsCalledZero 1 s)) (cacheAll 0 [1]) (by decide +kernel)
  have hholds := of_decide_eq_true hs
  refine ⟨s, hr, hholds, ?_⟩
  intro hnames
  have hnamed := hnames.named 0 0 1 hholds.2.2.1
  rw [hholds.2.2.2] at hnamed
  cases hnamed

end Runs

end ZnCache
