/-
  ZnCache.Chunk.AtRest — the chunk policy, with no call in progress.

  What a cache under the chunk policy comes to between calls, in a run that is
  `Regular`.  The entries of the map are the chunks of the queue, and the queue
  has them in the order they were accessed last; so the size that
  `zn_evict_policy_get_cache_size` reports is that of the cached chunks.  And no
  zone is lost: a zone that is full is in the heap, where the collector finds
  it.

  The zones are followed by `Stowed` (a full zone is in the heap, or a thread has
  it) and `OutExact` (a zone that is written to is counted, and a thread has it).

  Main result: `chunk_idle_at_rest`.
-/
import ZnCache.Cache.Entries
import ZnCache.Chunk.Progress
import ZnCache.ZoneState.Filled

namespace ZnCache

open Lib Lib.PartialBijection Lib.ThreadPool

universe u

variable {Tid : Type u} [DecidableEq Tid] {g : Geometry} {rb : Buffer}
  {mem : Nat → EvictionPolicyChunkZone}

/-! ## §1. Full zones. -/

/-- **A full zone is filed, or with a thread.** -/
def Stowed (g : Geometry) (s : Sys ZnPolicyChunk ChunkEvict Tid) : Prop :=
  ∀ z, (s.cache.zoneState.state z).state = .full →
    z ∈ s.cache.policy.filedZones ∨ ∃ t, (s.pool t).owned g = some z

namespace Stowed

variable {s s' : Sys ZnPolicyChunk ChunkEvict Tid} {t : Tid} {c : CacheState ZnPolicyChunk}
  {pc : Pc ChunkEvict}

/-- Thread `t` moves: what it closes it has, and what it has or takes from the
heap it keeps, files or resets. -/
theorem goto (h : Stowed g s)
    (hfull : ∀ z, (c.zoneState.state z).state = .full →
      (s.cache.zoneState.state z).state = .full ∨ pc.owned g = some z)
    (hfiled : ∀ z ∈ s.cache.policy.filedZones, z ∈ c.policy.filedZones ∨ pc.owned g = some z)
    (howned : ∀ z, (s.pool t).owned g = some z → (c.zoneState.state z).state = .full →
      z ∈ c.policy.filedZones ∨ pc.owned g = some z) : Stowed g (s.goto t c pc) := by
  intro z hz
  have hself : pc.owned g = some z → ∃ u, ((s.goto t c pc).pool u).owned g = some z := by
    intro hown
    refine ⟨t, ?_⟩
    rw [Sys.goto_pool, Function.update_self]
    exact hown
  rcases hfull z hz with hold | hown
  · rcases h z hold with hin | ⟨u, hu⟩
    · exact (hfiled z hin).imp_right hself
    · by_cases hut : u = t
      · rw [hut] at hu
        exact (howned z hu hz).imp_right hself
      · refine Or.inr ⟨u, ?_⟩
        rw [Sys.goto_pool, Function.update_of_ne hut]
        exact hu
  · exact Or.inr (hself hown)

/-- A step that closes no zone, files none and picks none. -/
theorem stay (h : Stowed g s)
    (hfull : ∀ z, (c.zoneState.state z).state = .full → (s.cache.zoneState.state z).state = .full)
    (hperm : c.policy.filedZones.Perm s.cache.policy.filedZones)
    (howned : pc.owned g = (s.pool t).owned g) : Stowed g (s.goto t c pc) := by
  apply h.goto
  · exact fun z hz => Or.inl (hfull z hz)
  · exact fun z hz => Or.inl (hperm.mem_iff.mpr hz)
  · exact fun z hz _ => Or.inr (howned.trans hz)

/-- **A step of an eviction.** -/
theorem evict (h : Stowed g s) (hzones : g.nrZones < 2 ^ 31) (hsys : ChunkSys g s)
    (hstored : FiledSys g s) {a : Answers} {e : ChunkEvict} {e' : Option ChunkEvict}
    (ht : (s.pool t).evicting = some e) (howns : pc.owned g = e'.bind ChunkEvict.collecting)
    (hmoves : ¬ e.Moves) (hcase : ChunkEvictCase g a s.cache e c e') : Stowed g (s.goto t c pc) := by
  have hfull : ∀ z, (c.zoneState.state z).state = .full → (s.cache.zoneState.state z).state = .full :=
    fun _ hz => hcase.of_full hz
  have hmine := Pc.owned_of_evicting ht g
  obtain ⟨e₀, -, hsh⟩ := hsys
  obtain ⟨q, hq⟩ := hstored.filed
  cases hcase with
  | enter | unlock | refuse | popped | mark | clear | gcSkip | gcStart | gcDone | gcSkipChunk
  | gcAcquire | gcScanned | gcRead | gcWrite | gcClear | gcFree =>
    exact h.stay hfull (List.Perm.refl _) (howns.trans hmine.symm)
  | pop hlt hpop =>
    obtain ⟨ch, rest, hlru, -, rfl⟩ := popChunk_ok hsh.books hpop
    obtain ⟨q', -, hperm⟩ := hq.evictHead hsh.books hzones hlru
    exact h.stay hfull hperm (howns.trans hmine.symm)
  | gcInsert => exact absurd trivial hmoves
  | @gcPick freeZones ent heap hout =>
    -- the zone goes from the heap to the collector
    have hne : s.cache.policy.filedZones ≠ [] := by
      intro hnil
      have hlen := Filed.length_filedZones s.cache.policy
      rw [hnil] at hlen
      exact (extract_ok hout).1 hlen.symm
    obtain ⟨ent', heap', q', hout', -, hperm, -⟩ := hq.pick hzones hne
    rw [hout] at hout'
    cases hout'
    apply h.goto
    · exact fun z hz => Or.inl (hfull z hz)
    · intro z hz
      rcases List.mem_cons.mp (hperm.mem_iff.mp hz) with rfl | hin
      · exact Or.inr howns
      · exact Or.inl hin
    · intro z hz
      rw [hmine] at hz
      cases hz
  | @gcReset old r zsm hr =>
    obtain ⟨-, -, -, rfl⟩ := zsmEvict_returns hr
    apply h.goto
    · exact fun z hz => Or.inl (hfull z hz)
    · exact fun z hz => Or.inl hz
    · intro z hz hst
      -- it has just been reset
      rw [hmine] at hz
      cases hz
      have hnumber : (s.cache.policy.zonePool old).zoneId = old := hstored.numbered t _ old ht rfl
      change (Function.update s.cache.zoneState.state _ _ old).state = _ at hst
      rw [hnumber, Function.update_self] at hst
      cases hst

/-- **A chunk is committed**: if it is the last one, its zone is with the writer. -/
theorem commit (h : Stowed g s) (hmax : g.maxZoneChunks < 2 ^ 32) (hinv : ZsmInv g s.cache.zoneState)
    {a : Answers} (ha : DeviceOk g a.ret) {id : Nat} {l : ZnPair} {data : Buffer} {r : Int}
    {zsm : ZoneStateManager} (ht : s.pool t = .get (.commit id l data))
    (hr : zsmReturnActiveZone g a.ret s.cache.zoneState l = .ok (r, zsm)) :
    Stowed g (s.goto t { s.cache with zoneState := zsm } (.get (.writeUpdate id l data))) := by
  obtain ⟨hst, hoff, -⟩ := zsmReturnActiveZone_cases hr
  have hroom := (hinv.open_offset l.zone (Or.inr hst)).1
  rw [zsmReturnActiveZone_spec hinv ha hst hoff] at hr
  cases hr
  apply h.goto
  · intro z hz
    by_cases heq : z = l.zone
    · right
      rw [heq] at hz
      have hlast : l.chunkOffset = g.lastChunk := by
        unfold Geometry.lastChunk
        unfold committed at hz
        split at hz
        · omega
        · change (Function.update s.cache.zoneState.state l.zone _ l.zone).state = _ at hz
          rw [Function.update_self] at hz
          cases hz
      rw [heq]
      exact if_pos hlast
    · left
      unfold committed at hz
      split at hz
      · change (Function.update s.cache.zoneState.state l.zone _ z).state = _ at hz
        rwa [Function.update_of_ne heq] at hz
      · change (Function.update s.cache.zoneState.state l.zone _ z).state = _ at hz
        rwa [Function.update_of_ne heq] at hz
  · exact fun z hz => Or.inl hz
  · intro z hz
    rw [ht] at hz
    cases hz

/-- **A chunk is reported**: if it is the last one, its zone is filed. -/
theorem report (h : Stowed g s) (hzones : g.nrZones < 2 ^ 31) (hsys : ChunkSys g s)
    (hstored : FiledSys g s) {id : Nat} {l : ZnPair} {data : Buffer} {p : ZnPolicyChunk}
    (ht : s.pool t = .get (.writeUpdate id l data)) (hnot : l.zone ∉ s.cache.policy.filedZones)
    (hcase : ChunkUpdateCase g s.cache.policy l .write p) :
    Stowed g (s.goto t { s.cache with policy := p } (.get (.publish id l data))) := by
  obtain ⟨e₀, -, hsh⟩ := hsys
  obtain ⟨q, hq⟩ := hstored.filed
  cases hcase with
  | write htable hfree hlast =>
    apply h.stay (fun _ hz => hz) (List.Perm.refl _)
    rw [ht]
    exact (if_neg hlast).symm
  | @writeLast entry heap htable hfree hlast hins =>
    have hself : (s.cache.policy.written l).zonePool l.zone
        = (s.cache.policy.zonePool l.zone).written l := by
      rw [ZnPolicyChunk.zonePool_written, Function.update_self]
    have hkept : znMinheapInsert (s.cache.policy.written l).invalidPqueue l.zone
        ((s.cache.policy.written l).zonePool l.zone).chunksInUse = .ok (entry, heap) := by
      rw [hself]
      exact hins
    have hz : l.zone < g.nrZones := ((hsh.books.table _).mp htable).1
    obtain ⟨q', -, hperm⟩ := (hq.write hnot).file (by omega) hz hnot hkept
    apply h.goto
    · exact fun z hz => Or.inl hz
    · exact fun z hz => Or.inl (hperm.mem_iff.mpr (List.mem_cons_of_mem _ hz))
    · intro z hz _
      have hlastZone : (s.pool t).owned g = some l.zone := by
        rw [ht]
        exact if_pos hlast
      rw [hlastZone] at hz
      cases hz
      exact Or.inl (hperm.mem_iff.mpr (List.mem_cons_self ..))

/-- **A step of `zn_cache_get`.** -/
theorem get (h : Stowed g s) (hzones : g.nrZones < 2 ^ 31) (hmax : g.maxZoneChunks < 2 ^ 32)
    (hsys : ChunkSys g s) (hstored : FiledSys g s) (hinv : ZsmInv g s.cache.zoneState) {a : Answers}
    (ha : DeviceOk g a.ret) {gp gp' : GetPc ChunkEvict} (ht : s.pool t = .get gp)
    (htime : ∀ z ∈ (s.pool t).reporting, z ∉ s.cache.policy.filedZones)
    (hmoves : ∀ e ∈ (s.pool t).evicting, ¬ e.Moves)
    (hcase : GetCase (chunk mem) g rb a s.cache gp c gp') : Stowed g (s.goto t c (.get gp')) := by
  have hquiet : ∀ {c : CacheState ZnPolicyChunk} {gp' : GetPc ChunkEvict},
      c.policy.filedZones = s.cache.policy.filedZones →
      (∀ z, (c.zoneState.state z).state = .full → (s.cache.zoneState.state z).state = .full) →
      (Pc.get gp').owned g = (Pc.get gp).owned g → Stowed g (s.goto t c (.get gp')) := by
    intro c gp' hpolicy hfull howned
    apply h.stay hfull
    · rw [hpolicy]
    · rw [ht]
      exact howned
  cases hcase with
  | @find id r | @wake id cond seen r => cases r <;> exact hquiet rfl (fun _ hz => hz) rfl
  | read | readDone | hit | miss | publish | undoMap => exact hquiet rfl (fun _ hz => hz) rfl
  | readUpdate hup =>
    obtain ⟨-, hupdate⟩ := chunkUpdate_cases hup
    cases hupdate with
    | absent | touch => exact hquiet rfl (fun _ hz => hz) rfl
  | @acquire id r z hr =>
    have hfull : ∀ y, (z.state y).state = .full → (s.cache.zoneState.state y).state = .full :=
      fun _ hz => (zsmGetActiveZone_cases hr).of_full hz
    cases r <;> exact hquiet rfl hfull rfl
  | @write id l r d =>
    by_cases hr : r = 0
    · rw [if_neg (by simpa using hr)]
      exact hquiet rfl (fun _ hz => hz) rfl
    · rw [if_pos hr]
      exact hquiet rfl (fun _ hz => hz) rfl
  | @evict id e c e' hstep =>
    have hat : (s.pool t).evicting = some e := by
      rw [ht]
      rfl
    refine h.evict hzones hsys hstored hat ?_ (hmoves e hat) (chunkEvictStep_cases hstep)
    cases e' <;> rfl
  | commit hr => exact h.commit hmax hinv ha ht hr
  | @writeUpdate id l data p hup =>
    refine h.report hzones hsys hstored ht ?_ (chunkUpdate_cases hup).2
    apply htime
    rw [ht]
    rfl
  | @undoZoneGet id l z hr =>
    obtain ⟨-, -, rfl⟩ := zsmFailedToWrite_cases hr
    refine hquiet rfl (fun z hz => ?_) rfl
    change (Function.update s.cache.zoneState.state l.zone _ z).state = _ at hz
    by_cases heq : z = l.zone
    · rw [heq, Function.update_self] at hz
      cases hz
    · rwa [Function.update_of_ne heq] at hz

/-- **Step lemma.** -/
theorem step (h : Stowed g s) (hzones : g.nrZones < 2 ^ 31) (hmax : g.maxZoneChunks < 2 ^ 32)
    (hsys : ChunkSys g s) (hstored : FiledSys g s) (hinv : ZsmInv g s.cache.zoneState)
    {l : SysLabel Tid} (hok : l.ZoneOk g) (hmoves : l.MovesNone s) (htime : l.OnTime s)
    (hs : SysCase (chunk mem) g rb s l s') : Stowed g s' := by
  cases hs with
  | get ht | fgEvict ht | taskEvicts ht | ret ht =>
    apply h.stay (fun _ hz => hz) (List.Perm.refl _)
    rw [ht]
    rfl
  | taskSleeps => exact h
  | step ht hcase => exact h.get hzones hmax hsys hstored hinv hok ht htime hmoves hcase
  | @evict t a e e' c ht hstep =>
    have hat : (s.pool t).evicting = some e := congrArg Pc.evicting ht
    refine h.evict hzones hsys hstored hat ?_ (hmoves e hat) (chunkEvictStep_cases hstep)
    cases e' <;> rfl

/-- **Run lemma.** -/
theorem reach (hzones : g.nrZones < 2 ^ 31) (hpos : 1 ≤ g.maxZoneChunks)
    (hmax : g.maxZoneChunks < 2 ^ 32) (hmem : ∀ z, z < g.nrZones → (mem z).pqueueEntry = none)
    (hr : (cacheSystem Tid (chunk mem) g rb).Reach (fun s l => l.Regular g s) s) : Stowed g s := by
  apply TransSys.Reach.invariant (I := Stowed g) _ _ hr
  · intro s hs z hz
    obtain ⟨bytes, rfl⟩ := hs
    cases hz
  · intro s l s' hreach h hc hs
    have hsys := ChunkSys.reach hmax (fun _ _ hc => ⟨hc.1, hc.2.2.1, hc.2.2.2.1⟩) hreach
    have hinv := zsm_inv_reach hpos (chunk_zsm_inv hpos) (fun _ _ hc => hc.2.1) hreach
    have hstored := FiledSys.reach hzones hpos hmax hmem hreach
    obtain ⟨-, hok, hmoves, -, htime⟩ := hc
    exact h.step hzones hmax hsys hstored hinv hok hmoves htime (sysStep_cases hs)

end Stowed

/-! ## §2. Zones that are out. -/

/-- **A zone that is written to is counted, and a thread has it.** -/
def OutExact [Fintype Tid] (s : Sys ZnPolicyChunk ChunkEvict Tid) : Prop :=
  s.cache.zoneState.writesOccurring = total Pc.outstanding s.pool

/-- A zone is handed out, and counted, or neither. -/
theorem AcquireCase.outstanding {z z' : ZoneStateManager} {r : ZsmGetActiveZone}
    (h : AcquireCase z r z') (id : Nat) :
    ((r.getPc (chunk mem) id).outstanding : Int) + z.writesOccurring = z'.writesOccurring := by
  cases h with
  | @unchanged r hr =>
    cases r with
    | success l => exact absurd rfl (hr l)
    | retry | error | evict => exact Int.zero_add _
  | lost => exact Int.zero_add _
  | reuse | opened => exact Int.add_comm _ _

/-- An eviction that moves no live chunk gives back, in the books, what it has. -/
theorem ChunkEvictCase.outstanding_eq {a : Answers} {s s' : CacheState ZnPolicyChunk} {e : ChunkEvict}
    {e' : Option ChunkEvict} (h : ChunkEvictCase g a s e s' e') (hmoves : ¬ e.Moves) :
    ((e'.elim 0 ChunkEvict.outstanding : Nat) : Int) + s.zoneState.writesOccurring
      = e.outstanding + s'.zoneState.writesOccurring := by
  cases h with
  | refuse | enter | pop | popped | mark | clear | gcSkip | gcStart | gcDone | gcPick | gcSkipChunk
  | gcScanned | gcRead | gcWrite | gcClear | gcFree | unlock => rfl
  | gcAcquire _ hr =>
    have hone := (zsmGetActiveZone_cases hr).success_writes
    show (1 : Int) + _ = 0 + ZoneStateManager.writesOccurring _
    dsimp only
    omega
  | gcInsert => exact absurd trivial hmoves
  | gcReset hr =>
    obtain ⟨-, -, -, rfl⟩ := zsmEvict_returns hr
    rfl

theorem GetCase.outstanding_eq {a : Answers} {s s' : CacheState ZnPolicyChunk}
    {pc pc' : GetPc ChunkEvict} (hmoves : ∀ e ∈ (Pc.get pc).evicting, ¬ e.Moves)
    (h : GetCase (chunk mem) g rb a s pc s' pc') :
    (pc'.outstanding : Int) + s.zoneState.writesOccurring
      = pc.outstanding + s'.zoneState.writesOccurring := by
  cases h with
  | @find id r | @wake id c seen r => cases r <;> rfl
  | read | readUpdate | readDone | hit | miss | writeUpdate | publish | undoMap => rfl
  | @acquire id r z hr =>
    have hout : ((r.getPc (chunk mem) id).outstanding : Int) + s.zoneState.writesOccurring
        = z.writesOccurring := (zsmGetActiveZone_cases hr).outstanding id
    show _ = (0 : Int) + z.writesOccurring
    omega
  | @evict id e s' e' hstep =>
    have heq := (chunkEvictStep_cases hstep).outstanding_eq (hmoves e rfl)
    cases e' <;> exact heq
  | @write id l r d =>
    by_cases hr : r = 0
    · rw [if_neg (by simpa using hr)]
      rfl
    · rw [if_pos hr]
      rfl
  | @commit id l data r z hr =>
    have hless := (zsmReturnActiveZone_cases hr).2.2.writes
    show (0 : Int) + s.zoneState.writesOccurring = 1 + z.writesOccurring
    omega
  | @undoZoneGet id l z hr =>
    obtain ⟨-, -, rfl⟩ := zsmFailedToWrite_cases hr
    show (0 : Int) + s.zoneState.writesOccurring = 1 + (s.zoneState.writesOccurring - 1)
    omega

namespace OutExact

variable [Fintype Tid] {s s' : Sys ZnPolicyChunk ChunkEvict Tid}

theorem goto (h : OutExact s) {t : Tid} {c : CacheState ZnPolicyChunk} {pc : Pc ChunkEvict}
    (hmove : (pc.outstanding : Int) + s.cache.zoneState.writesOccurring
      = (s.pool t).outstanding + c.zoneState.writesOccurring) : OutExact (s.goto t c pc) := by
  have hsum := total_update Pc.outstanding s.pool t pc
  unfold OutExact at h ⊢
  rw [Sys.goto_pool, Sys.goto_cache]
  omega

/-- **Step lemma.** -/
theorem step (h : OutExact s) {l : SysLabel Tid} (hmoves : l.MovesNone s)
    (hs : SysCase (chunk mem) g rb s l s') : OutExact s' := by
  cases hs with
  | get ht | fgEvict ht | taskEvicts ht | ret ht =>
    apply h.goto
    rw [ht]
    rfl
  | taskSleeps => exact h
  | @step t a pc pc' c ht hcase =>
    apply h.goto
    have hget : ∀ e ∈ (Pc.get pc).evicting, ¬ e.Moves := by
      rw [← ht]
      exact hmoves
    rw [ht]
    exact hcase.outstanding_eq hget
  | @evict t a e e' c ht hstep =>
    apply h.goto
    have heq := (chunkEvictStep_cases hstep).outstanding_eq (hmoves e (congrArg Pc.evicting ht))
    rw [ht]
    cases e' <;> exact heq

theorem reach {C : Sys ZnPolicyChunk ChunkEvict Tid → SysLabel Tid → Prop}
    (hC : ∀ s l, C s l → l.MovesNone s) (hr : (cacheSystem Tid (chunk mem) g rb).Reach C s) :
    OutExact s := by
  refine hr.invariant (fun s hs => ?_) fun s l s' _ h hc hs => h.step (hC s l hc) (sysStep_cases hs)
  obtain ⟨bytes, rfl⟩ := hs
  have hnone : total Pc.outstanding (fun _ : Tid => (Pc.idle : Pc ChunkEvict)) = 0 :=
    (total_eq_zero_iff _ _).mpr fun _ => rfl
  show (0 : Int) = _
  rw [hnone]
  rfl

end OutExact

/-! ## §3. Entries and the queue. -/

/-- `zn_evict_policy_get_cache_size`, the case `ZN_EVICT_CHUNK`: the length of a
queue is a `guint`, and the size a `size_t`. -/
def znPolicyChunkGetCacheSize (g : Geometry) (p : ZnPolicyChunk) : Nat :=
  p.lruQueue.length % 2 ^ 32 * g.chunkSz % 2 ^ 64

omit [DecidableEq Tid] in
/-- **The queue is a queue of ids**, where nothing is being published or cleared. -/
theorem Shared.ids_in_order {p : ZnPolicyChunk} {m : ZnCachemap} {pub : Tid → Option (Nat × Nat)}
    (h : Shared g p m pub none) (hpub : ∀ t, pub t = none) :
    ∃ ids : List Nat, ids.Nodup ∧ (∀ k, k ∈ ids ↔ ∃ l, m.zoneMap k = some (.loc l))
      ∧ ids.map (locOf m) = p.lru.map some := by
  obtain ⟨f, hf⟩ := h.represented
  have hloc : locOf m = f := funext hf.fwd
  -- what is in the queue is in use, and what is in use is mapped
  have hmapped : ∀ ch, MappedAt m ch ↔ ch ∈ p.lru := by
    intro ch
    rw [h.books.queued]
    constructor
    · intro hm
      rcases h.mapped ch hm with huse | hclear
      · exact huse
      · cases hclear
    · intro huse
      rcases h.used ch huse with hm | ⟨t, ht⟩
      · exact hm
      · rw [hpub t] at ht
        cases ht
  have hused : ∀ ch ∈ p.lru, ∃ k, f k = some ch :=
    fun ch hch => hf.mappedAt_iff.mp ((hmapped ch).mpr hch)
  refine ⟨leftEnds f p.lru, nodup_leftEnds hused (LinkQueue.Indexed.nodup_toList h.books.indexed), ?_, ?_⟩
  · intro k
    rw [mem_leftEnds]
    constructor
    · intro hex
      obtain ⟨ch, -, hk⟩ := hex
      obtain ⟨l, hl, -⟩ := hf.to_loc hk
      exact ⟨l, hl⟩
    · intro hex
      obtain ⟨l, hl⟩ := hex
      have hk := hf.of_loc hl
      exact ⟨_, (hmapped _).mp (hf.mappedAt_iff.mpr ⟨k, hk⟩), hk⟩
  · rw [hloc]
    exact map_leftEnds hused

/-- The queue is no longer than the device has chunks. -/
theorem ChunkBooks.length_lru_le {p : ZnPolicyChunk} (h : ChunkBooks g p) :
    p.lru.length ≤ g.nrZones * g.maxZoneChunks := by
  have hnodup : p.lru.Nodup := LinkQueue.Indexed.nodup_toList h.indexed
  have hsub : p.lru.toFinset ⊆ Finset.range g.nrZones ×ˢ Finset.range g.maxZoneChunks := by
    intro ch hch
    obtain ⟨hz, hc⟩ := h.inPool ((h.queued ch).mp (List.mem_toFinset.mp hch))
    exact Finset.mem_product.mpr ⟨Finset.mem_range.mpr hz, Finset.mem_range.mpr hc⟩
  calc p.lru.length = p.lru.toFinset.card := (List.toFinset_card_of_nodup hnodup).symm
    _ ≤ _ := Finset.card_le_card hsub
    _ = g.nrZones * g.maxZoneChunks := by rw [Finset.card_product, Finset.card_range, Finset.card_range]

/-- The size does not wrap on a device that fits its addresses. -/
theorem znPolicyChunkGetCacheSize_eq {p : ZnPolicyChunk} (h : ChunkBooks g p)
    (hchunks : g.nrZones * g.maxZoneChunks < 2 ^ 32) (hsize : g.nrZones * g.zoneCap < 2 ^ 64) :
    znPolicyChunkGetCacheSize g p = p.lru.length * g.chunkSz := by
  have hlen := h.length_lru_le
  have hfits : p.lru.length * g.chunkSz ≤ g.nrZones * g.zoneCap := by
    calc p.lru.length * g.chunkSz ≤ g.nrZones * g.maxZoneChunks * g.chunkSz :=
          Nat.mul_le_mul_right _ hlen
      _ = g.nrZones * (g.maxZoneChunks * g.chunkSz) := Nat.mul_assoc ..
      _ ≤ g.nrZones * g.zoneCap := Nat.mul_le_mul_left _ (Nat.div_mul_le_self ..)
  unfold znPolicyChunkGetCacheSize
  rw [LinkQueue.length_eq]
  show p.lru.length % 2 ^ 32 * g.chunkSz % 2 ^ 64 = _
  rw [Nat.mod_eq_of_lt (Nat.lt_of_le_of_lt hlen hchunks),
    Nat.mod_eq_of_lt (Nat.lt_of_le_of_lt hfits hsize)]

/-! ## §4. With no call in progress. -/

/-- An eviction that moves no live chunk leaves what is being written. -/
theorem chunk_keeps_conds {a : Answers} {s s' : CacheState ZnPolicyChunk} {e : ChunkEvict}
    {e' : Option ChunkEvict} (hmoves : ¬ e.Moves)
    (h : (chunk mem).step g a s e = some (.ok (s', e'))) : KeepsConds s.cacheMap s'.cacheMap := by
  cases chunkEvictStep_cases h with
  | refuse | enter | pop | popped | mark | gcSkip | gcStart | gcDone | gcPick | gcSkipChunk
  | gcAcquire | gcScanned | gcRead | gcWrite | gcReset | gcFree | unlock => exact .refl _
  | clear hm => exact .clearChunk hm
  | gcInsert => exact absurd trivial hmoves
  | gcClear hm => exact .clearZone hm

/-- **The cache at rest**, under the chunk policy. -/
structure ChunkAtRest (g : Geometry) (c : CacheState ZnPolicyChunk) : Prop where
  unlocked : c.policy.locked = false
  destroyed : ∀ i, i < c.cacheMap.nextCond → (c.cacheMap.conds i).cleared = 1
  unread : ∀ z, c.cacheMap.activeReaders z = 0
  unwritten : c.zoneState.writesOccurring = 0
  /-- Each zone is in one queue, once. -/
  queued : (c.zoneState.free ++ c.zoneState.active ++ c.policy.filedZones).Perm (List.range g.nrZones)
  full : ∀ z, z ∈ c.policy.filedZones ↔ (c.zoneState.state z).state = .full
  /-- The ids in the map, in the order of the queue: all of them have locations,
  and they are what the size of the cache is about. -/
  cached : ∃ ids : List Nat, ids.Nodup ∧ (∀ k, k ∈ ids ↔ c.cacheMap.zoneMap k ≠ none)
    ∧ ids.map (locOf c.cacheMap) = c.policy.lru.map some
    ∧ znPolicyChunkGetCacheSize g c.policy = ids.length * g.chunkSz

variable [Fintype Tid]

/-- **WITH NO CALL IN PROGRESS THE QUEUE IS THE CACHE**, and nothing is left
behind. -/
theorem chunk_idle_at_rest (hzones : g.nrZones < 2 ^ 31) (hpos : 1 ≤ g.maxZoneChunks)
    (hmax : g.maxZoneChunks < 2 ^ 32) (hmem : ∀ z, z < g.nrZones → (mem z).pqueueEntry = none)
    (hchunks : g.nrZones * g.maxZoneChunks < 2 ^ 32) (hsize : g.nrZones * g.zoneCap < 2 ^ 64)
    {s : Sys ZnPolicyChunk ChunkEvict Tid}
    (hr : (cacheSystem Tid (chunk mem) g rb).Reach (fun s l => l.Regular g s) s)
    (hidle : ∀ t, s.pool t = .idle) : ChunkAtRest g s.cache := by
  have hzsm := zsm_inv_reach hpos (chunk_zsm_inv hpos) (fun _ _ hc => hc.2.1) hr
  have hstored := FiledSys.reach hzones hpos hmax hmem hr
  have hstowed := Stowed.reach hzones hpos hmax hmem hr
  have hout := OutExact.reach (fun _ _ hc => hc.2.2.1) hr
  have hatt := attended_reach
    (fun s l hc e a c e' he hs => chunk_keeps_conds (hc.2.2.1 e he) hs) hr
  obtain ⟨hno, hdestroyed⟩ := nothing_pending hatt hidle
  obtain ⟨e, hheld, hsh⟩ := ChunkSys.reach hmax (fun _ _ hc => ⟨hc.1, hc.2.2.1, hc.2.2.2.1⟩) hr
  -- nobody has the mutex, and nobody has a zone
  have hnobody : ∀ t, (s.pool t).holding = none := fun t => by rw [hidle t]; rfl
  have hunlocked := hheld.flag_down hnobody
  obtain rfl := hheld.unheld hnobody
  have hwrites : s.cache.zoneState.writesOccurring = 0 := by
    have hnone : total Pc.outstanding s.pool = 0 :=
      (total_eq_zero_iff _ _).mpr fun t => by rw [hidle t]; rfl
    unfold OutExact at hout
    rw [hout, hnone]
    rfl
  have hfull : ∀ z, z ∈ s.cache.policy.filedZones ↔ (s.cache.zoneState.state z).state = .full := by
    intro z
    refine ⟨hstored.filed_full z, fun hz => ?_⟩
    rcases hstowed z hz with hin | ⟨t, ht⟩
    · exact hin
    · rw [hidle t] at ht
      cases ht
  constructor
  case unlocked => exact hunlocked
  case destroyed => exact hdestroyed
  case unread =>
    intro z
    rw [readers_exact (chunk_readers mem) hr z, (countOn_eq_zero_iff _ _).mpr fun t _ => by
      rw [hidle t]
      exact id]
    rfl
  case unwritten => exact hwrites
  case queued =>
    obtain ⟨q, hq⟩ := hstored.filed
    exact hzsm.queued hwrites hq.nodup hfull
  case full => exact hfull
  case cached =>
    obtain ⟨ids, hnodup, hmem, horder⟩ := hsh.ids_in_order fun t => by rw [hidle t]; rfl
    refine ⟨ids, hnodup, fun k => ?_, horder, ?_⟩
    · rw [hmem k]
      constructor
      · intro hex
        obtain ⟨l, hl⟩ := hex
        rw [hl]
        exact Option.some_ne_none _
      · intro hk
        obtain ⟨r, hr⟩ := Option.ne_none_iff_exists'.mp hk
        cases r with
        | loc l => exact ⟨l, hr⟩
        | cond i => exact absurd hr (hno k i)
    · have hlen : ids.length = s.cache.policy.lru.length := by
        rw [← List.length_map (locOf s.cache.cacheMap), horder, List.length_map]
      rw [hlen]
      exact znPolicyChunkGetCacheSize_eq hsh.books hchunks hsize

/-- Nine chunks have been cached, and six of them evicted: three are left, in one
zone, and the other four zones are free. -/
theorem chunk_idle_at_rest_evicted : ∃ s : Sys ZnPolicyChunk ChunkEvict (Fin 2),
    s.cache.policy.lru.length = 3 ∧ zsmGetNumFreeZones s.cache.zoneState = 4
      ∧ ChunkAtRest fiveZones s.cache := by
  obtain ⟨s, hr, hs⟩ := TransSys.Reach.exists_of_exec
    (T := cacheSystem (Fin 2) (chunk clearedPool) fiveZones fun _ => 0)
    (C := fun s l => l.Regular fiveZones s) sysExec_ok ⟨fun _ => 0, rfl⟩
    (fun s => (s.cache.policy.lru.length = 3 ∧ zsmGetNumFreeZones s.cache.zoneState = 4)
      ∧ ∀ t, (s.pool t).isIdle = true)
    (fillAndEvict 0 1 [1, 2, 3, 4, 5, 6, 7, 8, 9] ++ List.replicate 39 (.step 1 wellAnswered))
    (by decide +kernel)
  obtain ⟨⟨hlen, hfree⟩, hidle⟩ := of_decide_eq_true hs
  exact ⟨s, hlen, hfree, chunk_idle_at_rest (by decide) (by decide) (by decide) (fun _ _ => rfl)
    (by decide) (by decide) hr (idle_of_isIdle hidle)⟩

end ZnCache
