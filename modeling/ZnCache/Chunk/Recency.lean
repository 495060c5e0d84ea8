/-
  ZnCache.Chunk.Recency — the chunk policy is LRU over chunks.

  The abstract side is a log of the accesses: `zn_cache_get` reports a chunk to
  the policy once for every hit, and once for every chunk it has written.  The
  queue is in the order of the latest access (`ByRecency`), for a report moves
  its chunk to the back and an eviction takes chunks off the front.

  With one call at a time a chunk is queued exactly when it is cached, so what
  an eviction takes is the cached chunks accessed longest ago.  Main result:
  `chunk_evicts_lru`.
-/
import ZnCache.Chunk.Rounds
import ZnCache.Chunk.Identity
import ZnCache.Lib.Recency

namespace ZnCache

open Lib

universe u

/-! ## §1. Runs with their accesses. -/

/-- The chunk a thread is about to report: one it has read, or one it has
written. -/
def Pc.accessing {E : Type} : Pc E → Option (Nat × Nat)
  | .get (.readUpdate _ l _) | .get (.writeUpdate _ l _) => some (l.zone, l.chunkOffset)
  | _ => none

/-- The system, and the chunks that were accessed, newest first. -/
structure AccessRun (Tid : Type u) where
  sys : Sys ZnPolicyChunk ChunkEvict Tid
  log : List (Nat × Nat)

/-- The log after a step of thread `t`. -/
def AccessRun.logged {Tid : Type u} (r : AccessRun Tid) (t : Tid) : List (Nat × Nat) :=
  (r.sys.pool t).accessing.toList ++ r.log

section Runs

variable {Tid : Type u} [DecidableEq Tid] {mem : Nat → EvictionPolicyChunkZone} {g : Geometry}
  {rb : Buffer}

/-- The runs of the cache, with their accesses. -/
def accessSystem (Tid : Type u) [DecidableEq Tid] (mem : Nat → EvictionPolicyChunkZone)
    (g : Geometry) (rb : Buffer) : TransSys (AccessRun Tid) (SysLabel Tid) where
  init r := (cacheSystem Tid (chunk mem) g rb).init r.sys ∧ r.log = []
  step r l r' := (cacheSystem Tid (chunk mem) g rb).step r.sys l r'.sys ∧ r'.log = r.logged l.thread

/-- The log is no part of the cache. -/
theorem AccessRun.reach {C : Sys ZnPolicyChunk ChunkEvict Tid → SysLabel Tid → Prop}
    {r : AccessRun Tid} (hr : (accessSystem Tid mem g rb).Reach (fun r l => C r.sys l) r) :
    (cacheSystem Tid (chunk mem) g rb).Reach C r.sys := by
  apply TransSys.Reach.simulate AccessRun.sys _ _ hr
  · exact fun r h => h.1
  · exact fun r l r' _ _ hc hs => Or.inr ⟨l, hc, hs.1⟩

/-- Every run of the cache has a log. -/
theorem AccessRun.of_reach {C : Sys ZnPolicyChunk ChunkEvict Tid → SysLabel Tid → Prop}
    {s : Sys ZnPolicyChunk ChunkEvict Tid} (hr : (cacheSystem Tid (chunk mem) g rb).Reach C s) :
    ∃ log, (accessSystem Tid mem g rb).Reach (fun r l => C r.sys l) ⟨s, log⟩ := by
  induction hr with
  | start h => exact ⟨[], .start ⟨h, rfl⟩⟩
  | @next s s' l _ hc hs ih =>
    obtain ⟨log, hlog⟩ := ih
    exact ⟨AccessRun.logged ⟨s, log⟩ l.thread, .next hlog hc ⟨hs, rfl⟩⟩

end Runs

/-! ## §2. The queue is in recency order. -/

section Order

variable {g : Geometry} {p p' : ZnPolicyChunk} {log : List (Nat × Nat)}

/-- **A report** moves its chunk to the back, if it is queued. -/
theorem ChunkUpdateCase.byRecency {l : ZnPair} {io : ZnIoType} (hc : ChunkUpdateCase g p l io p')
    (hb : ChunkBooks g p) (h : ByRecency log p.lru) :
    ByRecency ((l.zone, l.chunkOffset) :: log) p'.lru := by
  have hpush : (p.pair (l.zone, l.chunkOffset)).inUse = false →
      ByRecency ((l.zone, l.chunkOffset) :: log) (p.lruQueue.pushTail (l.zone, l.chunkOffset)).toList := by
    intro hfree
    rw [LinkQueue.toList_pushTail]
    apply h.push
    rw [hb.queued, hfree]
    simp
  cases hc with
  | write _ hfree | writeLast _ hfree => exact hpush hfree
  | absent htable =>
    -- a chunk without a link is not queued
    apply h.other
    exact (hb.indexed.eq_none_iff _).mp (congrArg Option.join htable)
  | @touch node data htable hdata =>
    obtain rfl := hb.linkData htable hdata
    show ByRecency _ ((p.lruQueue.deleteLink node).pushTail (l.zone, l.chunkOffset)).toList
    rw [hb.indexed.toList_touch (congrArg Option.join htable)]
    exact h.touch _

/-- An eviction leaves the queue, or takes its head. -/
theorem ChunkEvictCase.lru_sublist {a : Answers} {s s' : CacheState ZnPolicyChunk} {e : ChunkEvict}
    {e' : Option ChunkEvict} (hb : ChunkBooks g s.policy) (hmove : ¬ e.Moves)
    (hc : ChunkEvictCase g a s e s' e') : s'.policy.lru.Sublist s.policy.lru := by
  cases hc with
  | refuse | enter | popped | mark | clear | gcSkip | gcStart | gcDone | gcPick | gcSkipChunk
  | gcAcquire | gcScanned | gcRead | gcWrite | gcClear | gcReset | gcFree | unlock =>
    exact List.Sublist.refl _
  | pop _ hpop =>
    obtain ⟨ch, rest, hlru, -, rfl⟩ := popChunk_ok hb hpop
    have hrest : (s.policy.popped ch (znMinheapUpdateByEntry s.policy.invalidPqueue
        (s.policy.zonePool ch.1).pqueueEntry
        ((s.policy.zonePool ch.1).vacated ch.2).chunksInUse).2).lru = rest :=
      (hb.indexed.pop hlru).2.1
    rw [hrest, hlru]
    exact List.sublist_cons_self _ _
  | gcInsert => exact absurd trivial hmove

/-- What zones refer to was handed out, also after a report. -/
theorem ZnPolicyChunk.EntriesGiven.update (h : p.EntriesGiven g) {l : ZnPair} {io : ZnIoType}
    (hc : ChunkUpdateCase g p l io p') : p'.EntriesGiven g := by
  have hwritten : (p.written l).EntriesGiven g := by
    intro z hz e he
    rw [ZnPolicyChunk.zonePool_written] at he
    by_cases hzl : z = l.zone
    · rw [hzl, Function.update_self] at he
      exact h l.zone (hzl ▸ hz) e he
    · rw [Function.update_of_ne hzl] at he
      exact h z hz e he
  cases hc with
  | write => exact hwritten
  | @writeLast entry heap _ _ _ hins =>
    obtain ⟨rfl, hnext⟩ := insert_next hins
    intro z hz e he
    show e < heap.next
    rw [hnext]
    rw [ZnPolicyChunk.zonePool_filed] at he
    by_cases hzl : z = l.zone
    · rw [hzl, Function.update_self] at he
      cases he
      exact Nat.lt_succ_self _
    · rw [Function.update_of_ne hzl] at he
      exact Nat.lt_succ_of_lt (hwritten z hz e he)
  | absent | touch => exact h

/-- And after a step of an eviction. -/
theorem ZnPolicyChunk.EntriesGiven.evict {a : Answers} {s s' : CacheState ZnPolicyChunk}
    {e : ChunkEvict} {e' : Option ChunkEvict} (h : s.policy.EntriesGiven g)
    (hb : ChunkBooks g s.policy) (hmove : ¬ e.Moves) (hc : ChunkEvictCase g a s e s' e') :
    s'.policy.EntriesGiven g := by
  cases hc with
  | refuse | enter | popped | mark | clear | gcSkip | gcStart | gcDone | gcSkipChunk | gcAcquire
  | gcScanned | gcRead | gcWrite | gcClear | gcReset | gcFree | unlock => exact h
  | pop _ hpop =>
    obtain ⟨ch, rest, -, -, rfl⟩ := popChunk_ok hb hpop
    exact h.evictHead ch
  | @gcPick freeZones ent heap hout =>
    have hnext := extract_next s.policy.invalidPqueue
    rw [hout] at hnext
    intro z hz e he
    show e < heap.next
    rw [hnext]
    exact h z hz e he
  | gcInsert => exact absurd trivial hmove

end Order

section Run

variable {Tid : Type u} [DecidableEq Tid] {mem : Nat → EvictionPolicyChunkZone} {g : Geometry}
  {rb : Buffer}

/-- One call at a time, small ids, and no live chunk is moved. -/
def SysLabel.Plain (s : Sys ZnPolicyChunk ChunkEvict Tid) (l : SysLabel Tid) : Prop :=
  l.Alone s ∧ l.SmallId ∧ l.MovesNone s

theorem ChunkSys.of_plain (hmax : g.maxZoneChunks < 2 ^ 32) {s : Sys ZnPolicyChunk ChunkEvict Tid}
    (hr : (cacheSystem Tid (chunk mem) g rb).Reach (fun s l => l.Plain s) s) : ChunkSys g s := by
  apply ChunkSys.reach hmax _ hr
  intro s l hc
  obtain ⟨halone, hsmall, hmoves⟩ := hc
  exact ⟨hsmall, hmoves, halone.popsPublished⟩

/-- **What holds while no live chunk is moved**: the queue is in recency order,
and the heap has handed out what zones refer to. -/
structure AccessInv (g : Geometry) (r : AccessRun Tid) : Prop where
  order : ByRecency r.log r.sys.cache.policy.lru
  given : r.sys.cache.policy.EntriesGiven g

namespace AccessInv

variable {r r' : AccessRun Tid} {l : SysLabel Tid}

/-- **Step lemma.** -/
theorem step (h : AccessInv g r) (hb : ChunkBooks g r.sys.cache.policy) (hmoves : l.MovesNone r.sys)
    (hs : (accessSystem Tid mem g rb).step r l r') : AccessInv g r' := by
  obtain ⟨s', log'⟩ := r'
  obtain ⟨hs, hlog⟩ := hs
  obtain rfl : log' = r.logged l.thread := hlog
  -- a step that reports nothing, and leaves the policy
  have hquiet : ∀ {t : Tid} {c : CacheState ZnPolicyChunk} {pc : Pc ChunkEvict},
      (r.sys.pool t).accessing = none → c.policy = r.sys.cache.policy →
      AccessInv g ⟨r.sys.goto t c pc, r.logged t⟩ := by
    intro t c pc hnone hpolicy
    have hlog : r.logged t = r.log := by
      unfold AccessRun.logged
      rw [hnone]
      rfl
    rw [hlog]
    refine ⟨?_, ?_⟩
    · show ByRecency r.log c.policy.lru
      rw [hpolicy]
      exact h.order
    · show c.policy.EntriesGiven g
      rw [hpolicy]
      exact h.given
  -- a report, of a hit or of a write
  have hreport : ∀ {t : Tid} {loc : ZnPair} {io : ZnIoType} {p : ZnPolicyChunk}
      {pc : Pc ChunkEvict}, (r.sys.pool t).accessing = some (loc.zone, loc.chunkOffset) →
      (chunk mem).update g r.sys.cache.policy loc io = some (.ok p) →
      AccessInv g ⟨r.sys.goto t { r.sys.cache with policy := p } pc, r.logged t⟩ := by
    intro t loc io p pc hat hup
    have hlog : r.logged t = (loc.zone, loc.chunkOffset) :: r.log := by
      unfold AccessRun.logged
      rw [hat]
      rfl
    rw [hlog]
    have hcase := (chunkUpdate_cases hup).2
    exact ⟨hcase.byRecency hb h.order, h.given.update hcase⟩
  -- a step of an eviction
  have hevict : ∀ {t : Tid} {a : Answers} {e : ChunkEvict} {e' : Option ChunkEvict}
      {c : CacheState ZnPolicyChunk} {pc : Pc ChunkEvict}, l.thread = t →
      (r.sys.pool t).evicting = some e → (r.sys.pool t).accessing = none →
      (chunk mem).step g a r.sys.cache e = some (.ok (c, e')) →
      AccessInv g ⟨r.sys.goto t c pc, r.logged t⟩ := by
    intro t a e e' c pc hl hat hnone hstep
    have hmove := hmoves e (by rw [hl]; exact hat)
    have hcase := chunkEvictStep_cases hstep
    have hlog : r.logged t = r.log := by
      unfold AccessRun.logged
      rw [hnone]
      rfl
    rw [hlog]
    exact ⟨h.order.sublist (hcase.lru_sublist hb hmove), h.given.evict hb hmove hcase⟩
  cases sysStep_cases hs with
  | get ht | fgEvict ht | taskEvicts ht | ret ht => exact hquiet (congrArg Pc.accessing ht) rfl
  | @taskSleeps t ht =>
    have hlog : r.logged t = r.log := by
      unfold AccessRun.logged
      rw [ht]
      rfl
    show AccessInv g ⟨r.sys, r.logged t⟩
    rw [hlog]
    exact h
  | @evict t a e e' c ht hstep =>
    exact hevict rfl (congrArg Pc.evicting ht) (congrArg Pc.accessing ht) hstep
  | @step t a pc pc' c ht hcase =>
    cases hcase with
    | find | wake | read | readDone | hit | acquire | write | miss | commit | publish | undoZoneGet
    | undoMap => exact hquiet (congrArg Pc.accessing ht) rfl
    | readUpdate hup | writeUpdate hup => exact hreport (congrArg Pc.accessing ht) hup
    | evict hstep => exact hevict rfl (congrArg Pc.evicting ht) (congrArg Pc.accessing ht) hstep

/-- **Run lemma.** -/
theorem reach (hmax : g.maxZoneChunks < 2 ^ 32)
    (hmem : ∀ z, z < g.nrZones → (mem z).pqueueEntry = none)
    (hr : (accessSystem Tid mem g rb).Reach (fun r l => l.Plain r.sys) r) : AccessInv g r := by
  apply TransSys.Reach.invariant (I := AccessInv g) _ _ hr
  · intro r hinit
    obtain ⟨⟨bytes, hsys⟩, hlog⟩ := hinit
    constructor
    · rw [hlog, hsys]
      exact ByRecency.nil _
    · rw [hsys]
      intro z hz e he
      have hnone : ((znPolicyChunkInit mem g).zonePool z).pqueueEntry = none := hmem z hz
      rw [show ((initCache (chunk mem) g bytes).policy.zonePool z).pqueueEntry = none from hnone] at he
      cases he
  · intro r l r' hreach h hc hs
    obtain ⟨e, -, hsh⟩ := ChunkSys.of_plain hmax (AccessRun.reach hreach)
    exact h.step hsh.books (show l.Plain r.sys from hc).2.2 hs

end AccessInv

/-! ## §3. What an eviction takes. -/

/-- **The chunks accessed longest ago are evicted**, as many as are missing from
twelve free ones, and nothing else. -/
structure EvictsOldest (g : Geometry) (log : List (Nat × Nat)) (s s' : CacheState ZnPolicyChunk)
    (evicted : List (Nat × Nat)) : Prop where
  count : evicted.length = evictLowThreshChunks - s.policy.freeChunks
  distinct : evicted.Nodup
  cached : ∀ ch ∈ evicted, MappedAt s.cacheMap ch
  oldest : ∀ a ∈ evicted, ∀ b, MappedAt s.cacheMap b → b ∉ evicted → lastTouch log a < lastTouch log b
  /-- The ids that are stored there lose their entries, -/
  forgotten : ∀ k l, s.cacheMap.zoneMap k = some (.loc l) → (l.zone, l.chunkOffset) ∈ evicted →
    s'.cacheMap.zoneMap k = none
  /-- and every other id keeps what it has. -/
  kept : ∀ k, (∀ l, s.cacheMap.zoneMap k = some (.loc l) → (l.zone, l.chunkOffset) ∉ evicted) →
    s'.cacheMap.zoneMap k = s.cacheMap.zoneMap k
  rest : s.policy.lru = evicted ++ s'.policy.lru
  order : ByRecency log s'.policy.lru
  queued : ∀ ch, ch ∈ s'.policy.lru ↔ MappedAt s'.cacheMap ch
  inStep : InStep g s'.policy
  marked : s'.zoneState = markAll s.zoneState evicted
  free : s'.policy.freeChunks = evictLowThreshChunks

omit [DecidableEq Tid] in
/-- Between the calls of the eviction loop, a chunk is queued exactly when it is
cached. -/
theorem Shared.queued_iff {p : ZnPolicyChunk} {m : ZnCachemap} {e : Option ChunkEvict}
    (h : Shared g p m (fun _ : Tid => none) e) (he : e.bind ChunkEvict.clearing = none)
    (ch : Nat × Nat) : ch ∈ p.lru ↔ MappedAt m ch := by
  rw [h.books.queued]
  constructor
  · intro huse
    rcases h.used ch huse with hmapped | ⟨t, ht⟩
    · exact hmapped
    · cases ht
  · intro hmapped
    rcases h.mapped ch hmapped with huse | hno
    · exact huse
    · rw [he] at hno
      cases hno

omit [DecidableEq Tid] in
/-- What the loop takes was accessed longest ago. -/
theorem TookAll.evictsOldest {log evicted : List (Nat × Nat)} {s s' : CacheState ZnPolicyChunk}
    (h : TookAll evicted s s') (hcount : evicted.length = s.policy.nrEvict)
    (horder : ByRecency log s.policy.lru)
    (hbefore : Shared g s.policy s.cacheMap (fun _ : Tid => none) none)
    (hafter : Shared g s'.policy s'.cacheMap (fun _ : Tid => none) (some .gc))
    (htotal : evictLowThreshChunks ≤ s.policy.totalChunks) (hmeets : ¬ s.policy.Refuses) :
    EvictsOldest g log s s' evicted := by
  have h32 : s.policy.totalChunks < 2 ^ 32 := by
    rw [hbefore.books.total]
    exact Nat.mod_lt _ (Nat.two_pow_pos 32)
  have hqueued := hbefore.queued_iff rfl
  have hlru := h.lru_eq
  have hparts := horder
  rw [hlru] at hparts
  constructor
  · rw [hcount]
    exact (ZnPolicyChunk.nrEvict_le htotal h32 hmeets).1
  · exact (hparts.sublist (List.sublist_append_left _ _)).nodup
  · intro ch hch
    rw [← hqueued, hlru]
    exact List.mem_append_left _ hch
  · intro a ha b hb hnot
    rw [← hqueued, hlru] at hb
    rcases List.mem_append.mp hb with hfront | hback
    · exact absurd hfront hnot
    · exact hparts.front_before_back ha hback
  · intro k l hl hin
    exact h.forgotten k _ hin (locOf_eq_some.mpr ⟨l, hl, rfl⟩)
  · intro k hno
    apply h.kept k
    intro ch hch hk
    obtain ⟨l, hl, rfl⟩ := locOf_eq_some.mp hk
    exact hno l hl hch
  · exact hlru
  · exact hparts.sublist (List.sublist_append_right _ _)
  · exact hafter.queued_iff rfl
  · exact hafter.books.inStep
  · exact h.zoneState_eq
  · apply ZnPolicyChunk.freeChunks_evicted htotal h32 hmeets h.total_eq
    rw [hlru, List.length_append, hcount]

omit [DecidableEq Tid] in
/-- A thread that is about to take the mutex has one call in progress, and the
only one. -/
theorem ChunkSys.at_lock {s : Sys ZnPolicyChunk ChunkEvict Tid} (h : ChunkSys g s) (hlone : s.Lone)
    {t : Tid} (ht : (s.pool t).evicting = some .lock) :
    s.cache.policy.locked = false
      ∧ Shared g s.cache.policy s.cache.cacheMap (fun _ : Tid => none) none := by
  have hbusy : s.pool t ≠ .idle := by
    intro hidle
    rw [hidle] at ht
    cases ht
  have hothers : ∀ u, (s.pool u).publishing = none ∧ (s.pool u).holding = none := by
    intro u
    by_cases hu : s.pool u = .idle
    · rw [hu]
      exact ⟨rfl, rfl⟩
    · obtain rfl := hlone t u hbusy hu
      refine ⟨Pc.publishing_of_evicting ht, ?_⟩
      unfold Pc.holding
      rw [ht]
  obtain ⟨e, hheld, hsh⟩ := h
  have hpub : (fun u => (s.pool u).publishing) = fun _ : Tid => none := funext fun u => (hothers u).1
  rw [hpub] at hsh
  obtain rfl := hheld.unheld fun u => (hothers u).2
  refine ⟨?_, hsh⟩
  generalize s.cache.policy.locked = locked at hheld
  cases hheld
  rfl

/-- **CHUNK EVICTION IS LRU.**  In every run of one call at a time in which no
live chunk is moved, a call of `zn_policy_chunk_evict` that finds nothing
queued, or more than six chunks free, returns 1 and does nothing.  Any other
call comes to the collector, having evicted the chunks accessed longest ago. -/
theorem chunk_evicts_lru (hmax : g.maxZoneChunks < 2 ^ 32)
    (htotal : evictLowThreshChunks ≤ (znPolicyChunkInit mem g).totalChunks)
    (hmem : ∀ z, z < g.nrZones → (mem z).pqueueEntry = none) {r : AccessRun Tid}
    (hr : (accessSystem Tid mem g rb).Reach (fun r l => l.Plain r.sys) r) {t : Tid}
    (ht : (r.sys.pool t).evicting = some .lock) :
    (r.sys.cache.policy.Refuses →
      (evictionPhase g).Total (fun _ => True) (r.sys.cache, .running .lock) fun x =>
        x = (r.sys.cache, .returned 1))
    ∧ (¬ r.sys.cache.policy.Refuses →
      (evictionPhase g).Total (fun _ => True) (r.sys.cache, .running .lock) fun x =>
        x.2 = .running .gc ∧ ∃ evicted, EvictsOldest g r.log r.sys.cache x.1 evicted)
    ∧ (g.nrZones * g.maxZoneChunks < 2 ^ 32 →
      r.sys.cache.policy.freeChunks + r.sys.cache.policy.lru.length
        = r.sys.cache.policy.totalChunks) := by
  have hinv := AccessInv.reach hmax hmem hr
  have hlone : r.sys.Lone := Sys.Lone.reach (fun s l (hc : l.Plain s) => hc.1) (AccessRun.reach hr)
  obtain ⟨hlock, hsh⟩ := (ChunkSys.of_plain hmax (AccessRun.reach hr)).at_lock hlone ht
  have htotal' : evictLowThreshChunks ≤ r.sys.cache.policy.totalChunks := by
    rw [hsh.books.total]
    exact htotal
  have h32 : r.sys.cache.policy.totalChunks < 2 ^ 32 := by
    rw [hsh.books.total]
    exact Nat.mod_lt _ (Nat.two_pow_pos 32)
  have hany : ∃ _ : Answers, True := ⟨⟨0, [], 0⟩, trivial⟩
  refine ⟨?_, ?_, ZnPolicyChunk.freeChunks_add_length hsh.books⟩
  · intro hrefuses
    apply (chunkEvict_total_iff rfl hany fun a _ => lock_refuses hlock htotal' h32 hrefuses a).mpr
    exact .returned rfl rfl
  · intro hmeets
    apply (chunkEvict_total_iff rfl hany fun a _ => lock_enters hlock htotal' h32 hmeets a).mpr
    -- the front of the queue, as much as there is to evict
    obtain ⟨hcount, hle⟩ := ZnPolicyChunk.nrEvict_le htotal' h32 hmeets
    have hcount' : (r.sys.cache.policy.lru.take r.sys.cache.policy.nrEvict).length
        = r.sys.cache.policy.nrEvict := by
      rw [List.length_take, Nat.min_eq_left hle]
    obtain ⟨s', htook, hshared, -, -, hloop⟩ := rounds_total_iff hmax
      (n := r.sys.cache.policy.nrEvict) (by rw [hcount]; exact Nat.lt_of_le_of_lt (Nat.sub_le _ _) (by decide))
      (r.sys.cache.policy.lru.take r.sys.cache.policy.nrEvict) 0
      { r.sys.cache with policy := { r.sys.cache.policy with locked := true } }
      (by rw [hcount', Nat.zero_add]) (hsh.enter _) hinv.given
      (List.take_append_drop _ _).symm (fun _ _ _ h => by cases h)
    rw [hcount', Nat.zero_add] at hshared hloop
    apply (hloop _ (fun _ => rfl) (fun _ _ => rfl) (fun _ _ => rfl) _ _ hany).mpr
    apply (popped_total_iff rfl hany).mpr
    have hcollect : Shared g s'.policy s'.cacheMap (fun _ : Tid => none) (some .gc) :=
      hshared.goOn rfl fun e he => by
        cases he
        trivial
    have holdest := htook.of_locked.evictsOldest hcount' hinv.order hsh hcollect htotal' hmeets
    exact .returned rfl ⟨rfl, _, holdest⟩

instance SysLabel.decPlain [Fintype Tid] (s : Sys ZnPolicyChunk ChunkEvict Tid) (l : SysLabel Tid) :
    Decidable (l.Plain s) := inferInstanceAs (Decidable (_ ∧ _))

/-- Replay a step that meets `C`, with its access. -/
def accessReplay (mem : Nat → EvictionPolicyChunkZone) (g : Geometry) (rb : Buffer)
    (C : Sys ZnPolicyChunk ChunkEvict Tid → SysLabel Tid → Prop) [∀ s l, Decidable (C s l)]
    (r : AccessRun Tid) (l : SysLabel Tid) : Option (AccessRun Tid) :=
  (sysExec (chunk mem) g rb C r.sys l).map fun s => ⟨s, r.logged l.thread⟩

theorem accessReplay_sound {C : Sys ZnPolicyChunk ChunkEvict Tid → SysLabel Tid → Prop}
    [∀ s l, Decidable (C s l)] (r : AccessRun Tid) (l : SysLabel Tid) (r' : AccessRun Tid)
    (h : accessReplay mem g rb C r l = some r') :
    C r.sys l ∧ (accessSystem Tid mem g rb).step r l r' := by
  obtain ⟨s', hs, rfl⟩ := Option.map_eq_some_iff.mp h
  obtain ⟨hc, hstep⟩ := sysExec_ok r.sys l s' hs
  exact ⟨hc, hstep, rfl⟩

/-- Thread `t` caches ids 1 to 8 and asks for id 1 again; thread `u` is about to
evict. -/
def hitAndEvict {Tid : Type u} (t u : Tid) : List (SysLabel Tid) :=
  cacheAll t [1, 2, 3, 4, 5, 6, 7, 8]
    ++ .get t 1 :: List.replicate 5 (.step t wellAnswered) ++ [.ret t, .evictTask u]

/-- The first chunk was written first, and is not among the six that are
evicted: it was hit since. -/
theorem chunk_evicts_lru_hit : ∃ r : AccessRun (Fin 2),
    r.log = [(0, 0), (1, 0), (0, 6), (0, 5), (0, 4), (0, 3), (0, 2), (0, 1), (0, 0)]
      ∧ (evictionPhase sevenChunks).Total (fun _ => True) (r.sys.cache, .running .lock) fun x =>
        x.2 = .running .gc ∧ ∃ evicted, EvictsOldest sevenChunks r.log r.sys.cache x.1 evicted := by
  obtain ⟨r, hr, hp⟩ := TransSys.Reach.exists_of_exec
    (f := accessReplay clearedPool sevenChunks (fun _ => 0) fun s l => l.Plain s)
    (T := accessSystem (Fin 2) clearedPool sevenChunks fun _ => 0) (C := fun r l => l.Plain r.sys)
    accessReplay_sound (s := ⟨startSeven, []⟩) ⟨⟨fun _ => 0, rfl⟩, rfl⟩
    (fun r => decide (r.log = [(0, 0), (1, 0), (0, 6), (0, 5), (0, 4), (0, 3), (0, 2), (0, 1), (0, 0)]
      ∧ ¬ r.sys.cache.policy.Refuses ∧ (r.sys.pool 1).evicting.map ChunkEvict.returns = some 1))
    (hitAndEvict 0 1) (by decide +kernel)
  obtain ⟨hlog, hmeets, hat⟩ := of_decide_eq_true hp
  have ht := ChunkEvict.eq_lock_of_returns hat
  exact ⟨r, hlog, (chunk_evicts_lru (by decide) (by decide) (fun _ _ => rfl) hr ht).2.1 hmeets⟩

end Run

end ZnCache
