/-
  ZnCache.Chunk.Unpublished — chunks that are evicted before they are published.

  `zn_cache_get` reports a chunk to the policy and then inserts it into the
  cache map, in two steps of their own.  An evictor that comes in between may
  take the chunk from the queue, and does not find its entry
  (`evicted_unpublished`).

  `ChunkSys` says that policy and map agree as far as `Shared` goes, and that
  one thread evicts at a time.  It holds in every run in which no chunk is
  taken from the queue that a thread has still to insert.  Main result:
  `evict_meets_mapped`.
-/
import ZnCache.Chunk.Shared
import ZnCache.Chunk.Gc
import ZnCache.Lib.Mutex

namespace ZnCache

open Lib

universe u

/-! ## §1. Where the threads are. -/

/-- The chunk that a thread has reported, and is still to insert. -/
def Pc.publishing {E : Type} : Pc E → Option (Nat × Nat)
  | .get (.publish _ l _) => some (l.zone, l.chunkOffset)
  | _ => none

/-- Where a thread is in an eviction that has `policy_mutex`. -/
def Pc.holding (pc : Pc ChunkEvict) : Option ChunkEvict :=
  match pc.evicting with
  | some .lock => none
  | e => e

theorem Pc.holding_of_evicting {pc : Pc ChunkEvict} {e : ChunkEvict} (h : pc.evicting = some e)
    (hlock : e ≠ .lock) : pc.holding = some e := by
  unfold Pc.holding
  rw [h]
  split
  · rename_i heq
    exact absurd (Option.some.inj heq) hlock
  · rfl

theorem Pc.publishing_of_evicting {E : Type} {pc : Pc E} {e : E} (h : pc.evicting = some e) :
    pc.publishing = none := by
  rcases evicting_eq h with rfl | ⟨id, rfl⟩ <;> rfl

variable {Tid : Type u} [DecidableEq Tid] {g : Geometry} {rb : Buffer}
  {mem : Nat → EvictionPolicyChunkZone}

/-- **One thread evicts at a time, and policy and map agree.** -/
def ChunkSys (g : Geometry) (s : Sys ZnPolicyChunk ChunkEvict Tid) : Prop :=
  ∃ e, Held (fun t => (s.pool t).holding) s.cache.policy.locked e
    ∧ Shared g s.cache.policy s.cache.cacheMap (fun t => (s.pool t).publishing) e

/-- The collector gives no live chunk a new place. -/
def SysLabel.MovesNone (s : Sys ZnPolicyChunk ChunkEvict Tid) (l : SysLabel Tid) : Prop :=
  ∀ e ∈ (s.pool l.thread).evicting, ¬ e.Moves

/-- The chunk that the next step of a thread takes from the queue. -/
def Sys.popping (s : Sys ZnPolicyChunk ChunkEvict Tid) (t : Tid) : Option (Nat × Nat) :=
  match (s.pool t).evicting with
  | some (.pop i nrEvict) => if i < nrEvict then s.cache.policy.lru.head? else none
  | _ => none

/-- No chunk is taken from the queue that a thread is still to insert. -/
def SysLabel.PopsPublished (s : Sys ZnPolicyChunk ChunkEvict Tid) (l : SysLabel Tid) : Prop :=
  ∀ ch ∈ s.popping l.thread, ∀ u, (s.pool u).publishing ≠ some ch

omit [DecidableEq Tid] in
theorem Sys.popping_eq {s : Sys ZnPolicyChunk ChunkEvict Tid} {t : Tid} {i nrEvict : Nat}
    (ht : (s.pool t).evicting = some (.pop i nrEvict)) (hlt : i < nrEvict) {ch : Nat × Nat}
    {rest : List (Nat × Nat)} (hlru : s.cache.policy.lru = ch :: rest) : s.popping t = some ch := by
  unfold Sys.popping
  rw [ht]
  dsimp only
  rw [if_pos hlt, hlru, List.head?_cons]

omit [DecidableEq Tid] in
theorem Sys.popping_head {s : Sys ZnPolicyChunk ChunkEvict Tid} {t : Tid} {ch : Nat × Nat}
    (h : s.popping t = some ch) : ch ∈ s.cache.policy.lru.head? := by
  unfold Sys.popping at h
  split at h
  · split at h
    · exact h
    · cases h
  · cases h

omit [DecidableEq Tid] in
theorem Sys.evicting_of_popping {s : Sys ZnPolicyChunk ChunkEvict Tid} {t : Tid} {ch : Nat × Nat}
    (h : s.popping t = some ch) : ∃ e, (s.pool t).evicting = some e := by
  unfold Sys.popping at h
  split at h
  · exact ⟨_, by assumption⟩
  · cases h

/-! ## §2. One step. -/

namespace ChunkSys

variable {s : Sys ZnPolicyChunk ChunkEvict Tid} {t : Tid} {c : CacheState ZnPolicyChunk}
  {pc : Pc ChunkEvict}

omit [DecidableEq Tid] in
theorem init (bytes : Buffer) :
    ChunkSys g (⟨initCache (chunk mem) g bytes, fun _ => .idle⟩ : Sys ZnPolicyChunk ChunkEvict Tid) :=
  ⟨none, .free fun _ => rfl, Shared.init mem g g.nrZones⟩

/-- A step that neither takes the mutex nor publishes. -/
theorem stay (h : ChunkSys g s) (hpub : pc.publishing = (s.pool t).publishing)
    (hhold : pc.holding = (s.pool t).holding) (hlocked : c.policy.locked = s.cache.policy.locked)
    (hshared : ∀ e, Shared g s.cache.policy s.cache.cacheMap (fun t => (s.pool t).publishing) e →
      Shared g c.policy c.cacheMap (fun t => (s.pool t).publishing) e) :
    ChunkSys g (s.goto t c pc) := by
  obtain ⟨e, hheld, hsh⟩ := h
  refine ⟨e, ?_, ?_⟩
  · rw [Sys.goto_view_same Pc.holding s t c hhold, Sys.goto_cache, hlocked]
    exact hheld
  · rw [Sys.goto_view_same Pc.publishing s t c hpub, Sys.goto_cache]
    exact hshared e hsh

/-- A step within an eviction, of the thread that has the mutex. -/
theorem within (h : ChunkSys g s) {e₁ e₂ : ChunkEvict} (ht : (s.pool t).evicting = some e₁)
    (hpc : pc.evicting = some e₂) (hlock₁ : e₁ ≠ .lock) (hlock₂ : e₂ ≠ .lock)
    (hlocked : c.policy.locked = s.cache.policy.locked)
    (hshared : Shared g s.cache.policy s.cache.cacheMap (fun t => (s.pool t).publishing) (some e₁) →
      Shared g c.policy c.cacheMap (fun t => (s.pool t).publishing) (some e₂)) :
    ChunkSys g (s.goto t c pc) := by
  obtain ⟨e, hheld, hsh⟩ := h
  have hhold := Pc.holding_of_evicting ht hlock₁
  have hpub : pc.publishing = (s.pool t).publishing := by
    rw [Pc.publishing_of_evicting hpc, Pc.publishing_of_evicting ht]
  -- the eviction that policy and map agree on is this thread's
  obtain ⟨hup, rfl, -⟩ := hheld.holder hhold
  refine ⟨some e₂, ?_, ?_⟩
  · rw [Sys.goto_view Pc.holding, Pc.holding_of_evicting hpc hlock₂, Sys.goto_cache, hlocked, hup]
    exact hheld.move hhold e₂
  · rw [Sys.goto_view_same Pc.publishing s t c hpub, Sys.goto_cache]
    exact hshared hsh

/-- A step of the holder within its eviction that the policy and the map do not
see. -/
theorem moveOn (h : ChunkSys g s) {e₁ e₂ : ChunkEvict} (ht : (s.pool t).evicting = some e₁)
    (hpc : pc.evicting = some e₂) (hlock₁ : e₁ ≠ .lock) (hlock₂ : e₂ ≠ .lock)
    (hpolicy : c.policy = s.cache.policy) (hmap : c.cacheMap = s.cache.cacheMap)
    (hclear : e₂.clearing = e₁.clearing) (hscan : ∀ p : ZnPolicyChunk, e₂.Scanned p) :
    ChunkSys g (s.goto t c pc) := by
  apply h.within ht hpc hlock₁ hlock₂
  · rw [hpolicy]
  · intro hsh
    rw [hpolicy, hmap]
    refine hsh.goOn hclear ?_
    intro e he
    cases he
    exact hscan _

/-- **A step of an eviction** that moves no live chunk, and takes no chunk from
the queue that is still to be inserted. -/
theorem evict (h : ChunkSys g s) (hmax : g.maxZoneChunks < 2 ^ 32) {a : Answers} {e : ChunkEvict}
    {e' : Option ChunkEvict} (ht : (s.pool t).evicting = some e) (hpc : pc.evicting = e')
    (hpub : pc.publishing = none) (hmoves : ¬ e.Moves)
    (hpops : ∀ ch ∈ s.popping t, ∀ u, (s.pool u).publishing ≠ some ch)
    (hcase : ChunkEvictCase g a s.cache e c e') : ChunkSys g (s.goto t c pc) := by
  have hsame : pc.publishing = (s.pool t).publishing := by
    rw [hpub, Pc.publishing_of_evicting ht]
  have hquiet : ∀ {e₂ : ChunkEvict}, (∀ p : ZnPolicyChunk, e₂.Scanned p) →
      ∀ p : ZnPolicyChunk, ∀ e₁ ∈ some e₂, e₁.Scanned p := by
    intro e₂ hscan p e₁ he₁
    cases he₁
    exact hscan p
  cases hcase with
  | refuse =>
    -- below the threshold the mutex is given back in the same step
    apply h.stay hsame
    · unfold Pc.holding
      rw [hpc, ht]
    · rfl
    · exact fun _ hsh => hsh
  | @enter nrEvict hlock =>
    obtain ⟨e₀, hheld, hsh⟩ := h
    -- the mutex is free, so nothing is being cleared
    obtain ⟨rfl, -⟩ := hheld.nobody hlock
    have hhold := Pc.holding_of_evicting hpc ChunkEvict.noConfusion
    refine ⟨some (.pop 0 nrEvict), ?_, ?_⟩
    · rw [Sys.goto_view Pc.holding, hhold, Sys.goto_cache]
      exact hheld.enter hlock t _
    · rw [Sys.goto_view_same Pc.publishing s t _ hsame, Sys.goto_cache]
      have hbooks : ChunkBooks g { s.cache.policy with locked := true } :=
        hsh.books.congr rfl rfl (fun _ => rfl) (fun _ => rfl) rfl
      have hlocked := hsh.relist hbooks rfl hsh.heap
      exact hlocked.goOn rfl (hquiet (fun _ => by trivial) _)
  | @pop i nrEvict zp p hlt hpop =>
    apply h.within ht hpc ChunkEvict.noConfusion ChunkEvict.noConfusion
    · obtain ⟨e₀, -, hsh⟩ := h
      obtain ⟨ch, rest, -, -, rfl⟩ := popChunk_ok hsh.books hpop
      rfl
    · intro hsh
      obtain ⟨ch, rest, hlru, rfl, rfl⟩ := popChunk_ok hsh.books hpop
      obtain ⟨hzone, hchunk⟩ := hsh.books.named ch (hsh.books.head_used hlru)
      have hunpublished := hpops ch (Sys.popping_eq ht hlt hlru)
      apply hsh.pop hmax hlru (hsh.heap.update _ _) hunpublished rfl
      · show some _ = some ch
        rw [hzone, hchunk]
      · exact fun e₁ he₁ p => hquiet (fun _ => by trivial) p e₁ he₁
  | popped | gcSkip | gcStart | gcDone | gcAcquire | gcRead | gcWrite | gcReset | gcFree =>
    exact h.moveOn ht hpc ChunkEvict.noConfusion ChunkEvict.noConfusion rfl rfl rfl fun _ => trivial
  | mark =>
    exact h.moveOn ht hpc ChunkEvict.noConfusion ChunkEvict.noConfusion rfl rfl rfl fun _ => trivial
  | clear hm =>
    apply h.within ht hpc ChunkEvict.noConfusion ChunkEvict.noConfusion
    · rfl
    · exact fun hsh => hsh.clear rfl hm rfl (hquiet (fun _ => by trivial) _)
  | @gcPick freeZones ent heap hout =>
    apply h.within ht hpc ChunkEvict.noConfusion ChunkEvict.noConfusion
    · rfl
    · intro hsh
      obtain ⟨hheap, hnumbered⟩ := hsh.heap.extract hout
      have hbooks : ChunkBooks g { s.cache.policy with invalidPqueue := heap } :=
        hsh.books.congr rfl rfl (fun _ => rfl) (fun _ => rfl) rfl
      have hlisted := hsh.relist hbooks rfl hheap
      refine hlisted.goOn rfl ?_
      intro e₁ he₁
      cases he₁
      exact ⟨hnumbered, fun j hj => absurd hj (Nat.not_lt_zero j)⟩
  | gcSkipChunk huse =>
    apply h.within ht hpc ChunkEvict.noConfusion ChunkEvict.noConfusion
    · rfl
    · exact fun hsh => hsh.scan rfl huse
  | gcScanned hge =>
    apply h.within ht hpc ChunkEvict.noConfusion ChunkEvict.noConfusion
    · rfl
    · exact fun hsh => hsh.scannedAll rfl hge
  | gcInsert => exact absurd trivial hmoves
  | gcClear hm =>
    apply h.within ht hpc ChunkEvict.noConfusion ChunkEvict.noConfusion
    · rfl
    · exact fun hsh => hsh.collect rfl hm
  | unlock =>
    obtain ⟨e₀, hheld, hsh⟩ := h
    have hhold := Pc.holding_of_evicting ht ChunkEvict.noConfusion
    obtain ⟨-, rfl, -⟩ := hheld.holder hhold
    have hleft : pc.holding = none := by
      unfold Pc.holding
      rw [hpc]
    refine ⟨none, ?_, ?_⟩
    · rw [Sys.goto_view Pc.holding, hleft, Sys.goto_cache]
      exact hheld.leave hhold
    · rw [Sys.goto_view_same Pc.publishing s t _ hsame, Sys.goto_cache]
      have hbooks : ChunkBooks g { s.cache.policy with locked := false } :=
        hsh.books.congr rfl rfl (fun _ => rfl) (fun _ => rfl) rfl
      have hunlocked := hsh.relist hbooks rfl hsh.heap
      refine hunlocked.goOn rfl ?_
      intro e₁ he₁
      cases he₁

/-- A find leaves what the policy and the map agree on. -/
theorem found (h : ChunkSys g s) {gp : GetPc ChunkEvict} (ht : s.pool t = .get gp) {id : Nat}
    {r : FindResult} {m₀ m : ZnCachemap} (hpub : (Pc.get gp).publishing = none)
    (hhold : (Pc.get gp).holding = none) (hloc : ∀ k, locOf m₀ k = locOf s.cache.cacheMap k)
    (hdata : m₀.dataMap = s.cache.cacheMap.dataMap)
    (hzones : m₀.numZones = s.cache.cacheMap.numZones) (hfind : FindCase m₀ id r m) :
    ChunkSys g (s.goto t { s.cache with cacheMap := m } (.get (r.getPc id))) := by
  have hpub' : (Pc.get (r.getPc id) : Pc ChunkEvict).publishing = none := by
    cases r <;> rfl
  have hhold' : (Pc.get (r.getPc id) : Pc ChunkEvict).holding = none := by
    cases r <;> rfl
  have hdata' : m.dataMap = m₀.dataMap := by
    cases hfind <;> rfl
  have hzones' : m.numZones = m₀.numZones := by
    cases hfind <;> rfl
  apply h.stay
  · rw [hpub', ht, hpub]
  · rw [hhold', ht, hhold]
  · rfl
  · intro e hsh
    apply hsh.map
    · exact fun k => (locOf_find hfind k).trans (hloc k)
    · exact hdata'.trans hdata
    · exact hzones'.trans hzones

/-- **A chunk is reported.** -/
theorem write (h : ChunkSys g s) (hmax : g.maxZoneChunks < 2 ^ 32) {id : Nat} {l : ZnPair}
    {data : Buffer} (ht : s.pool t = .get (.writeUpdate id l data)) {p : ZnPolicyChunk}
    (hup : (chunk mem).update g s.cache.policy l .write = some (.ok p)) :
    ChunkSys g (s.goto t { s.cache with policy := p } (.get (.publish id l data))) := by
  obtain ⟨hlock, hcase⟩ := chunkUpdate_cases hup
  obtain ⟨e, hheld, hsh⟩ := h
  -- the update has taken the mutex, so no eviction is under way
  obtain ⟨rfl, -⟩ := hheld.nobody hlock
  have hpub : (s.pool t).publishing = none := by
    rw [ht]
    rfl
  have hlocked : p.locked = s.cache.policy.locked := by
    cases hcase <;> rfl
  refine ⟨none, ?_, ?_⟩
  · have hhold : (Pc.get (.publish id l data) : Pc ChunkEvict).holding = (s.pool t).holding := by
      rw [ht]
      rfl
    rw [Sys.goto_view_same Pc.holding s t _ hhold, Sys.goto_cache, hlocked]
    exact hheld
  rw [Sys.goto_view Pc.publishing, Sys.goto_cache]
  have hbooks := hsh.books.update hmax hcase
  cases hcase with
  | write htable hfree =>
    apply hsh.write hpub hfree hbooks
    · exact ZnPolicyChunk.pair_written _ l
    · exact hsh.heap.mono fun z hz => hz.written l
  | @writeLast entry heap htable hfree _ hins =>
    apply hsh.write hpub hfree hbooks
    · rw [ZnPolicyChunk.pair_filed, ZnPolicyChunk.pair_written]
    · have hold := hsh.heap.mono fun z hz => (hz.written l).filed l.zone entry heap
      exact hold.insert ((ZnPolicyChunk.Numbered.of_written l).filed l.zone entry heap) hins

/-- **A step of `zn_cache_get`**, outside of `zn_fg_evict`. -/
theorem get (h : ChunkSys g s) (hmax : g.maxZoneChunks < 2 ^ 32) {a : Answers}
    {gp gp' : GetPc ChunkEvict} (ht : s.pool t = .get gp) (hid : gp.id < 2 ^ 31)
    (hout : (Pc.get gp).evicting = none)
    (hcase : GetCase (chunk mem) g rb a s.cache gp c gp') : ChunkSys g (s.goto t c (.get gp')) := by
  have hstays : ∀ {c : CacheState ZnPolicyChunk} {gp' : GetPc ChunkEvict},
      (Pc.get gp' : Pc ChunkEvict).publishing = (Pc.get gp).publishing →
      (Pc.get gp' : Pc ChunkEvict).holding = (Pc.get gp).holding →
      c.policy = s.cache.policy → c.cacheMap = s.cache.cacheMap →
      ChunkSys g (s.goto t c (.get gp')) := by
    intro c gp' hpub hhold hpolicy hmap
    apply h.stay
    · rw [hpub, ht]
    · rw [hhold, ht]
    · rw [hpolicy]
    · rw [hpolicy, hmap]
      exact fun _ hsh => hsh
  cases hcase with
  | find hf => exact h.found ht rfl rfl (fun _ => rfl) rfl rfl hf
  | wake hf =>
    refine h.found ht rfl rfl ?_ ?_ ?_ hf
    · exact fun _ => rfl
    · rfl
    · rfl
  | read | hit | miss | commit => exact hstays rfl rfl rfl rfl
  | undoZoneGet => exact hstays rfl rfl rfl rfl
  | @acquire id r z =>
    have hpub : (Pc.get (r.getPc (chunk mem) id)).publishing = none := by
      cases r <;> rfl
    have hhold : (Pc.get (r.getPc (chunk mem) id)).holding = none := by
      cases r <;> rfl
    exact hstays hpub hhold rfl rfl
  | @write id l r d =>
    by_cases hr : r = 0
    · rw [if_neg (by simpa using hr)]
      exact hstays rfl rfl rfl rfl
    · rw [if_pos hr]
      exact hstays rfl rfl rfl rfl
  | evict => cases hout
  | readUpdate hup =>
    obtain ⟨-, hupdate⟩ := chunkUpdate_cases hup
    apply h.stay
    · rw [ht]
      rfl
    · rw [ht]
      rfl
    · cases hupdate <;> rfl
    · intro e hsh
      have hbooks := hsh.books.update hmax hupdate
      cases hupdate with
      | absent => exact hsh
      | touch => exact hsh.relist hbooks rfl hsh.heap
  | readDone =>
    apply h.stay
    · rw [ht]
      rfl
    · rw [ht]
      rfl
    · rfl
    · exact fun e hsh => hsh.map (fun _ => rfl) rfl rfl
  | writeUpdate hup => exact h.write hmax ht hup
  | @publish id l data m hins =>
    obtain ⟨cond, hcond, hz, -, rfl⟩ := znCachemapInsert_ok hins
    have hpub : (s.pool t).publishing = some (l.zone, l.chunkOffset) := by
      rw [ht]
      rfl
    obtain ⟨e, hheld, hsh⟩ := h
    refine ⟨e, ?_, ?_⟩
    · have hhold : (Pc.get (.done id (some data)) : Pc ChunkEvict).holding = (s.pool t).holding := by
        rw [ht]
        rfl
      rw [Sys.goto_view_same Pc.holding s t _ hhold]
      exact hheld
    · rw [Sys.goto_view Pc.publishing]
      exact hsh.publish hmax hid hz hcond hpub
  | undoMap hf =>
    obtain ⟨cond, hcond, -, rfl⟩ := znCachemapFail_ok hf
    apply h.stay
    · rw [ht]
      rfl
    · rw [ht]
      rfl
    · rfl
    · exact fun e hsh => hsh.map (locOf_withdrawn hcond) rfl rfl

/-- **Step lemma.** -/
theorem step (h : ChunkSys g s) (hmax : g.maxZoneChunks < 2 ^ 32) (hids : IdsIn (fun id => id < 2 ^ 31) s)
    {l : SysLabel Tid} (hmoves : l.MovesNone s) (hpops : l.PopsPublished s)
    {s' : Sys ZnPolicyChunk ChunkEvict Tid} (hcase : SysCase (chunk mem) g rb s l s') :
    ChunkSys g s' := by
  have hquiet : ∀ {t : Tid} {pc : Pc ChunkEvict}, pc.publishing = (s.pool t).publishing →
      pc.holding = (s.pool t).holding → ChunkSys g (s.goto t s.cache pc) :=
    fun hpub hhold => h.stay hpub hhold rfl fun _ hsh => hsh
  cases hcase with
  | get ht => exact hquiet (by rw [ht]; rfl) (by rw [ht]; rfl)
  | fgEvict ht => exact hquiet (by rw [ht]; rfl) (by rw [ht]; rfl)
  | taskSleeps => exact h
  | taskEvicts ht => exact hquiet (by rw [ht]; rfl) (by rw [ht]; rfl)
  | ret ht => exact hquiet (by rw [ht]; rfl) (by rw [ht]; rfl)
  | @evict t a e e' c ht hstep =>
    have hat : (s.pool t).evicting = some e := by
      rw [ht]
      rfl
    have hgoes : (evictorPc e').evicting = e' := by
      cases e' <;> rfl
    have hpub : (evictorPc e').publishing = none := by
      cases e' <;> rfl
    exact h.evict hmax hat hgoes hpub (hmoves e hat) hpops (chunkEvictStep_cases hstep)
  | @step t a gp gp' c ht hcase =>
    cases hout : (Pc.get gp).evicting with
    | none => exact h.get hmax ht (hids t gp ht) hout hcase
    | some e =>
      have hat : (s.pool t).evicting = some e := by
        rw [ht]
        exact hout
      rcases evicting_eq hout with hno | ⟨id, heq⟩
      · cases hno
      cases heq
      cases hcase with
      | @evict id e c e' hstep =>
        have hgoes : (Pc.get (evictPc id e')).evicting = e' := by
          cases e' <;> rfl
        have hpub : (Pc.get (evictPc id e')).publishing = none := by
          cases e' <;> rfl
        exact h.evict hmax hat hgoes hpub (hmoves e hat) hpops (chunkEvictStep_cases hstep)

/-- **Run lemma.** -/
theorem reach (hmax : g.maxZoneChunks < 2 ^ 32) {C : Sys ZnPolicyChunk ChunkEvict Tid → SysLabel Tid → Prop}
    (hC : ∀ s l, C s l → l.SmallId ∧ l.MovesNone s ∧ l.PopsPublished s)
    (hr : (cacheSystem Tid (chunk mem) g rb).Reach C s) : ChunkSys g s := by
  apply TransSys.Reach.invariant (I := ChunkSys g) _ _ hr
  · intro s hs
    obtain ⟨bytes, rfl⟩ := hs
    exact init bytes
  · intro s l s' hreach h hc hs
    obtain ⟨-, hmoves, hpops⟩ := hC s l hc
    have hids := ids_in (Q := fun id => id < 2 ^ 31) (fun s t id hc => (hC s _ hc).1) hreach
    exact h.step hmax hids hmoves hpops (sysStep_cases hs)

end ChunkSys

/-! ## §3. What is popped, and what is cleared. -/

/-- `zn_cachemap_clear_chunk` returns, and removes the entry of the id that is
stored in the chunk. -/
def ClearsEntry (m : ZnCachemap) (zp : ZnPair) : Prop :=
  ∃ k l m', m.zoneMap k = some (.loc l) ∧ (l.zone, l.chunkOffset) = (zp.zone, zp.chunkOffset)
    ∧ (m.dataMap zp.zone).lookup zp.chunkOffset = some k
    ∧ znCachemapClearChunk m zp = .ok m' ∧ m'.zoneMap = Function.update m.zoneMap k none

theorem Represents.clearsEntry {m : ZnCachemap} {f : PEquiv Nat (Nat × Nat)} (h : Represents m f)
    {zp : ZnPair} (hmapped : MappedAt m (zp.zone, zp.chunkOffset)) : ClearsEntry m zp := by
  obtain ⟨k, hk⟩ := h.mappedAt_iff.mp hmapped
  obtain ⟨l, hl, hz, hc⟩ := h.to_loc hk
  obtain ⟨m', hm', -⟩ := h.clearChunk hk
  refine ⟨k, l, m', hl, by rw [hz, hc], ?_, hm', ?_⟩
  · rw [h.bwd]
    exact f.eq_some_iff.mpr hk
  · obtain ⟨l', -, -, -, rfl⟩ := znCachemapClearChunk_ok hm'
    rw [h.keyAt_eq hk]
    rfl

/-- **EVICTION AND UNPUBLISHED CHUNKS.**  In every run in which no chunk is
taken from the queue that a thread has still to insert, and no live chunk is
moved: a chunk that is about to be taken is mapped exactly when no thread has
still to insert it, and a chunk that is about to be cleared is cleared. -/
theorem evict_meets_mapped (hmax : g.maxZoneChunks < 2 ^ 32) (s : Sys ZnPolicyChunk ChunkEvict Tid)
    (hr : (cacheSystem Tid (chunk mem) g rb).Reach
      (fun s l => l.SmallId ∧ l.MovesNone s ∧ l.PopsPublished s) s) (t : Tid) :
    (∀ ch, s.popping t = some ch →
      (MappedAt s.cache.cacheMap ch ↔ ∀ u, (s.pool u).publishing ≠ some ch))
    ∧ ∀ i nrEvict zp, (s.pool t).evicting = some (.clear i nrEvict zp) →
      ClearsEntry s.cache.cacheMap zp := by
  obtain ⟨e, hheld, hsh⟩ := ChunkSys.reach hmax (fun _ _ h => h) hr
  constructor
  · intro ch hpop
    have huse : (s.cache.policy.pair ch).inUse = true := by
      rw [← hsh.books.queued]
      exact List.mem_of_mem_head? (s.popping_head hpop)
    constructor
    · intro hmapped u hu
      exact (hsh.publishing u ch hu).2 hmapped
    · intro hnone
      rcases hsh.used ch huse with hmapped | hpubs
      · exact hmapped
      · obtain ⟨u, hu⟩ := hpubs
        exact absurd hu (hnone u)
  · intro i nrEvict zp ht
    obtain ⟨-, rfl, -⟩ := hheld.holder (Pc.holding_of_evicting ht ChunkEvict.noConfusion)
    obtain ⟨f, hf⟩ := hsh.represented
    exact hf.clearsEntry (hsh.clearing _ rfl).2

/-! ## §4. Two runs. -/

section Runs

instance SysLabel.decMovesNone (s : Sys ZnPolicyChunk ChunkEvict Tid) (l : SysLabel Tid) :
    Decidable (l.MovesNone s) :=
  inferInstanceAs (Decidable (∀ e ∈ (s.pool l.thread).evicting, ¬ e.Moves))

instance SysLabel.decPopsPublished [Fintype Tid] (s : Sys ZnPolicyChunk ChunkEvict Tid)
    (l : SysLabel Tid) : Decidable (l.PopsPublished s) :=
  inferInstanceAs (Decidable (∀ ch ∈ s.popping l.thread, ∀ u, (s.pool u).publishing ≠ some ch))

/-- Where a thread is about to clear the entry of a chunk. -/
def Pc.clearsChunk : Pc ChunkEvict → Option ZnPair
  | .evictor (.clear _ _ zp) | .get (.evict _ (.clear _ _ zp)) => some zp
  | _ => none

theorem Pc.evicting_of_clearsChunk {pc : Pc ChunkEvict} {zp : ZnPair} (h : pc.clearsChunk = some zp) :
    ∃ i nrEvict, pc.evicting = some (.clear i nrEvict zp) := by
  unfold Pc.clearsChunk at h
  split at h
  · cases h
    exact ⟨_, _, rfl⟩
  · cases h
    exact ⟨_, _, rfl⟩
  · cases h

/-- Small ids, all operations succeed, and no live chunk is moved. -/
abbrev SmallAndWell (g : Geometry) (s : Sys ZnPolicyChunk ChunkEvict (Fin 2)) (l : SysLabel (Fin 2)) :
    Prop := l.SmallId ∧ l.ZoneOk g ∧ l.TransferOk g ∧ l.MovesNone s

/-- The same, and no chunk is taken that is still to be inserted. -/
abbrev SmallAndPublished (g : Geometry) (s : Sys ZnPolicyChunk ChunkEvict (Fin 2)) (l : SysLabel (Fin 2)) :
    Prop := SmallAndWell g s l ∧ l.PopsPublished s

/-- Two zones of seven chunks, before any call. -/
abbrev startSeven : Sys ZnPolicyChunk ChunkEvict (Fin 2) :=
  ⟨initCache (chunk clearedPool) sevenChunks fun _ => 0, fun _ => .idle⟩

/-- Thread `t` caches eight ids, and thread `u` evicts, up to where it has
`policy_mutex`. -/
def cacheAndEvict {Tid : Type u} (t u : Tid) : List (SysLabel Tid) :=
  cacheAll t [1, 2, 3, 4, 5, 6, 7, 8] ++ [.evictTask u, .step u wellAnswered]

/-- Thread `u` caches seven ids and evicts, while thread `t` has reported its
chunk and is still to insert it. -/
def stallAndEvict {Tid : Type u} (t u : Tid) : List (SysLabel Tid) :=
  .get t 1 :: List.replicate 6 (.step t wellAnswered) ++ cacheAll u [2, 3, 4, 5, 6, 7, 8]
    ++ [.evictTask u, .step u wellAnswered]

/-- Two steps more, up to the entry of the chunk. -/
def popAndMark {Tid : Type u} (u : Tid) : List (SysLabel Tid) :=
  [.step u wellAnswered, .step u wellAnswered]

theorem seven_reach (C : Sys ZnPolicyChunk ChunkEvict (Fin 2) → SysLabel (Fin 2) → Prop)
    [∀ s l, Decidable (C s l)] (p : Sys ZnPolicyChunk ChunkEvict (Fin 2) → Bool)
    (ls : List (SysLabel (Fin 2)))
    (h : (TransSys.execAll (sysExec (chunk clearedPool) sevenChunks (fun _ => 0) C) ls
      startSeven).any p = true) :
    ∃ s, (cacheSystem (Fin 2) (chunk clearedPool) sevenChunks fun _ => 0).Reach C s ∧ p s = true :=
  TransSys.Reach.exists_of_exec sysExec_ok ⟨fun _ => 0, rfl⟩ p ls h

/-- All has been published, and the first chunk is taken and cleared. -/
theorem evict_meets_mapped_round : ∃ s s' : Sys ZnPolicyChunk ChunkEvict (Fin 2),
    (s.popping 1 = some (0, 0) ∧ MappedAt s.cache.cacheMap (0, 0))
      ∧ (s'.pool 1).clearsChunk = some ⟨0, 0, 0, false⟩ ∧ ClearsEntry s'.cache.cacheMap ⟨0, 0, 0, false⟩ := by
  obtain ⟨s, hr, hs⟩ := seven_reach (SmallAndPublished sevenChunks)
    (fun s => decide (s.popping 1 = some (0, 0) ∧ ∀ u, (s.pool u).publishing = none))
    (cacheAndEvict 0 1) (by decide +kernel)
  obtain ⟨s', hr', hs'⟩ := seven_reach (SmallAndPublished sevenChunks)
    (fun s => decide ((s.pool 1).clearsChunk = some ⟨0, 0, 0, false⟩))
    (cacheAndEvict 0 1 ++ popAndMark 1) (by decide +kernel)
  obtain ⟨hpop, hnone⟩ := of_decide_eq_true hs
  have hclears := of_decide_eq_true hs'
  obtain ⟨i, nrEvict, ht⟩ := Pc.evicting_of_clearsChunk hclears
  have hin : ∀ (s : Sys ZnPolicyChunk ChunkEvict (Fin 2)) l, SmallAndPublished sevenChunks s l →
      l.SmallId ∧ l.MovesNone s ∧ l.PopsPublished s := fun _ _ h => ⟨h.1.1, h.1.2.2.2, h.2⟩
  refine ⟨s, s', ⟨hpop, ?_⟩, hclears, ?_⟩
  · apply ((evict_meets_mapped (by decide) s (hr.mono hin) 1).1 (0, 0) hpop).mpr
    intro u hu
    rw [hnone u] at hu
    cases hu
  · exact (evict_meets_mapped (by decide) s' (hr'.mono hin) 1).2 i nrEvict _ ht

/-- Whether a thread is to clear chunk 0 of zone 0, and fails the next assertion. -/
def abortsAtClear (t : Tid) (s : Sys ZnPolicyChunk ChunkEvict Tid) : Bool :=
  decide ((s.pool t).clearsChunk = some ⟨0, 0, 0, false⟩)
    && match sysStep (chunk clearedPool) sevenChunks (fun _ => 0) s (.step t wellAnswered) with
      | some (.error .assertion) => true
      | _ => false

/-- **A chunk that is evicted before it is published.**  The thread that cached
id 1 has reported its chunk, and has still to insert it.  The chunk is at the
head of the queue; the evictor takes it, and fails the assertion in
`zn_cachemap_clear_chunk`. -/
theorem evicted_unpublished :
    (∃ s, (cacheSystem (Fin 2) (chunk clearedPool) sevenChunks fun _ => 0).Reach
        (SmallAndWell sevenChunks) s
      ∧ s.popping 1 = some (0, 0) ∧ ¬ MappedAt s.cache.cacheMap (0, 0))
    ∧ ∃ s, (cacheSystem (Fin 2) (chunk clearedPool) sevenChunks fun _ => 0).Reach
        (SmallAndWell sevenChunks) s
      ∧ (s.pool 1).clearsChunk = some ⟨0, 0, 0, false⟩
      ∧ sysStep (chunk clearedPool) sevenChunks (fun _ => 0) s (.step 1 wellAnswered)
        = some (.error .assertion) := by
  constructor
  · obtain ⟨s, hr, hs⟩ := seven_reach (SmallAndPublished sevenChunks)
      (fun s => decide (s.popping 1 = some (0, 0) ∧ (s.pool 0).publishing = some (0, 0)))
      (stallAndEvict 0 1) (by decide +kernel)
    obtain ⟨hpop, hpub⟩ := of_decide_eq_true hs
    obtain ⟨e, -, hsh⟩ := ChunkSys.reach (by decide) (fun _ _ h => ⟨h.1.1, h.1.2.2.2, h.2⟩) hr
    exact ⟨s, hr.mono fun _ _ h => h.1, hpop, (hsh.publishing 0 (0, 0) hpub).2⟩
  · obtain ⟨s, hr, hs⟩ := seven_reach (SmallAndWell sevenChunks) (abortsAtClear 1)
      (stallAndEvict 0 1 ++ popAndMark 1) (by decide +kernel)
    unfold abortsAtClear at hs
    obtain ⟨hclears, herr⟩ := Bool.and_eq_true_iff.mp hs
    refine ⟨s, hr, of_decide_eq_true hclears, ?_⟩
    split at herr
    · assumption
    · cases herr

end Runs

end ZnCache
