/-
  ZnCache.Chunk.Rounds — a call of `zn_policy_chunk_evict` by itself.

  `chunkEvictProgram` is the call as a program, from the point where it takes
  `policy_mutex`; it stops where it returns, or sooner if it is told to.  The
  rounds of its loop ask the device for nothing, so each of them is one step of
  the cache (`tookHead`), and the whole loop is one list of chunks.

  Main results:
    * `lock_refuses`, `lock_enters` — the test of the threshold,
    * `round_steps`, `rounds_total_iff` — one round, and the loop.
-/
import ZnCache.Chunk.Shared
import ZnCache.Chunk.InStep
import ZnCache.Lib.Drive

namespace ZnCache

open Lib Lib.PartialBijection

universe u

/-! ## §1. The call. -/

/-- A call under way, or what it has returned. -/
inductive EvictCall where
  | running (e : ChunkEvict)
  | returned (r : Int)

/-- What is returned from a point of `zn_policy_chunk_evict`: 1 below the
threshold, 0 at the end. -/
def ChunkEvict.returns : ChunkEvict → Int
  | .lock => 1
  | .pop .. | .mark .. | .clear .. | .gc | .gcLoop _ | .gcScan .. | .gcRead .. | .gcWrite ..
  | .gcInsert .. | .gcClear _ | .gcReset _ | .gcFree | .unlock => 0

/-- Only the test of the threshold returns 1. -/
theorem ChunkEvict.eq_lock_of_returns {e : Option ChunkEvict} (h : e.map ChunkEvict.returns = some 1) :
    e = some .lock := by
  obtain ⟨e, rfl, hone⟩ := Option.map_eq_some_iff.mp h
  cases e with
  | lock => rfl
  | pop | mark | clear | gc | gcLoop | gcScan | gcRead | gcWrite | gcInsert | gcClear | gcReset
  | gcFree | unlock => cases hone

/-- The call after a step from `e`. -/
def EvictCall.after (e : ChunkEvict) : Option ChunkEvict → EvictCall
  | none => .returned e.returns
  | some e' => .running e'

/-- Where the collector is called. -/
def ChunkEvict.isGc : ChunkEvict → Bool
  | .gc => true
  | .lock | .pop .. | .mark .. | .clear .. | .gcLoop _ | .gcScan .. | .gcRead .. | .gcWrite ..
  | .gcInsert .. | .gcClear _ | .gcReset _ | .gcFree | .unlock => false

/-- `zn_policy_chunk_evict`, up to where it returns or `stops`. -/
def chunkEvictProgram (g : Geometry) (stops : ChunkEvict → Bool) :
    Program (CacheState ZnPolicyChunk × EvictCall) Answers Fault
      (CacheState ZnPolicyChunk × EvictCall) where
  step a s :=
    match s.2 with
    | .running e => (chunkEvictStep g a s.1 e).map fun x => x.map fun r => (r.1, .after e r.2)
    | .returned _ => none
  result s :=
    match s.2 with
    | .running e => if stops e then some s else none
    | .returned _ => some s

/-- The eviction phase: up to the collector. -/
abbrev evictionPhase (g : Geometry) := chunkEvictProgram g ChunkEvict.isGc

/-- The whole call. -/
abbrev evictionCall (g : Geometry) := chunkEvictProgram g fun _ => false

section Program

variable {g : Geometry} {stops : ChunkEvict → Bool} {s : CacheState ZnPolicyChunk} {e : ChunkEvict}

theorem chunkEvict_running (hstop : stops e = false) :
    (chunkEvictProgram g stops).result (s, .running e) = none := by
  show (if stops e then some (s, EvictCall.running e) else none) = none
  rw [hstop]
  rfl

theorem chunkEvict_step {a : Answers} {s' : CacheState ZnPolicyChunk} {e' : Option ChunkEvict}
    (h : chunkEvictStep g a s e = some (.ok (s', e'))) :
    (chunkEvictProgram g stops).step a (s, .running e) = some (.ok (s', .after e e')) := by
  show (chunkEvictStep g a s e).map _ = _
  rw [h]
  rfl

/-- A step that is the same on all answers. -/
theorem chunkEvict_total_iff {P : Answers → Prop} {Q : CacheState ZnPolicyChunk × EvictCall → Prop}
    {s' : CacheState ZnPolicyChunk} {e' : Option ChunkEvict} (hstop : stops e = false)
    (hP : ∃ a, P a) (h : ∀ a, P a → chunkEvictStep g a s e = some (.ok (s', e'))) :
    (chunkEvictProgram g stops).Total P (s, .running e) Q
      ↔ (chunkEvictProgram g stops).Total P (s', .after e e') Q :=
  Program.Total.step_iff (chunkEvict_running hstop) hP fun a ha => chunkEvict_step (h a ha)

/-- The same for the whole call. -/
theorem evictionCall_total_iff {P : Answers → Prop} {Q : CacheState ZnPolicyChunk × EvictCall → Prop}
    {s' : CacheState ZnPolicyChunk} {e' : Option ChunkEvict} (hP : ∃ a, P a)
    (h : ∀ a, P a → chunkEvictStep g a s e = some (.ok (s', e'))) :
    (evictionCall g).Total P (s, .running e) Q ↔ (evictionCall g).Total P (s', .after e e') Q :=
  chunkEvict_total_iff rfl hP h

/-- A step that is taken is one of the function. -/
theorem chunkEvict_step_ok {a : Answers} {x : CacheState ZnPolicyChunk × EvictCall}
    (h : (chunkEvictProgram g stops).step a (s, .running e) = some (.ok x)) :
    ∃ s' e', chunkEvictStep g a s e = some (.ok (s', e')) ∧ x = (s', .after e e') := by
  obtain ⟨r, hr, rfl⟩ := stepped_map_eq_ok h
  exact ⟨r.1, r.2, hr, rfl⟩

end Program

/-! ## §2. The threshold. -/

namespace ZnPolicyChunk

variable (p : ZnPolicyChunk)

/-- `free_chunks`, a difference of `uint32_t`s. -/
def freeChunks : Nat := u32Sub p.totalChunks (p.lruQueue.length % 2 ^ 32)

/-- `nr_evict`. -/
def nrEvict : Nat := u32Sub evictLowThreshChunks p.freeChunks

/-- The threshold is not met. -/
def Refuses : Prop := p.lru = [] ∨ evictHighThreshChunks < p.freeChunks

instance : Decidable p.Refuses := inferInstanceAs (Decidable (_ ∨ _))

theorem length_lru : p.lru.length = p.lruQueue.length := (LinkQueue.length_eq _).symm

/-- On a device of fewer than `2^32` chunks, `free_chunks` is what is not
queued. -/
theorem freeChunks_add_length {g : Geometry} {p : ZnPolicyChunk} (hb : ChunkBooks g p)
    (h32 : g.nrZones * g.maxZoneChunks < 2 ^ 32) : p.freeChunks + p.lru.length = p.totalChunks := by
  have hle := hb.length_le
  have htotal := hb.total
  rw [Nat.mod_eq_of_lt h32] at htotal
  rw [length_lru]
  unfold freeChunks u32Sub
  omega

/-- With twelve chunks on the device, a queue whose length reads as 0 leaves
more chunks free than the threshold. -/
theorem refuses_iff {p : ZnPolicyChunk} (htotal : evictLowThreshChunks ≤ p.totalChunks)
    (h32 : p.totalChunks < 2 ^ 32) :
    p.lruQueue.length % 2 ^ 32 = 0 ∨ evictHighThreshChunks < p.freeChunks ↔ p.Refuses := by
  have hnil : p.lru = [] ↔ p.lruQueue.length = 0 := by
    rw [← length_lru, List.length_eq_zero_iff]
  unfold Refuses
  rw [hnil]
  constructor
  · intro h
    rcases h with hzero | hfree
    · have hfree : p.freeChunks = p.totalChunks := by
        unfold freeChunks u32Sub
        omega
      have hle : evictHighThreshChunks < evictLowThreshChunks := by decide
      omega
    · exact Or.inr hfree
  · intro h
    rcases h with hzero | hfree
    · omega
    · exact Or.inr hfree

/-- Above the threshold the queue has what is to be evicted, and no more than
twelve chunks. -/
theorem nrEvict_le {p : ZnPolicyChunk} (htotal : evictLowThreshChunks ≤ p.totalChunks)
    (h32 : p.totalChunks < 2 ^ 32) (h : ¬ p.Refuses) :
    p.nrEvict = evictLowThreshChunks - p.freeChunks ∧ p.nrEvict ≤ p.lru.length := by
  unfold Refuses at h
  rw [not_or] at h
  obtain ⟨-, hfree⟩ := h
  have hhigh : evictHighThreshChunks = 6 := rfl
  have hlow : evictLowThreshChunks = 12 := rfl
  have heq : p.nrEvict = evictLowThreshChunks - p.freeChunks := by
    unfold nrEvict
    exact u32Sub_of_le (by omega) (by omega)
  refine ⟨heq, ?_⟩
  rw [heq, length_lru]
  have hdef : p.freeChunks = (p.totalChunks + 2 ^ 32 - p.lruQueue.length % 2 ^ 32 % 2 ^ 32) % 2 ^ 32 := rfl
  omega

/-- What is evicted is free. -/
theorem freeChunks_evicted {p p' : ZnPolicyChunk} (htotal : evictLowThreshChunks ≤ p.totalChunks)
    (h32 : p.totalChunks < 2 ^ 32) (h : ¬ p.Refuses) (htotal' : p'.totalChunks = p.totalChunks)
    (hlen : p.lru.length = p.nrEvict + p'.lru.length) : p'.freeChunks = evictLowThreshChunks := by
  obtain ⟨heq, -⟩ := nrEvict_le htotal h32 h
  unfold Refuses at h
  rw [not_or] at h
  obtain ⟨-, hfree⟩ := h
  rw [length_lru, length_lru] at hlen
  have hhigh : evictHighThreshChunks = 6 := rfl
  have hlow : evictLowThreshChunks = 12 := rfl
  have hdef : p.freeChunks = (p.totalChunks + 2 ^ 32 - p.lruQueue.length % 2 ^ 32 % 2 ^ 32) % 2 ^ 32 := rfl
  unfold freeChunks u32Sub
  rw [htotal']
  omega

end ZnPolicyChunk

section Lock

variable {g : Geometry} {s : CacheState ZnPolicyChunk}

/-- Below the threshold nothing is done. -/
theorem lock_refuses (hlock : s.policy.locked = false)
    (htotal : evictLowThreshChunks ≤ s.policy.totalChunks) (h32 : s.policy.totalChunks < 2 ^ 32)
    (h : s.policy.Refuses) (a : Answers) : chunkEvictStep g a s .lock = some (.ok (s, none)) := by
  have hcond := (ZnPolicyChunk.refuses_iff htotal h32).mpr h
  unfold chunkEvictStep
  dsimp only
  rw [hlock, if_neg (by simp)]
  exact if_pos hcond

/-- Above it the loop is entered. -/
theorem lock_enters (hlock : s.policy.locked = false)
    (htotal : evictLowThreshChunks ≤ s.policy.totalChunks) (h32 : s.policy.totalChunks < 2 ^ 32)
    (h : ¬ s.policy.Refuses) (a : Answers) : chunkEvictStep g a s .lock
      = some (.ok ({ s with policy := { s.policy with locked := true } },
          some (.pop 0 s.policy.nrEvict))) := by
  have hcond := mt (ZnPolicyChunk.refuses_iff htotal h32).mp h
  unfold chunkEvictStep
  dsimp only
  rw [hlock, if_neg (by simp)]
  exact if_neg hcond

/-- The thread that evicts takes the mutex. -/
theorem Shared.enter {Tid : Type u} {p : ZnPolicyChunk} {m : ZnCachemap}
    {pub : Tid → Option (Nat × Nat)} (h : Shared g p m pub none) (n : Nat) :
    Shared g { p with locked := true } m pub (some (.pop 0 n)) := by
  have hbooks : ChunkBooks g { p with locked := true } :=
    h.books.congr rfl rfl (fun _ => rfl) (fun _ => rfl) rfl
  refine (h.relist hbooks rfl h.heap).goOn rfl ?_
  intro e he
  cases he
  trivial

end Lock

/-! ## §3. One round. -/

/-- What zones refer to was handed out by the heap. -/
def ZnPolicyChunk.EntriesGiven (g : Geometry) (p : ZnPolicyChunk) : Prop :=
  ∀ z, z < g.nrZones → ∀ e ∈ (p.zonePool z).pqueueEntry, e < p.invalidPqueue.next

/-- The policy with the head of the queue evicted, and its zone's entry told. -/
def ZnPolicyChunk.evictHead (p : ZnPolicyChunk) (ch : Nat × Nat) : ZnPolicyChunk :=
  p.popped ch (znMinheapUpdateByEntry p.invalidPqueue (p.zonePool ch.1).pqueueEntry
    ((p.zonePool ch.1).vacated ch.2).chunksInUse).2

/-- What the pool has of a chunk once it is evicted. -/
def ZnPolicyChunk.evictedPair (p : ZnPolicyChunk) (ch : Nat × Nat) : ZnPair :=
  { p.pair ch with inUse := false }

/-- The cache after one round of the eviction loop. -/
def tookHead (s : CacheState ZnPolicyChunk) (ch : Nat × Nat) (m : ZnCachemap) :
    CacheState ZnPolicyChunk :=
  { s with
    policy := s.policy.evictHead ch
    zoneState := zsmMarkChunkInvalid s.zoneState (s.policy.evictedPair ch)
    cacheMap := m }

theorem updatePriority_returns {p : ZnPolicyChunk} {z : Nat}
    (h : ∀ e ∈ (p.zonePool z).pqueueEntry, e < p.invalidPqueue.next) :
    ∃ p', updatePriority p z = .ok p' := ⟨_, if_pos h⟩

/-- The head of the queue can be taken. -/
theorem popChunk_returns {g : Geometry} {p : ZnPolicyChunk} (hb : ChunkBooks g p)
    (hgiven : p.EntriesGiven g) {ch : Nat × Nat} {rest : List (Nat × Nat)} (hlru : p.lru = ch :: rest) :
    popChunk p = .ok (p.evictedPair ch, p.evictHead ch) := by
  obtain ⟨-, -, hhead⟩ := hb.indexed.pop hlru
  obtain ⟨hz, -⟩ := hb.named ch (hb.head_used hlru)
  have hex : ∃ r, popChunk p = .ok r := by
    unfold popChunk
    have hpop : p.lruQueue.popHead = (some ch, p.lruQueue.dropHead) := Prod.ext hhead rfl
    rw [hpop]
    dsimp only
    rw [hz]
    -- the zone keeps its entry, and the heap has handed it out
    obtain ⟨p', hp'⟩ := updatePriority_returns (z := ch.1)
      (p := ZnPolicyChunk.setZone { p with
        lruQueue := p.lruQueue.dropHead
        chunkToLruMap := Function.update p.chunkToLruMap ch (some none) } ch.1
        (((p.zonePool ch.1).setChunk (p.pair ch).chunkOffset
          { (p.zonePool ch.1).chunks (p.pair ch).chunkOffset with inUse := false }).oneLess)) (by
        show ∀ e ∈ (Function.update p.zonePool ch.1 _ ch.1).pqueueEntry, _
        rw [Function.update_self]
        exact hgiven ch.1 (hb.inPool (hb.head_used hlru)).1)
    rw [hp']
    exact ⟨_, rfl⟩
  obtain ⟨⟨zp, p'⟩, h⟩ := hex
  obtain ⟨ch', rest', hlru', rfl, rfl⟩ := popChunk_ok hb h
  rw [hlru] at hlru'
  cases hlru'
  exact h

section Round

variable {Tid : Type u} {g : Geometry} {s : CacheState ZnPolicyChunk} {pub : Tid → Option (Nat × Nat)}
  {i n : Nat} {ch : Nat × Nat} {rest : List (Nat × Nat)}

/-- A chunk that is in use says where it is, also after it is evicted. -/
theorem ChunkBooks.evictedPair_at {p : ZnPolicyChunk} (hb : ChunkBooks g p) (hlru : p.lru = ch :: rest) :
    ((p.evictedPair ch).zone, (p.evictedPair ch).chunkOffset) = ch := by
  obtain ⟨hz, hc⟩ := hb.named ch (hb.head_used hlru)
  exact Prod.ext hz hc

/-- The head of the queue is taken, and is to be cleared. -/
theorem Shared.popHead (h : Shared g s.policy s.cacheMap pub (some (.pop i n)))
    (hmax : g.maxZoneChunks < 2 ^ 32) (hlru : s.policy.lru = ch :: rest)
    (hpub : ∀ t, pub t ≠ some ch) :
    Shared g (s.policy.evictHead ch) s.cacheMap pub
      (some (.clear i n (s.policy.evictedPair ch))) := by
  apply h.pop hmax hlru (h.heap.update _ _) hpub rfl
  · exact congrArg some (h.books.evictedPair_at hlru)
  · intro e he p
    cases he
    trivial

/-- The head of the queue is taken and marked invalid, whatever is answered. -/
theorem take_total_iff (hb : ChunkBooks g s.policy) (hgiven : s.policy.EntriesGiven g) (hlt : i < n)
    (hlru : s.policy.lru = ch :: rest) {stops : ChunkEvict → Bool} (hpop : stops (.pop i n) = false)
    (hmark : ∀ zp, stops (.mark i n zp) = false) {P : Answers → Prop}
    {Q : CacheState ZnPolicyChunk × EvictCall → Prop} (hP : ∃ a, P a) :
    (chunkEvictProgram g stops).Total P (s, .running (.pop i n)) Q
      ↔ (chunkEvictProgram g stops).Total P
        ({ s with
            policy := s.policy.evictHead ch
            zoneState := zsmMarkChunkInvalid s.zoneState (s.policy.evictedPair ch) },
          .running (.clear i n (s.policy.evictedPair ch))) Q := by
  have htake : ∀ a, chunkEvictStep g a s (.pop i n)
      = some (.ok ({ s with policy := s.policy.evictHead ch },
          some (.mark i n (s.policy.evictedPair ch)))) := by
    intro a
    unfold chunkEvictStep
    dsimp only
    rw [if_pos hlt, popChunk_returns hb hgiven hlru]
    rfl
  have hpopped := chunkEvict_total_iff (Q := Q) hpop hP fun a _ => htake a
  have hmarked := chunkEvict_total_iff (g := g) (P := P) (Q := Q)
    (s := { s with policy := s.policy.evictHead ch }) (hmark (s.policy.evictedPair ch)) hP
    fun _ _ => rfl
  exact hpopped.trans hmarked

/-- **One round**: the chunk at the head of the queue is taken, and the entry of
the id that is stored there goes. -/
theorem round_steps (h : Shared g s.policy s.cacheMap pub (some (.pop i n)))
    (hmax : g.maxZoneChunks < 2 ^ 32) (hgiven : s.policy.EntriesGiven g) (hlt : i < n)
    (hn : n < 2 ^ 32) (hlru : s.policy.lru = ch :: rest) (hpub : ∀ t, pub t ≠ some ch) :
    ∃ m k, locOf s.cacheMap k = some ch ∧ m.zoneMap = Function.update s.cacheMap.zoneMap k none
      ∧ m.activeReaders = s.cacheMap.activeReaders ∧ m.numZones = s.cacheMap.numZones
      ∧ Shared g (tookHead s ch m).policy m pub (some (.pop (i + 1) n))
      ∧ ∀ stops : ChunkEvict → Bool, (∀ i, stops (.pop i n) = false) →
        (∀ i zp, stops (.mark i n zp) = false) → (∀ i zp, stops (.clear i n zp) = false) →
        ∀ (P : Answers → Prop) (Q : _ → Prop), (∃ a, P a) →
          ((chunkEvictProgram g stops).Total P (s, .running (.pop i n)) Q
            ↔ (chunkEvictProgram g stops).Total P (tookHead s ch m, .running (.pop (i + 1) n)) Q) := by
  have htaken := h.popHead hmax hlru hpub
  have hat := h.books.evictedPair_at hlru
  have hclearing : (some (ChunkEvict.clear i n (s.policy.evictedPair ch))).bind ChunkEvict.clearing
      = some ((s.policy.evictedPair ch).zone, (s.policy.evictedPair ch).chunkOffset) := rfl
  obtain ⟨k, f, m, hk, hm, hf, hf'⟩ := htaken.clear_returns hclearing
  have hmap : Shared g (s.policy.evictHead ch) m pub (some (.pop (i + 1) n)) :=
    htaken.clear hclearing hm rfl (by
      intro e he
      cases he
      trivial)
  obtain ⟨l, -, -, -, hmeq⟩ := znCachemapClearChunk_ok hm
  have hkey := hf.keyAt_eq ((hf.fwd k).symm.trans hk)
  have hzmap : m.zoneMap = Function.update s.cacheMap.zoneMap k none := by
    rw [hmeq, ← hkey]
    rfl
  have hreaders : m.activeReaders = s.cacheMap.activeReaders := by
    rw [hmeq]
    rfl
  have hzones : m.numZones = s.cacheMap.numZones := by
    rw [hmeq]
    rfl
  rw [hat] at hk
  refine ⟨m, k, hk, hzmap, hreaders, hzones, hmap, ?_⟩
  intro stops hpop hmark hclear P Q hP
  have hforget : ∀ a, chunkEvictStep g a
      { s with
        policy := s.policy.evictHead ch
        zoneState := zsmMarkChunkInvalid s.zoneState (s.policy.evictedPair ch) }
      (.clear i n (s.policy.evictedPair ch))
        = some (.ok (tookHead s ch m, some (.pop (i + 1) n))) := by
    intro a
    show some ((znCachemapClearChunk s.cacheMap _).map _) = _
    rw [hm, Nat.mod_eq_of_lt (Nat.lt_of_le_of_lt hlt hn)]
    rfl
  have htaken := take_total_iff (Q := Q) h.books hgiven hlt hlru (hpop i) (hmark i) hP
  have hcleared := chunkEvict_total_iff (Q := Q) (hclear i (s.policy.evictedPair ch)) hP
    fun a _ => hforget a
  exact htaken.trans hcleared

/-- **A chunk that is still to be inserted** has no entry, and the call fails. -/
theorem unpublished_fails (h : Shared g s.policy s.cacheMap pub (some (.pop i n)))
    (hgiven : s.policy.EntriesGiven g) (hlt : i < n) (hlru : s.policy.lru = ch :: rest) {t : Tid}
    (hpub : pub t = some ch) {stops : ChunkEvict → Bool} (hpop : stops (.pop i n) = false)
    (hmark : ∀ zp, stops (.mark i n zp) = false) (hclear : ∀ zp, stops (.clear i n zp) = false)
    {P : Answers → Prop} {Q : CacheState ZnPolicyChunk × EvictCall → Prop} (hP : ∃ a, P a) :
    ¬ (chunkEvictProgram g stops).Total P (s, .running (.pop i n)) Q := by
  rw [take_total_iff h.books hgiven hlt hlru hpop hmark hP]
  intro htotal
  obtain ⟨a, ha⟩ := hP
  obtain ⟨x, hx, -⟩ := htotal.next (chunkEvict_running (hclear _)) ha
  obtain ⟨s', e', hstep, -⟩ := chunkEvict_step_ok hx
  cases chunkEvictStep_cases hstep with
  | clear hm =>
    obtain ⟨l, hl, hz, hc, -⟩ := znCachemapClearChunk_ok hm
    obtain ⟨hz', hc'⟩ := Prod.mk.inj (h.books.evictedPair_at hlru)
    exact (h.publishing t ch hpub).2 ⟨_, l, hl, hz.trans hz', hc.trans hc'⟩

end Round

/-! ## §4. The loop. -/

namespace ZnPolicyChunk

/-- Evicting a chunk changes no zone's number and no zone's entry. -/
theorem zonePool_evictHead (p : ZnPolicyChunk) (ch : Nat × Nat) (z : Nat) :
    ((p.evictHead ch).zonePool z).zoneId = (p.zonePool z).zoneId
      ∧ ((p.evictHead ch).zonePool z).pqueueEntry = (p.zonePool z).pqueueEntry := by
  unfold evictHead
  rw [zonePool_popped]
  by_cases hz : z = ch.1
  · rw [hz, Function.update_self]
    exact ⟨rfl, rfl⟩
  · rw [Function.update_of_ne hz]
    exact ⟨rfl, rfl⟩

theorem EntriesGiven.evictHead {g : Geometry} {p : ZnPolicyChunk} (h : p.EntriesGiven g)
    (ch : Nat × Nat) : (p.evictHead ch).EntriesGiven g := by
  intro z hz e he
  rw [(p.zonePool_evictHead ch z).2] at he
  show e < (znMinheapUpdateByEntry p.invalidPqueue _ _).2.next
  rw [update_next]
  exact h z hz e he

end ZnPolicyChunk

/-- The chunks are marked invalid, one after the other. -/
def markAll (s : ZoneStateManager) (chs : List (Nat × Nat)) : ZoneStateManager :=
  chs.foldl (fun s ch => zsmMarkChunkInvalid s ⟨ch.1, ch.2, 0, false⟩) s

/-- **What the rounds that take `evicted` come to.** -/
structure TookAll (evicted : List (Nat × Nat)) (s s' : CacheState ZnPolicyChunk) : Prop where
  lru_eq : s.policy.lru = evicted ++ s'.policy.lru
  /-- The ids that are stored there are forgotten, -/
  forgotten : ∀ k ch, ch ∈ evicted → locOf s.cacheMap k = some ch → s'.cacheMap.zoneMap k = none
  /-- and no others. -/
  kept : ∀ k, (∀ ch ∈ evicted, locOf s.cacheMap k ≠ some ch) →
    s'.cacheMap.zoneMap k = s.cacheMap.zoneMap k
  zone_eq : ∀ z, (s'.policy.zonePool z).zoneId = (s.policy.zonePool z).zoneId
    ∧ (s'.policy.zonePool z).pqueueEntry = (s.policy.zonePool z).pqueueEntry
  zoneState_eq : s'.zoneState = markAll s.zoneState evicted
  total_eq : s'.policy.totalChunks = s.policy.totalChunks
  readers_eq : s'.cacheMap.activeReaders = s.cacheMap.activeReaders
  rest_eq : s'.device = s.device ∧ s'.hits = s.hits ∧ s'.misses = s.misses

namespace TookAll

theorem nil (s : CacheState ZnPolicyChunk) : TookAll [] s s where
  lru_eq := rfl
  forgotten _ _ h := absurd h List.not_mem_nil
  kept _ _ := rfl
  zone_eq _ := ⟨rfl, rfl⟩
  zoneState_eq := rfl
  total_eq := rfl
  readers_eq := rfl
  rest_eq := ⟨rfl, rfl, rfl⟩

/-- Nobody looks at the lock. -/
theorem of_locked {evicted : List (Nat × Nat)} {s s' : CacheState ZnPolicyChunk} {b : Bool}
    (h : TookAll evicted { s with policy := { s.policy with locked := b } } s') :
    TookAll evicted s s' where
  lru_eq := h.lru_eq
  forgotten := h.forgotten
  kept := h.kept
  zone_eq := h.zone_eq
  zoneState_eq := h.zoneState_eq
  total_eq := h.total_eq
  readers_eq := h.readers_eq
  rest_eq := h.rest_eq

/-- One round, and the rounds after it. -/
theorem cons {g : Geometry} {s s' : CacheState ZnPolicyChunk} {ch : Nat × Nat}
    {rest evicted : List (Nat × Nat)} {m : ZnCachemap} {k : Nat} (hb : ChunkBooks g s.policy)
    (hf : ∃ f, Represents s.cacheMap f) (hlru : s.policy.lru = ch :: rest)
    (hk : locOf s.cacheMap k = some ch) (hm : m.zoneMap = Function.update s.cacheMap.zoneMap k none)
    (hreaders : m.activeReaders = s.cacheMap.activeReaders)
    (h : TookAll evicted (tookHead s ch m) s') : TookAll (ch :: evicted) s s' := by
  obtain ⟨f, hf⟩ := hf
  have hrest : (tookHead s ch m).policy.lru = rest := (hb.indexed.pop hlru).2.1
  -- the id of the chunk is gone, and the others are where they were
  have hgone : locOf m k = none := by
    unfold locOf
    rw [hm, Function.update_self]
  have hother : ∀ k', k' ≠ k → locOf m k' = locOf s.cacheMap k' := by
    intro k' hne
    unfold locOf
    rw [hm, Function.update_of_ne hne]
  constructor
  · rw [hlru, ← hrest, h.lru_eq]
    rfl
  · intro k' ch' hin hk'
    by_cases hkk : k' = k
    · have hstays := h.kept k' fun x _ hx => by
        rw [hkk] at hx
        exact absurd (hgone.symm.trans hx) (by simp)
      rw [hstays]
      show m.zoneMap k' = none
      rw [hm, hkk, Function.update_self]
    · have hne : ch' ≠ ch := by
        intro heq
        apply hkk
        rw [hf.fwd] at hk hk'
        exact f.inj (heq ▸ hk') hk
      have hin' : ch' ∈ evicted := by
        rcases List.mem_cons.mp hin with heq | hin'
        · exact absurd heq hne
        · exact hin'
      exact h.forgotten k' ch' hin' ((hother k' hkk).trans hk')
  · intro k' hno
    have hkk : k' ≠ k := by
      intro heq
      exact hno ch (List.mem_cons_self ..) (heq ▸ hk)
    rw [h.kept k' fun x hx hk' => hno x (List.mem_cons_of_mem _ hx) ((hother k' hkk).symm.trans hk')]
    show m.zoneMap k' = _
    rw [hm, Function.update_of_ne hkk]
  · intro z
    obtain ⟨hid, hentry⟩ := h.zone_eq z
    obtain ⟨hid', hentry'⟩ := s.policy.zonePool_evictHead ch z
    exact ⟨hid.trans hid', hentry.trans hentry'⟩
  · rw [h.zoneState_eq]
    obtain ⟨hz, hc⟩ := Prod.mk.inj (hb.evictedPair_at hlru)
    -- the mark reads the place of the chunk alone
    show markAll (zsmMarkChunkInvalid s.zoneState
      ⟨(s.policy.evictedPair ch).zone, (s.policy.evictedPair ch).chunkOffset, 0, false⟩) evicted = _
    rw [hz, hc]
    rfl
  · exact h.total_eq
  · exact h.readers_eq.trans hreaders
  · exact h.rest_eq

end TookAll

/-- **The loop** takes the chunks at the head of the queue, if nobody is still to
insert one of them. -/
theorem rounds_total_iff {Tid : Type u} {g : Geometry} {pub : Tid → Option (Nat × Nat)} {n : Nat}
    (hmax : g.maxZoneChunks < 2 ^ 32) (hn : n < 2 ^ 32) {rest : List (Nat × Nat)} :
    ∀ (evicted : List (Nat × Nat)) (i : Nat) (s : CacheState ZnPolicyChunk),
      i + evicted.length ≤ n → Shared g s.policy s.cacheMap pub (some (.pop i n)) →
      s.policy.EntriesGiven g → s.policy.lru = evicted ++ rest →
      (∀ ch ∈ evicted, ∀ t, pub t ≠ some ch) →
      ∃ s', TookAll evicted s s'
        ∧ Shared g s'.policy s'.cacheMap pub (some (.pop (i + evicted.length) n))
        ∧ s'.policy = evicted.foldl ZnPolicyChunk.evictHead s.policy
        ∧ s'.cacheMap.numZones = s.cacheMap.numZones
        ∧ ∀ stops : ChunkEvict → Bool, (∀ i, stops (.pop i n) = false) →
          (∀ i zp, stops (.mark i n zp) = false) → (∀ i zp, stops (.clear i n zp) = false) →
          ∀ (P : Answers → Prop) (Q : _ → Prop), (∃ a, P a) →
            ((chunkEvictProgram g stops).Total P (s, .running (.pop i n)) Q
              ↔ (chunkEvictProgram g stops).Total P
                (s', .running (.pop (i + evicted.length) n)) Q) := by
  intro evicted
  induction evicted with
  | nil =>
    intro i s _ hsh _ _ _
    exact ⟨s, TookAll.nil s, hsh, rfl, rfl, fun _ _ _ _ _ _ _ => Iff.rfl⟩
  | cons ch evicted ih =>
    intro i s hi hsh hgiven hlru hpub
    rw [List.length_cons] at hi
    obtain ⟨m, k, hk, hm, hreaders, hzones, hsh', hround⟩ := round_steps hsh hmax hgiven (by omega) hn
      hlru (hpub ch (List.mem_cons_self ..))
    have hlru' : (tookHead s ch m).policy.lru = evicted ++ rest := (hsh.books.indexed.pop hlru).2.1
    obtain ⟨s', htook, hshared, hpolicy, hzones', hloop⟩ := ih (i + 1) (tookHead s ch m) (by omega)
      hsh' (hgiven.evictHead ch) hlru' fun x hx => hpub x (List.mem_cons_of_mem _ hx)
    have hcount : i + (ch :: evicted).length = i + 1 + evicted.length := by
      rw [List.length_cons]
      omega
    rw [hcount]
    refine ⟨s', htook.cons hsh.books hsh.represented hlru hk hm hreaders, hshared, hpolicy,
      hzones'.trans hzones, ?_⟩
    intro stops hpop hmark hclear P Q hP
    exact (hround stops hpop hmark hclear P Q hP).trans (hloop stops hpop hmark hclear P Q hP)

/-- Where the loop returns, the chunks it takes were inserted. -/
theorem rounds_published {Tid : Type u} {g : Geometry} {pub : Tid → Option (Nat × Nat)} {n : Nat}
    (hmax : g.maxZoneChunks < 2 ^ 32) (hn : n < 2 ^ 32) {rest : List (Nat × Nat)}
    {stops : ChunkEvict → Bool} (hpop : ∀ i, stops (.pop i n) = false)
    (hmark : ∀ i zp, stops (.mark i n zp) = false) (hclear : ∀ i zp, stops (.clear i n zp) = false)
    {P : Answers → Prop} {Q : CacheState ZnPolicyChunk × EvictCall → Prop} (hP : ∃ a, P a) :
    ∀ (evicted : List (Nat × Nat)) (i : Nat) (s : CacheState ZnPolicyChunk),
      i + evicted.length ≤ n → Shared g s.policy s.cacheMap pub (some (.pop i n)) →
      s.policy.EntriesGiven g → s.policy.lru = evicted ++ rest →
      (chunkEvictProgram g stops).Total P (s, .running (.pop i n)) Q →
      ∀ ch ∈ evicted, ∀ t, pub t ≠ some ch := by
  intro evicted
  induction evicted with
  | nil =>
    intro i s _ _ _ _ _ ch hch
    cases hch
  | cons ch evicted ih =>
    intro i s hi hsh hgiven hlru htotal
    rw [List.length_cons] at hi
    have hpub : ∀ t, pub t ≠ some ch := by
      intro t ht
      exact unpublished_fails hsh hgiven (by omega) hlru ht (hpop i) (hmark i) (hclear i) hP htotal
    obtain ⟨m, k, -, -, -, -, hsh', hround⟩ := round_steps hsh hmax hgiven (by omega) hn hlru hpub
    have hlru' : (tookHead s ch m).policy.lru = evicted ++ rest := (hsh.books.indexed.pop hlru).2.1
    have hrest := ih (i + 1) (tookHead s ch m) (by omega) hsh' (hgiven.evictHead ch) hlru'
      ((hround stops hpop hmark hclear P Q hP).mp htotal)
    intro x hx
    rcases List.mem_cons.mp hx with rfl | hx
    · exact hpub
    · exact hrest x hx

/-- **The loop is left** when it has taken what it is told. -/
theorem popped_total_iff {g : Geometry} {s : CacheState ZnPolicyChunk} {stops : ChunkEvict → Bool}
    {n : Nat} (hstop : stops (.pop n n) = false) {P : Answers → Prop}
    {Q : CacheState ZnPolicyChunk × EvictCall → Prop} (hP : ∃ a, P a) :
    (chunkEvictProgram g stops).Total P (s, .running (.pop n n)) Q
      ↔ (chunkEvictProgram g stops).Total P (s, .running .gc) Q := by
  have hleave : ∀ a, chunkEvictStep g a s (.pop n n) = some (.ok (s, some .gc)) := by
    intro a
    unfold chunkEvictStep
    exact if_neg (Nat.lt_irrefl n)
  exact chunkEvict_total_iff hstop hP fun a _ => hleave a

end ZnCache
