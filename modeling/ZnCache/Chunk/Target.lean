/-
  ZnCache.Chunk.Target — whether an eviction frees as many zones as it is to.

  `zn_policy_chunk_evict` is to leave four zones free if there were two or
  fewer.  Its collector picks zones from the heap until there are four.  It can
  do so as long as the zones it picks have no chunk in use: for a chunk in use
  it acquires another zone, and then `zn_cachemap_insert` fails.  But how many
  such zones there are is decided before, for the eviction takes the chunks
  accessed longest ago, wherever they are.

  Main results:
    * `EvictInv.round`, `EvictInv.rounds` — the zones that are collected,
    * `chunk_evict_reaches_target` — exactly which calls free enough zones,
    * `chunk_evict_aborts` — one that does not.
-/
import ZnCache.Chunk.Cornered
import ZnCache.CacheMap.Clearing

namespace ZnCache

open Lib Lib.ThreadPool

universe u

/-! ## §1. The zones that can be collected. -/

/-- How many zones in the heap have no chunk in use. -/
def ZnPolicyChunk.emptyFiled (p : ZnPolicyChunk) : Nat :=
  p.filedZones.countP fun z => (p.zonePool z).chunksInUse = 0

/-- A zone counts no chunk in use if no chunk of it is queued. -/
theorem ChunkBooks.empty_iff {g : Geometry} {p : ZnPolicyChunk} (h : ChunkBooks g p) {z : Nat} :
    (p.zonePool z).chunksInUse = 0 ↔ ∀ ch ∈ p.lru, ch.1 ≠ z := by
  rw [← h.card_zone z, Finset.card_eq_zero, Finset.filter_eq_empty_iff]
  constructor
  · exact fun hno ch hch => hno (List.mem_toFinset.mpr hch)
  · exact fun hno ch hch => hno ch (List.mem_toFinset.mp hch)

/-- **What a call relies on** where the thread that has the mutex is at `e`. -/
structure EvictInv {Tid : Type u} (g : Geometry) (pub : Tid → Option (Nat × Nat))
    (e : Option ChunkEvict) (s : CacheState ZnPolicyChunk) : Prop where
  shared : Shared g s.policy s.cacheMap pub e
  zsm : ZsmInv g s.zoneState
  filed : ∃ q, Filed g s.policy q
  filed_full : ∀ z ∈ s.policy.filedZones, (s.zoneState.state z).state = .full
  zones : s.cacheMap.numZones = g.nrZones

/-- No zone is opened, and none given back. -/
def ZoneStateManager.NothingOpened (z' z : ZoneStateManager) : Prop :=
  z'.active = z.active ∧ z'.writesOccurring = z.writesOccurring

/-! ## §2. A zone with no chunk in use. -/

/-- The cache after a zone with no chunk in use is collected. -/
def collectedZone (s : CacheState ZnPolicyChunk) (z : Nat) (heap : ZnMinheap) :
    CacheState ZnPolicyChunk :=
  { s with
    policy := { s.policy with invalidPqueue := heap }
    zoneState := evicted s.zoneState z
    device := s.device.forget z }

section Collector

variable {Tid : Type u} {g : Geometry} {pub : Tid → Option (Nat × Nat)} {s : CacheState ZnPolicyChunk}
  {P : Answers → Prop} {Q : CacheState ZnPolicyChunk × EvictCall → Prop}

/-- A chunk that is not in use is skipped. -/
theorem skip_total_iff (hmax : g.maxZoneChunks < 2 ^ 32) {old i : Nat} (hi : i < g.maxZoneChunks)
    (hunused : (s.policy.pair (old, i)).inUse = false) (hP : ∃ a, P a) :
    (evictionCall g).Total P (s, .running (.gcScan old i)) Q
      ↔ (evictionCall g).Total P (s, .running (.gcScan old (i + 1))) Q := by
  have hskip : ∀ a, chunkEvictStep g a s (.gcScan old i)
      = some (.ok (s, some (.gcScan old (i + 1)))) := by
    intro a
    unfold chunkEvictStep
    dsimp only
    rw [if_pos hi, hunused, if_neg (by simp), Nat.mod_eq_of_lt (by omega)]
  exact evictionCall_total_iff hP fun a _ => hskip a

/-- A scan that finds no chunk in use comes to the end of the zone. -/
theorem scan_total_iff (hmax : g.maxZoneChunks < 2 ^ 32) {old : Nat}
    (hunused : ∀ j, (s.policy.pair (old, j)).inUse = false) (hP : ∃ a, P a) :
    ∀ k i, i + k = g.maxZoneChunks →
      ((evictionCall g).Total P (s, .running (.gcScan old i)) Q
        ↔ (evictionCall g).Total P (s, .running (.gcClear old)) Q) := by
  intro k
  induction k with
  | zero =>
    intro i hi
    have hend : ∀ a, chunkEvictStep g a s (.gcScan old i) = some (.ok (s, some (.gcClear old))) := by
      intro a
      unfold chunkEvictStep
      exact if_neg (by omega)
    exact evictionCall_total_iff hP fun a _ => hend a
  | succ k ih =>
    intro i hi
    exact (skip_total_iff hmax (by omega) (hunused i) hP).trans (ih (i + 1) (by omega))

/-- A zone with no chunk in use is mapped nowhere, and to clear it does
nothing. -/
theorem EvictInv.clear_eq (h : EvictInv g pub (some .gc) s) {z : Nat} (hz : z < g.nrZones)
    (hunused : ∀ j, (s.policy.pair (z, j)).inUse = false) :
    znCachemapClearZone s.cacheMap z (s.cacheMap.dataMap z).entries = .ok s.cacheMap := by
  obtain ⟨f, hf⟩ := h.shared.represented
  have hno : ∀ c, ¬ Mapped s.cacheMap z c := by
    intro c hmapped
    rcases h.shared.mapped (z, c) hmapped with huse | hclear
    · rw [hunused c] at huse
      cases huse
    · cases hclear
  have hlt : z < s.cacheMap.numZones := by
    rw [h.zones]
    exact hz
  rw [(hf.clearZone hlt (List.Perm.refl _)).1, hf.zoneCleared_of_unmapped hno]

/-- **A pass over a zone with no chunk in use** resets it. -/
theorem EvictInv.pass (h : EvictInv g pub (some .gc) s) (hmax : g.maxZoneChunks < 2 ^ 32)
    {n ent z : Nat} {heap : ZnMinheap} (hn : n < evictLowThreshZones)
    (hout : znMinheapExtractMin s.policy.invalidPqueue = (some ent, heap))
    (hdata : (heap.entry ent).data = z) (hz : z < g.nrZones)
    (hfull : (s.zoneState.state z).state = .full) (hempty : (s.policy.zonePool z).chunksInUse = 0) :
    (evictionCall g).Total (Answers.Obeys g) (s, .running (.gcLoop n)) Q
      ↔ (evictionCall g).Total (Answers.Obeys g) (collectedZone s z heap,
          .running (.gcLoop (zsmGetNumFreeZones (evicted s.zoneState z)))) Q := by
  have hunused : ∀ j, (s.policy.pair (z, j)).inUse = false := by
    intro j
    rw [← Bool.not_eq_true, ← h.shared.books.queued]
    exact fun hin => h.shared.books.empty_iff.mp hempty _ hin rfl
  have hnumber : (s.policy.zonePool z).zoneId = z := by
    rw [← hdata]
    exact (h.shared.heap.extract hout).2
  have hP := Answers.exists_obeys g
  have hpick : ∀ a, chunkEvictStep g a s (.gcLoop n)
      = some (.ok ({ s with policy := { s.policy with invalidPqueue := heap } },
          some (.gcScan z 0))) := by
    intro a
    unfold chunkEvictStep
    dsimp only
    rw [if_pos hn, hout]
    dsimp only
    rw [hdata]
  have hclear : ∀ a, chunkEvictStep g a { s with policy := { s.policy with invalidPqueue := heap } }
      (.gcClear z) = some (.ok ({ s with policy := { s.policy with invalidPqueue := heap } },
          some (.gcReset z))) := by
    intro a
    unfold chunkEvictStep
    dsimp only
    rw [hnumber, h.clear_eq hz hunused]
    rfl
  have hreset : ∀ a, Answers.Obeys g a →
      chunkEvictStep g a { s with policy := { s.policy with invalidPqueue := heap } } (.gcReset z)
        = some (.ok (collectedZone s z heap, some .gcFree)) := by
    intro a ha
    unfold chunkEvictStep
    dsimp only
    rw [hnumber, zsmEvict_spec ha.1 hfull]
    rfl
  have hpicked := evictionCall_total_iff (Q := Q) hP fun a _ => hpick a
  have hscanned := scan_total_iff (Q := Q)
    (s := { s with policy := { s.policy with invalidPqueue := heap } }) hmax hunused hP
    g.maxZoneChunks 0 (Nat.zero_add _)
  have hcleared := evictionCall_total_iff (Q := Q) hP fun a _ => hclear a
  have hdone := evictionCall_total_iff (Q := Q) hP hreset
  have hcounted := evictionCall_total_iff (g := g) (Q := Q) (s := collectedZone s z heap) (e := .gcFree) hP
    fun _ _ => rfl
  exact (((hpicked.trans hscanned).trans hcleared).trans hdone).trans hcounted

/-- **One round of the collector**, while a zone in the heap has no chunk in
use: such a zone is picked, and is free. -/
theorem EvictInv.round (h : EvictInv g pub (some .gc) s) (hzones : g.nrZones < 2 ^ 31)
    (hmax : g.maxZoneChunks < 2 ^ 32) (hfree : zsmGetNumFreeZones s.zoneState < evictLowThreshZones)
    (hempty : s.policy.emptyFiled ≠ 0) :
    ∃ z heap, EvictInv g pub (some .gc) (collectedZone s z heap)
      ∧ (collectedZone s z heap).policy.emptyFiled + 1 = s.policy.emptyFiled
      ∧ zsmGetNumFreeZones (evicted s.zoneState z) = zsmGetNumFreeZones s.zoneState + 1
      ∧ ∀ Q, (evictionCall g).Total (Answers.Obeys g)
            (s, .running (.gcLoop (zsmGetNumFreeZones s.zoneState))) Q
          ↔ (evictionCall g).Total (Answers.Obeys g) (collectedZone s z heap,
              .running (.gcLoop (zsmGetNumFreeZones (evicted s.zoneState z)))) Q := by
  obtain ⟨q, hq⟩ := h.filed
  obtain ⟨z₀, hz₀, hzero⟩ := List.countP_pos_iff.mp (Nat.pos_of_ne_zero hempty)
  have hne : s.policy.filedZones ≠ [] := List.ne_nil_of_mem hz₀
  obtain ⟨ent, heap, q', hout, hq', hperm, hmin⟩ := hq.pick hzones hne
  obtain ⟨z, hdata⟩ : ∃ z, (heap.entry ent).data = z := ⟨_, rfl⟩
  rw [hdata] at hperm hmin
  have hin : z ∈ s.policy.filedZones := hperm.mem_iff.mpr (List.mem_cons_self ..)
  -- no zone in the heap has fewer chunks in use
  have hz : (s.policy.zonePool z).chunksInUse = 0 := by
    have hle := hmin z₀ hz₀
    have hzero' : (s.policy.zonePool z₀).chunksInUse = 0 := of_decide_eq_true hzero
    omega
  have hnot : z ∉ ({ s.policy with invalidPqueue := heap } : ZnPolicyChunk).filedZones :=
    (List.nodup_cons.mp (hperm.nodup_iff.mp hq.nodup)).1
  refine ⟨z, heap, ?_, ?_, ?_, ?_⟩
  · constructor
    · have hbooks : ChunkBooks g { s.policy with invalidPqueue := heap } :=
        h.shared.books.congr rfl rfl (fun _ => rfl) (fun _ => rfl) rfl
      exact h.shared.relist hbooks rfl (h.shared.heap.extract hout).1
    · exact evicted_inv h.zsm (h.filed_full z hin)
    · exact ⟨q', hq'⟩
    · intro z' hz'
      have hne : z' ≠ z := fun heq => hnot (heq ▸ hz')
      show (Function.update s.zoneState.state z _ z').state = _
      rw [Function.update_of_ne hne]
      exact h.filed_full z' (hperm.mem_iff.mpr (List.mem_cons_of_mem _ hz'))
    · exact h.zones
  · show List.countP _ _ + 1 = List.countP _ _
    rw [hperm.countP_eq, List.countP_cons_of_pos (by simpa using hz)]
    rfl
  · show (s.zoneState.free ++ [z]).length = s.zoneState.free.length + 1
    rw [List.length_append, List.length_singleton]
  · intro Q
    exact h.pass hmax hfree hout hdata (hq.lt hin) (h.filed_full z hin) hz

/-- The collector collects what it can: it comes to four free zones, or to where
each zone in the heap has a chunk in use. -/
theorem EvictInv.rounds (hzones : g.nrZones < 2 ^ 31) (hmax : g.maxZoneChunks < 2 ^ 32) :
    ∀ (k : Nat) (s : CacheState ZnPolicyChunk), EvictInv g pub (some .gc) s → s.policy.emptyFiled = k →
      ∃ s', EvictInv g pub (some .gc) s'
        ∧ (evictLowThreshZones ≤ zsmGetNumFreeZones s'.zoneState ∨ s'.policy.emptyFiled = 0)
        ∧ zsmGetNumFreeZones s'.zoneState + s'.policy.emptyFiled
          = zsmGetNumFreeZones s.zoneState + s.policy.emptyFiled
        ∧ s'.cacheMap = s.cacheMap ∧ s'.policy.pair = s.policy.pair
        ∧ s'.zoneState.NothingOpened s.zoneState
        ∧ ∀ Q, (evictionCall g).Total (Answers.Obeys g)
              (s, .running (.gcLoop (zsmGetNumFreeZones s.zoneState))) Q
            ↔ (evictionCall g).Total (Answers.Obeys g)
              (s', .running (.gcLoop (zsmGetNumFreeZones s'.zoneState))) Q := by
  intro k
  induction k with
  | zero =>
    intro s h hk
    exact ⟨s, h, Or.inr hk, rfl, rfl, rfl, ⟨rfl, rfl⟩, fun _ => Iff.rfl⟩
  | succ k ih =>
    intro s h hk
    by_cases hfree : zsmGetNumFreeZones s.zoneState < evictLowThreshZones
    · obtain ⟨z, heap, hnext, hempty, hcount, hround⟩ := h.round hzones hmax hfree (by omega)
      obtain ⟨s', h', hend, hsum, hmap, hpair, hopen, hloop⟩ := ih _ hnext (by omega)
      refine ⟨s', h', hend, ?_, hmap, hpair, hopen, fun Q => (hround Q).trans (hloop Q)⟩
      have hcount' : zsmGetNumFreeZones (collectedZone s z heap).zoneState
          = zsmGetNumFreeZones s.zoneState + 1 := hcount
      omega
    · exact ⟨s, h, Or.inl (Nat.not_lt.mp hfree), rfl, rfl, rfl, ⟨rfl, rfl⟩, fun _ => Iff.rfl⟩

/-! ## §3. No zone without a chunk in use. -/

/-- **The collector is cornered** where each zone in the heap has a chunk in
use. -/
theorem EvictInv.cornered (h : EvictInv g pub (some .gc) s) (hzones : g.nrZones < 2 ^ 31)
    (hzero : s.policy.AllZero) (hgains : GainsNothing s)
    (hfew : zsmGetNumFreeZones s.zoneState < evictLowThreshZones) (hempty : s.policy.emptyFiled = 0) :
    ∃ q, Cornered g s (.gcLoop (zsmGetNumFreeZones s.zoneState)) q := by
  obtain ⟨q, hq⟩ := h.filed
  refine ⟨q, .of_filed hq hzones ?_, hzero, (fun _ hold => by cases hold), hfew, hfew, hgains⟩
  intro z hz
  by_contra hno
  refine List.countP_eq_zero.mp hempty z hz (decide_eq_true (h.shared.books.empty_iff.mpr ?_))
  intro ch hch heq
  have huse := (h.shared.books.queued ch).mp hch
  exact hno ⟨ch.2, (h.shared.books.inPool huse).2, heq ▸ huse⟩

end Collector

/-! ## §4. From the lock to the collector. -/

/-- How many zones in the heap have no chunk in the queue but at its head, where
the chunks are that are evicted. -/
def ZnPolicyChunk.emptied (p : ZnPolicyChunk) : Nat :=
  p.filedZones.countP fun z => ∀ ch ∈ p.lru.drop p.nrEvict, ch.1 ≠ z

/-- The chunks at the head of the queue are evicted, one after the other. -/
theorem Filed.evictAll {g : Geometry} (hzones : g.nrZones < 2 ^ 31) (hmax : g.maxZoneChunks < 2 ^ 32)
    {rest : List (Nat × Nat)} : ∀ (evicted : List (Nat × Nat)) (p : ZnPolicyChunk) (q : PQueue),
      Filed g p q → ChunkBooks g p → p.lru = evicted ++ rest →
      (∃ q', Filed g (evicted.foldl ZnPolicyChunk.evictHead p) q')
        ∧ (evicted.foldl ZnPolicyChunk.evictHead p).filedZones.Perm p.filedZones
        ∧ ∀ ch, ((evicted.foldl ZnPolicyChunk.evictHead p).pair ch).id = (p.pair ch).id := by
  intro evicted
  induction evicted with
  | nil =>
    intro p q hq _ _
    exact ⟨⟨q, hq⟩, List.Perm.refl _, fun _ => rfl⟩
  | cons ch evicted ih =>
    intro p q hq hb hlru
    obtain ⟨q₁, hq₁, hperm₁⟩ := hq.evictHead hb hzones hlru
    have hlru₁ : (p.evictHead ch).lru = evicted ++ rest := (hb.indexed.pop hlru).2.1
    obtain ⟨hq', hperm, hid⟩ := ih _ q₁ hq₁ (hb.pop hmax hlru _) hlru₁
    refine ⟨hq', hperm.trans hperm₁, ?_⟩
    intro x
    refine (hid x).trans ?_
    show ((p.popped ch _).pair x).id = _
    rw [ZnPolicyChunk.pair_popped]
    by_cases hx : x = ch
    · rw [hx, Function.update_self]
    · rw [Function.update_of_ne hx]

/-- What is kept from the lock to the collector. -/
theorem GainsNothing.of_kept {s s' : CacheState ZnPolicyChunk} (h : GainsNothing s)
    (hopen : s'.zoneState.NothingOpened s.zoneState)
    (hcond : ∀ k c, s'.cacheMap.zoneMap k = some (.cond c) → s.cacheMap.zoneMap k = some (.cond c)) :
    GainsNothing s' := by
  rcases h with hnobody | hactive
  · exact Or.inl fun c hc => hnobody c (hcond 0 c hc)
  · exact Or.inr (hopen.1.trans hactive)

/-- Marking chunks invalid moves no zone. -/
theorem markAll_same : ∀ (chs : List (Nat × Nat)) (s : ZoneStateManager),
    (markAll s chs).free = s.free ∧ (markAll s chs).NothingOpened s
      ∧ ∀ z, ((markAll s chs).state z).state = (s.state z).state := by
  intro chs
  induction chs with
  | nil => exact fun s => ⟨rfl, ⟨rfl, rfl⟩, fun _ => rfl⟩
  | cons ch chs ih =>
    intro s
    obtain ⟨hfree, hopen, hstate⟩ := ih (zsmMarkChunkInvalid s ⟨ch.1, ch.2, 0, false⟩)
    refine ⟨hfree, hopen, ?_⟩
    intro z
    exact (hstate z).trans (zsmMarkChunkInvalid_same s _ z).2.1

theorem markAll_inv {g : Geometry} : ∀ (chs : List (Nat × Nat)) (s : ZoneStateManager),
    ZsmInv g s → ZsmInv g (markAll s chs) := by
  intro chs
  induction chs with
  | nil => exact fun s h => h
  | cons ch chs ih => exact fun s h => ih _ (h.mark _)

section Call

variable {Tid : Type u} {g : Geometry} {pub : Tid → Option (Nat × Nat)} {s : CacheState ZnPolicyChunk}

/-- Above the threshold the thread takes the mutex, and the queue has what is to
be evicted. -/
theorem EvictInv.enters (h : EvictInv g pub none s) (hlock : s.policy.locked = false)
    (htotal : evictLowThreshChunks ≤ s.policy.totalChunks) (hmeets : ¬ s.policy.Refuses) :
    EvictInv g pub (some (.pop 0 s.policy.nrEvict)) { s with policy := { s.policy with locked := true } }
      ∧ s.policy.nrEvict < 2 ^ 32
      ∧ (s.policy.lru.take s.policy.nrEvict).length = s.policy.nrEvict
      ∧ ∀ stops : ChunkEvict → Bool, stops .lock = false →
          ∀ Q, (chunkEvictProgram g stops).Total (Answers.Obeys g) (s, .running .lock) Q
            ↔ (chunkEvictProgram g stops).Total (Answers.Obeys g)
              ({ s with policy := { s.policy with locked := true } },
                .running (.pop 0 s.policy.nrEvict)) Q := by
  have h32 : s.policy.totalChunks < 2 ^ 32 := by
    rw [h.shared.books.total]
    exact Nat.mod_lt _ (Nat.two_pow_pos 32)
  obtain ⟨hcount, hle⟩ := ZnPolicyChunk.nrEvict_le htotal h32 hmeets
  obtain ⟨q, hq⟩ := h.filed
  refine ⟨?_, ?_, ?_, ?_⟩
  · constructor
    · exact h.shared.enter _
    · exact h.zsm
    · exact ⟨q, hq.same_heap rfl (fun _ => rfl) fun _ _ => rfl⟩
    · exact h.filed_full
    · exact h.zones
  · rw [hcount]
    exact Nat.lt_of_le_of_lt (Nat.sub_le _ _) (by decide)
  · rw [List.length_take, Nat.min_eq_left hle]
  · intro stops hlocks Q
    exact chunkEvict_total_iff hlocks (Answers.exists_obeys g) fun a _ =>
      lock_enters hlock htotal h32 hmeets a

/-- **The eviction phase** of a call that evicts only what is published, from
the lock to the collector. -/
theorem EvictInv.reaches_gc (h : EvictInv g pub none s) (hzones : g.nrZones < 2 ^ 31)
    (hmax : g.maxZoneChunks < 2 ^ 32) (hlock : s.policy.locked = false)
    (htotal : evictLowThreshChunks ≤ s.policy.totalChunks) (hmeets : ¬ s.policy.Refuses)
    (hpub : ∀ ch ∈ s.policy.lru.take s.policy.nrEvict, ∀ t, pub t ≠ some ch) :
    ∃ s', EvictInv g pub (some .gc) s'
      ∧ zsmGetNumFreeZones s'.zoneState = zsmGetNumFreeZones s.zoneState
      ∧ s'.policy.emptyFiled = s.policy.emptied
      ∧ s'.zoneState.NothingOpened s.zoneState
      ∧ (s.policy.AllZero → s'.policy.AllZero)
      ∧ (∀ k c, s'.cacheMap.zoneMap k = some (.cond c) → s.cacheMap.zoneMap k = some (.cond c))
      ∧ ∀ stops : ChunkEvict → Bool, stops .lock = false → (∀ i n, stops (.pop i n) = false) →
          (∀ i n zp, stops (.mark i n zp) = false) → (∀ i n zp, stops (.clear i n zp) = false) →
          ∀ Q, (chunkEvictProgram g stops).Total (Answers.Obeys g) (s, .running .lock) Q
            ↔ (chunkEvictProgram g stops).Total (Answers.Obeys g) (s', .running .gc) Q := by
  obtain ⟨hentered, hn, hlen, henter⟩ := h.enters hlock htotal hmeets
  obtain ⟨q, hq⟩ := hentered.filed
  have hparts := (List.take_append_drop s.policy.nrEvict s.policy.lru).symm
  obtain ⟨s', htook, hshared, hpolicy, hmapZones, hloop⟩ := rounds_total_iff hmax hn
    (s.policy.lru.take s.policy.nrEvict) 0 _ (by rw [hlen, Nat.zero_add]) hentered.shared hq.given
    hparts hpub
  rw [hlen, Nat.zero_add] at hshared hloop
  obtain ⟨hfiled, hperm, hid⟩ := hq.evictAll hzones hmax _ _ _ hentered.shared.books hparts
  rw [← hpolicy] at hfiled hperm hid
  have hlru : s'.policy.lru = s.policy.lru.drop s.policy.nrEvict :=
    List.append_cancel_left (htook.lru_eq.symm.trans hparts)
  have hzsm : s'.zoneState = markAll s.zoneState (s.policy.lru.take s.policy.nrEvict) :=
    htook.zoneState_eq
  obtain ⟨hfree, hopen, hstate⟩ := markAll_same (s.policy.lru.take s.policy.nrEvict) s.zoneState
  refine ⟨s', ?_, ?_, ?_, ?_, ?_, ?_, ?_⟩
  · constructor
    · apply hshared.goOn
      · rfl
      · intro e he
        cases he
        trivial
    · rw [hzsm]
      exact markAll_inv _ _ h.zsm
    · exact hfiled
    · intro z hz
      rw [hzsm, hstate z]
      exact h.filed_full z (hperm.mem_iff.mp hz)
    · exact hmapZones.trans h.zones
  · unfold zsmGetNumFreeZones
    rw [hzsm, hfree]
  · unfold ZnPolicyChunk.emptyFiled ZnPolicyChunk.emptied
    rw [hperm.countP_eq]
    apply List.countP_congr
    intro z _
    rw [decide_eq_true_iff, decide_eq_true_iff, hshared.books.empty_iff, hlru]
  · rw [hzsm]
    exact hopen
  · intro hzero ch huse
    rw [hid]
    apply hzero
    rw [← h.shared.books.queued]
    rw [← hshared.books.queued, hlru] at huse
    exact List.mem_of_mem_drop huse
  · intro k c hc
    by_cases hin : ∃ ch ∈ s.policy.lru.take s.policy.nrEvict, locOf s.cacheMap k = some ch
    · obtain ⟨ch, hch, hk⟩ := hin
      rw [htook.forgotten k ch hch hk] at hc
      cases hc
    · rw [htook.kept k fun ch hch hk => hin ⟨ch, hch, hk⟩] at hc
      exact hc
  · intro stops hlocks hpop hmark hclear Q
    have hrounds := hloop stops (fun i => hpop i _) (fun i zp => hmark i _ zp)
      (fun i zp => hclear i _ zp) (Answers.Obeys g) Q (Answers.exists_obeys g)
    have hleft := popped_total_iff (g := g) (s := s') (Q := Q) (hpop s.policy.nrEvict s.policy.nrEvict)
      (Answers.exists_obeys g)
    exact ((henter stops hlocks Q).trans hrounds).trans hleft

/-! ## §5. The whole call. -/

/-- The mutex is given back, and 0 returned. -/
theorem unlock_total_iff {Q : CacheState ZnPolicyChunk × EvictCall → Prop} :
    (evictionCall g).Total (Answers.Obeys g) (s, .running .unlock) Q
      ↔ Q ({ s with policy := { s.policy with locked := false } }, .returned 0) :=
  (evictionCall_total_iff (Answers.exists_obeys g) fun _ _ => rfl).trans
    (Program.Total.result_iff rfl (Answers.exists_obeys g))

/-- The collector starts where there are two free zones or fewer, -/
theorem gcStart_total_iff (hfew : zsmGetNumFreeZones s.zoneState ≤ evictHighThreshZones)
    {Q : CacheState ZnPolicyChunk × EvictCall → Prop} :
    (evictionCall g).Total (Answers.Obeys g) (s, .running .gc) Q
      ↔ (evictionCall g).Total (Answers.Obeys g)
        (s, .running (.gcLoop (zsmGetNumFreeZones s.zoneState))) Q := by
  have hstart : ∀ a, chunkEvictStep g a s .gc
      = some (.ok (s, some (.gcLoop (zsmGetNumFreeZones s.zoneState)))) := by
    intro a
    unfold chunkEvictStep
    exact if_neg (Nat.not_lt.mpr hfew)
  exact evictionCall_total_iff (Answers.exists_obeys g) fun a _ => hstart a

/-- and is left where there are more. -/
theorem gcSkip_total_iff (hmany : evictHighThreshZones < zsmGetNumFreeZones s.zoneState)
    {Q : CacheState ZnPolicyChunk × EvictCall → Prop} :
    (evictionCall g).Total (Answers.Obeys g) (s, .running .gc) Q
      ↔ Q ({ s with policy := { s.policy with locked := false } }, .returned 0) := by
  have hskip : ∀ a, chunkEvictStep g a s .gc = some (.ok (s, some .unlock)) := by
    intro a
    unfold chunkEvictStep
    exact if_pos hmany
  exact (evictionCall_total_iff (Answers.exists_obeys g) fun a _ => hskip a).trans unlock_total_iff

/-- Its loop ends with four free zones. -/
theorem gcDone_total_iff (hdone : evictLowThreshZones ≤ zsmGetNumFreeZones s.zoneState)
    {Q : CacheState ZnPolicyChunk × EvictCall → Prop} :
    (evictionCall g).Total (Answers.Obeys g)
        (s, .running (.gcLoop (zsmGetNumFreeZones s.zoneState))) Q
      ↔ Q ({ s with policy := { s.policy with locked := false } }, .returned 0) := by
  have hleave : ∀ a, chunkEvictStep g a s (.gcLoop (zsmGetNumFreeZones s.zoneState))
      = some (.ok (s, some .unlock)) := by
    intro a
    unfold chunkEvictStep
    exact if_neg (Nat.not_lt.mpr hdone)
  exact (evictionCall_total_iff (Answers.exists_obeys g) fun a _ => hleave a).trans unlock_total_iff

/-- **The collector comes to four free zones** if that many are free or can be
collected. -/
theorem EvictInv.collects (h : EvictInv g pub (some .gc) s) (hzones : g.nrZones < 2 ^ 31)
    (hmax : g.maxZoneChunks < 2 ^ 32)
    (henough : zsmGetNumFreeZones s.zoneState ≤ evictHighThreshZones →
      evictLowThreshZones ≤ zsmGetNumFreeZones s.zoneState + s.policy.emptyFiled) :
    ∃ s', EvictInv g pub (some .gc) s' ∧ s'.zoneState.NothingOpened s.zoneState
      ∧ (zsmGetNumFreeZones s.zoneState ≤ evictHighThreshZones →
        evictLowThreshZones ≤ zsmGetNumFreeZones s'.zoneState)
      ∧ ∀ Q, (evictionCall g).Total (Answers.Obeys g) (s, .running .gc) Q
          ↔ Q ({ s' with policy := { s'.policy with locked := false } }, .returned 0) := by
  by_cases hfew : zsmGetNumFreeZones s.zoneState ≤ evictHighThreshZones
  · obtain ⟨s', h', hend, hsum, -, -, hopen, hloop⟩ := EvictInv.rounds hzones hmax _ s h rfl
    have hdone : evictLowThreshZones ≤ zsmGetNumFreeZones s'.zoneState := by
      have hsum' := henough hfew
      omega
    refine ⟨s', h', hopen, fun _ => hdone, ?_⟩
    intro Q
    exact ((gcStart_total_iff hfew).trans (hloop Q)).trans (gcDone_total_iff hdone)
  · refine ⟨s, h, ⟨rfl, rfl⟩, fun hfew' => absurd hfew' hfew, ?_⟩
    intro Q
    exact gcSkip_total_iff (Nat.not_le.mp hfew)

/-- **And only then** does it return at all, if no pass gains a zone. -/
theorem EvictInv.enough (h : EvictInv g pub (some .gc) s) (hzones : g.nrZones < 2 ^ 31)
    (hmax : g.maxZoneChunks < 2 ^ 32) (hzero : s.policy.AllZero) (hgains : GainsNothing s)
    {Q : CacheState ZnPolicyChunk × EvictCall → Prop}
    (htotal : (evictionCall g).Total (Answers.Obeys g) (s, .running .gc) Q)
    (hfew : zsmGetNumFreeZones s.zoneState ≤ evictHighThreshZones) :
    evictLowThreshZones ≤ zsmGetNumFreeZones s.zoneState + s.policy.emptyFiled := by
  obtain ⟨s', h', hend, hsum, hmap, hpair, hopen, hloop⟩ := EvictInv.rounds hzones hmax _ s h rfl
  rw [gcStart_total_iff hfew, hloop] at htotal
  rcases hend with hdone | hempty
  · omega
  · by_contra hnot
    have hzero' : s'.policy.AllZero := by
      unfold ZnPolicyChunk.AllZero
      rw [hpair]
      exact hzero
    have hgains' : GainsNothing s' := by
      unfold GainsNothing
      rw [hmap, hopen.1]
      exact hgains
    obtain ⟨q, hcornered⟩ := h'.cornered hzones hzero' hgains' (by omega) hempty
    exact hcornered.not_total htotal

/-- **What a call is to come to**: to the collector, and from there to its end,
with four zones free if two or fewer were. -/
def MeetsTarget (g : Geometry) (s : CacheState ZnPolicyChunk) : Prop :=
  (evictionPhase g).Total (Answers.Obeys g) (s, .running .lock) fun x =>
    x.2 = .running .gc ∧ (evictionCall g).Total (Answers.Obeys g) x fun y =>
      y.2 = .returned 0 ∧ (zsmGetNumFreeZones x.1.zoneState ≤ evictHighThreshZones →
        evictLowThreshZones ≤ zsmGetNumFreeZones y.1.zoneState)

/-- **What it takes**: the chunks at the head of the queue, as many as are to be
evicted, have been inserted; and with the zones that have no other chunks in the
queue there are four free ones. -/
structure EnoughEmptied (pub : Tid → Option (Nat × Nat)) (s : CacheState ZnPolicyChunk) : Prop where
  published : ∀ ch ∈ s.policy.lru.take s.policy.nrEvict, ∀ t, pub t ≠ some ch
  emptied : zsmGetNumFreeZones s.zoneState ≤ evictHighThreshZones →
    evictLowThreshZones ≤ zsmGetNumFreeZones s.zoneState + s.policy.emptied

theorem EvictInv.meetsTarget (h : EvictInv g pub none s) (hzones : g.nrZones < 2 ^ 31)
    (hmax : g.maxZoneChunks < 2 ^ 32) (hlock : s.policy.locked = false)
    (htotal : evictLowThreshChunks ≤ s.policy.totalChunks) (hmeets : ¬ s.policy.Refuses)
    (henough : EnoughEmptied pub s) : MeetsTarget g s := by
  obtain ⟨s₁, h₁, hfree, hempty, -, -, -, hphase⟩ :=
    h.reaches_gc hzones hmax hlock htotal hmeets henough.published
  obtain ⟨s₂, -, -, hfour, hcall⟩ := h₁.collects hzones hmax (by
    rw [hfree, hempty]
    exact henough.emptied)
  apply (hphase _ rfl (fun _ _ => rfl) (fun _ _ _ => rfl) (fun _ _ _ => rfl) _).mpr
  exact .returned rfl ⟨rfl, (hcall _).mpr ⟨rfl, hfour⟩⟩

theorem EvictInv.enoughEmptied (h : EvictInv g pub none s) (hzones : g.nrZones < 2 ^ 31)
    (hmax : g.maxZoneChunks < 2 ^ 32) (hlock : s.policy.locked = false)
    (htotal : evictLowThreshChunks ≤ s.policy.totalChunks) (hmeets : ¬ s.policy.Refuses)
    (hzero : s.policy.AllZero) (hgains : GainsNothing s)
    (htarget : MeetsTarget g s) : EnoughEmptied pub s := by
  obtain ⟨hentered, hn, hlen, henter⟩ := h.enters hlock htotal hmeets
  obtain ⟨q, hq⟩ := hentered.filed
  have hpub := rounds_published hmax hn (fun _ => rfl) (fun _ _ => rfl) (fun _ _ => rfl)
    (Answers.exists_obeys g) (s.policy.lru.take s.policy.nrEvict) 0 _ (by rw [hlen, Nat.zero_add])
    hentered.shared hq.given (List.take_append_drop _ _).symm ((henter _ rfl _).mp htarget)
  refine ⟨hpub, ?_⟩
  obtain ⟨s', h', hfree, hempty, hopen, hzero', hcond', hphase⟩ :=
    h.reaches_gc hzones hmax hlock htotal hmeets hpub
  have hgc := (hphase _ rfl (fun _ _ => rfl) (fun _ _ _ => rfl) (fun _ _ _ => rfl) _).mp htarget
  obtain ⟨-, hcall⟩ := (Program.Total.result_iff rfl (Answers.exists_obeys g)).mp hgc
  rw [← hfree, ← hempty]
  exact h'.enough hzones hmax (hzero' hzero) (hgains.of_kept hopen hcond') hcall

end Call

/-! ## §6. Every run. -/

section Run

variable {Tid : Type u} [DecidableEq Tid] {g : Geometry} {rb : Buffer}
  {mem : Nat → EvictionPolicyChunkZone}

/-- **Run lemma.** -/
theorem EvictInv.reach (hzones : g.nrZones < 2 ^ 31) (hpos : 1 ≤ g.maxZoneChunks)
    (hmax : g.maxZoneChunks < 2 ^ 32) (hmem : ∀ z, z < g.nrZones → (mem z).pqueueEntry = none)
    {s : Sys ZnPolicyChunk ChunkEvict Tid}
    (hr : (cacheSystem Tid (chunk mem) g rb).Reach (fun s l => l.Regular g s) s)
    (hlock : s.cache.policy.locked = false) :
    EvictInv g (fun t => (s.pool t).publishing) none s.cache := by
  have hfiled := FiledSys.reach hzones hpos hmax hmem hr
  obtain ⟨e, hheld, hsh⟩ := ChunkSys.reach hmax (fun _ _ hc => ⟨hc.1, hc.2.2.1, hc.2.2.2.1⟩) hr
  obtain ⟨rfl, -⟩ := hheld.nobody hlock
  constructor
  · exact hsh
  · exact zsm_inv_reach hpos (chunk_zsm_inv hpos) (fun _ _ hc => hc.2.1) hr
  · exact hfiled.filed
  · exact hfiled.filed_full
  · exact num_zones (chunk_numZones mem) hr

/-- **THE TARGET THEOREM.**  In every run in which no live chunk is moved, no
chunk evicted before it is published and none reported after its zone is filed,
a call of `zn_policy_chunk_evict` that passes its threshold test returns 0, with
four zones free if two or fewer were, if the chunks that it evicts leave enough
zones empty.  If they do not, and nobody is fetching id 0 or no zone is open, it
does not. -/
theorem chunk_evict_reaches_target (hzones : g.nrZones < 2 ^ 31) (hpos : 1 ≤ g.maxZoneChunks)
    (hmax : g.maxZoneChunks < 2 ^ 32)
    (htotal : evictLowThreshChunks ≤ (znPolicyChunkInit mem g).totalChunks)
    (hmem : ∀ z, z < g.nrZones → (mem z).pqueueEntry = none)
    {s : Sys ZnPolicyChunk ChunkEvict Tid}
    (hr : (cacheSystem Tid (chunk mem) g rb).Reach (fun s l => l.Regular g s) s)
    (hlock : s.cache.policy.locked = false) (hmeets : ¬ s.cache.policy.Refuses) :
    (EnoughEmptied (fun t => (s.pool t).publishing) s.cache → MeetsTarget g s.cache)
    ∧ (GainsNothing s.cache → MeetsTarget g s.cache →
      EnoughEmptied (fun t => (s.pool t).publishing) s.cache) := by
  have hinv := EvictInv.reach hzones hpos hmax hmem hr hlock
  have htotal' : evictLowThreshChunks ≤ s.cache.policy.totalChunks := by
    rw [hinv.shared.books.total]
    exact htotal
  have hzero := allZero_reach hmax (fun _ _ hc => ⟨hc.1, hc.2.2.1, hc.2.2.2.1⟩) hr
  constructor
  · exact hinv.meetsTarget hzones hmax hlock htotal' hmeets
  · exact hinv.enoughEmptied hzones hmax hlock htotal' hmeets hzero

/-- Five zones of three chunks. -/
abbrev fiveZones : Geometry := ⟨5, 5, 4096, 12288, 12288, .block⟩

/-- One call at a time, all operations succeed, and nothing goes wrong before. -/
abbrev RegularAndWell (s : Sys ZnPolicyChunk ChunkEvict (Fin 2)) (l : SysLabel (Fin 2)) : Prop :=
  AloneAndWell fiveZones s l ∧ l.Regular fiveZones s

/-- Thread `t` caches the ids, and thread `u` wakes up and is about to evict. -/
def fillAndEvict {Tid : Type u} (t u : Tid) (ids : List UInt32) : List (SysLabel Tid) :=
  cacheAll t ids ++ [.evictTask u]

/-- Thread `t` is about to evict, the mutex is free, the threshold is passed and
nobody fetches id 0. -/
def AboutToEvict {Tid : Type u} (t : Tid) (s : Sys ZnPolicyChunk ChunkEvict Tid) : Prop :=
  (s.pool t).evicting.map ChunkEvict.returns = some 1 ∧ s.cache.policy.locked = false
    ∧ ¬ s.cache.policy.Refuses ∧ s.cache.cacheMap.zoneMap 0 = none

instance {Tid : Type u} (t : Tid) (s : Sys ZnPolicyChunk ChunkEvict Tid) : Decidable (AboutToEvict t s) :=
  inferInstanceAs (Decidable (_ ∧ _ ∧ _ ∧ _))

/-- Whether the call of the eviction by itself fails an assertion. -/
def failsAssertion (g : Geometry) (s : CacheState ZnPolicyChunk) : Bool :=
  match (evictionCall g).drive 60 (fun _ => wellAnswered) (s, .running .lock) with
  | some (.error .assertion) => true
  | _ => false

/-- A run that ends with an eviction that is to come. -/
theorem five_reach (ids : List UInt32) (p : Sys ZnPolicyChunk ChunkEvict (Fin 2) → Bool)
    (h : (TransSys.execAll (sysExec (chunk clearedPool) fiveZones (fun _ => 0) RegularAndWell)
      (fillAndEvict 0 1 ids) ⟨initCache (chunk clearedPool) fiveZones fun _ => 0, fun _ => .idle⟩).any
        (fun s => decide (AboutToEvict 1 s) && p s) = true) :
    ∃ s, (cacheSystem (Fin 2) (chunk clearedPool) fiveZones fun _ => 0).Reach RegularAndWell s
      ∧ ((s.pool 1).evicting = some .lock ∧ s.cache.policy.locked = false
        ∧ ¬ s.cache.policy.Refuses ∧ s.cache.cacheMap.zoneMap 0 = none) ∧ p s = true := by
  obtain ⟨s, hr, hs⟩ := TransSys.Reach.exists_of_exec sysExec_ok ⟨fun _ => 0, rfl⟩
    (fun s => decide (AboutToEvict 1 s) && p s) _ h
  obtain ⟨habout, hp⟩ := Bool.and_eq_true_iff.mp hs
  obtain ⟨hat, hlock, hmeets, hzero⟩ := of_decide_eq_true habout
  exact ⟨s, hr, ⟨ChunkEvict.eq_lock_of_returns hat, hlock, hmeets, hzero⟩, hp⟩

/-- **A call that does not free enough zones.**  Ten chunks are cached on five
zones of three, and one zone is free.  Seven chunks are evicted, which leaves
two zones empty: that makes three free zones.  The next zone in the heap has two
chunks in use, and the call fails an assertion. -/
theorem chunk_evict_aborts : evictLowThreshZones < fiveZones.nrZones
    ∧ evictLowThreshChunks ≤ fiveZones.nrZones * fiveZones.maxZoneChunks
    ∧ ∃ s, (cacheSystem (Fin 2) (chunk clearedPool) fiveZones fun _ => 0).Reach
        (AloneAndWell fiveZones) s
      ∧ ((s.pool 1).evicting = some .lock ∧ s.cache.policy.locked = false
        ∧ ¬ s.cache.policy.Refuses ∧ s.cache.cacheMap.zoneMap 0 = none)
      ∧ failsAssertion fiveZones s.cache = true ∧ ¬ MeetsTarget fiveZones s.cache := by
  obtain ⟨s, hr, hat, hp⟩ := five_reach [1, 2, 3, 4, 5, 6, 7, 8, 9, 10]
    (fun s => failsAssertion fiveZones s.cache
      && (zsmGetNumFreeZones s.cache.zoneState == 1 && s.cache.policy.emptied == 2))
    (by decide +kernel)
  obtain ⟨hfails, hcounts⟩ := Bool.and_eq_true_iff.mp hp
  obtain ⟨hfree, hempty⟩ := Bool.and_eq_true_iff.mp hcounts
  refine ⟨by decide, by decide, s, hr.mono fun _ _ hc => hc.1, hat, hfails, ?_⟩
  intro htarget
  obtain ⟨-, hlock, hmeets, hzero⟩ := hat
  have hinv := EvictInv.reach (by decide) (by decide) (by decide) (fun _ _ => rfl)
    (hr.mono fun _ _ hc => hc.2) hlock
  have htotal : evictLowThreshChunks ≤ s.cache.policy.totalChunks := by
    rw [hinv.shared.books.total]
    decide
  have hall := allZero_reach (by decide) (fun _ _ hc => ⟨hc.2.1, hc.2.2.2.1, hc.2.2.2.2.1⟩) hr
  have henough := (hinv.enoughEmptied (by decide) (by decide) hlock htotal hmeets hall
    (Or.inl fun c hc => by rw [hzero] at hc; cases hc) htarget).emptied
  rw [beq_iff_eq.mp hfree, beq_iff_eq.mp hempty] at henough
  exact absurd (henough (by decide)) (by decide)

/-- Nine chunks are cached, and two zones are free.  Six chunks are evicted,
which leaves two zones empty: the call frees four zones. -/
theorem chunk_evict_reaches_target_nine : ∃ s : Sys ZnPolicyChunk ChunkEvict (Fin 2),
    (s.pool 1).evicting = some .lock ∧ zsmGetNumFreeZones s.cache.zoneState = 2
      ∧ MeetsTarget fiveZones s.cache := by
  obtain ⟨s, hr, ⟨hat, hlock, hmeets, -⟩, hp⟩ := five_reach [1, 2, 3, 4, 5, 6, 7, 8, 9]
    (fun s => zsmGetNumFreeZones s.cache.zoneState == 2 && s.cache.policy.emptied == 2
      && decide (∀ ch ∈ s.cache.policy.lru.take s.cache.policy.nrEvict, ∀ t,
        (s.pool t).publishing ≠ some ch)) (by decide +kernel)
  obtain ⟨hcounts, hpub⟩ := Bool.and_eq_true_iff.mp hp
  obtain ⟨hfree, hempty⟩ := Bool.and_eq_true_iff.mp hcounts
  have hfree' := beq_iff_eq.mp hfree
  refine ⟨s, hat, hfree', ?_⟩
  apply (chunk_evict_reaches_target (by decide) (by decide) (by decide) (by decide) (fun _ _ => rfl)
    (hr.mono fun _ _ hc => hc.2) hlock hmeets).1
  refine ⟨of_decide_eq_true hpub, fun _ => ?_⟩
  rw [hfree', beq_iff_eq.mp hempty]

end Run

end ZnCache
