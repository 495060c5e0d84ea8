/-
  ZnCache.Chunk.Cornered — where the collector gets no further.

  Fewer than four zones are free, and each zone that the heap still has for the
  collector has a chunk in use.  It picks one of them, or reads from the NULL it
  gets.  The first chunk in use is inserted for id 0, which fails unless
  somebody is fetching that id; and if somebody is, a free zone has been taken
  for the chunk where none is open, so that no zone is gained by the pass.  This
  is an invariant of the call (`Cornered`), and there is no result in it.

  Main results:
    * `Cornered.step` — the step lemma,
    * `Cornered.not_total` — the call does not come to its end.
-/
import ZnCache.Chunk.Filed
import ZnCache.Chunk.Identity

namespace ZnCache

open Lib ZnMinheap

/-! ## §1. Chunks that are moved. -/

/-- The records of the pool after a chunk is moved. -/
theorem ZnPolicyChunk.pair_moveMetadata (p : ZnPolicyChunk) (old i : Nat) (l : ZnPair) :
    (moveMetadata p old i l).pair
      = Function.update (Function.update p.pair (old, i) { p.pair (old, i) with inUse := false })
          (l.zone, l.chunkOffset) { p.pair (old, i) with inUse := true } := by
  have hold : (p.setZone old ((p.zonePool old).setChunk i
        { (p.zonePool old).chunks i with inUse := false }).oneLess).pair
      = Function.update p.pair (old, i) { p.pair (old, i) with inUse := false } := pair_setZone rfl
  rw [← hold]
  exact pair_setZone rfl

/-- A chunk in use stays in use, unless it is moved. -/
theorem ZnPolicyChunk.inUse_moveMetadata {p : ZnPolicyChunk} {old i : Nat} {l : ZnPair}
    {ch : Nat × Nat} (huse : (p.pair ch).inUse = true) (hne : ch ≠ (old, i)) :
    ((moveMetadata p old i l).pair ch).inUse = true := by
  rw [pair_moveMetadata]
  by_cases hch : ch = (l.zone, l.chunkOffset)
  · rw [hch, Function.update_self]
  · rw [Function.update_of_ne hch, Function.update_of_ne hne]
    exact huse

/-- A chunk is moved with its id. -/
theorem ZnPolicyChunk.AllZero.move {p : ZnPolicyChunk} (h : p.AllZero) {old i : Nat} {l : ZnPair}
    (huse : (p.pair (old, i)).inUse = true) : (moveMetadata p old i l).AllZero := by
  intro ch huse'
  rw [ZnPolicyChunk.pair_moveMetadata] at huse' ⊢
  by_cases hch : ch = (l.zone, l.chunkOffset)
  · rw [hch, Function.update_self]
    exact h _ huse
  · rw [Function.update_of_ne hch] at huse' ⊢
    by_cases hold : ch = (old, i)
    · rw [hold, Function.update_self] at huse'
      cases huse'
    · rw [Function.update_of_ne hold] at huse' ⊢
      exact h ch huse'

/-! ## §2. The zones in the heap. -/

/-- **Each zone in the heap has a chunk in use**, with `q` for the books of the
heap. -/
structure AllLive (g : Geometry) (p : ZnPolicyChunk) (q : PQueue) : Prop where
  heap : HeapBooks p.invalidPqueue q
  small : p.invalidPqueue.size < 2 ^ 31
  once : ∀ e e' z pr pr', q e = some (z, pr) → q e' = some (z, pr') → e = e'
  live : ∀ e z pr, q e = some (z, pr) → ∃ j, j < g.maxZoneChunks ∧ (p.pair (z, j)).inUse = true

namespace AllLive

variable {g : Geometry} {p : ZnPolicyChunk} {q : PQueue}

theorem of_filed (h : Filed g p q) (hzones : g.nrZones < 2 ^ 31)
    (hlive : ∀ z ∈ p.filedZones, ∃ j, j < g.maxZoneChunks ∧ (p.pair (z, j)).inUse = true) :
    AllLive g p q where
  heap := h.heap
  small := Nat.lt_of_le_of_lt h.size_le_nrZones hzones
  once e e' z pr pr' hq hq' := by
    have hptr := (h.booked e z pr hq).2.1
    rw [(h.booked e' z pr' hq').2.1] at hptr
    exact (Option.some.inj hptr).symm
  live e z pr hq := hlive z (h.mem_of hq)

/-- **A zone is picked**: it has a chunk in use, and is out of the heap. -/
theorem pick (h : AllLive g p q) {ent : Nat} {heap : ZnMinheap}
    (hout : znMinheapExtractMin p.invalidPqueue = (some ent, heap)) :
    ∃ q', AllLive g { p with invalidPqueue := heap } q'
      ∧ (∃ j, j < g.maxZoneChunks ∧ (p.pair ((heap.entry ent).data, j)).inUse = true)
      ∧ ∀ e pr, q' e ≠ some ((heap.entry ent).data, pr) := by
  obtain ⟨h0, rfl, hdata⟩ := extract_ok hout
  obtain ⟨heap', z, pr, hout', hq, -, hbooks, hsize, -⟩ := h.heap.extract h0 h.small
  rw [hout] at hout'
  obtain ⟨-, rfl⟩ := Prod.mk.inj hout'
  have hz : (heap.entry (p.invalidPqueue.arr 0)).data = z :=
    (hdata _).trans (h.heap.holds _ _ _ hq).1
  have hold : ∀ {e x}, Function.update q (p.invalidPqueue.arr 0) none e = some x →
      e ≠ p.invalidPqueue.arr 0 ∧ q e = some x := by
    intro e x hx
    by_cases he : e = p.invalidPqueue.arr 0
    · rw [he, Function.update_self] at hx
      cases hx
    · rw [Function.update_of_ne he] at hx
      exact ⟨he, hx⟩
  rw [hz]
  refine ⟨_, ⟨hbooks, ?_, ?_, ?_⟩, h.live _ z pr hq, ?_⟩
  · have hsmall := h.small
    show heap.size < 2 ^ 31
    omega
  · exact fun e e' z' pr₁ pr₂ hx hx' => h.once e e' z' pr₁ pr₂ (hold hx).2 (hold hx').2
  · exact fun e z' pr' hx => h.live e z' pr' (hold hx).2
  · intro e pr' hx
    obtain ⟨hne, hx'⟩ := hold hx
    exact hne (h.once e _ z pr' pr hx' hq)

/-- **A chunk is moved** out of a zone that is not in the heap. -/
theorem move (h : AllLive g p q) {old i : Nat} {l : ZnPair}
    (hnot : ∀ e pr, q e ≠ some (old, pr)) : AllLive g (moveMetadata p old i l) q where
  heap := h.heap
  small := h.small
  once := h.once
  live e z pr hq := by
    obtain ⟨j, hj, huse⟩ := h.live e z pr hq
    refine ⟨j, hj, ZnPolicyChunk.inUse_moveMetadata huse ?_⟩
    intro heq
    obtain ⟨rfl, -⟩ := Prod.mk.inj heq
    exact hnot e pr hq

end AllLive

/-! ## §3. The invariant. -/

/-- Nobody is fetching id 0. -/
def ZnCachemap.NobodyFetchesZero (m : ZnCachemap) : Prop := ∀ c, m.zoneMap 0 ≠ some (.cond c)

/-- Fewer than three zones are free, and none is open. -/
def ZoneStateManager.OneShort (z : ZoneStateManager) : Prop :=
  z.active = [] ∧ zsmGetNumFreeZones z + 1 < evictLowThreshZones

/-- **No pass gains a zone**: nobody is fetching id 0, or no zone is open. -/
def GainsNothing (s : CacheState ZnPolicyChunk) : Prop :=
  s.cacheMap.NobodyFetchesZero ∨ s.zoneState.active = []

/-- What there is at a point of the collector: before the first chunk in use
fewer than four zones are free, and from the second on fewer than three. -/
def StandsAt (g : Geometry) (s : CacheState ZnPolicyChunk) : ChunkEvict → Prop
  | .gcLoop n => n < evictLowThreshZones ∧ zsmGetNumFreeZones s.zoneState < evictLowThreshZones
      ∧ GainsNothing s
  | .gcScan old i => s.zoneState.OneShort
      ∨ (zsmGetNumFreeZones s.zoneState < evictLowThreshZones ∧ GainsNothing s
        ∧ ∃ j, i ≤ j ∧ j < g.maxZoneChunks ∧ (s.policy.pair (old, j)).inUse = true)
  | .gcRead old i _ | .gcWrite old i _ _ | .gcInsert old i _ =>
      (s.policy.pair (old, i)).inUse = true
      ∧ (s.zoneState.OneShort ∨ s.cacheMap.NobodyFetchesZero)
  | .gcClear _ | .gcReset _ => s.zoneState.OneShort
  | .gcFree => s.zoneState.active = [] ∧ zsmGetNumFreeZones s.zoneState < evictLowThreshZones
  | .lock | .pop .. | .mark .. | .clear .. | .gc | .unlock => False

/-- **The collector is cornered.** -/
structure Cornered (g : Geometry) (s : CacheState ZnPolicyChunk) (e : ChunkEvict) (q : PQueue) :
    Prop where
  live : AllLive g s.policy q
  zero : s.policy.AllZero
  /-- The zone that is collected is out of the heap. -/
  picked : ∀ old, e.collecting = some old → ∀ ent pr, q ent ≠ some (old, pr)
  stands : StandsAt g s e

/-- A zone is acquired where none is open: a free one. -/
theorem AcquireCase.takes_free {s s' : ZoneStateManager} {l : ZnPair}
    (h : AcquireCase s (.success l) s') (hactive : s.active = []) :
    s'.active = [] ∧ zsmGetNumFreeZones s' + 1 = zsmGetNumFreeZones s := by
  cases h with
  | unchanged hr => exact absurd rfl (hr l)
  | reuse ha =>
    rw [hactive] at ha
    cases ha
  | opened hf =>
    unfold zsmGetNumFreeZones
    rw [hf]
    exact ⟨hactive, rfl⟩

namespace ZoneStateManager.OneShort

/-- **It stays so** when a zone is acquired, -/
theorem acquire {z z' : ZoneStateManager} {l : ZnPair} (h : z.OneShort)
    (hcase : AcquireCase z (.success l) z') : z'.OneShort := by
  obtain ⟨hactive, hshort⟩ := h
  obtain ⟨hactive', hless⟩ := hcase.takes_free hactive
  exact ⟨hactive', by omega⟩

/-- and it comes to be so where there were fewer than four. -/
theorem of_acquire {z z' : ZoneStateManager} {l : ZnPair} (hactive : z.active = [])
    (hfew : zsmGetNumFreeZones z < evictLowThreshZones) (hcase : AcquireCase z (.success l) z') :
    z'.OneShort := by
  obtain ⟨hactive', hless⟩ := hcase.takes_free hactive
  exact ⟨hactive', by omega⟩

end ZoneStateManager.OneShort

/-- A zone is acquired for a chunk in use. -/
theorem inUse_of_gcRead {g : Geometry} {a : Answers} {s s' : CacheState ZnPolicyChunk} {old i : Nat}
    {l : ZnPair} (h : chunkEvictStep g a s (.gcScan old i) = some (.ok (s', some (.gcRead old i l)))) :
    (s.policy.pair (old, i)).inUse = true := by
  unfold chunkEvictStep at h
  dsimp only at h
  split at h
  · split at h
    · assumption
    · cases h
  · cases h

namespace Cornered

variable {g : Geometry} {s s' : CacheState ZnPolicyChunk} {e : ChunkEvict} {q : PQueue}

/-- The books and the pool stay as they are, and so does what is collected. -/
theorem goOn (h : Cornered g s e q) {e' : ChunkEvict} (hpolicy : s'.policy = s.policy)
    (hpicked : ∀ old, e'.collecting = some old → e.collecting = some old)
    (hstands : StandsAt g s' e') : Cornered g s' e' q where
  live := by
    rw [hpolicy]
    exact h.live
  zero := by
    rw [hpolicy]
    exact h.zero
  picked old hold := h.picked old (hpicked old hold)
  stands := hstands

/-- **Step lemma.** -/
theorem step (h : Cornered g s e q) {a : Answers} {e' : Option ChunkEvict}
    (hstep : chunkEvictStep g a s e = some (.ok (s', e'))) :
    ∃ e'' q', e' = some e'' ∧ Cornered g s' e'' q' := by
  have hstands := h.stands
  cases e with
  | lock | pop | mark | clear | gc | unlock => exact hstands.elim
  | gcLoop n =>
    obtain ⟨hn, hfew, hgains⟩ := hstands
    rcases gcLoop_cases hstep with ⟨-, ent, heap, hout, rfl, rfl⟩ | ⟨hge, -, -⟩
    · obtain ⟨q', hlive, ⟨j, hj, huse⟩, hgone⟩ := h.live.pick hout
      refine ⟨_, q', rfl, hlive, h.zero, ?_, Or.inr ⟨hfew, hgains, j, Nat.zero_le j, hj, huse⟩⟩
      intro old hold
      obtain rfl := Option.some.inj hold
      exact hgone
    · exact absurd hn hge
  | gcScan old i =>
    cases chunkEvictStep_cases hstep with
    | gcSkipChunk hunused =>
      refine ⟨_, q, rfl, h.goOn rfl (fun _ hold => hold) ?_⟩
      rcases hstands with hshort | ⟨hfew, hgains, j, hij, hj, huse⟩
      · exact Or.inl hshort
      · have hne : j ≠ i := by
          rintro rfl
          rw [hunused] at huse
          cases huse
        exact Or.inr ⟨hfew, hgains, j, Nat.le_trans (Nat.mod_le _ _) (by omega), hj, huse⟩
    | gcAcquire hlt hr =>
      have hcase := zsmGetActiveZone_cases hr
      have huse := inUse_of_gcRead hstep
      refine ⟨_, q, rfl, h.goOn rfl (fun _ hold => hold) ⟨huse, ?_⟩⟩
      rcases hstands with hshort | ⟨hfew, hnobody | hactive, -⟩
      · exact Or.inl (hshort.acquire hcase)
      · exact Or.inr hnobody
      · exact Or.inl (.of_acquire hactive hfew hcase)
    | gcScanned hge =>
      refine ⟨_, q, rfl, h.goOn rfl (fun _ hold => hold) ?_⟩
      rcases hstands with hshort | ⟨-, -, j, hij, hj, -⟩
      · exact hshort
      · omega
  | gcRead old i l =>
    cases chunkEvictStep_cases hstep with
    | gcRead => exact ⟨_, q, rfl, h.goOn rfl (fun _ hold => hold) hstands⟩
  | gcWrite old i l data =>
    cases chunkEvictStep_cases hstep with
    | gcWrite => exact ⟨_, q, rfl, h.goOn rfl (fun _ hold => hold) hstands⟩
  | gcInsert old i l =>
    obtain ⟨huse, hshort⟩ := hstands
    cases chunkEvictStep_cases hstep with
    | gcInsert hm =>
      have hgone := h.picked old rfl
      refine ⟨_, q, rfl, h.live.move hgone, h.zero.move huse, ?_, ?_⟩
      · intro old' hold
        obtain rfl := Option.some.inj hold
        exact hgone
      · rcases hshort with hshort | hnobody
        · exact Or.inl hshort
        · -- the chunk is inserted for id 0
          obtain ⟨c, hc, -⟩ := znCachemapInsert_ok hm
          rw [h.zero _ huse] at hc
          exact absurd hc (hnobody c)
  | gcClear old =>
    cases chunkEvictStep_cases hstep with
    | gcClear => exact ⟨_, q, rfl, h.goOn rfl (fun _ hold => hold) hstands⟩
  | gcReset old =>
    cases chunkEvictStep_cases hstep with
    | gcReset hr =>
      obtain ⟨-, -, -, rfl⟩ := zsmEvict_returns hr
      refine ⟨_, q, rfl, h.goOn rfl (fun _ hold => by cases hold) ⟨hstands.1, ?_⟩⟩
      show (s.zoneState.free ++ [_]).length < _
      rw [List.length_append, List.length_singleton]
      exact hstands.2
  | gcFree =>
    cases hstep
    exact ⟨_, q, rfl, h.goOn rfl (fun _ hold => by cases hold) ⟨hstands.2, hstands.2, Or.inr hstands.1⟩⟩

end Cornered

/-- **THE CORNER THEOREM.**  Where fewer than four zones are free, each zone in
the heap has a chunk in use, and no pass gains a zone, the call does not come to
its end. -/
theorem Cornered.not_total {g : Geometry} {s : CacheState ZnPolicyChunk} {e : ChunkEvict} {q : PQueue}
    (h : Cornered g s e q) {Q : CacheState ZnPolicyChunk × EvictCall → Prop} :
    ¬ (evictionCall g).Total (Answers.Obeys g) (s, .running e) Q := by
  obtain ⟨a, ha⟩ := Answers.exists_obeys g
  apply Program.Total.not_of_invariant (I := fun x : CacheState ZnPolicyChunk × EvictCall =>
    ∃ e q, x.2 = .running e ∧ Cornered g x.1 e q) ha
  · intro x hx
    obtain ⟨s, call⟩ := x
    obtain ⟨e, q, rfl, -⟩ := hx
    exact chunkEvict_running rfl
  · intro x x' hx hstep
    obtain ⟨s, call⟩ := x
    obtain ⟨e, q, rfl, hcornered⟩ := hx
    obtain ⟨s', e', hevict, rfl⟩ := chunkEvict_step_ok hstep
    obtain ⟨e'', q', rfl, hcornered'⟩ := hcornered.step hevict
    exact ⟨e'', q', rfl, hcornered'⟩
  · exact ⟨e, q, rfl, h⟩

end ZnCache
