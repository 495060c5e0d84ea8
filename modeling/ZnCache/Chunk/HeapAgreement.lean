/-
  ZnCache.Chunk.HeapAgreement — the collector's heap and the zone pool.

  A zone is put into the heap when its last chunk is reported, with the number
  of its chunks in use; evictions update that number there.  Three things break
  the agreement of heap and pool:

    * `g_new` leaves whatever it finds in `pqueue_entry`;
    * a chunk reported after the last one of its zone is counted by the pool,
      and not by the heap (`late_report`);
    * `zn_minheap_extract_min` takes the entry out, and `pqueue_entry` keeps
      pointing to it (`stale_entry`).

  A `ReportRun` carries the zones whose last chunk has been reported and that
  the collector has not picked since.  Main result: `heap_agrees_iff`.
-/
import ZnCache.Chunk.InStep
import ZnCache.MinHeap.Contract

namespace ZnCache

open Lib ZnMinheap

/-! ## §1. Runs with their reports. -/

/-- The policy, and the zones that are full as it has been told. -/
structure ReportRun where
  run : PolicyRun
  full : Nat → Bool

/-- What is known after a step that came to `r'`. -/
def reported (g : Geometry) (r : ReportRun) (r' : PolicyRun) : PolicyOp → Nat → Bool
  | .update location .write =>
    if location.chunkOffset = g.lastChunk then Function.update r.full location.zone true else r.full
  | .update _ .read => r.full
  | .evict _ _ =>
    match r.run.evicting, r'.evicting with
    | some (.gcLoop _), some (.gcScan old _) => Function.update r.full old false
    | _, _ => r.full

theorem reported_write (g : Geometry) (r : ReportRun) (r' : PolicyRun) (l : ZnPair) :
    reported g r r' (.update l .write)
      = if l.chunkOffset = g.lastChunk then Function.update r.full l.zone true else r.full := rfl

/-- One step of the policy, and of what is known. -/
def reportStep (mem : Nat → EvictionPolicyChunkZone) (g : Geometry) (r : ReportRun) (op : PolicyOp) :
    Stepped ReportRun :=
  (policyStep mem g r.run op).map fun x => x.map fun r' => ⟨r', reported g r r' op⟩

/-- The policy after `zn_evict_policy_init`. -/
def ReportRun.start (mem : Nat → EvictionPolicyChunkZone) (g : Geometry) : ReportRun :=
  ⟨⟨znPolicyChunkInit mem g, none⟩, fun _ => false⟩

/-- The runs from there. -/
def reportSystem (mem : Nat → EvictionPolicyChunkZone) (g : Geometry) :
    TransSys ReportRun PolicyOp where
  init r := r = ReportRun.start mem g
  step r op r' := reportStep mem g r op = some (.ok r')

namespace ReportRun

variable (r : ReportRun)

def heap : ZnMinheap := r.run.policy.invalidPqueue

def zone (z : Nat) : EvictionPolicyChunkZone := r.run.policy.zonePool z

end ReportRun

/-- **The heap agrees with the pool.** -/
structure HeapAgrees (g : Geometry) (r : ReportRun) : Prop where
  /-- A full zone has one entry, with its number of chunks in use. -/
  entry : ∀ z, z < g.nrZones → r.full z = true →
    ∃ i, i < r.heap.size ∧ (r.zone z).pqueueEntry = some (r.heap.arr i)
      ∧ (r.heap.entry (r.heap.arr i)).data = z
      ∧ (r.heap.entry (r.heap.arr i)).priority = (r.zone z).chunksInUse
      ∧ ∀ j, j < r.heap.size → (r.heap.entry (r.heap.arr j)).data = z → j = i
  /-- "Entry in pqueue, or NULL". -/
  null : ∀ z, z < g.nrZones → r.full z = false → (r.zone z).pqueueEntry = none

/-- The next step of the eviction takes an entry out of the heap. -/
def PolicyRun.Extracts (r : PolicyRun) : Prop :=
  match r.evicting with
  | some (.gcLoop freeZones) => freeZones < evictLowThreshZones
  | _ => False

instance (r : PolicyRun) : Decidable r.Extracts := by
  unfold PolicyRun.Extracts
  split <;> infer_instance

/-- No chunk of a full zone is reported, and no entry taken out. -/
def PolicyOp.Keeps (r : ReportRun) : PolicyOp → Prop
  | .update location .write => r.full location.zone = false
  | .update _ .read => True
  | .evict _ _ => ¬ r.run.Extracts

instance (r : ReportRun) : (op : PolicyOp) → Decidable (op.Keeps r)
  | .update location .write => inferInstanceAs (Decidable (r.full location.zone = false))
  | .update _ .read => isTrue trivial
  | .evict _ _ => inferInstanceAs (Decidable (¬ r.run.Extracts))

/-- **What one step with its report can do.** -/
theorem reportStep_cases {mem : Nat → EvictionPolicyChunkZone} {g : Geometry} {r r' : ReportRun}
    {op : PolicyOp} (h : reportStep mem g r op = some (.ok r')) :
    policyStep mem g r.run op = some (.ok r'.run) ∧ r'.full = reported g r r'.run op := by
  obtain ⟨r₁, hr₁, rfl⟩ := stepped_map_eq_ok h
  exact ⟨hr₁, rfl⟩

/-! ## §2. The invariant. -/

/-- Where an eviction is that has taken no entry out. -/
def ChunkEvict.BeforePick : ChunkEvict → Prop
  | .lock | .pop .. | .mark .. | .clear .. | .gc | .gcLoop _ | .unlock => True
  | .gcScan .. | .gcRead .. | .gcWrite .. | .gcInsert .. | .gcClear _ | .gcReset _ | .gcFree => False

/-- **What holds while reports come in order and nothing is taken out**: the
heap holds what the pool points to, and nothing else. -/
structure HeapInv (g : Geometry) (r : ReportRun) : Prop where
  books : ChunkBooks g r.run.policy
  queue : ∃ q, HeapBooks r.heap q ∧ ∀ e z pr, q e = some (z, pr)
    ↔ z < g.nrZones ∧ (r.zone z).pqueueEntry = some e ∧ (r.zone z).chunksInUse = pr
  full_iff : ∀ z, z < g.nrZones → (r.full z = true ↔ (r.zone z).pqueueEntry ≠ none)
  before : ∀ e ∈ r.run.evicting, e.BeforePick

namespace HeapInv

variable {g : Geometry} {r : ReportRun}

/-- The invariant says more than the agreement. -/
theorem agrees (h : HeapInv g r) : HeapAgrees g r where
  entry z hz hfull := by
    obtain ⟨q, hq, hiff⟩ := h.queue
    obtain ⟨e, he⟩ := Option.ne_none_iff_exists'.mp ((h.full_iff z hz).mp hfull)
    have hqe : q e = some (z, (r.zone z).chunksInUse) := (hiff e z _).mpr ⟨hz, he, rfl⟩
    obtain ⟨i, hi, rfl⟩ := (hq.has_iff e).mpr (by rw [hqe]; simp)
    obtain ⟨hdata, hpr⟩ := hq.holds _ _ _ hqe
    refine ⟨i, hi, he, hdata, hpr, ?_⟩
    intro j hj hjz
    obtain ⟨⟨z', pr⟩, hqj⟩ := Option.ne_none_iff_exists'.mp ((hq.has_iff (r.heap.arr j)).mp ⟨j, hj, rfl⟩)
    obtain rfl : z' = z := (hq.holds _ _ _ hqj).1.symm.trans hjz
    have hej := ((hiff _ _ _).mp hqj).2.1
    exact hq.slots.inj hj hi (Option.some.inj (hej.symm.trans he))
  null z hz hfull := by
    by_contra hne
    have hfull' := (h.full_iff z hz).mpr hne
    rw [hfull] at hfull'
    cases hfull'

/-- The heap has no more entries than there are zones in it. -/
theorem size_le (h : HeapInv g r) (zones : Finset Nat)
    (hin : ∀ z, z < g.nrZones → (r.zone z).pqueueEntry ≠ none → z ∈ zones) :
    r.heap.size ≤ zones.card := by
  obtain ⟨q, hq, hiff⟩ := h.queue
  have hat : ∀ i, i < r.heap.size → (r.heap.entry (r.heap.arr i)).data < g.nrZones
      ∧ (r.zone (r.heap.entry (r.heap.arr i)).data).pqueueEntry = some (r.heap.arr i) := by
    intro i hi
    obtain ⟨⟨z', pr⟩, hqi⟩ := Option.ne_none_iff_exists'.mp ((hq.has_iff (r.heap.arr i)).mp ⟨i, hi, rfl⟩)
    obtain ⟨hz', he, -⟩ := (hiff _ _ _).mp hqi
    rw [(hq.holds _ _ _ hqi).1]
    exact ⟨hz', he⟩
  -- two slots of one zone would hold the one entry that the zone knows
  have hcard : (Finset.range r.heap.size).card ≤ zones.card := by
    apply Finset.card_le_card_of_injOn fun i => (r.heap.entry (r.heap.arr i)).data
    · intro i hi
      obtain ⟨hlt, he⟩ := hat i (Finset.mem_range.mp hi)
      exact hin _ hlt (by rw [he]; simp)
    · intro i hi j hj hij
      have hei := (hat i (Finset.mem_range.mp hi)).2
      have hej := (hat j (Finset.mem_range.mp hj)).2
      dsimp only at hij
      rw [hij] at hei
      exact hq.slots.inj (Finset.mem_range.mp hi) (Finset.mem_range.mp hj)
        (Option.some.inj (hei.symm.trans hej))
  rwa [Finset.card_range] at hcard

/-- A zone that is not in the heap has room there. -/
theorem size_lt (h : HeapInv g r) {z : Nat} (hz : z < g.nrZones) (hnone : (r.zone z).pqueueEntry = none) :
    r.heap.size < g.nrZones := by
  have hle := h.size_le ((Finset.range g.nrZones).erase z) fun z' hz' hin => by
    apply Finset.mem_erase.mpr
    refine ⟨?_, Finset.mem_range.mpr hz'⟩
    intro heq
    rw [heq, hnone] at hin
    exact hin rfl
  rw [Finset.card_erase_of_mem (Finset.mem_range.mpr hz), Finset.card_range] at hle
  omega

variable {r' : ReportRun}

/-- A step that leaves the heap, and what the zones in it count. -/
theorem same_heap (h : HeapInv g r) (hbooks : ChunkBooks g r'.run.policy) (hheap : r'.heap = r.heap)
    (hentry : ∀ z, (r'.zone z).pqueueEntry = (r.zone z).pqueueEntry)
    (hcount : ∀ z, (r.zone z).pqueueEntry ≠ none → (r'.zone z).chunksInUse = (r.zone z).chunksInUse)
    (hfull : r'.full = r.full) (hbefore : ∀ e ∈ r'.run.evicting, e.BeforePick) : HeapInv g r' where
  books := hbooks
  queue := by
    obtain ⟨q, hq, hiff⟩ := h.queue
    refine ⟨q, hheap ▸ hq, ?_⟩
    intro e z pr
    rw [hiff, hentry z]
    apply and_congr_right
    intro _
    apply and_congr_right
    intro he
    rw [hcount z (by rw [he]; simp)]
  full_iff z hz := by
    rw [hfull, hentry z]
    exact h.full_iff z hz
  before := hbefore

/-- A chunk is reported, not the last one. -/
theorem write (h : HeapInv g r) (hmax : g.maxZoneChunks < 2 ^ 32) {l : ZnPair}
    (htable : r.run.policy.chunkToLruMap (l.zone, l.chunkOffset) ≠ none)
    (hfree : (r.run.policy.pair (l.zone, l.chunkOffset)).inUse = false) (hnot : r.full l.zone = false) :
    HeapInv g ⟨{ r.run with policy := r.run.policy.written l }, r.full⟩ := by
  have hz : l.zone < g.nrZones := ((h.books.table _).mp htable).1
  apply h.same_heap
  · exact h.books.write hmax htable hfree
  · rfl
  · intro z
    show (Function.update r.run.policy.zonePool l.zone _ z).pqueueEntry = _
    by_cases hzl : z = l.zone
    · rw [hzl, Function.update_self]
      rfl
    · rw [Function.update_of_ne hzl]
      rfl
  · intro z hin
    show (Function.update r.run.policy.zonePool l.zone _ z).chunksInUse = _
    have hzl : z ≠ l.zone := by
      intro heq
      rw [heq] at hin
      have hfull := (h.full_iff _ hz).mpr hin
      rw [hnot] at hfull
      cases hfull
    rw [Function.update_of_ne hzl]
    rfl
  · rfl
  · exact h.before

/-- The last chunk of a zone is reported. -/
theorem writeLast (h : HeapInv g r) (hzones : g.nrZones < 2 ^ 32) (hmax : g.maxZoneChunks < 2 ^ 32)
    {l : ZnPair} {entry : Nat} {heap : ZnMinheap}
    (htable : r.run.policy.chunkToLruMap (l.zone, l.chunkOffset) ≠ none)
    (hfree : (r.run.policy.pair (l.zone, l.chunkOffset)).inUse = false) (hnot : r.full l.zone = false)
    (hins : znMinheapInsert r.heap l.zone ((r.zone l.zone).written l).chunksInUse = .ok (entry, heap)) :
    HeapInv g ⟨{ r.run with policy := (r.run.policy.written l).filed l.zone entry heap },
      Function.update r.full l.zone true⟩ := by
  have hz : l.zone < g.nrZones := ((h.books.table _).mp htable).1
  have hnull := h.agrees.null _ hz hnot
  obtain ⟨q, hq, hiff⟩ := h.queue
  have hsize := h.size_lt hz hnull
  obtain ⟨rfl, hq', hnone⟩ := hq.insert_ok hins (by omega)
  -- what the pool has after the report
  have hpool : ((r.run.policy.written l).filed l.zone r.heap.next heap).zonePool
      = Function.update r.run.policy.zonePool l.zone (((r.zone l.zone).written l).filed r.heap.next) := by
    rw [ZnPolicyChunk.zonePool_filed, ZnPolicyChunk.zonePool_written, Function.update_self,
      Function.update_idem]
    rfl
  constructor
  · exact (h.books.write hmax htable hfree).file _ _ _
  · refine ⟨_, hq', ?_⟩
    intro e z pr
    unfold ReportRun.zone
    rw [hpool]
    by_cases hzl : z = l.zone
    · rw [hzl, Function.update_self]
      by_cases he : e = r.heap.next
      · rw [he, Function.update_self]
        simp [hz, EvictionPolicyChunkZone.filed]
        rfl
      · rw [Function.update_of_ne he, hiff, hnull]
        simp [Ne.symm he, EvictionPolicyChunkZone.filed]
    · rw [Function.update_of_ne hzl]
      by_cases he : e = r.heap.next
      · rw [he, Function.update_self]
        constructor
        · intro heq
          exact absurd (Prod.mk.inj (Option.some.inj heq)).1.symm hzl
        · intro hin
          rw [(hiff _ _ _).mpr hin] at hnone
          cases hnone
      · rw [Function.update_of_ne he]
        exact hiff e z pr
  · intro z hz'
    show Function.update r.full l.zone true z = true ↔ _
    unfold ReportRun.zone
    rw [hpool]
    by_cases hzl : z = l.zone
    · rw [hzl, Function.update_self, Function.update_self]
      simp [EvictionPolicyChunkZone.filed]
    · rw [Function.update_of_ne hzl, Function.update_of_ne hzl]
      exact h.full_iff z hz'
  · exact h.before

/-- A chunk is evicted, and its zone's entry told. -/
theorem pop (h : HeapInv g r) (hmax : g.maxZoneChunks < 2 ^ 32) {ch : Nat × Nat}
    {rest : List (Nat × Nat)} (hlru : r.run.policy.lru = ch :: rest) {e' : Option ChunkEvict}
    (he' : ∀ e ∈ e', e.BeforePick) :
    HeapInv g ⟨⟨r.run.policy.popped ch (znMinheapUpdateByEntry r.heap (r.zone ch.1).pqueueEntry
      ((r.zone ch.1).vacated ch.2).chunksInUse).2, e'⟩, r.full⟩ := by
  have huse := h.books.head_used hlru
  have hin := h.books.inPool huse
  obtain ⟨hone, -⟩ := h.books.vacated_add_one hmax huse
  obtain ⟨q, hq, hiff⟩ := h.queue
  have hpop : ∀ heap, ChunkBooks g (r.run.policy.popped ch heap) := h.books.pop hmax hlru
  cases hentry : (r.zone ch.1).pqueueEntry with
  | none =>
    -- the zone is not full, and nobody is told
    apply h.same_heap
    · exact hpop _
    · rfl
    · intro z
      unfold ReportRun.zone
      rw [ZnPolicyChunk.zonePool_popped]
      by_cases hz : z = ch.1
      · rw [hz, Function.update_self]
        rfl
      · rw [Function.update_of_ne hz]
    · intro z hin'
      have hz : z ≠ ch.1 := by
        intro heq
        rw [heq, hentry] at hin'
        exact hin' rfl
      unfold ReportRun.zone
      rw [ZnPolicyChunk.zonePool_popped, Function.update_of_ne hz]
    · rfl
    · exact he'
  | some e =>
    -- the zone is full: its entry goes down by the chunk that is evicted
    have hqe : q e = some (ch.1, (r.zone ch.1).chunksInUse) := (hiff e ch.1 _).mpr ⟨hin.1, hentry, rfl⟩
    obtain ⟨heap, hup, hq', -⟩ := hq.update hqe ((r.zone ch.1).vacated ch.2).chunksInUse fun hgt => by
      have hlt : (r.zone ch.1).chunksInUse < ((r.zone ch.1).vacated ch.2).chunksInUse := hgt
      unfold ReportRun.zone at hlt
      omega
    rw [hup]
    constructor
    · exact hpop _
    · refine ⟨_, hq', ?_⟩
      intro e₁ z pr
      unfold ReportRun.zone
      rw [ZnPolicyChunk.zonePool_popped]
      by_cases hz : z = ch.1
      · rw [hz, Function.update_self]
        have hkeep : ((r.run.policy.zonePool ch.1).vacated ch.2).pqueueEntry = some e := hentry
        rw [hkeep]
        by_cases he : e₁ = e
        · rw [he, Function.update_self]
          simp [hin.1]
        · rw [Function.update_of_ne he, hiff, hentry]
          simp [Ne.symm he]
      · rw [Function.update_of_ne hz]
        by_cases he : e₁ = e
        · rw [he, Function.update_self]
          constructor
          · intro heq
            exact absurd (Prod.mk.inj (Option.some.inj heq)).1.symm hz
          · intro hin'
            rw [(hiff _ _ _).mpr hin'] at hqe
            exact absurd (Prod.mk.inj (Option.some.inj hqe)).1 hz
        · rw [Function.update_of_ne he]
          exact hiff e₁ z pr
    · intro z hz'
      unfold ReportRun.zone
      rw [ZnPolicyChunk.zonePool_popped]
      by_cases hz : z = ch.1
      · rw [hz, Function.update_self]
        exact h.full_iff ch.1 hin.1
      · rw [Function.update_of_ne hz]
        exact h.full_iff z hz'
    · exact he'

/-- A step of an eviction that takes nothing out. -/
theorem evict (h : HeapInv g r) (hmax : g.maxZoneChunks < 2 ^ 32)
    {mem : Nat → EvictionPolicyChunkZone} {a : Answers} {rest : CacheState ZnPolicyChunk}
    {run' : PolicyRun} (hop : ¬ r.run.Extracts)
    (hs : policyStep mem g r.run (.evict a rest) = some (.ok run')) : HeapInv g ⟨run', r.full⟩ := by
  obtain ⟨⟨s', e'⟩, hstep, rfl⟩ := stepped_map_eq_ok hs
  have hbefore : (r.run.evicting.getD .lock).BeforePick := by
    cases he : r.run.evicting with
    | none => trivial
    | some e => exact h.before e he
  -- nothing but the lock and the place in the eviction changes
  have hquiet : ∀ (p : ZnPolicyChunk) (e' : Option ChunkEvict), ChunkBooks g p →
      p.invalidPqueue = r.heap → p.zonePool = r.run.policy.zonePool → (∀ e ∈ e', e.BeforePick) →
      HeapInv g ⟨⟨p, e'⟩, r.full⟩ := by
    intro p e' hbooks hheap hpool hnext
    apply h.same_heap
    · exact hbooks
    · exact hheap
    · intro z
      unfold ReportRun.zone
      rw [hpool]
    · intro z _
      unfold ReportRun.zone
      rw [hpool]
    · rfl
    · exact hnext
  have hsome : ∀ {e : ChunkEvict}, e.BeforePick → ∀ e₁ ∈ some e, e₁.BeforePick := by
    intro e he e₁ he₁
    cases he₁
    exact he
  have hlocked : ∀ b, ChunkBooks g { r.run.policy with locked := b } := fun _ =>
    h.books.congr rfl rfl (fun _ => rfl) (fun _ => rfl) rfl
  change chunkEvictStep g a _ (r.run.evicting.getD .lock) = _ at hstep
  have hcase := chunkEvictStep_cases hstep
  generalize hat : r.run.evicting.getD .lock = e at hcase hbefore hstep
  cases hcase with
  | refuse => exact hquiet _ _ h.books rfl rfl fun e he => by cases he
  | enter => exact hquiet _ _ (hlocked true) rfl rfl (hsome trivial)
  | pop _ hpop =>
    obtain ⟨ch, rest', hlru, -, hp⟩ := popChunk_ok h.books hpop
    rw [hp]
    exact h.pop hmax hlru (hsome trivial)
  | popped | mark | clear | gcSkip | gcStart | gcDone =>
    exact hquiet _ _ h.books rfl rfl (hsome trivial)
  | @gcPick freeZones =>
    -- the threshold was met, so the step takes an entry out
    rcases gcLoop_cases hstep with hpick | hdone
    · have hloop : r.run.evicting = some (.gcLoop freeZones) := by
        cases he : r.run.evicting with
        | none => rw [he] at hat; cases hat
        | some e => rw [he] at hat; exact congrArg some hat
      apply absurd _ hop
      unfold PolicyRun.Extracts
      rw [hloop]
      exact hpick.1
    · cases hdone.2.2
  | gcSkipChunk | gcAcquire | gcScanned | gcRead | gcWrite | gcInsert | gcClear | gcReset | gcFree =>
    exact absurd hbefore id
  | unlock => exact hquiet _ _ (hlocked false) rfl rfl fun e he => by cases he

/-- **Step lemma.** -/
theorem step (h : HeapInv g r) (hzones : g.nrZones < 2 ^ 32) (hmax : g.maxZoneChunks < 2 ^ 32)
    {mem : Nat → EvictionPolicyChunkZone} {op : PolicyOp} (hop : op.Keeps r)
    (hs : reportStep mem g r op = some (.ok r')) : HeapInv g r' := by
  obtain ⟨hs, hfull⟩ := reportStep_cases hs
  obtain ⟨run', full'⟩ := r'
  change full' = reported g r run' op at hfull
  subst hfull
  cases op with
  | update l io =>
    have hcases := policyStep_cases hs
    cases hcases with
    | @update l io p hcase =>
      cases hcase with
      | write htable hfree hlast =>
        rw [reported_write, if_neg hlast]
        exact h.write hmax htable hfree hop
      | writeLast htable hfree hlast hins =>
        rw [reported_write, if_pos hlast]
        exact h.writeLast hzones hmax htable hfree hop hins
      | absent => exact h
      | touch htable hdata =>
        apply h.same_heap
        · exact h.books.touch htable hdata
        · rfl
        · exact fun _ => rfl
        · exact fun _ _ => rfl
        · rfl
        · exact h.before
  | evict a rest =>
    have hkeep := h.evict hmax hop hs
    have hsame : reported g r run' (.evict a rest) = r.full := by
      unfold reported
      dsimp only
      split
      · rename_i f old i hev hev'
        have hbefore := hkeep.before _ hev'
        exact absurd hbefore id
      · rfl
    rw [hsame]
    exact hkeep

theorem init {mem : Nat → EvictionPolicyChunkZone}
    (hmem : ∀ z, z < g.nrZones → (mem z).pqueueEntry = none) : HeapInv g (ReportRun.start mem g) where
  books := ChunkBooks.init mem g
  queue := by
    refine ⟨fun _ => none, HeapBooks.init _, ?_⟩
    intro e z pr
    constructor
    · intro h
      cases h
    · intro h
      have hnone : ((ReportRun.start mem g).zone z).pqueueEntry = none := hmem z h.1
      rw [hnone] at h
      cases h.2.1
  full_iff z hz := by
    have hnone : ((ReportRun.start mem g).zone z).pqueueEntry = none := hmem z hz
    rw [hnone]
    constructor
    · intro h
      cases h
    · intro h
      exact absurd rfl h
  before e he := by cases he

/-- **Run lemma.** -/
theorem reach (hzones : g.nrZones < 2 ^ 32) (hmax : g.maxZoneChunks < 2 ^ 32)
    {mem : Nat → EvictionPolicyChunkZone} (hmem : ∀ z, z < g.nrZones → (mem z).pqueueEntry = none)
    (hr : (reportSystem mem g).Reach (fun r op => op.Keeps r) r) : HeapInv g r := by
  apply TransSys.Reach.invariant (I := HeapInv g) _ _ hr
  · intro r hr
    obtain rfl : r = ReportRun.start mem g := hr
    exact init hmem
  · intro r op r' _ h hop hs
    exact h.step hzones hmax hop hs

/-! ## §3. The steps that break it. -/

/-- The counter of a zone is a `uint32_t`, and so it never stays when it goes up. -/
theorem late_breaks (h : HeapInv g r) {l : ZnPair}
    (htable : r.run.policy.chunkToLruMap (l.zone, l.chunkOffset) ≠ none)
    (hnot : r.full l.zone = true) :
    ¬ HeapAgrees g ⟨{ r.run with policy := r.run.policy.written l }, r.full⟩ := by
  intro hagrees
  have hz : l.zone < g.nrZones := ((h.books.table _).mp htable).1
  obtain ⟨i, hi, he, -, hpr, -⟩ := h.agrees.entry _ hz hnot
  obtain ⟨i', hi', he', -, hpr', -⟩ := hagrees.entry _ hz hnot
  have hself : ((r.run.policy.written l).zonePool l.zone) = (r.zone l.zone).written l :=
    Function.update_self ..
  unfold ReportRun.zone at he' hpr'
  dsimp only at he' hpr'
  rw [hself] at he' hpr'
  have hsame : r.heap.arr i' = r.heap.arr i := Option.some.inj (he'.symm.trans he)
  have hpr₁ : (r.heap.entry (r.heap.arr i')).priority = ((r.zone l.zone).chunksInUse + 1) % 2 ^ 32 :=
    hpr'
  rw [hsame, hpr] at hpr₁
  omega

/-- A last chunk that is reported again has two entries. -/
theorem again_breaks (h : HeapInv g r) (hzones : g.nrZones < 2 ^ 32) {l : ZnPair} {entry : Nat}
    {heap : ZnMinheap} (htable : r.run.policy.chunkToLruMap (l.zone, l.chunkOffset) ≠ none)
    (hnot : r.full l.zone = true)
    (hins : znMinheapInsert r.heap l.zone ((r.zone l.zone).written l).chunksInUse = .ok (entry, heap)) :
    ¬ HeapAgrees g ⟨{ r.run with policy := (r.run.policy.written l).filed l.zone entry heap },
      Function.update r.full l.zone true⟩ := by
  intro hagrees
  have hz : l.zone < g.nrZones := ((h.books.table _).mp htable).1
  obtain ⟨i, hi, he, -, -, hone⟩ := hagrees.entry _ hz (Function.update_self ..)
  obtain ⟨q, hq, hiff⟩ := h.queue
  obtain ⟨e, he₀⟩ := Option.ne_none_iff_exists'.mp ((h.full_iff _ hz).mp hnot)
  have hqe := (hiff e l.zone _).mpr ⟨hz, he₀, rfl⟩
  have hi' : i < heap.size := hi
  have hsize : r.heap.size ≤ g.nrZones := by
    have hle := h.size_le (Finset.range g.nrZones) fun z hz _ => Finset.mem_range.mpr hz
    rwa [Finset.card_range] at hle
  by_cases hlt : r.heap.size + 1 < 2 ^ 32
  · obtain ⟨rfl, hq', hnone⟩ := hq.insert_ok hins hlt
    have hne : e ≠ r.heap.next := by
      intro heq
      rw [heq, hnone] at hqe
      cases hqe
    have hqe' : Function.update q r.heap.next
        (some (l.zone, ((r.zone l.zone).written l).chunksInUse)) e = some (l.zone, _) :=
      (Function.update_of_ne hne ..).trans hqe
    obtain ⟨j, hj, hje⟩ := (hq'.has_iff e).mpr (by rw [hqe']; simp)
    have hdata : (heap.entry (heap.arr j)).data = l.zone := hje ▸ (hq'.holds _ _ _ hqe').1
    obtain rfl := hone j hj hdata
    have hnew : (((r.run.policy.written l).filed l.zone r.heap.next heap).zonePool l.zone).pqueueEntry
        = some r.heap.next := by
      rw [ZnPolicyChunk.zonePool_filed, Function.update_self]
      rfl
    have hat : heap.arr j = r.heap.next := Option.some.inj (he.symm.trans hnew)
    exact hne (hje.symm.trans hat)
  · -- the size wraps to zero, and the heap is empty
    have hsize' := insert_size hins
    have hwrap : (r.heap.size + 1) % 2 ^ 32 = 0 := by omega
    omega

/-- What is taken out is the entry of a full zone with the fewest chunks in
use. -/
theorem picks (h : HeapInv g r) {ent : Nat} {heap : ZnMinheap}
    (hout : znMinheapExtractMin r.heap = (some ent, heap)) :
    ∃ z, (heap.entry ent).data = z ∧ z < g.nrZones ∧ (r.zone z).pqueueEntry = some ent
      ∧ ∀ z', z' < g.nrZones → (r.zone z').pqueueEntry ≠ none →
          (r.zone z).chunksInUse ≤ (r.zone z').chunksInUse := by
  obtain ⟨q, hq, hiff⟩ := h.queue
  obtain ⟨h0, rfl, hdata⟩ := extract_ok hout
  obtain ⟨z, pr, hroot, hmin⟩ := hq.root h0
  obtain ⟨hz, hptr, rfl⟩ := (hiff _ _ _).mp hroot
  refine ⟨z, (hdata _).trans (hq.holds _ _ _ hroot).1, hz, hptr, ?_⟩
  intro z' hz' hin
  obtain ⟨e, he⟩ := Option.ne_none_iff_exists'.mp hin
  exact hmin e z' _ ((hiff e z' _).mpr ⟨hz', he, rfl⟩)

/-- An entry that is taken out is still pointed to. -/
theorem extract_breaks (h : HeapInv g r) {ent : Nat} {heap : ZnMinheap} {i : Nat}
    (hout : znMinheapExtractMin r.heap = (some ent, heap)) :
    ¬ HeapAgrees g ⟨⟨{ r.run.policy with invalidPqueue := heap },
        some (.gcScan (heap.entry ent).data i)⟩,
      Function.update r.full (heap.entry ent).data false⟩ := by
  intro hagrees
  obtain ⟨z, rfl, hz, hptr, -⟩ := h.picks hout
  have hnull := hagrees.null _ hz (Function.update_self ..)
  have hstale : (r.zone (heap.entry ent).data).pqueueEntry = none := hnull
  rw [hptr] at hstale
  cases hstale

/-- **A step keeps the agreement only if it keeps the rules.** -/
theorem keeps_of_agrees (h : HeapInv g r) (hzones : g.nrZones < 2 ^ 32)
    {mem : Nat → EvictionPolicyChunkZone} {op : PolicyOp}
    (hs : reportStep mem g r op = some (.ok r')) (hagrees : HeapAgrees g r') : op.Keeps r := by
  obtain ⟨hs, hfull⟩ := reportStep_cases hs
  obtain ⟨run', full'⟩ := r'
  change full' = reported g r run' op at hfull
  subst hfull
  cases op with
  | update l io =>
    have hcases := policyStep_cases hs
    cases hcases with
    | @update l io p hcase =>
      cases hcase with
      | write htable hfree hlast =>
        rw [reported_write, if_neg hlast] at hagrees
        show r.full l.zone = false
        rw [← Bool.not_eq_true]
        exact fun hin => h.late_breaks htable hin hagrees
      | writeLast htable hfree hlast hins =>
        rw [reported_write, if_pos hlast] at hagrees
        show r.full l.zone = false
        rw [← Bool.not_eq_true]
        exact fun hin => h.again_breaks hzones htable hin hins hagrees
      | absent | touch => trivial
  | evict a rest =>
    intro hout
    unfold PolicyRun.Extracts at hout
    split at hout
    · rename_i freeZones hloop
      obtain ⟨⟨s', e'⟩, hstep, rfl⟩ := stepped_map_eq_ok hs
      change chunkEvictStep g a _ (r.run.evicting.getD .lock) = _ at hstep
      rw [hloop] at hstep
      rcases gcLoop_cases hstep with hpick | hdone
      · obtain ⟨-, ent, heap, hent, rfl, rfl⟩ := hpick
        apply h.extract_breaks hent
        unfold reported at hagrees
        rw [hloop] at hagrees
        exact hagrees
      · exact absurd hout hdone.1
    · exact hout

end HeapInv

/-- **THE HEAP-AGREEMENT THEOREM.**  Heap and pool agree from the start exactly
on cleared memory.  From there, in every run that reports no chunk of a full
zone and takes no entry out: they agree, entries that are told of a change are
in the heap, and what would be taken out is a full zone with the fewest chunks
in use; and every next step keeps the agreement exactly when it keeps the
rules. -/
theorem heap_agrees_iff {g : Geometry} {mem : Nat → EvictionPolicyChunkZone}
    (hzones : g.nrZones < 2 ^ 32) (hmax : g.maxZoneChunks < 2 ^ 32) :
    (HeapAgrees g (ReportRun.start mem g) ↔ ∀ z, z < g.nrZones → (mem z).pqueueEntry = none)
    ∧ ((∀ z, z < g.nrZones → (mem z).pqueueEntry = none) →
      ∀ r, (reportSystem mem g).Reach (fun r op => op.Keeps r) r →
        HeapAgrees g r
        ∧ (∀ z e, z < g.nrZones → (r.zone z).pqueueEntry = some e → r.heap.Has e)
        ∧ (∀ ent heap, znMinheapExtractMin r.heap = (some ent, heap) →
            r.full (heap.entry ent).data = true
            ∧ ∀ z, z < g.nrZones → r.full z = true →
                (r.zone (heap.entry ent).data).chunksInUse ≤ (r.zone z).chunksInUse)
        ∧ ∀ op r', reportStep mem g r op = some (.ok r') → (HeapAgrees g r' ↔ op.Keeps r)) := by
  constructor
  · constructor
    · exact fun h z hz => h.null z hz rfl
    · exact fun hmem => (HeapInv.init hmem).agrees
  · intro hmem r hr
    have h := HeapInv.reach hzones hmax hmem hr
    refine ⟨h.agrees, ?_, ?_, ?_⟩
    · intro z e hz he
      obtain ⟨q, hq, hiff⟩ := h.queue
      exact (hq.has_iff e).mpr (by rw [(hiff e z _).mpr ⟨hz, he, rfl⟩]; simp)
    · intro ent heap hout
      obtain ⟨z, rfl, hz, hptr, hmin⟩ := h.picks hout
      have hin : (r.zone (heap.entry ent).data).pqueueEntry ≠ none := by
        rw [hptr]
        simp
      exact ⟨(h.full_iff _ hz).mpr hin, fun z' hz' hfull => hmin z' hz' ((h.full_iff z' hz').mp hfull)⟩
    · intro op r' hs
      exact ⟨h.keeps_of_agrees hzones hs, fun hop => (h.step hzones hmax hop hs).agrees⟩

/-! ## §4. Runs. -/

/-- Replay a step that meets `C`. -/
def reportReplay (mem : Nat → EvictionPolicyChunkZone) (g : Geometry)
    (C : ReportRun → PolicyOp → Prop) [∀ r op, Decidable (C r op)] (r : ReportRun) (op : PolicyOp) :
    Option ReportRun :=
  if C r op then (reportStep mem g r op).bind Except.toOption else none

theorem reportReplay_sound {mem : Nat → EvictionPolicyChunkZone} {g : Geometry}
    {C : ReportRun → PolicyOp → Prop} [∀ r op, Decidable (C r op)] (r : ReportRun) (op : PolicyOp)
    (r' : ReportRun) (h : reportReplay mem g C r op = some r') :
    C r op ∧ (reportSystem mem g).step r op r' := by
  unfold reportReplay at h
  split at h
  · exact ⟨‹_›, bind_toOption_eq_some h⟩
  · cases h

/-- One zone of two chunks. -/
abbrev twoChunks : Geometry := ⟨1, 1, 4096, 8192, 8192, .block⟩

/-- Chunk `c` of zone `z`, as it comes from `zsm_get_active_zone`. -/
abbrev locationAt (z c : Nat) : ZnPair := ⟨z, c, 0, false⟩

/-- The chunks are reported in order. -/
theorem heap_agrees_iff_in_order :
    ∃ r : ReportRun, r.full 0 = true ∧ (r.zone 0).chunksInUse = 2 ∧ HeapAgrees twoChunks r := by
  obtain ⟨r, hr, hp⟩ := TransSys.Reach.exists_of_exec
    (f := reportReplay clearedPool twoChunks fun r op => op.Keeps r)
    (C := fun r op => op.Keeps r) reportReplay_sound rfl
    (fun r => r.full 0 = true ∧ (r.zone 0).chunksInUse = 2)
    [.update (locationAt 0 0) .write, .update (locationAt 0 1) .write] (by decide)
  obtain ⟨hfull, hcount⟩ := of_decide_eq_true hp
  have h := (heap_agrees_iff (by decide) (by decide)).2 (fun _ _ => rfl) r hr
  exact ⟨r, hfull, hcount, h.1⟩

/-- Twelve zones of one chunk. -/
abbrev twelveZones : Geometry := ⟨12, 12, 4096, 4096, 4096, .block⟩

/-- The rest of a cache with no free zones and with id `z + 1` in each zone `z`. -/
def fullCache : CacheState ZnPolicyChunk :=
  { initCache (chunk clearedPool) ⟨0, 0, 4096, 4096, 4096, .block⟩ fun _ => 0 with
    cacheMap := { znCachemapInit 12 with
      zoneMap := fun k => some (.loc (locationAt (k - 1) 0))
      dataMap := fun z => (∅ : AList fun _ : Nat => Nat).insert 0 (z + 1) } }

/-- Six zones are reported, all six are evicted, and the collector picks one. -/
def pickEvicted : List PolicyOp :=
  (List.range 6).map (fun z => .update (locationAt z 0) .write)
    ++ List.replicate 22 (.evict ⟨0, [], 0⟩ fullCache)

/-- **A late report**, and **a stale entry**: the heap counts one chunk of a
zone that has two, and a zone that has been taken out still points to its
entry. -/
theorem late_report_and_stale_entry :
    (∃ r, (reportSystem clearedPool twoChunks).Reach TransSys.Any r ∧ r.full 0 = true
      ∧ (r.zone 0).pqueueEntry = some 0 ∧ (r.heap.entry 0).priority = 1
      ∧ (r.zone 0).chunksInUse = 2 ∧ ¬ HeapAgrees twoChunks r)
    ∧ ∃ r, (reportSystem clearedPool twelveZones).Reach TransSys.Any r ∧ r.full 0 = false
      ∧ (r.zone 0).pqueueEntry = some 0 ∧ ¬ HeapAgrees twelveZones r := by
  constructor
  · obtain ⟨r, hr, hp⟩ := TransSys.Reach.exists_of_exec
      (T := reportSystem clearedPool twoChunks) (C := TransSys.Any)
      (f := reportReplay clearedPool twoChunks TransSys.Any) reportReplay_sound rfl
      (fun r => r.full 0 = true ∧ (r.zone 0).pqueueEntry = some 0 ∧ (r.heap.entry 0).priority = 1
        ∧ (r.zone 0).chunksInUse = 2)
      [.update (locationAt 0 1) .write, .update (locationAt 0 0) .write] (by decide)
    obtain ⟨hfull, hptr, hpr, hcount⟩ := of_decide_eq_true hp
    refine ⟨r, hr, hfull, hptr, hpr, hcount, ?_⟩
    intro hagrees
    obtain ⟨i, -, hi, -, hpr', -⟩ := hagrees.entry 0 (by decide) hfull
    have hat : 0 = r.heap.arr i := Option.some.inj (hptr.symm.trans hi)
    rw [← hat] at hpr'
    omega
  · obtain ⟨r, hr, hp⟩ := TransSys.Reach.exists_of_exec
      (T := reportSystem clearedPool twelveZones) (C := TransSys.Any)
      (f := reportReplay clearedPool twelveZones TransSys.Any) reportReplay_sound rfl
      (fun r => r.full 0 = false ∧ (r.zone 0).pqueueEntry = some 0) pickEvicted (by decide +kernel)
    obtain ⟨hfull, hptr⟩ := of_decide_eq_true hp
    refine ⟨r, hr, hfull, hptr, ?_⟩
    intro hagrees
    have hnull := hagrees.null 0 (by decide) hfull
    rw [hptr] at hnull
    cases hnull

end ZnCache
