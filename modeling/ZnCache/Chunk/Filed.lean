/-
  ZnCache.Chunk.Filed — the zones that the collector can pick.

  A zone is filed in the heap when its last chunk is reported, and picked from
  it by the collector.  `pqueue_entry` goes on pointing to the entry that was
  picked, and an eviction goes on updating it; the heap does not mind, for the
  position that such an entry remembers is another one's, and in order.

  What does matter is a chunk that is reported after its zone was filed: the
  pool counts it, and the heap does not.  While that does not happen, `Filed`
  holds: each filed zone has one entry, with its number of chunks in use.

  A zone is filed, or with the thread that is about to file it, or with the one
  that collects it, and it is full all the while.  These are the tokens of
  `Lib.Tokens` (`FiledSys`).
-/
import ZnCache.Chunk.Rounds
import ZnCache.Chunk.Unpublished
import ZnCache.Cache.Zones
import ZnCache.Lib.Tokens

namespace ZnCache

open Lib ZnMinheap

universe u

/-! ## §1. The books of the heap. -/

/-- The zones that have an entry in the heap, in the order of the array. -/
def ZnPolicyChunk.filedZones (p : ZnPolicyChunk) : List Nat :=
  (List.range p.invalidPqueue.size).map fun i =>
    (p.invalidPqueue.entry (p.invalidPqueue.arr i)).data

/-- **Heap and pool agree**, with `q` for the books of the heap. -/
structure Filed (g : Geometry) (p : ZnPolicyChunk) (q : PQueue) : Prop where
  heap : HeapBooks p.invalidPqueue q
  /-- An entry is about a zone that refers to it, and has its number of chunks
  in use. -/
  booked : ∀ e z pr, q e = some (z, pr) →
    z < g.nrZones ∧ (p.zonePool z).pqueueEntry = some e ∧ (p.zonePool z).chunksInUse = pr
  /-- What a zone refers to was handed out, and is no other zone's. -/
  known : ∀ z, z < g.nrZones → ∀ e ∈ (p.zonePool z).pqueueEntry,
    e < p.invalidPqueue.next ∧ ∀ z' pr, q e = some (z', pr) → z' = z

namespace Filed

variable {g : Geometry} {p p' : ZnPolicyChunk} {q q' : PQueue}

theorem init {mem : Nat → EvictionPolicyChunkZone}
    (hmem : ∀ z, z < g.nrZones → (mem z).pqueueEntry = none) :
    Filed g (znPolicyChunkInit mem g) fun _ => none where
  heap := HeapBooks.init _
  booked e z pr h := by cases h
  known z hz e he := by
    have hnone : ((znPolicyChunkInit mem g).zonePool z).pqueueEntry = none := hmem z hz
    rw [hnone] at he
    cases he

theorem given (h : Filed g p q) : p.EntriesGiven g := fun z hz e he => (h.known z hz e he).1

/-- The filed zones are those of the books. -/
theorem mem_iff (h : Filed g p q) {z : Nat} : z ∈ p.filedZones ↔ ∃ e pr, q e = some (z, pr) := by
  unfold ZnPolicyChunk.filedZones
  rw [List.mem_map]
  constructor
  · intro hex
    obtain ⟨i, hi, rfl⟩ := hex
    obtain ⟨⟨z, pr⟩, hq⟩ := Option.ne_none_iff_exists'.mp
      ((h.heap.has_iff _).mp ⟨i, List.mem_range.mp hi, rfl⟩)
    rw [(h.heap.holds _ _ _ hq).1]
    exact ⟨_, pr, hq⟩
  · intro hex
    obtain ⟨e, pr, hq⟩ := hex
    obtain ⟨i, hi, rfl⟩ := (h.heap.has_iff e).mpr (by rw [hq]; simp)
    exact ⟨i, List.mem_range.mpr hi, (h.heap.holds _ _ _ hq).1⟩

theorem mem_of (h : Filed g p q) {e z pr : Nat} (hq : q e = some (z, pr)) : z ∈ p.filedZones :=
  h.mem_iff.mpr ⟨e, pr, hq⟩

theorem lt (h : Filed g p q) {z : Nat} (hz : z ∈ p.filedZones) : z < g.nrZones := by
  obtain ⟨e, pr, hq⟩ := h.mem_iff.mp hz
  exact (h.booked e z pr hq).1

/-- A zone is filed once: its two entries would be the one that it refers to. -/
theorem nodup (h : Filed g p q) : p.filedZones.Nodup := by
  apply (List.nodup_map_iff_inj_on List.nodup_range).mpr
  intro i hi j hj hij
  have hat : ∀ k, k ∈ List.range p.invalidPqueue.size →
      (p.zonePool (p.invalidPqueue.entry (p.invalidPqueue.arr k)).data).pqueueEntry
        = some (p.invalidPqueue.arr k) := by
    intro k hk
    obtain ⟨⟨z, pr⟩, hq⟩ := Option.ne_none_iff_exists'.mp
      ((h.heap.has_iff _).mp ⟨k, List.mem_range.mp hk, rfl⟩)
    rw [(h.heap.holds _ _ _ hq).1]
    exact (h.booked _ _ _ hq).2.1
  have hi' := hat i hi
  rw [hij, hat j hj] at hi'
  exact h.heap.slots.inj (List.mem_range.mp hi) (List.mem_range.mp hj) (Option.some.inj hi').symm

theorem length_filedZones (p : ZnPolicyChunk) : p.filedZones.length = p.invalidPqueue.size := by
  unfold ZnPolicyChunk.filedZones
  rw [List.length_map, List.length_range]

/-- The heap has no more entries than there are zones to file. -/
theorem size_le (h : Filed g p q) (zones : Finset Nat) (hin : ∀ z ∈ p.filedZones, z ∈ zones) :
    p.invalidPqueue.size ≤ zones.card := by
  rw [← length_filedZones, ← List.toFinset_card_of_nodup h.nodup]
  apply Finset.card_le_card
  intro z hz
  exact hin z (List.mem_toFinset.mp hz)

theorem size_le_nrZones (h : Filed g p q) : p.invalidPqueue.size ≤ g.nrZones := by
  have hle := h.size_le (Finset.range g.nrZones) fun z hz => Finset.mem_range.mpr (h.lt hz)
  rwa [Finset.card_range] at hle

/-- A zone that is not filed has room in the heap. -/
theorem size_lt (h : Filed g p q) {z : Nat} (hz : z < g.nrZones) (hnot : z ∉ p.filedZones) :
    p.invalidPqueue.size < g.nrZones := by
  have hle := h.size_le ((Finset.range g.nrZones).erase z) fun z' hz' => by
    apply Finset.mem_erase.mpr
    exact ⟨fun heq => hnot (heq ▸ hz'), Finset.mem_range.mpr (h.lt hz')⟩
  rw [Finset.card_erase_of_mem (Finset.mem_range.mpr hz), Finset.card_range] at hle
  omega

/-- The same zones are filed, in whichever order. -/
theorem perm (h : Filed g p q) (h' : Filed g p' q')
    (hiff : ∀ z, (∃ e pr, q' e = some (z, pr)) ↔ ∃ e pr, q e = some (z, pr)) :
    p'.filedZones.Perm p.filedZones := by
  apply (List.perm_ext_iff_of_nodup h'.nodup h.nodup).mpr
  intro z
  rw [h.mem_iff, h'.mem_iff]
  exact hiff z

/-! ### What is done to the policy -/

/-- The books and what zones refer to stay, and what filed zones count. -/
theorem same_books (h : Filed g p q) (hheap : HeapBooks p'.invalidPqueue q)
    (hnext : p'.invalidPqueue.next = p.invalidPqueue.next)
    (hentry : ∀ z, (p'.zonePool z).pqueueEntry = (p.zonePool z).pqueueEntry)
    (hcount : ∀ e z pr, q e = some (z, pr) → (p'.zonePool z).chunksInUse = (p.zonePool z).chunksInUse) :
    Filed g p' q where
  heap := hheap
  booked e z pr hq := by
    rw [hentry z, hcount e z pr hq]
    exact h.booked e z pr hq
  known z hz e he := by
    rw [hnext]
    rw [hentry z] at he
    exact h.known z hz e he

/-- The heap stays, with the same zones in it. -/
theorem same_heap (h : Filed g p q) (hheap : p'.invalidPqueue = p.invalidPqueue)
    (hentry : ∀ z, (p'.zonePool z).pqueueEntry = (p.zonePool z).pqueueEntry)
    (hcount : ∀ z ∈ p.filedZones, (p'.zonePool z).chunksInUse = (p.zonePool z).chunksInUse) :
    Filed g p' q := by
  apply h.same_books
  · rw [hheap]
    exact h.heap
  · rw [hheap]
  · exact hentry
  · exact fun e z pr hq => hcount z (h.mem_of hq)

/-- To book another number for an entry books the same zones. -/
theorem exists_update_iff {e z pr : Nat} (hq : q e = some (z, pr)) (pr' z' : Nat) :
    (∃ e₁ pr₁, Function.update q e (some (z, pr')) e₁ = some (z', pr₁))
      ↔ ∃ e₁ pr₁, q e₁ = some (z', pr₁) := by
  constructor
  · intro hex
    obtain ⟨e₁, pr₁, hx⟩ := hex
    by_cases he : e₁ = e
    · rw [he, Function.update_self] at hx
      obtain ⟨rfl, -⟩ := Prod.mk.inj (Option.some.inj hx)
      exact ⟨e, pr, hq⟩
    · rw [Function.update_of_ne he] at hx
      exact ⟨e₁, pr₁, hx⟩
  · intro hex
    obtain ⟨e₁, pr₁, hx⟩ := hex
    by_cases he : e₁ = e
    · rw [he, hq] at hx
      obtain ⟨rfl, -⟩ := Prod.mk.inj (Option.some.inj hx)
      exact ⟨e, pr', Function.update_self ..⟩
    · exact ⟨e₁, pr₁, by rw [Function.update_of_ne he, hx]⟩

/-- **A booked zone counts anew**, in the heap and in the pool. -/
theorem recount (h : Filed g p q) {e z pr pr' : Nat} (hq : q e = some (z, pr))
    (hheap : HeapBooks p'.invalidPqueue (Function.update q e (some (z, pr'))))
    (hnext : p'.invalidPqueue.next = p.invalidPqueue.next)
    (hentry : ∀ z, (p'.zonePool z).pqueueEntry = (p.zonePool z).pqueueEntry)
    (hself : (p'.zonePool z).chunksInUse = pr')
    (hother : ∀ z', z' ≠ z → (p'.zonePool z').chunksInUse = (p.zonePool z').chunksInUse) :
    Filed g p' (Function.update q e (some (z, pr'))) := by
  obtain ⟨hz, hptr, -⟩ := h.booked e z pr hq
  -- each entry is about the zone that it was about
  have hsame : ∀ {e' z' pr₁}, Function.update q e (some (z, pr')) e' = some (z', pr₁) →
      (e' = e ∧ z' = z ∧ pr₁ = pr') ∨ (e' ≠ e ∧ q e' = some (z', pr₁)) := by
    intro e' z' pr₁ hx
    by_cases he : e' = e
    · rw [he, Function.update_self] at hx
      obtain ⟨rfl, rfl⟩ := Prod.mk.inj (Option.some.inj hx)
      exact Or.inl ⟨he, rfl, rfl⟩
    · rw [Function.update_of_ne he] at hx
      exact Or.inr ⟨he, hx⟩
  constructor
  · exact hheap
  · intro e' z' pr₁ hx
    rcases hsame hx with ⟨rfl, rfl, rfl⟩ | ⟨hne, hx'⟩
    · exact ⟨hz, (hentry _).trans hptr, hself⟩
    · obtain ⟨hlt, hptr', hcount⟩ := h.booked e' z' pr₁ hx'
      have hzz : z' ≠ z := by
        rintro rfl
        rw [hptr] at hptr'
        exact hne (Option.some.inj hptr').symm
      exact ⟨hlt, (hentry z').trans hptr', (hother z' hzz).trans hcount⟩
  · intro z' hz' e' he'
    rw [hentry z'] at he'
    obtain ⟨hlt, hown⟩ := h.known z' hz' e' he'
    rw [hnext]
    refine ⟨hlt, ?_⟩
    intro z'' pr₁ hx
    rcases hsame hx with ⟨rfl, rfl, -⟩ | ⟨-, hx'⟩
    · exact hown _ pr hq
    · exact hown z'' pr₁ hx'

/-- A zone that refers to no booked entry has none. -/
theorem not_booked (h : Filed g p q) {z : Nat} (hno : ∀ e ∈ (p.zonePool z).pqueueEntry, q e = none)
    (e pr : Nat) : q e ≠ some (z, pr) := by
  intro hq
  have hnone := hno e (h.booked e z pr hq).2.1
  rw [hq] at hnone
  cases hnone

/-- **A chunk is reported** of a zone that is not filed. -/
theorem write (h : Filed g p q) {l : ZnPair} (hnot : l.zone ∉ p.filedZones) :
    Filed g (p.written l) q := by
  apply h.same_heap
  · rfl
  · intro z
    rw [ZnPolicyChunk.zonePool_written]
    by_cases hz : z = l.zone
    · rw [hz, Function.update_self]
      rfl
    · rw [Function.update_of_ne hz]
  · intro z hin
    have hz : z ≠ l.zone := fun heq => hnot (heq ▸ hin)
    rw [ZnPolicyChunk.zonePool_written, Function.update_of_ne hz]

/-- **A zone is filed.** -/
theorem file (h : Filed g p q) (hzones : g.nrZones < 2 ^ 32) {z entry : Nat} {heap : ZnMinheap}
    (hz : z < g.nrZones) (hnot : z ∉ p.filedZones)
    (hins : znMinheapInsert p.invalidPqueue z (p.zonePool z).chunksInUse = .ok (entry, heap)) :
    ∃ q', Filed g (p.filed z entry heap) q' ∧ (p.filed z entry heap).filedZones.Perm (z :: p.filedZones) := by
  have hsize := h.size_lt hz hnot
  have hnext := insert_next hins
  obtain ⟨rfl, hbooks, hnone⟩ := h.heap.insert_ok hins (by omega)
  -- the entry is new, so no other zone refers to it
  have hfresh : ∀ z' pr, z' ≠ z → Function.update q p.invalidPqueue.next
      (some (z, (p.zonePool z).chunksInUse)) p.invalidPqueue.next ≠ some (z', pr) := by
    intro z' pr hne heq
    rw [Function.update_self] at heq
    exact hne (Prod.mk.inj (Option.some.inj heq)).1.symm
  have hpool : ∀ z', z' ≠ z → (p.filed z p.invalidPqueue.next heap).zonePool z' = p.zonePool z' := by
    intro z' hne
    rw [ZnPolicyChunk.zonePool_filed, Function.update_of_ne hne]
  have hself : (p.filed z p.invalidPqueue.next heap).zonePool z
      = (p.zonePool z).filed p.invalidPqueue.next := by
    rw [ZnPolicyChunk.zonePool_filed, Function.update_self]
  have hfiled : Filed g (p.filed z p.invalidPqueue.next heap)
      (Function.update q p.invalidPqueue.next (some (z, (p.zonePool z).chunksInUse))) := by
    constructor
    · exact hbooks
    · intro e z' pr hq
      by_cases he : e = p.invalidPqueue.next
      · rw [he, Function.update_self] at hq
        obtain ⟨rfl, rfl⟩ := Prod.mk.inj (Option.some.inj hq)
        rw [hself, he]
        exact ⟨hz, rfl, rfl⟩
      · rw [Function.update_of_ne he] at hq
        have hne : z' ≠ z := fun heq => hnot (heq ▸ h.mem_of hq)
        rw [hpool z' hne]
        exact h.booked e z' pr hq
    · intro z' hz' e he
      show e < heap.next ∧ _
      by_cases hne : z' = z
      · subst hne
        rw [hself] at he
        obtain rfl : p.invalidPqueue.next = e := Option.some.inj he
        refine ⟨by omega, ?_⟩
        intro z'' pr hq
        by_contra hdiff
        exact hfresh z'' pr hdiff hq
      · rw [hpool z' hne] at he
        obtain ⟨hlt, hown⟩ := h.known z' hz' e he
        refine ⟨by omega, ?_⟩
        intro z'' pr hq
        rw [Function.update_of_ne (Nat.ne_of_lt hlt)] at hq
        exact hown z'' pr hq
  refine ⟨_, hfiled, ?_⟩
  apply (List.perm_ext_iff_of_nodup hfiled.nodup (List.nodup_cons.mpr ⟨hnot, h.nodup⟩)).mpr
  intro z'
  rw [hfiled.mem_iff, List.mem_cons, h.mem_iff]
  constructor
  · intro hex
    obtain ⟨e, pr, hq⟩ := hex
    by_cases he : e = p.invalidPqueue.next
    · rw [he, Function.update_self] at hq
      exact Or.inl (Prod.mk.inj (Option.some.inj hq)).1.symm
    · rw [Function.update_of_ne he] at hq
      exact Or.inr ⟨e, pr, hq⟩
  · intro hor
    rcases hor with rfl | ⟨e, pr, hq⟩
    · exact ⟨_, _, Function.update_self ..⟩
    · have he : e ≠ p.invalidPqueue.next := by
        rintro rfl
        rw [hnone] at hq
        cases hq
      exact ⟨e, pr, by rw [Function.update_of_ne he, hq]⟩

/-- **A chunk is evicted**: its zone's entry is told if it is in the heap, and
if it is not, nobody is. -/
theorem evictHead (h : Filed g p q) (hb : ChunkBooks g p) (hzones : g.nrZones < 2 ^ 31)
    {ch : Nat × Nat} {rest : List (Nat × Nat)} (hlru : p.lru = ch :: rest) :
    ∃ q', Filed g (p.evictHead ch) q' ∧ (p.evictHead ch).filedZones.Perm p.filedZones := by
  have hin := hb.inPool (hb.head_used hlru)
  have hsmall : p.invalidPqueue.size < 2 ^ 31 := Nat.lt_of_le_of_lt h.size_le_nrZones hzones
  have hentry := fun z => (p.zonePool_evictHead ch z).2
  have hnext : (p.evictHead ch).invalidPqueue.next = p.invalidPqueue.next := update_next ..
  have hother : ∀ z, z ≠ ch.1 → ((p.evictHead ch).zonePool z).chunksInUse
      = (p.zonePool z).chunksInUse := by
    intro z hz
    show ((p.popped ch _).zonePool z).chunksInUse = _
    rw [ZnPolicyChunk.zonePool_popped, Function.update_of_ne hz]
  have hself : (p.evictHead ch).zonePool ch.1 = (p.zonePool ch.1).vacated ch.2 := by
    show (p.popped ch _).zonePool ch.1 = _
    rw [ZnPolicyChunk.zonePool_popped, Function.update_self]
  -- a zone without an entry leaves the books
  have hunbooked : (∀ e pr, q e ≠ some (ch.1, pr)) → HeapBooks (p.evictHead ch).invalidPqueue q →
      ∃ q', Filed g (p.evictHead ch) q' ∧ (p.evictHead ch).filedZones.Perm p.filedZones := by
    intro hno hheap
    have hfiled : Filed g (p.evictHead ch) q :=
      h.same_books hheap hnext hentry fun e z pr hq => hother z fun heq => hno e pr (heq ▸ hq)
    exact ⟨q, hfiled, h.perm hfiled fun _ => Iff.rfl⟩
  cases hptr : (p.zonePool ch.1).pqueueEntry with
  | none =>
    have hheap : (p.evictHead ch).invalidPqueue = p.invalidPqueue := by
      show (znMinheapUpdateByEntry _ (p.zonePool ch.1).pqueueEntry _).2 = _
      rw [hptr]
      rfl
    refine hunbooked (h.not_booked ?_) (hheap ▸ h.heap)
    intro e he
    rw [hptr] at he
    cases he
  | some e =>
    have hheap : (p.evictHead ch).invalidPqueue = (znMinheapUpdateByEntry p.invalidPqueue (some e)
        ((p.zonePool ch.1).vacated ch.2).chunksInUse).2 := by
      show (znMinheapUpdateByEntry _ (p.zonePool ch.1).pqueueEntry _).2 = _
      rw [hptr]
    cases hqe : q e with
    | none =>
      -- the entry was picked, and the zone has not been filed since
      refine hunbooked (h.not_booked ?_) (hheap ▸ h.heap.update_unbooked hqe hsmall _)
      intro e' he
      rw [hptr] at he
      obtain rfl := Option.some.inj he
      exact hqe
    | some zpr =>
      obtain ⟨z, pr⟩ := zpr
      obtain rfl := (h.known ch.1 hin.1 e hptr).2 z pr hqe
      obtain ⟨heap, hup, hbooks, -⟩ := h.heap.update hqe
        ((p.zonePool ch.1).vacated ch.2).chunksInUse fun _ => hsmall
      have hfiled := h.recount hqe (by rwa [hheap, hup]) hnext hentry (congrArg _ hself) hother
      exact ⟨_, hfiled, h.perm hfiled fun z => exists_update_iff hqe _ z⟩

/-- **A zone is picked**: a filed zone with the fewest chunks in use, and it is
filed no more. -/
theorem pick (h : Filed g p q) (hzones : g.nrZones < 2 ^ 31) (hne : p.filedZones ≠ []) :
    ∃ ent heap q', znMinheapExtractMin p.invalidPqueue = (some ent, heap)
      ∧ Filed g { p with invalidPqueue := heap } q'
      ∧ p.filedZones.Perm ((heap.entry ent).data :: ({ p with invalidPqueue := heap } : ZnPolicyChunk).filedZones)
      ∧ ∀ z ∈ p.filedZones,
        (p.zonePool (heap.entry ent).data).chunksInUse ≤ (p.zonePool z).chunksInUse := by
  have hsmall : p.invalidPqueue.size < 2 ^ 31 := Nat.lt_of_le_of_lt h.size_le_nrZones hzones
  have h0 : p.invalidPqueue.size ≠ 0 := by
    rw [← length_filedZones]
    exact fun hlen => hne (List.length_eq_zero_iff.mp hlen)
  obtain ⟨heap, z, pr, hout, hq, hmin, hbooks, -, -⟩ := h.heap.extract h0 hsmall
  obtain ⟨-, -, hdata⟩ := extract_ok hout
  have hz : (heap.entry (p.invalidPqueue.arr 0)).data = z :=
    (hdata _).trans (h.heap.holds _ _ _ hq).1
  have hnext : heap.next = p.invalidPqueue.next := by
    rw [← extract_next p.invalidPqueue, hout]
  have hold : ∀ {e x}, Function.update q (p.invalidPqueue.arr 0) none e = some x → q e = some x := by
    intro e x hx
    by_cases he : e = p.invalidPqueue.arr 0
    · rw [he, Function.update_self] at hx
      cases hx
    · rwa [Function.update_of_ne he] at hx
  have hfiled : Filed g { p with invalidPqueue := heap }
      (Function.update q (p.invalidPqueue.arr 0) none) := by
    constructor
    · exact hbooks
    · exact fun e z' pr' hx => h.booked e z' pr' (hold hx)
    · intro z' hz' e he
      obtain ⟨hlt, hown⟩ := h.known z' hz' e he
      refine ⟨?_, fun z'' pr' hx => hown z'' pr' (hold hx)⟩
      show e < heap.next
      omega
  -- the zone refers to one entry, and that is out
  have hgone : z ∉ ({ p with invalidPqueue := heap } : ZnPolicyChunk).filedZones := by
    intro hin
    obtain ⟨e, pr', hx⟩ := hfiled.mem_iff.mp hin
    have hptr := (h.booked e z pr' (hold hx)).2.1
    rw [(h.booked _ z pr hq).2.1] at hptr
    obtain rfl := Option.some.inj hptr
    rw [Function.update_self] at hx
    cases hx
  refine ⟨_, heap, _, hout, hfiled, ?_, ?_⟩
  · rw [hz]
    apply (List.perm_ext_iff_of_nodup h.nodup (List.nodup_cons.mpr ⟨hgone, hfiled.nodup⟩)).mpr
    intro z'
    rw [h.mem_iff, List.mem_cons, hfiled.mem_iff]
    constructor
    · intro hex
      obtain ⟨e, pr', hx⟩ := hex
      by_cases he : e = p.invalidPqueue.arr 0
      · rw [he, hq] at hx
        exact Or.inl (Prod.mk.inj (Option.some.inj hx)).1.symm
      · exact Or.inr ⟨e, pr', by rw [Function.update_of_ne he, hx]⟩
    · intro hor
      rcases hor with rfl | ⟨e, pr', hx⟩
      · exact ⟨_, pr, hq⟩
      · exact ⟨e, pr', hold hx⟩
  · intro z' hz'
    obtain ⟨e, pr', hx⟩ := h.mem_iff.mp hz'
    rw [hz, (h.booked _ z pr hq).2.2, (h.booked e z' pr' hx).2.2]
    exact hmin e z' pr' hx

end Filed

/-! ## §2. Who owns a zone that is not filed. -/

/-- The zone of the pool that is being collected. -/
def ChunkEvict.collecting : ChunkEvict → Option Nat
  | .gcScan old _ | .gcRead old _ _ | .gcWrite old _ _ _ | .gcInsert old _ _ | .gcClear old
  | .gcReset old => some old
  | .lock | .pop .. | .mark .. | .clear .. | .gc | .gcLoop _ | .gcFree | .unlock => none

/-- The full zone that a thread is about to file, or is collecting. -/
def Pc.owned (g : Geometry) : Pc ChunkEvict → Option Nat
  | .get (.writeUpdate _ l _) => if l.chunkOffset = g.lastChunk then some l.zone else none
  | .evictor e | .get (.evict _ e) => e.collecting
  | _ => none

/-- The zone of the chunk that a thread has written and is about to report. -/
def Pc.reporting {E : Type} : Pc E → Option Nat
  | .get (.writeUpdate _ l _) => some l.zone
  | _ => none

theorem Pc.owned_of_evicting {pc : Pc ChunkEvict} {e : ChunkEvict} (h : pc.evicting = some e)
    (g : Geometry) : pc.owned g = e.collecting := by
  rcases evicting_eq h with rfl | ⟨id, rfl⟩ <;> rfl

/-- On fewer than `2^32` chunks a zone, the last chunk of a zone is the one that
closes it. -/
theorem Geometry.closes_of_last {g : Geometry} (hpos : 1 ≤ g.maxZoneChunks)
    (hmax : g.maxZoneChunks < 2 ^ 32) {c : Nat} (h : c = g.lastChunk) :
    (c + 1) % 2 ^ 32 = g.maxZoneChunks := by
  unfold Geometry.lastChunk at h
  omega

section System

variable {Tid : Type u} [DecidableEq Tid] {g : Geometry} {rb : Buffer}
  {mem : Nat → EvictionPolicyChunkZone}

/-- No chunk of a filed zone is reported. -/
def SysLabel.OnTime (s : Sys ZnPolicyChunk ChunkEvict Tid) (l : SysLabel Tid) : Prop :=
  ∀ z ∈ (s.pool l.thread).reporting, z ∉ s.cache.policy.filedZones

instance SysLabel.decOnTime (s : Sys ZnPolicyChunk ChunkEvict Tid) (l : SysLabel Tid) :
    Decidable (l.OnTime s) :=
  inferInstanceAs (Decidable (∀ z ∈ (s.pool l.thread).reporting, z ∉ s.cache.policy.filedZones))

/-- **A full zone is filed, or owned by one thread**, and what goes with that. -/
structure FiledSys (g : Geometry) (s : Sys ZnPolicyChunk ChunkEvict Tid) : Prop where
  filed : ∃ q, Filed g s.cache.policy q
  tokens : Tokens s.cache.policy.filedZones fun t => (s.pool t).owned g
  filed_full : ∀ z ∈ s.cache.policy.filedZones, (s.cache.zoneState.state z).state = .full
  owned_full : ∀ t z, (s.pool t).owned g = some z → (s.cache.zoneState.state z).state = .full
  /-- The collector resets the zone it has picked. -/
  numbered : ∀ t e z, (s.pool t).evicting = some e → e.collecting = some z →
    s.cache.policy.Numbered z

namespace FiledSys

variable {s : Sys ZnPolicyChunk ChunkEvict Tid} {t : Tid} {c : CacheState ZnPolicyChunk}
  {pc : Pc ChunkEvict}

omit [DecidableEq Tid] in
theorem init (hmem : ∀ z, z < g.nrZones → (mem z).pqueueEntry = none) (bytes : Buffer) :
    FiledSys g (⟨initCache (chunk mem) g bytes, fun _ => .idle⟩ : Sys ZnPolicyChunk ChunkEvict Tid) where
  filed := ⟨_, Filed.init hmem⟩
  tokens := by
    refine ⟨List.nodup_nil, ?_, ?_⟩
    · intro t z hz
      cases hz
    · intro t u z hz
      cases hz
  filed_full z hz := by cases hz
  owned_full t z hz := by cases hz
  numbered t e z he := by cases he

/-- Thread `t` moves; the zones that it and the heap have afterwards are full,
and the others' stay so. -/
theorem goto (h : FiledSys g s) (hfiled : ∃ q, Filed g c.policy q)
    (htokens : Tokens c.policy.filedZones
      (Function.update (fun u => (s.pool u).owned g) t (pc.owned g)))
    (hfull : ∀ z, z ∈ c.policy.filedZones ∨ pc.owned g = some z → (c.zoneState.state z).state = .full)
    (hkeep : ∀ u, u ≠ t → ∀ z, (s.pool u).owned g = some z →
      (s.cache.zoneState.state z).state = .full → (c.zoneState.state z).state = .full)
    (hnumbered : ∀ z, s.cache.policy.Numbered z → c.policy.Numbered z)
    (hpicked : ∀ e z, pc.evicting = some e → e.collecting = some z → c.policy.Numbered z) :
    FiledSys g (s.goto t c pc) where
  filed := hfiled
  tokens := by
    rw [Sys.goto_view (Pc.owned g), Sys.goto_cache]
    exact htokens
  filed_full z hz := hfull z (Or.inl hz)
  owned_full u z hu := by
    rw [Sys.goto_pool] at hu
    by_cases hut : u = t
    · rw [hut, Function.update_self] at hu
      exact hfull z (Or.inr hu)
    · rw [Function.update_of_ne hut] at hu
      exact hkeep u hut z hu (h.owned_full u z hu)
  numbered u e z hu he := by
    rw [Sys.goto_pool] at hu
    by_cases hut : u = t
    · rw [hut, Function.update_self] at hu
      exact hpicked e z hu he
    · rw [Function.update_of_ne hut] at hu
      exact hnumbered z (h.numbered u e z hu he)

/-- A step that neither files nor picks nor resets: full zones stay full, and
the thread owns what it owned. -/
theorem stay (h : FiledSys g s) (hfiled : ∃ q, Filed g c.policy q)
    (hperm : c.policy.filedZones.Perm s.cache.policy.filedZones)
    (hfull : ∀ z, (s.cache.zoneState.state z).state = .full → (c.zoneState.state z).state = .full)
    (hnumbered : ∀ z, s.cache.policy.Numbered z → c.policy.Numbered z)
    (howned : pc.owned g = (s.pool t).owned g)
    (hpicked : ∀ e z, pc.evicting = some e → e.collecting = some z → c.policy.Numbered z) :
    FiledSys g (s.goto t c pc) := by
  apply h.goto hfiled
  · have hsame : Function.update (fun u => (s.pool u).owned g) t (pc.owned g)
        = fun u => (s.pool u).owned g := by
      rw [howned]
      exact Function.update_eq_self t _
    rw [hsame]
    exact h.tokens.perm hperm
  · intro z hz
    apply hfull
    rcases hz with hin | hown
    · exact h.filed_full z (hperm.mem_iff.mp hin)
    · exact h.owned_full t z (howned ▸ hown)
  · exact fun u _ z _ hz => hfull z hz
  · exact hnumbered
  · exact hpicked

/-- The same, of a step that leaves the policy. -/
theorem quiet (h : FiledSys g s) (hpolicy : c.policy = s.cache.policy)
    (hfull : ∀ z, (s.cache.zoneState.state z).state = .full → (c.zoneState.state z).state = .full)
    (howned : pc.owned g = (s.pool t).owned g)
    (hpicked : ∀ e z, pc.evicting = some e → e.collecting = some z → s.cache.policy.Numbered z) :
    FiledSys g (s.goto t c pc) := by
  apply h.stay
  · rw [hpolicy]
    exact h.filed
  · rw [hpolicy]
  · exact hfull
  · rw [hpolicy]
    exact fun _ hz => hz
  · exact howned
  · rw [hpolicy]
    exact hpicked

/-! ### One step -/

/-- **A chunk is committed**: if it is the last one, its zone is full from now
on, and nobody had it as a full zone before. -/
theorem commit (h : FiledSys g s) (hpos : 1 ≤ g.maxZoneChunks) (hmax : g.maxZoneChunks < 2 ^ 32)
    (hinv : ZsmInv g s.cache.zoneState) {a : Answers} (ha : DeviceOk g a.ret) {id : Nat} {l : ZnPair}
    {data : Buffer} {r : Int} {z : ZoneStateManager} (ht : s.pool t = .get (.commit id l data))
    (hr : zsmReturnActiveZone g a.ret s.cache.zoneState l = .ok (r, z)) :
    FiledSys g (s.goto t { s.cache with zoneState := z } (.get (.writeUpdate id l data))) := by
  obtain ⟨hst, hoff, -⟩ := zsmReturnActiveZone_cases hr
  rw [zsmReturnActiveZone_spec hinv ha hst hoff] at hr
  obtain rfl : committed g s.cache.zoneState l = z := (Prod.mk.inj (Except.ok.inj hr)).2
  have hwriting : (s.cache.zoneState.state l.zone).state ≠ .full := by
    rw [hst]
    decide
  have hkeep : ∀ z, (s.cache.zoneState.state z).state = .full →
      ((committed g s.cache.zoneState l).state z).state = .full := by
    intro z hz
    have hne : z ≠ l.zone := fun heq => hwriting (heq ▸ hz)
    unfold committed
    split
    · show (Function.update s.cache.zoneState.state l.zone _ z).state = _
      rw [Function.update_of_ne hne]
      exact hz
    · show (Function.update s.cache.zoneState.state l.zone _ z).state = _
      rw [Function.update_of_ne hne]
      exact hz
  have hnone : (s.pool t).owned g = none := by
    rw [ht]
    rfl
  by_cases hlast : l.chunkOffset = g.lastChunk
  · have howned : (Pc.get (.writeUpdate id l data)).owned g = some l.zone := if_pos hlast
    have hclosed : ((committed g s.cache.zoneState l).state l.zone).state = .full := by
      unfold committed
      rw [if_pos (Geometry.closes_of_last hpos hmax hlast)]
      show (Function.update s.cache.zoneState.state l.zone _ l.zone).state = _
      rw [Function.update_self]
      rfl
    apply h.goto
    · exact h.filed
    · rw [howned]
      apply (h.tokens.gain (z := l.zone) _ _).take (List.Perm.refl _)
      · exact fun hin => hwriting (h.filed_full _ hin)
      · exact fun u hu => hwriting (h.owned_full u _ hu)
    · intro z hz
      rcases hz with hin | hown
      · exact hkeep z (h.filed_full z hin)
      · rw [howned] at hown
        cases hown
        exact hclosed
    · exact fun u _ z _ hz => hkeep z hz
    · exact fun _ hz => hz
    · exact fun e z he => by cases he
  · apply h.quiet
    · rfl
    · exact hkeep
    · rw [hnone]
      exact if_neg hlast
    · exact fun e z he => by cases he

/-- **A chunk is reported** in time: if it is the last one, its zone is filed. -/
theorem report (h : FiledSys g s) (hzones : g.nrZones < 2 ^ 32) (hb : ChunkBooks g s.cache.policy)
    {id : Nat} {l : ZnPair} {data : Buffer} {p : ZnPolicyChunk}
    (ht : s.pool t = .get (.writeUpdate id l data)) (hnot : l.zone ∉ s.cache.policy.filedZones)
    (hcase : ChunkUpdateCase g s.cache.policy l .write p) :
    FiledSys g (s.goto t { s.cache with policy := p } (.get (.publish id l data))) := by
  obtain ⟨q, hq⟩ := h.filed
  have hwritten := hq.write (l := l) hnot
  have hpicked : ∀ {p : ZnPolicyChunk} (e : ChunkEvict) (z : Nat),
      (Pc.get (.publish id l data) : Pc ChunkEvict).evicting = some e → e.collecting = some z →
      p.Numbered z := fun e z he => by cases he
  cases hcase with
  | write htable hfree hlast =>
    apply h.stay
    · exact ⟨q, hwritten⟩
    · exact List.Perm.refl _
    · exact fun _ hz => hz
    · exact fun z hz => hz.written l
    · rw [ht]
      exact (if_neg hlast).symm
    · exact hpicked
  | @writeLast entry heap htable hfree hlast hins =>
    have howned : (s.pool t).owned g = some l.zone := by
      rw [ht]
      exact if_pos hlast
    have hz : l.zone < g.nrZones := ((hb.table _).mp htable).1
    have hself : (s.cache.policy.written l).zonePool l.zone
        = (s.cache.policy.zonePool l.zone).written l := by
      rw [ZnPolicyChunk.zonePool_written, Function.update_self]
    have hkept : znMinheapInsert (s.cache.policy.written l).invalidPqueue l.zone
        ((s.cache.policy.written l).zonePool l.zone).chunksInUse = .ok (entry, heap) := by
      rw [hself]
      exact hins
    obtain ⟨q', hfiled, hperm⟩ := hwritten.file hzones hz hnot hkept
    apply h.goto
    · exact ⟨q', hfiled⟩
    · exact h.tokens.give howned hperm
    · intro z hin
      rcases hin with hin | hown
      · rcases List.mem_cons.mp (hperm.mem_iff.mp hin) with rfl | hold
        · exact h.owned_full t _ howned
        · exact h.filed_full z hold
      · cases hown
    · exact fun _ _ _ _ hz => hz
    · exact fun z hz => (hz.written l).filed l.zone entry heap
    · exact hpicked

/-- **A zone is picked** by a thread that owns none. -/
theorem pick (h : FiledSys g s) (hzones : g.nrZones < 2 ^ 31) (hsys : ChunkSys g s) {ent : Nat}
    {heap : ZnMinheap} (hout : znMinheapExtractMin s.cache.policy.invalidPqueue = (some ent, heap))
    (hpc : pc.evicting = some (.gcScan (heap.entry ent).data 0))
    (howns : pc.owned g = some (heap.entry ent).data) :
    FiledSys g (s.goto t
      { s.cache with policy := { s.cache.policy with invalidPqueue := heap } } pc) := by
  obtain ⟨e, -, hsh⟩ := hsys
  obtain ⟨q, hq⟩ := h.filed
  have hne : s.cache.policy.filedZones ≠ [] := by
    intro hnil
    have hlen := Filed.length_filedZones s.cache.policy
    rw [hnil] at hlen
    exact (extract_ok hout).1 hlen.symm
  obtain ⟨ent', heap', q', hout', hfiled, hperm, -⟩ := hq.pick hzones hne
  rw [hout] at hout'
  obtain ⟨hent, rfl⟩ := Prod.mk.inj hout'
  cases hent
  apply h.goto
  · exact ⟨q', hfiled⟩
  · rw [howns]
    exact h.tokens.take hperm
  · intro z hz
    apply h.filed_full z
    apply hperm.mem_iff.mpr
    rcases hz with hin | hpick
    · exact List.mem_cons_of_mem _ hin
    · rw [howns] at hpick
      obtain rfl := Option.some.inj hpick
      exact List.mem_cons_self ..
  · exact fun _ _ _ _ hz => hz
  · exact fun _ hz => hz
  · intro e₂ z he₂ hz
    rw [hpc] at he₂
    cases he₂
    cases hz
    exact (hsh.heap.extract hout).2

/-- **A zone is reset** by the thread that owns it. -/
theorem reset (h : FiledSys g s) {old : Nat} (ht : (s.pool t).evicting = some (.gcReset old))
    (hpc : pc.evicting = some .gcFree) (howns : pc.owned g = none) (d : Device) :
    FiledSys g (s.goto t { s.cache with
      zoneState := evicted s.cache.zoneState (s.cache.policy.zonePool old).zoneId
      device := d } pc) := by
  have hmine : (s.pool t).owned g = some old := Pc.owned_of_evicting ht g
  have hnumber : (s.cache.policy.zonePool old).zoneId = old := h.numbered t _ old ht rfl
  have hfull : ∀ z, z ≠ old → (s.cache.zoneState.state z).state = .full →
      ((evicted s.cache.zoneState (s.cache.policy.zonePool old).zoneId).state z).state = .full := by
    intro z hne hz
    show (Function.update s.cache.zoneState.state (s.cache.policy.zonePool old).zoneId _ z).state = _
    rw [hnumber, Function.update_of_ne hne]
    exact hz
  apply h.goto
  · exact h.filed
  · rw [howns]
    exact h.tokens.release t
  · intro z hz
    rcases hz with hin | hnone
    · apply hfull z _ (h.filed_full z hin)
      intro heq
      exact h.tokens.apart t old hmine (heq ▸ hin)
    · rw [howns] at hnone
      cases hnone
  · intro u hut z hu hz
    apply hfull z _ hz
    intro heq
    exact hut (h.tokens.distinct u t old (heq ▸ hu) hmine)
  · exact fun _ hz => hz
  · intro e₂ z he₂ hz
    rw [hpc] at he₂
    cases he₂
    cases hz

/-- **A step of an eviction** that moves no live chunk. -/
theorem evict (h : FiledSys g s) (hzones : g.nrZones < 2 ^ 31) (hsys : ChunkSys g s) {a : Answers}
    {e : ChunkEvict} {e' : Option ChunkEvict} (ht : (s.pool t).evicting = some e) (hpc : pc.evicting = e')
    (howns : pc.owned g = e'.bind ChunkEvict.collecting) (hmoves : ¬ e.Moves)
    (hcase : ChunkEvictCase g a s.cache e c e') : FiledSys g (s.goto t c pc) := by
  obtain ⟨e₀, -, hsh⟩ := id hsys
  obtain ⟨q, hq⟩ := h.filed
  -- a thread that collects goes on with the zone that it has
  have hsame : e'.bind ChunkEvict.collecting = e.collecting → pc.owned g = (s.pool t).owned g
      ∧ ∀ e₂ z, pc.evicting = some e₂ → e₂.collecting = some z → s.cache.policy.Numbered z := by
    intro hcol
    constructor
    · rw [howns, hcol, Pc.owned_of_evicting ht g]
    · intro e₂ z he₂ hz
      rw [← hpc, he₂] at hcol
      exact h.numbered t e z ht (hcol.symm.trans hz)
  have hlocked : ∀ b, Filed g { s.cache.policy with locked := b } q := fun _ =>
    hq.same_heap rfl (fun _ => rfl) fun _ _ => rfl
  cases hcase with
  | enter | unlock =>
    obtain ⟨howned, hpicked⟩ := hsame rfl
    exact h.stay ⟨q, hlocked _⟩ (List.Perm.refl _) (fun _ hz => hz) (fun _ hz => hz) howned hpicked
  | pop hlt hpop =>
    obtain ⟨howned, hpicked⟩ := hsame rfl
    obtain ⟨ch, rest, hlru, -, rfl⟩ := popChunk_ok hsh.books hpop
    obtain ⟨q', hfiled, hperm⟩ := hq.evictHead hsh.books hzones hlru
    have hnumbered : ∀ z, s.cache.policy.Numbered z → (s.cache.policy.evictHead ch).Numbered z := by
      intro z hz
      exact ((s.cache.policy.zonePool_evictHead ch z).1).trans hz
    exact h.stay ⟨q', hfiled⟩ hperm (fun _ hz => hz) hnumbered howned
      fun e₂ z he₂ hz => hnumbered z (hpicked e₂ z he₂ hz)
  | refuse | popped | clear | gcSkip | gcStart | gcDone | gcSkipChunk | gcScanned | gcRead | gcWrite
  | gcClear | gcFree =>
    obtain ⟨howned, hpicked⟩ := hsame rfl
    exact h.quiet rfl (fun _ hz => hz) howned hpicked
  | mark =>
    obtain ⟨howned, hpicked⟩ := hsame rfl
    refine h.quiet rfl ?_ howned hpicked
    intro z hz
    rw [(zsmMarkChunkInvalid_same _ _ z).2.1]
    exact hz
  | gcAcquire _ hr =>
    obtain ⟨howned, hpicked⟩ := hsame rfl
    exact h.quiet rfl (fun _ hz => (zsmGetActiveZone_cases hr).full hz) howned hpicked
  | gcInsert => exact absurd trivial hmoves
  | gcPick hout => exact h.pick hzones hsys hout hpc howns
  | gcReset hr =>
    obtain ⟨-, -, -, rfl⟩ := zsmEvict_returns hr
    exact h.reset ht hpc howns _

/-- **A step of `zn_cache_get`**, outside of `zn_fg_evict`. -/
theorem get (h : FiledSys g s) (hzones : g.nrZones < 2 ^ 32) (hpos : 1 ≤ g.maxZoneChunks)
    (hmax : g.maxZoneChunks < 2 ^ 32) (hsys : ChunkSys g s) (hinv : ZsmInv g s.cache.zoneState)
    {a : Answers} (ha : DeviceOk g a.ret) {gp gp' : GetPc ChunkEvict} (ht : s.pool t = .get gp)
    (htime : ∀ z ∈ (s.pool t).reporting, z ∉ s.cache.policy.filedZones)
    (hout : (Pc.get gp).evicting = none) (hcase : GetCase (chunk mem) g rb a s.cache gp c gp') :
    FiledSys g (s.goto t c (.get gp')) := by
  have hnobody : ∀ {gp' : GetPc ChunkEvict}, (Pc.get gp').evicting = none →
      ∀ e z, (Pc.get gp').evicting = some e → e.collecting = some z →
      s.cache.policy.Numbered z := by
    intro gp' hnone e z he
    rw [hnone] at he
    cases he
  have hstays : ∀ {c : CacheState ZnPolicyChunk} {gp' : GetPc ChunkEvict},
      (Pc.get gp).owned g = none → (Pc.get gp').owned g = none →
      (∀ e z, (Pc.get gp').evicting = some e → e.collecting = some z → s.cache.policy.Numbered z) →
      c.policy = s.cache.policy → (∀ z, (s.cache.zoneState.state z).state = .full →
        (c.zoneState.state z).state = .full) → FiledSys g (s.goto t c (.get gp')) := by
    intro c gp' hbefore hafter hpicked hpolicy hfull
    apply h.quiet hpolicy hfull _ hpicked
    rw [ht, hbefore, hafter]
  cases hcase with
  | @find id r =>
    cases r <;> exact hstays rfl rfl (hnobody rfl) rfl fun _ hz => hz
  | @wake id cond seen r =>
    cases r <;> exact hstays rfl rfl (hnobody rfl) rfl fun _ hz => hz
  | read | readDone | hit | miss | publish | undoMap =>
    exact hstays rfl rfl (hnobody rfl) rfl fun _ hz => hz
  | readUpdate hup =>
    obtain ⟨-, hupdate⟩ := chunkUpdate_cases hup
    obtain ⟨q, hq⟩ := h.filed
    cases hupdate with
    | absent => exact hstays rfl rfl (hnobody rfl) rfl fun _ hz => hz
    | touch =>
      apply h.stay
      · exact ⟨q, hq.same_heap rfl (fun _ => rfl) fun _ _ => rfl⟩
      · exact List.Perm.refl _
      · exact fun _ hz => hz
      · exact fun _ hz => hz
      · rw [ht]
        rfl
      · exact fun e z he => by cases he
  | @acquire id r z hr =>
    have hfull : ∀ z', (s.cache.zoneState.state z').state = .full → (z.state z').state = .full :=
      fun _ hz => (zsmGetActiveZone_cases hr).full hz
    cases r with
    | success | retry | error => exact hstays rfl rfl (hnobody rfl) rfl hfull
    | evict =>
      -- the thread is about to evict, and collects nothing yet
      refine hstays rfl rfl ?_ rfl hfull
      intro e z he hz
      cases he
      cases hz
  | @write id l r d =>
    by_cases hr : r = 0
    · rw [if_neg (by simpa using hr)]
      exact hstays rfl rfl (hnobody rfl) rfl fun _ hz => hz
    · rw [if_pos hr]
      exact hstays rfl rfl (hnobody rfl) rfl fun _ hz => hz
  | evict => cases hout
  | commit hr => exact h.commit hpos hmax hinv ha ht hr
  | writeUpdate hup =>
    obtain ⟨e, -, hsh⟩ := hsys
    apply h.report hzones hsh.books ht _ (chunkUpdate_cases hup).2
    apply htime
    rw [ht]
    rfl
  | @undoZoneGet id l z hr =>
    obtain ⟨hst, -, rfl⟩ := zsmFailedToWrite_cases hr
    refine hstays rfl rfl (hnobody rfl) rfl ?_
    intro z hz
    have hne : z ≠ l.zone := by
      rintro rfl
      rw [hst] at hz
      cases hz
    show (Function.update s.cache.zoneState.state l.zone _ z).state = _
    rw [Function.update_of_ne hne]
    exact hz

/-- **Step lemma.** -/
theorem step (h : FiledSys g s) (hzones : g.nrZones < 2 ^ 31) (hpos : 1 ≤ g.maxZoneChunks)
    (hmax : g.maxZoneChunks < 2 ^ 32) (hsys : ChunkSys g s) (hinv : ZsmInv g s.cache.zoneState)
    {l : SysLabel Tid} (hok : l.ZoneOk g) (hmoves : l.MovesNone s) (htime : l.OnTime s)
    {s' : Sys ZnPolicyChunk ChunkEvict Tid} (hcase : SysCase (chunk mem) g rb s l s') :
    FiledSys g s' := by
  have hquiet : ∀ {t : Tid} {pc : Pc ChunkEvict}, (s.pool t).owned g = none → pc.owned g = none →
      (∀ e z, pc.evicting = some e → e.collecting = some z → s.cache.policy.Numbered z) →
      FiledSys g (s.goto t s.cache pc) := by
    intro t pc hbefore hafter hpicked
    apply h.quiet rfl (fun _ hz => hz) _ hpicked
    rw [hbefore, hafter]
  have hlock : ∀ e z, some ChunkEvict.lock = some e → e.collecting = some z →
      s.cache.policy.Numbered z := by
    intro e z he hz
    cases he
    cases hz
  cases hcase with
  | get ht | ret ht =>
    exact hquiet (congrArg (Pc.owned g) ht) rfl fun e z he => by cases he
  | fgEvict ht => exact hquiet (congrArg (Pc.owned g) ht) rfl hlock
  | taskEvicts ht => exact hquiet (congrArg (Pc.owned g) ht) rfl hlock
  | taskSleeps => exact h
  | @evict t a e e' c ht hstep =>
    have hat : (s.pool t).evicting = some e := congrArg Pc.evicting ht
    have hgoes : (evictorPc e').evicting = e' := by
      cases e' <;> rfl
    have howns : (evictorPc e').owned g = e'.bind ChunkEvict.collecting := by
      cases e' <;> rfl
    exact h.evict hzones hsys hat hgoes howns (hmoves e hat) (chunkEvictStep_cases hstep)
  | @step t a gp gp' c ht hcase =>
    cases hout : (Pc.get gp).evicting with
    | none => exact h.get (by omega) hpos hmax hsys hinv hok ht htime hout hcase
    | some e =>
      have hat : (s.pool t).evicting = some e := by
        rw [ht]
        exact hout
      rcases evicting_eq hout with hno | ⟨id, heq⟩
      · cases hno
      cases heq
      cases hcase with
      | @evict id e c e' hstep =>
        have hgoes : (Pc.get (evictPc id e')).evicting = e' := by
          cases e' <;> rfl
        have howns : (Pc.get (evictPc id e')).owned g = e'.bind ChunkEvict.collecting := by
          cases e' <;> rfl
        exact h.evict hzones hsys hat hgoes howns (hmoves e hat) (chunkEvictStep_cases hstep)

end FiledSys

/-! ## §3. Every run. -/

/-- Small ids and zone commands that succeed; no live chunk is moved, no chunk
evicted before it is published, and none reported after its zone is filed. -/
def SysLabel.Regular (g : Geometry) (s : Sys ZnPolicyChunk ChunkEvict Tid) (l : SysLabel Tid) : Prop :=
  l.SmallId ∧ l.ZoneOk g ∧ l.MovesNone s ∧ l.PopsPublished s ∧ l.OnTime s

instance SysLabel.decRegular [Fintype Tid] (g : Geometry) (s : Sys ZnPolicyChunk ChunkEvict Tid)
    (l : SysLabel Tid) : Decidable (l.Regular g s) := by
  unfold SysLabel.Regular
  infer_instance

/-- **Run lemma.** -/
theorem FiledSys.reach (hzones : g.nrZones < 2 ^ 31) (hpos : 1 ≤ g.maxZoneChunks)
    (hmax : g.maxZoneChunks < 2 ^ 32) (hmem : ∀ z, z < g.nrZones → (mem z).pqueueEntry = none)
    {s : Sys ZnPolicyChunk ChunkEvict Tid}
    (hr : (cacheSystem Tid (chunk mem) g rb).Reach (fun s l => l.Regular g s) s) : FiledSys g s := by
  apply TransSys.Reach.invariant (I := FiledSys g) _ _ hr
  · intro s hs
    obtain ⟨bytes, rfl⟩ := hs
    exact FiledSys.init hmem bytes
  · intro s l s' hreach h hc hs
    have hsys := ChunkSys.reach hmax (fun _ _ hc => ⟨hc.1, hc.2.2.1, hc.2.2.2.1⟩) hreach
    have hinv := zsm_inv_reach hpos (chunk_zsm_inv hpos) (fun _ _ hc => hc.2.1) hreach
    obtain ⟨-, hok, hmoves, -, htime⟩ := hc
    exact h.step hzones hpos hmax hsys hinv hok hmoves htime (sysStep_cases hs)

end System

end ZnCache
