/-
  ZnCache.Chunk.Shared — what the chunk policy and the cache map agree on.

  A writer reports its chunk to the policy, and then inserts it into the cache
  map.  An evictor marks a chunk unused, and then clears its entry.  In between
  the two disagree, about that chunk and no other: a chunk that is in use is a
  lock on its location, for `ZN_WRITE` asserts that it is not.

  `Shared` is the agreement.  `pub` has the chunk that each thread has reported
  and is still to insert, `e` the place of the thread that has `policy_mutex`
  for an eviction.  There is one lemma for each thing a step can do to it.
-/
import ZnCache.Chunk.Structures
import ZnCache.CacheMap.Bijection
import ZnCache.MinHeap.Entries

namespace ZnCache

open Lib Lib.PartialBijection Lib.ThreadPool

universe u

namespace ChunkEvict

/-- The chunk that has been taken from the queue, and whose entry is still to be
cleared. -/
def clearing : ChunkEvict → Option (Nat × Nat)
  | .mark _ _ zp | .clear _ _ zp => some (zp.zone, zp.chunkOffset)
  | .lock | .pop .. | .gc | .gcLoop _ | .gcScan .. | .gcRead .. | .gcWrite .. | .gcInsert ..
  | .gcClear _ | .gcReset _ | .gcFree | .unlock => none

/-- What the collector has seen of the zone it is about to reset. -/
def Scanned (p : ZnPolicyChunk) : ChunkEvict → Prop
  | .gcScan old i => (p.zonePool old).zoneId = old ∧ ∀ j, j < i → (p.pair (old, j)).inUse = false
  | .gcClear old => (p.zonePool old).zoneId = old ∧ ∀ j, (p.pair (old, j)).inUse = false
  | .lock | .pop .. | .mark .. | .clear .. | .gc | .gcLoop _ | .gcRead .. | .gcWrite ..
  | .gcInsert .. | .gcReset _ | .gcFree | .unlock => True

end ChunkEvict

/-- The zones that know their number. -/
abbrev ZnPolicyChunk.Numbered (p : ZnPolicyChunk) (z : Nat) : Prop := (p.zonePool z).zoneId = z

namespace ZnPolicyChunk.Numbered

variable {p : ZnPolicyChunk} {z : Nat}

/-- A zone that is written to is told its number. -/
theorem of_written (l : ZnPair) : (p.written l).Numbered l.zone := by
  show ((p.written l).zonePool l.zone).zoneId = l.zone
  rw [zonePool_written, Function.update_self]
  rfl

theorem written (h : p.Numbered z) (l : ZnPair) : (p.written l).Numbered z := by
  show ((p.written l).zonePool z).zoneId = z
  rw [zonePool_written]
  by_cases hz : z = l.zone
  · rw [hz, Function.update_self]
    rfl
  · rw [Function.update_of_ne hz]
    exact h

theorem filed (h : p.Numbered z) (z' entry : Nat) (heap : ZnMinheap) :
    (p.filed z' entry heap).Numbered z := by
  show ((p.filed z' entry heap).zonePool z).zoneId = z
  rw [zonePool_filed]
  by_cases hz : z = z'
  · rw [hz, Function.update_self]
    rw [hz] at h
    exact h
  · rw [Function.update_of_ne hz]
    exact h

end ZnPolicyChunk.Numbered

/-- Some entry of the map is at this chunk. -/
abbrev MappedAt (m : ZnCachemap) (ch : Nat × Nat) : Prop := Mapped m ch.1 ch.2

theorem mappedAt_iff {m : ZnCachemap} {ch : Nat × Nat} : MappedAt m ch ↔ ∃ k, locOf m k = some ch := by
  constructor
  · intro h
    obtain ⟨k, l, hl, hz, hc⟩ := h
    exact ⟨k, locOf_eq_some.mpr ⟨l, hl, Prod.ext hz hc⟩⟩
  · intro h
    obtain ⟨k, hk⟩ := h
    obtain ⟨l, hl, heq⟩ := locOf_eq_some.mp hk
    exact ⟨k, l, hl, congrArg Prod.fst heq, congrArg Prod.snd heq⟩

theorem Represents.mappedAt_iff {m : ZnCachemap} {f : PEquiv Nat (Nat × Nat)} (h : Represents m f)
    {ch : Nat × Nat} : MappedAt m ch ↔ ∃ k, f k = some ch := by
  rw [ZnCache.mappedAt_iff]
  simp only [h.fwd]

/-- Two threads that are not to insert the same chunk. -/
def Apart (a b : Option (Nat × Nat)) : Prop := ∀ ch, a = some ch → b ≠ some ch

theorem Apart.symm (a b : Option (Nat × Nat)) (h : Apart a b) : Apart b a :=
  fun ch hb ha => h ch ha hb

variable {Tid : Type u}

/-- **Policy and map agree**, but for what is being published and cleared. -/
structure Shared (g : Geometry) (p : ZnPolicyChunk) (m : ZnCachemap) (pub : Tid → Option (Nat × Nat))
    (e : Option ChunkEvict) : Prop where
  books : ChunkBooks g p
  represented : ∃ f, Represents m f
  mapped : ∀ ch, MappedAt m ch → (p.pair ch).inUse = true ∨ e.bind ChunkEvict.clearing = some ch
  used : ∀ ch, (p.pair ch).inUse = true → MappedAt m ch ∨ ∃ t, pub t = some ch
  publishing : ∀ t ch, pub t = some ch → (p.pair ch).inUse = true ∧ ¬ MappedAt m ch
  apart : Pairwise Apart pub
  clearing : ∀ ch, e.bind ChunkEvict.clearing = some ch → (p.pair ch).inUse = false ∧ MappedAt m ch
  scanned : ∀ e₁ ∈ e, e₁.Scanned p
  heap : AllData p.Numbered p.invalidPqueue

namespace Shared

variable {g : Geometry} {p p' : ZnPolicyChunk} {m m' : ZnCachemap} {pub : Tid → Option (Nat × Nat)}
  {e e' : Option ChunkEvict}

theorem init (mem : Nat → EvictionPolicyChunkZone) (g : Geometry) (numZones : Nat) :
    Shared g (znPolicyChunkInit mem g) (znCachemapInit numZones) (fun _ : Tid => none) none where
  books := ChunkBooks.init mem g
  represented := ⟨_, znCachemapInit_represents numZones⟩
  mapped ch h := by
    obtain ⟨k, l, hl, -⟩ := h
    cases hl
  used ch h := by cases h
  publishing t ch h := by cases h
  apart t u _ ch h := by cases h
  clearing ch h := by cases h
  scanned e₁ h := by cases h
  heap := AllData.init _

/-! ## §1. Steps that nobody sees. -/

/-- The map changes, but for the locations. -/
theorem map (h : Shared g p m pub e) (hloc : ∀ k, locOf m' k = locOf m k)
    (hdata : m'.dataMap = m.dataMap) (hzones : m'.numZones = m.numZones) : Shared g p m' pub e := by
  have hmapped : ∀ ch, MappedAt m' ch ↔ MappedAt m ch := by
    intro ch
    rw [mappedAt_iff, mappedAt_iff]
    simp only [hloc]
  constructor
  · exact h.books
  · obtain ⟨f, hf⟩ := h.represented
    exact ⟨f, hf.congr hloc hdata hzones⟩
  · exact fun ch hch => h.mapped ch ((hmapped ch).mp hch)
  · exact fun ch hch => (h.used ch hch).imp_left (hmapped ch).mpr
  · exact fun t ch ht => (h.publishing t ch ht).imp_right fun hno hch => hno ((hmapped ch).mp hch)
  · exact h.apart
  · exact fun ch hch => (h.clearing ch hch).imp_right (hmapped ch).mpr
  · exact h.scanned
  · exact h.heap

/-- The eviction goes on. -/
theorem goOn (h : Shared g p m pub e) (hclear : e'.bind ChunkEvict.clearing = e.bind ChunkEvict.clearing)
    (hscan : ∀ e₁ ∈ e', e₁.Scanned p) : Shared g p m pub e' where
  books := h.books
  represented := h.represented
  mapped := by
    rw [hclear]
    exact h.mapped
  used := h.used
  publishing := h.publishing
  apart := h.apart
  clearing := by
    rw [hclear]
    exact h.clearing
  scanned := hscan
  heap := h.heap

/-- The policy changes, but for its chunks and the zones' numbers. -/
theorem relist (h : Shared g p m pub e) (hbooks : ChunkBooks g p') (hpool : p'.zonePool = p.zonePool)
    (hheap : AllData p.Numbered p'.invalidPqueue) : Shared g p' m pub e := by
  have hpair : p'.pair = p.pair := by
    unfold ZnPolicyChunk.pair
    rw [hpool]
  constructor
  · exact hbooks
  · exact h.represented
  · rw [hpair]
    exact h.mapped
  · rw [hpair]
    exact h.used
  · rw [hpair]
    exact h.publishing
  · exact h.apart
  · rw [hpair]
    exact h.clearing
  · intro e₁ he₁
    have hscan := h.scanned e₁ he₁
    unfold ChunkEvict.Scanned at hscan ⊢
    rw [hpool, hpair]
    exact hscan
  · apply hheap.mono
    intro z hz
    show (p'.zonePool z).zoneId = z
    rw [hpool]
    exact hz

/-! ## §2. A writer. -/

variable [DecidableEq Tid]

/-- **A chunk is reported**, while nobody evicts. -/
theorem write (h : Shared g p m pub none) {l : ZnPair} {t : Tid} (hpub : pub t = none)
    (hfree : (p.pair (l.zone, l.chunkOffset)).inUse = false) (hbooks : ChunkBooks g p')
    (hpair : p'.pair = Function.update p.pair (l.zone, l.chunkOffset) { l with inUse := true })
    (hheap : AllData p'.Numbered p'.invalidPqueue) :
    Shared g p' m (Function.update pub t (some (l.zone, l.chunkOffset))) none := by
  have hkeep : ∀ ch, (p.pair ch).inUse = true → (p'.pair ch).inUse = true := by
    intro ch hch
    rw [hpair]
    by_cases heq : ch = (l.zone, l.chunkOffset)
    · rw [heq, Function.update_self]
    · rw [Function.update_of_ne heq]
      exact hch
  -- nobody evicts, so an entry of the chunk would say that it is in use
  have hunmapped : ¬ MappedAt m (l.zone, l.chunkOffset) := by
    intro hmapped
    rcases h.mapped _ hmapped with huse | hno
    · rw [hfree] at huse
      cases huse
    · cases hno
  have hother : ∀ u, pub u ≠ some (l.zone, l.chunkOffset) := by
    intro u hu
    have huse := (h.publishing u _ hu).1
    rw [hfree] at huse
    cases huse
  constructor
  · exact hbooks
  · exact h.represented
  · exact fun ch hch => (h.mapped ch hch).imp_left (hkeep ch)
  · intro ch hch
    by_cases heq : ch = (l.zone, l.chunkOffset)
    · exact Or.inr ⟨t, by rw [heq, Function.update_self]⟩
    · rw [hpair, Function.update_of_ne heq] at hch
      rcases h.used ch hch with hmapped | hpubs
      · exact Or.inl hmapped
      · obtain ⟨u, hu⟩ := hpubs
        have hut : u ≠ t := by
          intro hut
          rw [hut, hpub] at hu
          cases hu
        exact Or.inr ⟨u, by rw [Function.update_of_ne hut, hu]⟩
  · intro u ch hu
    by_cases hut : u = t
    · rw [hut, Function.update_self] at hu
      cases hu
      rw [hpair, Function.update_self]
      exact ⟨rfl, hunmapped⟩
    · rw [Function.update_of_ne hut] at hu
      exact (h.publishing u ch hu).imp_left (hkeep ch)
  · apply pairwise_update Apart.symm h.apart
    intro u _ ch hch
    cases hch
    exact hother u
  · exact fun ch hch => by cases hch
  · exact fun e₁ he₁ => by cases he₁
  · exact hheap

/-- **A chunk is inserted** that has been reported. -/
theorem publish (h : Shared g p m pub e) (hmax : g.maxZoneChunks < 2 ^ 32) {id c : Nat} {l : ZnPair}
    {t : Tid} (hid : id < 2 ^ 31) (hz : l.zone < m.numZones)
    (hcond : m.zoneMap (guintToPointer id) = some (.cond c))
    (hpub : pub t = some (l.zone, l.chunkOffset)) :
    Shared g p (published m id l c) (Function.update pub t none) e := by
  obtain ⟨f, hf⟩ := h.represented
  obtain ⟨huse, hunmapped⟩ := h.publishing t _ hpub
  have hc32 : l.chunkOffset < 2 ^ 32 := by
    have hin := (h.books.inPool huse).2
    exact Nat.lt_trans hin hmax
  -- both ends of the new pair are free: the id has a condition variable where
  -- its location would be, and the chunk has no entry
  have hid_none : f id = none := by
    apply hf.of_not_loc
    intro l'
    rw [guintToPointer_eq (by omega)] at hcond
    rw [hcond]
    simp
  have hl_none : f.symm (l.zone, l.chunkOffset) = none := by
    by_contra hsome
    exact hunmapped (hf.mappedAt_iff.mpr ((exists_apply_iff f).mpr hsome))
  have hf' := hf.insert (c := c) hid hz hc32 hid_none hl_none
  have hmapped : ∀ ch, MappedAt (published m id l c) ch
      ↔ MappedAt m ch ∨ ch = (l.zone, l.chunkOffset) := by
    intro ch
    rw [hf'.mappedAt_iff, hf.mappedAt_iff]
    exact exists_insertPair f hid_none hl_none
  constructor
  · exact h.books
  · exact ⟨_, hf'⟩
  · intro ch hch
    rcases (hmapped ch).mp hch with hold | rfl
    · exact h.mapped ch hold
    · exact Or.inl huse
  · intro ch hch
    rcases h.used ch hch with hold | hpubs
    · exact Or.inl ((hmapped ch).mpr (Or.inl hold))
    · obtain ⟨u, hu⟩ := hpubs
      by_cases hut : u = t
      · rw [hut, hpub] at hu
        cases hu
        exact Or.inl ((hmapped _).mpr (Or.inr rfl))
      · exact Or.inr ⟨u, by rw [Function.update_of_ne hut, hu]⟩
  · intro u ch hu
    by_cases hut : u = t
    · rw [hut, Function.update_self] at hu
      cases hu
    · rw [Function.update_of_ne hut] at hu
      refine ⟨(h.publishing u ch hu).1, ?_⟩
      intro hch
      rcases (hmapped ch).mp hch with hold | rfl
      · exact (h.publishing u ch hu).2 hold
      · exact h.apart u t hut _ hu hpub
  · apply pairwise_update Apart.symm h.apart
    intro u _ ch hch
    cases hch
  · exact fun ch hch => (h.clearing ch hch).imp_right fun hold => (hmapped ch).mpr (Or.inl hold)
  · exact h.scanned
  · exact h.heap

/-! ## §3. An evictor. -/

omit [DecidableEq Tid]

/-- **A chunk is taken from the queue** that nobody is publishing. -/
theorem pop (h : Shared g p m pub e) (hmax : g.maxZoneChunks < 2 ^ 32) {ch : Nat × Nat}
    {rest : List (Nat × Nat)} {heap : ZnMinheap} (hlru : p.lru = ch :: rest)
    (hheap : AllData p.Numbered heap) (hnone : ∀ t, pub t ≠ some ch)
    (hbefore : e.bind ChunkEvict.clearing = none) (hafter : e'.bind ChunkEvict.clearing = some ch)
    (hscan : ∀ e₁ ∈ e', ∀ p : ZnPolicyChunk, e₁.Scanned p) :
    Shared g (p.popped ch heap) m pub e' := by
  have huse := h.books.head_used hlru
  -- in use, and nobody is still to insert it
  have hmapped : MappedAt m ch := by
    rcases h.used ch huse with hmapped | hpubs
    · exact hmapped
    · obtain ⟨t, ht⟩ := hpubs
      exact absurd ht (hnone t)
  have hpair := p.pair_popped ch heap
  constructor
  · exact h.books.pop hmax hlru heap
  · exact h.represented
  · intro x hx
    by_cases heq : x = ch
    · exact Or.inr (by rw [heq, hafter])
    · rcases h.mapped x hx with hold | hno
      · rw [hpair, Function.update_of_ne heq]
        exact Or.inl hold
      · rw [hbefore] at hno
        cases hno
  · intro x hx
    by_cases heq : x = ch
    · rw [heq]
      exact Or.inl hmapped
    · rw [hpair, Function.update_of_ne heq] at hx
      exact h.used x hx
  · intro t x ht
    have heq : x ≠ ch := by
      intro heq
      rw [heq] at ht
      exact hnone t ht
    rw [hpair, Function.update_of_ne heq]
    exact h.publishing t x ht
  · exact h.apart
  · intro x hx
    rw [hafter] at hx
    cases hx
    rw [hpair, Function.update_self]
    exact ⟨rfl, hmapped⟩
  · exact fun e₁ he₁ => hscan e₁ he₁ _
  · apply hheap.mono
    intro z hz
    show ((p.popped ch heap).zonePool z).zoneId = z
    rw [ZnPolicyChunk.zonePool_popped]
    by_cases heq : z = ch.1
    · rw [heq, Function.update_self]
      rw [heq] at hz
      exact hz
    · rw [Function.update_of_ne heq]
      exact hz

/-- **The entry of the chunk is cleared**: the call returns, and removes it. -/
theorem clear_returns (h : Shared g p m pub e) {zp : ZnPair}
    (hclear : e.bind ChunkEvict.clearing = some (zp.zone, zp.chunkOffset)) :
    ∃ k f m', locOf m k = some (zp.zone, zp.chunkOffset) ∧ znCachemapClearChunk m zp = .ok m'
      ∧ Represents m f
      ∧ Represents m' (eraseOn f fun x => x = (zp.zone, zp.chunkOffset)) := by
  obtain ⟨f, hf⟩ := h.represented
  obtain ⟨k, hk⟩ := hf.mappedAt_iff.mp (h.clearing _ hclear).2
  obtain ⟨m', hm', hf'⟩ := hf.clearChunk hk
  exact ⟨k, f, m', (hf.fwd k).trans hk, hm', hf, hf'⟩

theorem clear (h : Shared g p m pub e) {zp : ZnPair}
    (hclear : e.bind ChunkEvict.clearing = some (zp.zone, zp.chunkOffset))
    (hm : znCachemapClearChunk m zp = .ok m') (hafter : e'.bind ChunkEvict.clearing = none)
    (hscan : ∀ e₁ ∈ e', e₁.Scanned p) : Shared g p m' pub e' := by
  obtain ⟨k, f, m₁, -, hm₁, hf, hf'⟩ := h.clear_returns hclear
  obtain rfl : m₁ = m' := Except.ok.inj (hm₁.symm.trans hm)
  have hmapped : ∀ ch, MappedAt m₁ ch ↔ MappedAt m ch ∧ ch ≠ (zp.zone, zp.chunkOffset) := by
    intro ch
    rw [hf'.mappedAt_iff, hf.mappedAt_iff]
    exact exists_eraseOn f _
  have hunused := (h.clearing _ hclear).1
  constructor
  · exact h.books
  · exact ⟨_, hf'⟩
  · intro ch hch
    obtain ⟨hold, hne⟩ := (hmapped ch).mp hch
    rcases h.mapped ch hold with huse | hat
    · exact Or.inl huse
    · rw [hclear] at hat
      exact absurd (Option.some.inj hat).symm hne
  · intro ch hch
    have hne : ch ≠ (zp.zone, zp.chunkOffset) := by
      intro heq
      rw [heq, hunused] at hch
      cases hch
    exact (h.used ch hch).imp_left fun hold => (hmapped ch).mpr ⟨hold, hne⟩
  · exact fun t ch ht => (h.publishing t ch ht).imp_right fun hno hch => hno ((hmapped ch).mp hch).1
  · exact h.apart
  · intro ch hch
    rw [hafter] at hch
    cases hch
  · exact hscan
  · exact h.heap

/-- **The collector's zone is cleared**, of which nothing is mapped. -/
theorem collect (h : Shared g p m pub e) {old : Nat} (he : e = some (.gcClear old))
    (hm : znCachemapClearZone m (p.zonePool old).zoneId (m.dataMap (p.zonePool old).zoneId).entries
      = .ok m') : Shared g p m' pub (some (.gcReset old)) := by
  subst he
  obtain ⟨hzone, hunused⟩ := h.scanned _ rfl
  rw [hzone] at hm
  obtain ⟨f, hf⟩ := h.represented
  have hz : old < m.numZones := by
    by_contra hge
    unfold znCachemapClearZone at hm
    rw [if_neg hge] at hm
    cases hm
  obtain ⟨hm₁, hf'⟩ := hf.clearZone hz (List.Perm.refl _)
  obtain rfl : zoneCleared m old = m' := Except.ok.inj (hm₁.symm.trans hm)
  -- what the collector has scanned has no entry
  have hnot : ∀ ch, MappedAt m ch → ch.1 ≠ old := by
    intro ch hch hold
    rcases h.mapped ch hch with huse | hno
    · have hunused := hunused ch.2
      rw [← hold] at hunused
      rw [hunused] at huse
      cases huse
    · cases hno
  have hmapped : ∀ ch, MappedAt (zoneCleared m old) ch ↔ MappedAt m ch := by
    intro ch
    rw [hf'.mappedAt_iff, exists_eraseOn, ← hf.mappedAt_iff]
    exact and_iff_left_of_imp (hnot ch)
  constructor
  · exact h.books
  · exact ⟨_, hf'⟩
  · exact fun ch hch => h.mapped ch ((hmapped ch).mp hch)
  · exact fun ch hch => (h.used ch hch).imp_left (hmapped ch).mpr
  · exact fun t ch ht => (h.publishing t ch ht).imp_right fun hno hch => hno ((hmapped ch).mp hch)
  · exact h.apart
  · exact fun ch hch => by cases hch
  · intro e₁ he₁
    cases he₁
    trivial
  · exact h.heap

/-- One more chunk of the collector's zone is not in use. -/
theorem scan (h : Shared g p m pub e) {old i : Nat} (he : e = some (.gcScan old i))
    (huse : (p.pair (old, i)).inUse = false) :
    Shared g p m pub (some (.gcScan old ((i + 1) % 2 ^ 32))) := by
  subst he
  obtain ⟨hzone, hunused⟩ := h.scanned _ rfl
  apply h.goOn
  · rfl
  intro e₁ he₁
  cases he₁
  refine ⟨hzone, ?_⟩
  intro j hj
  by_cases hji : j = i
  · rw [hji]
    exact huse
  · have hle : (i + 1) % 2 ^ 32 ≤ i + 1 := Nat.mod_le _ _
    exact hunused j (by omega)

/-- All chunks of the collector's zone are not in use. -/
theorem scannedAll (h : Shared g p m pub e) {old i : Nat} (he : e = some (.gcScan old i))
    (hge : g.maxZoneChunks ≤ i) : Shared g p m pub (some (.gcClear old)) := by
  subst he
  obtain ⟨hzone, hunused⟩ := h.scanned _ rfl
  apply h.goOn
  · rfl
  intro e₁ he₁
  cases he₁
  refine ⟨hzone, ?_⟩
  intro j
  by_cases hji : j < i
  · exact hunused j hji
  · rw [← Bool.not_eq_true]
    intro huse
    have hin : j < g.maxZoneChunks := (h.books.inPool huse).2
    omega

end Shared

end ZnCache
