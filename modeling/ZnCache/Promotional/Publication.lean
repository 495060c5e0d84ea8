/-
  ZnCache.Promotional.Publication — what the cache map promises under the
  promotional policy, and when.

  `zn_fg_evict` clears the entries of a zone, waits for its readers, and resets
  it; its comment argues that nobody makes entries to the zone in between, for
  it is full.  But a writer gives its zone back before it inserts its entry.
  The zone may be full, evicted and reset before the entry of its last chunk
  appears: `late_entry`, `late_buffer`, `late_reader`.

  If no zone is cleared while a chunk of it waits to be inserted
  (`SysLabel.PublishedFirst`), every entry is right (`map_sound`), every buffer
  is the one asked for (`get_returns_valid`), and no zone is reset under a
  reader (`no_reader_at_reset`).
-/
import ZnCache.Promotional.Storage
import ZnCache.Promotional.Agreement

namespace ZnCache

open Lib

universe u

variable {Tid : Type u} [DecidableEq Tid] {g : Geometry} {rb : Buffer}

/-! ## §1. When zones are cleared after publication. -/

/-- One zone of one chunk. -/
abbrev oneChunk : Geometry := ⟨1, 1, 4096, 4096, 4096, .block⟩

/-- Everything succeeds. -/
abbrev allWell : Answers := ⟨0, [⟨4096, 0⟩], 4096⟩

/-- Thread `t` caches id 1; thread `u` evicts it; thread `t` caches id 2 and reads it. -/
def evictBetween {Tid : Type u} (t u : Tid) : List (SysLabel Tid) :=
  .get t 1 :: List.replicate 7 (.step t allWell) ++ [.ret t, .evictTask u]
    ++ List.replicate 6 (.step u allWell) ++ .get t 2 :: List.replicate 7 (.step t allWell)
    ++ .ret t :: .get t 2 :: List.replicate 5 (.step t allWell)

section PublishedFirst

variable [Fintype Tid] {s : Sys ZnPolicyPromotional FgEvict Tid}

/-- The zones' view of such a run. -/
theorem published_life {C : Sys ZnPolicyPromotional FgEvict Tid → SysLabel Tid → Prop}
    (hC : ∀ s l, C s l → l.PublishedFirst s) (hr : (cacheSystem Tid promotional g rb).Reach C s) :
    (lifeSystem Tid g rb).Reach (fun s l => l.PublishedFirst s) s.life :=
  life_simulates (fun s l _ hc _ _ hp => hp (hC s l hc)) hr

/-- **Every entry of the cache map is right.** -/
structure MapSound (s : Sys ZnPolicyPromotional FgEvict Tid) : Prop where
  /-- An entry refers to a zone in use, to a chunk written for its id since the
  last reset of the zone, and `data_map` agrees. -/
  entry : ∀ id l, s.cache.cacheMap.zoneMap id = some (.loc l) →
    (s.cache.zoneState.state l.zone).state ≠ .free
      ∧ s.cache.device.written l.zone l.chunkOffset = some id
      ∧ (s.cache.cacheMap.dataMap l.zone).lookup l.chunkOffset = some id
  distinct : ∀ id id' l l', s.cache.cacheMap.zoneMap id = some (.loc l) →
    s.cache.cacheMap.zoneMap id' = some (.loc l') → l.zone = l'.zone →
    l.chunkOffset = l'.chunkOffset → id = id'
  /-- A cleared zone has no entries. -/
  cleared : ∀ t i bound zone, (s.pool t).evicting = some (.wait i bound zone)
      ∨ (s.pool t).evicting = some (.reset i bound zone) →
    ∀ id l, s.cache.cacheMap.zoneMap id = some (.loc l) → l.zone ≠ zone

omit [DecidableEq Tid] [Fintype Tid] in
/-- The role of a thread in `zn_fg_evict`, called from wherever. -/
theorem role_of_evicting {t : Tid} {e : FgEvict} (h : (s.pool t).evicting = some e) :
    (s.pool t).role = e.role := by
  rcases evicting_eq h with hpc | ⟨id, hpc⟩
  · rw [hpc]; rfl
  · rw [hpc]; rfl

/-- **THE MAP IS SOUND** in every run that publishes before it clears. -/
theorem map_sound (hmax : g.maxZoneChunks < 2 ^ 32)
    (hr : (cacheSystem Tid promotional g rb).Reach (fun s l => l.PublishedFirst s) s) :
    MapSound s := by
  have hlife := published_life (fun _ _ h => h) hr
  have hc := chunks_reach hmax (fun _ _ h => h) hlife
  have hst := stored_reach hmax (fun _ _ h => h) hlife
  have hloc : ∀ {id l}, s.cache.cacheMap.zoneMap id = some (.loc l) →
      s.life.loc id = some (l.zone, l.chunkOffset) := fun h => locOf_eq_some.mpr ⟨_, h, rfl⟩
  refine ⟨fun id l h => ?_, fun id id' l l' h h' hz hoff => ?_, fun t i bound zone ht id l h hz => ?_⟩
  · have hlive : Live s.life.loc s.life.role id l.zone l.chunkOffset := Or.inl (hloc h)
    exact ⟨hc.used id _ _ hlive, hst.live id _ _ hlive, (hc.inverse id _ _).mp (hloc h)⟩
  · have hd := (hc.inverse id _ _).mp (hloc h)
    have hd' := (hc.inverse id' _ _).mp (hloc h')
    rw [hz, hoff, hd'] at hd
    exact (Option.some.inj hd).symm
  · have hcl : (s.life.role t).cleared = some zone := by
      rcases ht with ht | ht
      · rw [life_role, role_of_evicting ht]
        rfl
      · rw [life_role, role_of_evicting ht]
        rfl
    exact hc.cleared t zone hcl id l.chunkOffset (hz ▸ hloc h)

/-- Zone 0 is evicted and written again, and the map is sound. -/
theorem map_sound_evicted : ∃ s : Sys ZnPolicyPromotional FgEvict (Fin 2),
    s.cache.cacheMap.zoneMap 1 = none ∧ s.cache.cacheMap.zoneMap 2 = some (.loc ⟨0, 0, 0, false⟩)
      ∧ MapSound s := by
  obtain ⟨s, hr, hs⟩ := TransSys.Reach.exists_of_exec
    (T := cacheSystem (Fin 2) promotional oneChunk fun _ => 0) (C := fun s l => l.PublishedFirst s)
    sysExec_ok ⟨fun _ => 0, rfl⟩
    (fun s => s.cache.cacheMap.zoneMap 1 = none
      ∧ s.cache.cacheMap.zoneMap 2 = some (.loc ⟨0, 0, 0, false⟩)) (evictBetween 0 1) (by decide)
  obtain ⟨hgone, hentry⟩ := of_decide_eq_true hs
  exact ⟨s, hgone, hentry, map_sound (by decide) hr⟩

omit [DecidableEq Tid] [Fintype Tid] in
/-- What a test of the buffer returned for `id` finds. -/
theorem returned_of_any {pc : Pc FgEvict} {id : Nat} {p : Buffer → Bool}
    (h : (pc.returned.any fun r => r.1 == id && r.2.any p) = true) :
    ∃ data, pc = .get (.done id (some data)) ∧ p data = true := by
  obtain ⟨⟨id', result⟩, hr, hp⟩ := (Option.any_eq_true _ _).mp h
  obtain ⟨hid, hany⟩ := Bool.and_eq_true_iff.mp hp
  obtain ⟨data, rfl, hdata⟩ := (Option.any_eq_true _ _).mp hany
  obtain rfl : id' = id := by simpa using hid
  exact ⟨data, Pc.eq_of_returned hr, hdata⟩

/-- **EVERY BUFFER IS THE ONE ASKED FOR** in every run that publishes before it
clears. -/
theorem get_returns_valid (hg : g.Sound) (hmax : g.maxZoneChunks < 2 ^ 32)
    (hr : (cacheSystem Tid promotional g rb).Reach
      (fun s l => l.TransferOk g ∧ l.PublishedFirst s) s)
    {t : Tid} {id : Nat} {data : Buffer} (ht : s.pool t = .get (.done id (some data))) :
    ValidFor g.chunkSz rb id data
      ∧ (g.chunkSz < 2 ^ 32 → znValidateRead g.chunkSz data id rb = some 0) := by
  have hlife : (lifeSystem Tid g rb).Reach (fun s l => l.PublishedFirst s ∧ l.TransferOk) s.life :=
    life_simulates (fun s l _ hc _ ht hp => ⟨hp hc.2, ht hc.1⟩) hr
  have hbuf := buffers_reach hg hmax (fun _ _ h => h) hlife
  have hvalid : ValidFor g.chunkSz rb id data := by
    refine hbuf.valid t id data ?_
    rw [life_role, ht]
    rfl
  exact ⟨hvalid, fun hsz => hvalid.validate hsz⟩

/-- Zone 0 is evicted and written again, and id 2 is read from it. -/
theorem get_returns_valid_evicted : ∃ (s : Sys ZnPolicyPromotional FgEvict (Fin 2)) (data : Buffer),
    s.pool 0 = .get (.done 2 (some data)) ∧ ValidFor 4096 (fun _ => 0) 2 data
      ∧ (4096 < 2 ^ 32 → znValidateRead 4096 data 2 (fun _ => 0) = some 0) := by
  obtain ⟨s, hr, hs⟩ := TransSys.Reach.exists_of_exec
    (T := cacheSystem (Fin 2) promotional oneChunk fun _ => 0)
    (C := fun s l => l.TransferOk oneChunk ∧ l.PublishedFirst s)
    sysExec_ok ⟨fun _ => 0, rfl⟩
    (fun s => (s.pool 0).returned.any fun r => r.1 == 2 && r.2.any fun _ => true) (evictBetween 0 1) (by decide)
  obtain ⟨data, ht, -⟩ := returned_of_any hs
  have hg : oneChunk.Sound := ⟨⟨by decide, by decide⟩, by decide, by decide, by decide⟩
  exact ⟨s, data, ht, get_returns_valid hg (by decide) hr ht⟩

/-- **No zone is reset under a reader** in any run that publishes before it
clears. -/
theorem no_reader_at_reset (hmax : g.maxZoneChunks < 2 ^ 32)
    (hr : (cacheSystem Tid promotional g rb).Reach (fun s l => l.PublishedFirst s) s)
    {t : Tid} {i bound zone : Nat} (ht : (s.pool t).evicting = some (.reset i bound zone)) (u : Tid) :
    ¬ (s.pool u).Reads zone := by
  have hc := chunks_reach hmax (fun _ _ h => h) (published_life (fun _ _ h => h) hr)
  have hrole : s.life.role t = .resetting zone := by rw [life_role, role_of_evicting ht]; rfl
  intro hu
  obtain ⟨id, l, hl, rfl⟩ : ∃ id l, (s.life.role u).reads = some (id, l) ∧ l.zone = zone := by
    rw [life_role]
    generalize s.pool u = pc at hu ⊢
    match pc with
    | .get (.read id l) | .get (.readUpdate id l _) | .get (.readDone id l _) =>
      exact ⟨id, l, rfl, hu⟩
  exact hc.drained t _ hrole u id l hl rfl

end PublishedFirst

/-! ## §2. When they are not. -/

section Late

/-- Thread `t` writes the only chunk and gives its zone back; thread `u`, in
`evict_task`, takes the zone from the policy, clears it and finds no reader. -/
def fillAndClear {Tid : Type u} (t u : Tid) : List (SysLabel Tid) :=
  .get t 1 :: List.replicate 6 (.step t allWell) ++ .evictTask u :: List.replicate 4 (.step u allWell)

/-- Thread `u` resets the zone; thread `t` inserts its entry. -/
def resetThenInsert {Tid : Type u} (t u : Tid) : List (SysLabel Tid) :=
  fillAndClear t u ++ [.step u allWell, .step t allWell]

/-- Thread `t` writes id 2 to the recycled zone, then asks for id 1. -/
def readBack {Tid : Type u} (t u : Tid) : List (SysLabel Tid) :=
  resetThenInsert t u ++ [.ret t, .get t 2] ++ List.replicate 7 (.step t allWell)
    ++ [.ret t, .get t 1] ++ List.replicate 5 (.step t allWell)

/-- Ids are small, and all operations succeed. -/
abbrev Benign (g : Geometry) (_ : Sys ZnPolicyPromotional FgEvict (Fin 2)) (l : SysLabel (Fin 2)) :
    Prop := l.SmallId ∧ l.ZoneOk g ∧ l.TransferOk g

/-- A replayed run that ends in a state passing a test. -/
theorem benign_reach (p : Sys ZnPolicyPromotional FgEvict (Fin 2) → Bool)
    (ls : List (SysLabel (Fin 2)))
    (h : (TransSys.execAll (sysExec promotional oneChunk (fun _ => 0) (Benign oneChunk)) ls
      ⟨initCache promotional oneChunk fun _ => 0, fun _ => .idle⟩).any p = true) :
    ∃ s, (cacheSystem (Fin 2) promotional oneChunk fun _ => 0).Reach (Benign oneChunk) s ∧ p s = true :=
  TransSys.Reach.exists_of_exec sysExec_ok ⟨fun _ => 0, rfl⟩ p ls h

/-- **A late entry** refers to a free zone. -/
theorem late_entry : ∃ s, (cacheSystem (Fin 2) promotional oneChunk fun _ => 0).Reach
      (Benign oneChunk) s
    ∧ ∃ l, s.cache.cacheMap.zoneMap 1 = some (.loc l)
      ∧ (s.cache.zoneState.state l.zone).state = .free := by
  obtain ⟨s, hr, hs⟩ := benign_reach
    (fun s => s.cache.cacheMap.zoneMap 1 = some (.loc ⟨0, 0, 0, false⟩)
      ∧ (s.cache.zoneState.state 0).state = .free) (resetThenInsert 0 1) (by decide)
  obtain ⟨hentry, hfree⟩ := of_decide_eq_true hs
  exact ⟨s, hr, _, hentry, hfree⟩

/-- **A buffer with another id's data** is returned through the late entry. -/
theorem late_buffer : ∃ s, (cacheSystem (Fin 2) promotional oneChunk fun _ => 0).Reach
      (Benign oneChunk) s
    ∧ ∃ data, s.pool 0 = .get (.done 1 (some data))
      ∧ readId data = 2 ∧ znValidateRead oneChunk.chunkSz data 1 (fun _ => 0) = some (-1) := by
  obtain ⟨s, hr, hs⟩ := benign_reach
    (fun s => (s.pool 0).returned.any fun r => r.1 == 1 && r.2.any fun data => readId data == 2)
    (readBack 0 1) (by decide)
  obtain ⟨data, ht, hread⟩ := returned_of_any hs
  have hid : readId data = 2 := by simpa using hread
  refine ⟨s, hr, data, ht, hid, ?_⟩
  rw [znValidateRead, if_pos (by rw [hid]; decide)]

/-- **A reader in a zone about to be reset** comes through the late entry. -/
theorem late_reader : ∃ s, (cacheSystem (Fin 2) promotional oneChunk fun _ => 0).Reach
      (Benign oneChunk) s
    ∧ (s.pool 1).evicting = some (.reset 0 4 0) ∧ (s.pool 0).Reads 0
    ∧ ∃ s', sysStep promotional oneChunk (fun _ => 0) s (.step 1 allWell) = some (.ok s') := by
  obtain ⟨s, hr, hs⟩ := benign_reach
    (fun s => (s.pool 1).evicting = some (.reset 0 4 0) ∧ (s.pool 0).Reads 0
      ∧ (s.cache.zoneState.state 0).state = .full)
    (fillAndClear 0 1 ++ [.step 0 allWell, .ret 0, .get 0 1, .step 0 allWell]) (by decide)
  obtain ⟨hreset, hreads, hfull⟩ := of_decide_eq_true hs
  exact ⟨s, hr, hreset, hreads, reset_returns hreset (Or.inl rfl) hfull⟩

end Late

end ZnCache
