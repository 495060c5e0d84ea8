/-
  ZnCache.Chunk.Progress — whether an eviction makes room for the call that
  waits for it.

  `zn_cache_get` evicts when no zone is free and none is open, and asks for a
  zone again.  The policy goes by the number of chunks in its queue.  Full zones
  whose chunks have been evicted before count as free chunks there: with more
  than six of those the eviction does nothing, and the call asks for ever.

  In a run of one call at a time no live chunk has been moved where a call asks
  for an eviction.  The collector acquires a zone for the chunk and gives no
  zone back (`KeptOut`), and while a zone is out nobody is told to evict.

  Main results:
    * `moves_none_or` — there are no moves to look at,
    * `fg_evict_makes_room` — exactly which evictions make room,
    * `fg_evict_refuses` — one that does not.
-/
import ZnCache.Chunk.Target
import ZnCache.Chunk.Recency

namespace ZnCache

open Lib

universe u

/-! ## §1. Zones that are out. -/

/-- Whether the collector has acquired a zone for the chunk it is at. -/
def ChunkEvict.outstanding : ChunkEvict → Nat
  | .gcRead .. | .gcWrite .. | .gcInsert .. => 1
  | .lock | .pop .. | .mark .. | .clear .. | .gc | .gcLoop _ | .gcScan .. | .gcClear _ | .gcReset _
  | .gcFree | .unlock => 0

/-- Whether a call has a zone that it is to give back. -/
def GetPc.outstanding : GetPc ChunkEvict → Nat
  | .write .. | .miss .. | .commit .. | .undoZoneGet .. => 1
  | .evict _ e => e.outstanding
  | .find _ | .findWait .. | .read .. | .readUpdate .. | .readDone .. | .hit .. | .acquire _
  | .writeUpdate .. | .publish .. | .undoMap _ | .done .. => 0

/-- The same for a thread of the system. -/
def Pc.outstanding : Pc ChunkEvict → Nat
  | .get pc => pc.outstanding
  | .evictor e => e.outstanding
  | .idle => 0

theorem Pc.outstanding_of_evicting {pc : Pc ChunkEvict} {e : ChunkEvict}
    (h : pc.evicting = some e) : pc.outstanding = e.outstanding := by
  rcases evicting_eq h with rfl | ⟨id, rfl⟩ <;> rfl

theorem AcquireCase.writes {s s' : ZoneStateManager} {r : ZsmGetActiveZone} (h : AcquireCase s r s') :
    s.writesOccurring ≤ s'.writesOccurring := by
  cases h with
  | unchanged | lost => exact le_refl _
  | reuse | opened =>
    show _ ≤ s.writesOccurring + 1
    omega

theorem ReturnCase.writes {g : Geometry} {s s' : ZoneStateManager} {pair : ZnPair}
    (h : ReturnCase g s pair s') : s'.writesOccurring = s.writesOccurring - 1 := by
  cases h with
  | closed | stuck | reopened => rfl

/-- **A step of an eviction** gives no zone back; what it acquires is out, or is
forgotten. -/
theorem ChunkEvictCase.outstanding {g : Geometry} {a : Answers} {s s' : CacheState ZnPolicyChunk}
    {e : ChunkEvict} {e' : Option ChunkEvict} (h : ChunkEvictCase g a s e s' e') :
    ((e'.elim 0 ChunkEvict.outstanding : Nat) : Int) + s.zoneState.writesOccurring
        ≤ e.outstanding + s'.zoneState.writesOccurring
      ∧ (e.Moves → ((e'.elim 0 ChunkEvict.outstanding : Nat) : Int) + 1 + s.zoneState.writesOccurring
        ≤ e.outstanding + s'.zoneState.writesOccurring) := by
  cases h with
  | refuse | enter | pop | popped | mark | clear | gcSkip | gcStart | gcDone | gcPick | gcSkipChunk
  | gcScanned | gcRead | gcWrite | gcClear | gcFree | unlock =>
    exact ⟨le_refl _, fun hmoves => hmoves.elim⟩
  | gcAcquire hlt hr =>
    have hone := (zsmGetActiveZone_cases hr).success_writes
    refine ⟨?_, fun hmoves => hmoves.elim⟩
    show (1 : Int) + _ ≤ 0 + ZoneStateManager.writesOccurring _
    dsimp only
    omega
  | gcInsert =>
    refine ⟨?_, fun _ => ?_⟩
    · show (0 : Int) + s.zoneState.writesOccurring ≤ 1 + s.zoneState.writesOccurring
      omega
    · show (0 : Int) + 1 + s.zoneState.writesOccurring ≤ 1 + s.zoneState.writesOccurring
      omega
  | gcReset hr =>
    obtain ⟨-, -, -, rfl⟩ := zsmEvict_returns hr
    exact ⟨le_refl _, fun hmoves => hmoves.elim⟩

section Runs

variable {Tid : Type u} [DecidableEq Tid] {g : Geometry} {rb : Buffer}
  {mem : Nat → EvictionPolicyChunkZone}

/-- **A step of `zn_cache_get`** gives back what it has. -/
theorem GetCase.outstanding {a : Answers} {s s' : CacheState ZnPolicyChunk}
    {pc pc' : GetPc ChunkEvict} (h : GetCase (chunk mem) g rb a s pc s' pc') :
    (pc'.outstanding : Int) + s.zoneState.writesOccurring
      ≤ pc.outstanding + s'.zoneState.writesOccurring := by
  cases h with
  | @find id r | @wake id c seen r => cases r <;> exact le_refl _
  | read | readUpdate | readDone | hit | miss | writeUpdate | publish | undoMap => exact le_refl _
  | @acquire id r z hr =>
    have hcase := zsmGetActiveZone_cases hr
    cases r with
    | success l =>
      have hone := hcase.success_writes
      show (1 : Int) + s.zoneState.writesOccurring ≤ 0 + z.writesOccurring
      omega
    | retry | error | evict =>
      have hle := hcase.writes
      show (0 : Int) + s.zoneState.writesOccurring ≤ 0 + z.writesOccurring
      omega
  | @evict id e s' e' hstep =>
    have hle := (chunkEvictStep_cases hstep).outstanding.1
    cases e' <;> exact hle
  | @write id l r d =>
    by_cases hr : r = 0
    · rw [if_neg (by simpa using hr)]
      exact le_refl _
    · rw [if_pos hr]
      exact le_refl _
  | @commit id l data r z hr =>
    have hless := (zsmReturnActiveZone_cases hr).2.2.writes
    show (0 : Int) + s.zoneState.writesOccurring ≤ 1 + z.writesOccurring
    omega
  | @undoZoneGet id l z hr =>
    obtain ⟨-, -, rfl⟩ := zsmFailedToWrite_cases hr
    show (0 : Int) + s.zoneState.writesOccurring ≤ 1 + (s.zoneState.writesOccurring - 1)
    omega

/-- **`k` zones are out** beside what the threads have. -/
def KeptOut (k : Nat) (s : Sys ZnPolicyChunk ChunkEvict Tid) : Prop :=
  ∀ t, (k : Int) + (s.pool t).outstanding ≤ s.cache.zoneState.writesOccurring

namespace KeptOut

variable {s s' : Sys ZnPolicyChunk ChunkEvict Tid} {l : SysLabel Tid} {k : Nat}

/-- The only thread that is in a call moves. -/
theorem goto {t : Tid} {c : CacheState ZnPolicyChunk} {pc : Pc ChunkEvict}
    (hothers : ∀ u, u ≠ t → (s.pool u).isIdle = true)
    (h : (k : Int) + pc.outstanding ≤ c.zoneState.writesOccurring) : KeptOut k (s.goto t c pc) := by
  intro u
  rw [Sys.goto_pool, Sys.goto_cache]
  by_cases hu : u = t
  · rw [hu, Function.update_self]
    exact h
  · rw [Function.update_of_ne hu]
    have hidle := hothers u hu
    cases hpc : s.pool u with
    | idle =>
      show (k : Int) + 0 ≤ _
      omega
    | get gp | evictor e =>
      rw [hpc] at hidle
      cases hidle

/-- **Step lemma.** -/
theorem step (h : KeptOut k s) (halone : l.Alone s) (hs : SysCase (chunk mem) g rb s l s') :
    KeptOut k s' := by
  cases hs with
  | taskSleeps => exact h
  | @get t id ht | @fgEvict t ht | @taskEvicts t ht | @ret t id data ht =>
    have hold := h t
    rw [ht] at hold
    exact goto halone hold
  | @step t a gp gp' c ht hcase =>
    have hold := h t
    rw [ht] at hold
    have hle := hcase.outstanding
    apply goto halone
    show (k : Int) + gp'.outstanding ≤ _
    change (k : Int) + gp.outstanding ≤ _ at hold
    omega
  | @evict t a e e' c ht hstep =>
    have hold := h t
    rw [ht] at hold
    have hle := (chunkEvictStep_cases hstep).outstanding.1
    have hpc : (evictorPc e').outstanding = e'.elim 0 ChunkEvict.outstanding := by
      cases e' <;> rfl
    apply goto halone
    rw [hpc]
    change (k : Int) + e.outstanding ≤ _ at hold
    omega

/-- A live chunk is moved, and the zone it is moved to stays out. -/
theorem of_move (h : KeptOut 0 s) (halone : l.Alone s) (hmoves : ¬ l.MovesNone s)
    (hs : SysCase (chunk mem) g rb s l s') : KeptOut 1 s' := by
  unfold SysLabel.MovesNone at hmoves
  push Not at hmoves
  obtain ⟨e, he, hmove⟩ := hmoves
  have hold := h l.thread
  rw [Pc.outstanding_of_evicting he] at hold
  have hmoved : ∀ {a : Answers} {c : CacheState ZnPolicyChunk} {e' : Option ChunkEvict}
      {pc : Pc ChunkEvict}, (chunk mem).step g a s.cache e = some (.ok (c, e')) →
      pc.outstanding = e'.elim 0 ChunkEvict.outstanding → KeptOut 1 (s.goto l.thread c pc) := by
    intro a c e' pc hstep hpc
    have hmore := (chunkEvictStep_cases hstep).outstanding.2 hmove
    apply goto halone
    rw [hpc]
    omega
  cases hs with
  | get ht | fgEvict ht | taskSleeps ht | taskEvicts ht | ret ht =>
    -- none of these is a step of an eviction
    have hnone := (congrArg Pc.evicting ht).symm.trans he
    cases hnone
  | @evict t a e₁ e' c ht hstep =>
    have hat := (congrArg Pc.evicting ht).symm.trans he
    cases hat
    apply hmoved hstep
    cases e' <;> rfl
  | @step t a pc pc' c ht hcase =>
    have hat := (congrArg Pc.evicting ht).symm.trans he
    cases hcase with
    | @evict id e₁ c e' hstep =>
      cases hat
      apply hmoved hstep
      cases e' <;> rfl
    | find | wake | read | readUpdate | readDone | hit | acquire | write | miss | commit
    | writeUpdate | publish | undoZoneGet | undoMap => cases hat

end KeptOut

/-! ## §2. Runs of one call at a time. -/

/-- One call at a time, small ids, and zone commands that succeed. -/
def SysLabel.Single (g : Geometry) (s : Sys ZnPolicyChunk ChunkEvict Tid) (l : SysLabel Tid) : Prop :=
  l.Alone s ∧ l.SmallId ∧ l.ZoneOk g

instance SysLabel.decSingle [Fintype Tid] (g : Geometry) (s : Sys ZnPolicyChunk ChunkEvict Tid)
    (l : SysLabel Tid) : Decidable (l.Single g s) := inferInstanceAs (Decidable (_ ∧ _ ∧ _))

variable {s : Sys ZnPolicyChunk ChunkEvict Tid}

/-- What a thread has is out. -/
theorem KeptOut.reach
    (hr : (cacheSystem Tid (chunk mem) g rb).Reach (fun s l => l.Single g s) s) : KeptOut 0 s := by
  apply TransSys.Reach.invariant (I := KeptOut 0) _ _ hr
  · intro s hs t
    obtain ⟨bytes, rfl⟩ := hs
    exact le_refl _
  · intro s l s' _ h hc hs
    exact h.step hc.1 (sysStep_cases hs)

/-- **No live chunk has been moved**, or a zone is out for good. -/
theorem moves_none_or (hr : (cacheSystem Tid (chunk mem) g rb).Reach (fun s l => l.Single g s) s) :
    (cacheSystem Tid (chunk mem) g rb).Reach (fun s l => l.Single g s ∧ l.MovesNone s) s
      ∨ KeptOut 1 s := by
  induction hr with
  | start h => exact Or.inl (.start h)
  | @next s s' l hreach hc hs ih =>
    rcases ih with hnone | hout
    · by_cases hmoves : l.MovesNone s
      · exact Or.inl (.next hnone ⟨hc, hmoves⟩ hs)
      · exact Or.inr ((KeptOut.reach hreach).of_move hc.1 hmoves (sysStep_cases hs))
    · exact Or.inr (hout.step hc.1 (sysStep_cases hs))

/-- A thread that is in `zn_cache_get` took the last step itself. -/
theorem last_step {C : Sys ZnPolicyChunk ChunkEvict Tid → SysLabel Tid → Prop}
    (hC : ∀ s l, C s l → l.Alone s) (hr : (cacheSystem Tid (chunk mem) g rb).Reach C s) {t : Tid}
    {gp : GetPc ChunkEvict} (ht : s.pool t = .get gp) :
    (∃ id, gp = .find id) ∨ ∃ s₀ a gp₀, (cacheSystem Tid (chunk mem) g rb).Reach C s₀
      ∧ C s₀ (.step t a) ∧ s₀.pool t = .get gp₀ ∧ GetCase (chunk mem) g rb a s₀.cache gp₀ s.cache gp := by
  cases hr with
  | start h =>
    obtain ⟨bytes, rfl⟩ := h
    cases ht
  | @next s₀ s l hreach hc hs =>
    have hcase := sysStep_cases hs
    have hmover : l.thread = t := by
      by_contra hne
      have hidle := hC s₀ l hc t (Ne.symm hne)
      rw [← hcase.other (Ne.symm hne), ht] at hidle
      cases hidle
    have hself : ∀ {u : Tid} {c : CacheState ZnPolicyChunk} {pc : Pc ChunkEvict}, u = t →
        (s₀.goto u c pc).pool t = .get gp → pc = .get gp := by
      intro u c pc hu hpc
      rw [Sys.goto_pool, hu, Function.update_self] at hpc
      exact hpc
    cases hcase with
    | get =>
      cases hself hmover ht
      exact Or.inl ⟨_, rfl⟩
    | fgEvict | taskEvicts | ret => cases hself hmover ht
    | @evict _ _ _ e' =>
      have hpc := hself hmover ht
      cases e' <;> cases hpc
    | @taskSleeps u hidle =>
      obtain rfl : u = t := hmover
      have hno := hidle.symm.trans ht
      cases hno
    | @step u a gp₀ gp' c hpc hget =>
      cases hself hmover ht
      obtain rfl : u = t := hmover
      exact Or.inr ⟨s₀, a, gp₀, hreach, hc, hpc, hget⟩

/-- **A call is told to evict** when no zone is free, open or out. -/
theorem asked_to_evict (hpos : 1 ≤ g.maxZoneChunks)
    (hr : (cacheSystem Tid (chunk mem) g rb).Reach (fun s l => l.Single g s) s) {t : Tid} {id : Nat}
    (ht : s.pool t = .get (.evict id .lock)) :
    s.cache.zoneState.free = [] ∧ s.cache.zoneState.active = []
      ∧ s.cache.zoneState.writesOccurring = 0 := by
  rcases last_step (fun _ _ hc => hc.1) hr ht with ⟨id', hfind⟩ | ⟨s₀, a, gp₀, hreach, hc, -, hcase⟩
  · cases hfind
  · have hinv := zsm_inv_reach hpos (chunk_zsm_inv hpos) (fun _ _ hc => hc.2.2) hreach
    generalize hgp : GetPc.evict id ChunkEvict.lock = gp at hcase
    generalize s.cache = c at hcase
    cases hcase with
    | read | readUpdate | readDone | hit | miss | commit | writeUpdate | publish | undoZoneGet
    | undoMap => cases hgp
    | @find id' r | @wake id' cond seen r => cases r <;> cases hgp
    | @write id' l r =>
      by_cases hr : r = 0
      · rw [if_neg (by simpa using hr)] at hgp
        cases hgp
      · rw [if_pos hr] at hgp
        cases hgp
    | @evict id' e c e' hstep =>
      cases e' with
      | none => cases hgp
      | some e' =>
        cases hgp
        cases chunkEvictStep_cases hstep
    | @acquire id' r z hr =>
      cases r with
      | success | retry | error => cases hgp
      | evict =>
        obtain ⟨r', z', heq, hgets⟩ := zsmGetActiveZone_spec hinv hc.2.2
        rw [hr] at heq
        cases heq
        cases hgets with
        | evict ha hf hw => exact ⟨hf, ha, hw⟩

/-- A chunk that is to be reported, and is not the last one of its zone, is in a
zone that is open. -/
theorem reported_open (hpos : 1 ≤ g.maxZoneChunks) (hmax : g.maxZoneChunks < 2 ^ 32)
    (hr : (cacheSystem Tid (chunk mem) g rb).Reach (fun s l => l.Single g s) s) {t : Tid} {id : Nat}
    {l : ZnPair} {data : Buffer} (ht : s.pool t = .get (.writeUpdate id l data))
    (hlast : l.chunkOffset ≠ g.lastChunk) : (s.cache.zoneState.state l.zone).state = .active := by
  rcases last_step (fun _ _ hc => hc.1) hr ht with ⟨id', hfind⟩ | ⟨s₀, a, gp₀, hreach, hc, -, hcase⟩
  · cases hfind
  · have hinv := zsm_inv_reach hpos (chunk_zsm_inv hpos) (fun _ _ hc => hc.2.2) hreach
    generalize hgp : GetPc.writeUpdate id l data = gp at hcase
    generalize s.cache = c at hcase ⊢
    cases hcase with
    | read | readUpdate | readDone | hit | miss | writeUpdate | publish | undoZoneGet | undoMap =>
      cases hgp
    | @find id' r | @wake id' cond seen r | @acquire id' r => cases r <;> cases hgp
    | @write id' l' r =>
      by_cases hr : r = 0
      · rw [if_neg (by simpa using hr)] at hgp
        cases hgp
      · rw [if_pos hr] at hgp
        cases hgp
    | @evict id' e c e' hstep => cases e' <;> cases hgp
    | commit hr =>
      cases hgp
      obtain ⟨hst, hoff, -⟩ := zsmReturnActiveZone_cases hr
      rw [zsmReturnActiveZone_spec hinv hc.2.2 hst hoff] at hr
      obtain rfl : committed g s₀.cache.zoneState l = _ := (Prod.mk.inj (Except.ok.inj hr)).2
      -- the zone is not full with this chunk
      have hroom := hinv.open_offset l.zone (Or.inr hst)
      rw [hoff] at hroom
      have hnot : (l.chunkOffset + 1) % 2 ^ 32 ≠ g.maxZoneChunks := by
        unfold Geometry.lastChunk at hlast
        omega
      show ((committed g s₀.cache.zoneState l).state l.zone).state = _
      unfold committed
      rw [if_neg hnot]
      show (Function.update s₀.cache.zoneState.state l.zone _ l.zone).state = _
      rw [Function.update_self]
      rfl

/-- **Nothing goes wrong** in such a run while no live chunk is moved. -/
theorem single_regular (hzones : g.nrZones < 2 ^ 31) (hpos : 1 ≤ g.maxZoneChunks)
    (hmax : g.maxZoneChunks < 2 ^ 32) (hmem : ∀ z, z < g.nrZones → (mem z).pqueueEntry = none)
    (hr : (cacheSystem Tid (chunk mem) g rb).Reach (fun s l => l.Single g s ∧ l.MovesNone s) s) :
    (cacheSystem Tid (chunk mem) g rb).Reach (fun s l => l.Regular g s) s := by
  induction hr with
  | start h => exact .start h
  | @next s s' l hreach hc hs ih =>
    obtain ⟨⟨halone, hid, hok⟩, hmoves⟩ := hc
    refine .next ih ⟨hid, hok, hmoves, halone.popsPublished, ?_⟩ hs
    -- a filed zone is full, and not this thread's
    have hfiled := FiledSys.reach hzones hpos hmax hmem ih
    intro z hz hin
    have hfull := hfiled.filed_full z hin
    cases hpc : s.pool l.thread with
    | idle | evictor e =>
      rw [hpc] at hz
      cases hz
    | get gp =>
      rw [hpc] at hz
      cases gp with
      | writeUpdate id loc data =>
        obtain rfl : loc.zone = z := Option.some.inj hz
        by_cases hlast : loc.chunkOffset = g.lastChunk
        · apply hfiled.tokens.apart l.thread loc.zone _ hin
          show (s.pool l.thread).owned g = some loc.zone
          rw [hpc]
          exact if_pos hlast
        · rw [reported_open hpos hmax (hreach.mono fun _ _ hc => hc.1) hpc hlast] at hfull
          cases hfull
      | find | findWait | read | readUpdate | readDone | hit | acquire | evict | write | miss
      | commit | publish | undoZoneGet | undoMap | done => cases hz

/-! ## §3. Room for a call. -/

/-- A zone that is handed out was not full. -/
theorem AcquireCase.of_full {s s' : ZoneStateManager} {r : ZsmGetActiveZone} (h : AcquireCase s r s')
    {z : Nat} (hz : (s'.state z).state = .full) : (s.state z).state = .full := by
  have hother : ∀ {z' : Nat} {zn : ZnZone}, zn.state ≠ .full →
      (Function.update s.state z' zn z).state = .full → (s.state z).state = .full := by
    intro z' zn hzn hst
    by_cases heq : z = z'
    · rw [heq, Function.update_self] at hst
      exact absurd hst hzn
    · rwa [Function.update_of_ne heq] at hst
  have hwriting : ZnZoneCondition.writeOccuring ≠ .full := by decide
  cases h with
  | unchanged | lost => exact hz
  | reuse | opened => exact hother hwriting hz

/-- An eviction closes no zone. -/
theorem ChunkEvictCase.of_full {a : Answers} {c c' : CacheState ZnPolicyChunk} {e : ChunkEvict}
    {e' : Option ChunkEvict} (h : ChunkEvictCase g a c e c' e') {z : Nat}
    (hz : (c'.zoneState.state z).state = .full) : (c.zoneState.state z).state = .full := by
  cases h with
  | refuse | enter | pop | popped | clear | gcSkip | gcStart | gcDone | gcPick | gcSkipChunk
  | gcScanned | gcRead | gcWrite | gcInsert | gcClear | gcFree | unlock => exact hz
  | mark => exact ((zsmMarkChunkInvalid_same _ _ z).2.1).symm.trans hz
  | gcAcquire _ hr => exact (zsmGetActiveZone_cases hr).of_full hz
  | @gcReset old r z' hr =>
    obtain ⟨-, -, -, rfl⟩ := zsmEvict_returns hr
    change (Function.update c.zoneState.state _ _ z).state = _ at hz
    by_cases heq : z = (c.policy.zonePool old).zoneId
    · rw [heq, Function.update_self] at hz
      cases hz
    · rwa [Function.update_of_ne heq] at hz

/-- While a zone is written to, a zone can be open. -/
theorem ZsmInv.room_of_writing {g : Geometry} {s : ZoneStateManager} (h : ZsmInv g s) {z : Nat}
    (hz : (s.state z).state = .writeOccuring) : 1 ≤ g.maxNrActiveZones := by
  have hlt : z < g.nrZones := h.lt_of_state (by rw [hz]; decide)
  have hsome : zonesIn g s .writeOccuring ≠ 0 := by
    intro hnone
    exact (ThreadPool.countOn_eq_zero_iff _ _).mp hnone z (Finset.mem_range.mpr hlt) hz
  have hwrites := h.writes
  have hroom := h.room
  omega

/-- A device with a full zone can have a zone open. -/
theorem full_opened (hpos : 1 ≤ g.maxZoneChunks)
    {C : Sys ZnPolicyChunk ChunkEvict Tid → SysLabel Tid → Prop} (hC : ∀ s l, C s l → l.ZoneOk g)
    (hr : (cacheSystem Tid (chunk mem) g rb).Reach C s) {z : Nat}
    (hz : (s.cache.zoneState.state z).state = .full) : 1 ≤ g.maxNrActiveZones := by
  have hall : ∀ z, (s.cache.zoneState.state z).state = .full → 1 ≤ g.maxNrActiveZones := by
    apply TransSys.Reach.invariant (I := fun s : Sys ZnPolicyChunk ChunkEvict Tid =>
      ∀ z, (s.cache.zoneState.state z).state = .full → 1 ≤ g.maxNrActiveZones) _ _ hr
    · intro s hs z hz
      obtain ⟨bytes, rfl⟩ := hs
      cases hz
    · intro s l s' hreach h hc hs
      have hinv := zsm_inv_reach hpos (chunk_zsm_inv hpos) hC hreach
      have hok := hC s l hc
      -- a zone that was not full has been closed
      intro z hz
      cases sysStep_cases hs with
      | get | fgEvict | taskSleeps | taskEvicts | ret => exact h z hz
      | evict _ hstep => exact h z ((chunkEvictStep_cases hstep).of_full hz)
      | step _ hcase =>
        cases hcase with
        | find | wake | read | readUpdate | readDone | hit | write | miss | writeUpdate | publish
        | undoMap => exact h z hz
        | acquire hr => exact h z ((zsmGetActiveZone_cases hr).of_full hz)
        | evict hstep => exact h z ((chunkEvictStep_cases hstep).of_full hz)
        | commit hr => exact hinv.room_of_writing (zsmReturnActiveZone_cases hr).1
        | undoZoneGet hr => exact hinv.room_of_writing (zsmFailedToWrite_cases hr).1
  exact hall z hz

/-- **What an eviction is to come to**: it returns with a zone free, and the
call that waits for it gets one. -/
def MakesRoom (g : Geometry) (s : CacheState ZnPolicyChunk) : Prop :=
  (evictionCall g).Total (Answers.Obeys g) (s, .running .lock) fun y =>
    1 ≤ zsmGetNumFreeZones y.1.zoneState ∧ ∀ a, Answers.Obeys g a →
      ∃ l z, zsmGetActiveZone g a.ret y.1.zoneState = .ok (.success l, z)

/-- **What it takes**: the queue is long enough to evict from it, and at its head
it has the last chunks of four full zones. -/
def ZnPolicyChunk.EmptiesEnough (p : ZnPolicyChunk) : Prop :=
  ¬ p.Refuses ∧ evictLowThreshZones ≤ p.emptied

instance (p : ZnPolicyChunk) : Decidable p.EmptiesEnough := inferInstanceAs (Decidable (_ ∧ _))

omit [DecidableEq Tid] in
/-- A zone can be had where one is free, and none is open or out. -/
theorem acquire_succeeds {z : ZoneStateManager} (h : ZsmInv g z) {ret : Int} (hret : DeviceOk g ret)
    (hact : 1 ≤ g.maxNrActiveZones) (hactive : z.active = []) (hwrites : z.writesOccurring = 0)
    (hfree : 1 ≤ zsmGetNumFreeZones z) :
    ∃ l z', zsmGetActiveZone g ret z = .ok (.success l, z') := by
  have hsome : z.free ≠ [] := by
    intro hnil
    unfold zsmGetNumFreeZones at hfree
    rw [hnil] at hfree
    cases hfree
  obtain ⟨r, z', heq, hcase⟩ := zsmGetActiveZone_spec h hret
  cases hcase with
  | evict _ hf => exact absurd hf hsome
  | retry _ hbusy =>
    rcases hbusy with hf | hfull
    · exact absurd hf hsome
    · omega
  | reuse ha =>
    rw [hactive] at ha
    cases ha
  | opened => exact ⟨_, _, heq⟩

omit [DecidableEq Tid] in
/-- A zone that the eviction leaves empty was full. -/
theorem EvictInv.exists_full {e : Option ChunkEvict} {c : CacheState ZnPolicyChunk}
    {pub : Tid → Option (Nat × Nat)} (h : EvictInv g pub e c) (hsome : 1 ≤ c.policy.emptied) :
    ∃ z, (c.zoneState.state z).state = .full := by
  obtain ⟨z, hz, -⟩ := List.countP_pos_iff.mp hsome
  exact ⟨z, h.filed_full z hz⟩

/-- **Where a call is told to evict**, nothing has gone wrong before. -/
theorem told_to_evict (hzones : g.nrZones < 2 ^ 31) (hpos : 1 ≤ g.maxZoneChunks)
    (hmax : g.maxZoneChunks < 2 ^ 32) (hmem : ∀ z, z < g.nrZones → (mem z).pqueueEntry = none)
    (hr : (cacheSystem Tid (chunk mem) g rb).Reach (fun s l => l.Single g s) s) {t : Tid} {id : Nat}
    (ht : s.pool t = .get (.evict id .lock)) :
    EvictInv g (fun _ : Tid => none) none s.cache ∧ s.cache.policy.locked = false
      ∧ s.cache.policy.AllZero := by
  have hat : (s.pool t).evicting = some .lock := congrArg Pc.evicting ht
  have hnone : (cacheSystem Tid (chunk mem) g rb).Reach (fun s l => l.Single g s ∧ l.MovesNone s) s := by
    rcases moves_none_or hr with hnone | hout
    · exact hnone
    · have hone := hout t
      rw [(asked_to_evict hpos hr ht).2.2] at hone
      omega
  have hreg := single_regular hzones hpos hmax hmem hnone
  have hlone : s.Lone := Sys.Lone.reach (fun _ _ hc => hc.1) hr
  have hsys := ChunkSys.reach hmax (fun _ _ hc => ⟨hc.1, hc.2.2.1, hc.2.2.2.1⟩) hreg
  obtain ⟨hlock, hsh⟩ := hsys.at_lock hlone hat
  have hinv := EvictInv.reach hzones hpos hmax hmem hreg hlock
  exact ⟨⟨hsh, hinv.zsm, hinv.filed, hinv.filed_full, hinv.zones⟩, hlock,
    allZero_reach hmax (fun _ _ hc => ⟨hc.1, hc.2.2.1, hc.2.2.2.1⟩) hreg⟩

section Room

variable {c : CacheState ZnPolicyChunk}

omit [DecidableEq Tid] in
/-- A call whose queue is too short returns 1, and nothing has changed. -/
theorem EvictInv.refuses_total_iff (h : EvictInv g (fun _ : Tid => none) none c)
    (hlock : c.policy.locked = false) (htotal : evictLowThreshChunks ≤ c.policy.totalChunks)
    (hrefuses : c.policy.Refuses) {Q : CacheState ZnPolicyChunk × EvictCall → Prop} :
    (evictionCall g).Total (Answers.Obeys g) (c, .running .lock) Q ↔ Q (c, .returned 1) := by
  have h32 : c.policy.totalChunks < 2 ^ 32 := by
    rw [h.shared.books.total]
    exact Nat.mod_lt _ (Nat.two_pow_pos 32)
  exact (evictionCall_total_iff (Answers.exists_obeys g) fun a _ =>
    lock_refuses hlock htotal h32 hrefuses a).trans
      (Program.Total.result_iff rfl (Answers.exists_obeys g))

omit [DecidableEq Tid] in
/-- **Four zones are empty**: the call gets one of them. -/
theorem EvictInv.makesRoom (h : EvictInv g (fun _ : Tid => none) none c) (hzones : g.nrZones < 2 ^ 31)
    (hmax : g.maxZoneChunks < 2 ^ 32) (hlock : c.policy.locked = false)
    (htotal : evictLowThreshChunks ≤ c.policy.totalChunks) (hact : 1 ≤ g.maxNrActiveZones)
    (hactive : c.zoneState.active = []) (hwrites : c.zoneState.writesOccurring = 0)
    (hfree : c.zoneState.free = []) (henough : c.policy.EmptiesEnough) : MakesRoom g c := by
  obtain ⟨hmeets, hfour⟩ := henough
  have hnone : zsmGetNumFreeZones c.zoneState = 0 := congrArg List.length hfree
  obtain ⟨c₁, h₁, hfree₁, hempty, hopen₁, -, -, hphase⟩ :=
    h.reaches_gc hzones hmax hlock htotal hmeets fun _ _ _ hpub => by cases hpub
  obtain ⟨c₂, h₂, hopen₂, hfree₂, hcall⟩ := h₁.collects hzones hmax (by
    rw [hfree₁, hempty]
    omega)
  have hroom : 1 ≤ zsmGetNumFreeZones c₂.zoneState := by
    have hlow := hfree₂ (by omega)
    exact Nat.le_trans (by decide) hlow
  apply (hphase _ rfl (fun _ _ => rfl) (fun _ _ _ => rfl) (fun _ _ _ => rfl) _).mpr
  apply (hcall _).mpr
  refine ⟨hroom, ?_⟩
  intro a ha
  apply acquire_succeeds h₂.zsm ha.1 hact _ _ hroom
  · exact (hopen₂.1.trans hopen₁.1).trans hactive
  · exact (hopen₂.2.trans hopen₁.2).trans hwrites

omit [DecidableEq Tid] in
/-- **Otherwise** it gets none, or does not return. -/
theorem EvictInv.emptiesEnough (h : EvictInv g (fun _ : Tid => none) none c)
    (hzones : g.nrZones < 2 ^ 31) (hmax : g.maxZoneChunks < 2 ^ 32) (hlock : c.policy.locked = false)
    (htotal : evictLowThreshChunks ≤ c.policy.totalChunks) (hzero : c.policy.AllZero)
    (hactive : c.zoneState.active = []) (hfree : c.zoneState.free = [])
    (hroom : MakesRoom g c) : c.policy.EmptiesEnough := by
  have hnone : zsmGetNumFreeZones c.zoneState = 0 := congrArg List.length hfree
  have hmeets : ¬ c.policy.Refuses := by
    intro hrefuses
    have hone := ((h.refuses_total_iff hlock htotal hrefuses).mp hroom).1
    rw [hnone] at hone
    cases hone
  refine ⟨hmeets, ?_⟩
  obtain ⟨c₁, h₁, hfree₁, hempty, hopen, hzero', -, hphase⟩ :=
    h.reaches_gc hzones hmax hlock htotal hmeets fun _ _ _ hpub => by cases hpub
  have hcall := (hphase _ rfl (fun _ _ => rfl) (fun _ _ _ => rfl) (fun _ _ _ => rfl) _).mp hroom
  have hlow := h₁.enough hzones hmax (hzero' hzero) (Or.inr (hopen.1.trans hactive)) hcall
    (by rw [hfree₁, hnone]; decide)
  rw [hfree₁, hempty, hnone, Nat.zero_add] at hlow
  exact hlow

end Room

/-- **THE PROGRESS THEOREM.**  In every run of one call at a time, where a call
is told to evict, the eviction returns with a zone free that the call gets, if
and only if the queue is long enough to evict from and has the last chunks of
four full zones at its head. -/
theorem fg_evict_makes_room (hzones : g.nrZones < 2 ^ 31) (hpos : 1 ≤ g.maxZoneChunks)
    (hmax : g.maxZoneChunks < 2 ^ 32)
    (htotal : evictLowThreshChunks ≤ (znPolicyChunkInit mem g).totalChunks)
    (hmem : ∀ z, z < g.nrZones → (mem z).pqueueEntry = none)
    (hr : (cacheSystem Tid (chunk mem) g rb).Reach (fun s l => l.Single g s) s) {t : Tid} {id : Nat}
    (ht : s.pool t = .get (.evict id .lock)) :
    MakesRoom g s.cache ↔ s.cache.policy.EmptiesEnough := by
  obtain ⟨hfree, hactive, hwrites⟩ := asked_to_evict hpos hr ht
  obtain ⟨hinv, hlock, hzero⟩ := told_to_evict hzones hpos hmax hmem hr ht
  have htotal' : evictLowThreshChunks ≤ s.cache.policy.totalChunks := by
    rw [hinv.shared.books.total]
    exact htotal
  constructor
  · exact hinv.emptiesEnough hzones hmax hlock htotal' hzero hactive hfree
  · intro henough
    obtain ⟨z, hz⟩ := hinv.exists_full (Nat.le_trans (by decide) henough.2)
    have hact := full_opened hpos (fun _ _ hc => hc.2.2) hr hz
    exact hinv.makesRoom hzones hmax hlock htotal' hact hactive hwrites hfree henough

end Runs

/-! ## §4. Twelve zones of one chunk. -/

section Twelve

/-- Twelve zones of one chunk. -/
abbrev twelveTwoOpen : Geometry := ⟨12, 2, 4096, 4096, 4096, .block⟩

/-- `zn_cache_get` only, one call at a time, and all operations succeed. -/
abbrev GetsAndWell (s : Sys ZnPolicyChunk ChunkEvict (Fin 2)) (l : SysLabel (Fin 2)) : Prop :=
  l.OfGet ∧ AloneAndWell twelveTwoOpen s l

/-- The id whose call is told to evict, and has not taken the mutex yet. -/
def Pc.toldFor : Pc ChunkEvict → Option Nat
  | .get (.evict id .lock) => some id
  | _ => none

theorem Pc.eq_of_toldFor {pc : Pc ChunkEvict} {id : Nat} (h : pc.toldFor = some id) :
    pc = .get (.evict id .lock) := by
  unfold Pc.toldFor at h
  split at h
  · cases h
    rfl
  · cases h

/-- Thread `t` asks for an id, up to where it is told to evict. -/
def askTold {Tid : Type u} (t : Tid) (id : UInt32) : List (SysLabel Tid) :=
  .get t id :: List.replicate 2 (.step t wellAnswered)

/-- Thread `t` caches an id for which it evicts twelve chunks and collects four
zones. -/
def cacheEvicting {Tid : Type u} (t : Tid) (id : UInt32) : List (SysLabel Tid) :=
  .get t id :: List.replicate 73 (.step t wellAnswered) ++ [.ret t]

/-- Twelve ids fill the device. -/
def fillTwelve {Tid : Type u} (t : Tid) : List (SysLabel Tid) :=
  cacheAll t [1, 2, 3, 4, 5, 6, 7, 8, 9, 10, 11, 12]

/-- The next one evicts, and three more fill the zones that are collected. -/
def refillTwelve {Tid : Type u} (t : Tid) : List (SysLabel Tid) :=
  fillTwelve t ++ cacheEvicting t 13 ++ cacheAll t [14, 15, 16]

/-- A run that ends where thread 0 is told to evict. -/
theorem twelve_reach (ls : List (SysLabel (Fin 2))) (id : Nat)
    (p : Sys ZnPolicyChunk ChunkEvict (Fin 2) → Bool)
    (h : (TransSys.execAll (sysExec (chunk clearedPool) twelveTwoOpen (fun _ => 0) GetsAndWell) ls
      ⟨initCache (chunk clearedPool) twelveTwoOpen fun _ => 0, fun _ => .idle⟩).any
        (fun s => (s.pool 0).toldFor == some id && p s) = true) :
    ∃ s, (cacheSystem (Fin 2) (chunk clearedPool) twelveTwoOpen fun _ => 0).Reach GetsAndWell s
      ∧ s.pool 0 = .get (.evict id .lock) ∧ p s = true := by
  obtain ⟨s, hr, hs⟩ := TransSys.Reach.exists_of_exec sysExec_ok ⟨fun _ => 0, rfl⟩
    (fun s => (s.pool 0).toldFor == some id && p s) ls h
  obtain ⟨hat, hp⟩ := Bool.and_eq_true_iff.mp hs
  exact ⟨s, hr, Pc.eq_of_toldFor (beq_iff_eq.mp hat), hp⟩

theorem GetsAndWell.single {s : Sys ZnPolicyChunk ChunkEvict (Fin 2)} {l : SysLabel (Fin 2)}
    (h : GetsAndWell s l) : l.Single twelveTwoOpen s := ⟨h.2.1, h.2.2.1, h.2.2.2.1⟩

/-- The device is full of chunks that are in use: twelve are evicted. -/
theorem fg_evict_makes_room_twelve : ∃ s : Sys ZnPolicyChunk ChunkEvict (Fin 2),
    s.pool 0 = .get (.evict 13 .lock) ∧ MakesRoom twelveTwoOpen s.cache := by
  obtain ⟨s, hr, ht, henough⟩ := twelve_reach (fillTwelve 0 ++ askTold 0 13) 13
    (fun s => decide s.cache.policy.EmptiesEnough) (by decide +kernel)
  refine ⟨s, ht, ?_⟩
  exact (fg_evict_makes_room (by decide) (by decide) (by decide) (by decide) (fun _ _ => rfl)
    (hr.mono fun _ _ hc => hc.single) ht).mpr (of_decide_eq_true henough)

/-- **A call that asks for ever.**  The device is full again, but of twelve full
zones eight have no chunk in use.  Those are eight free chunks, and nothing is
evicted: the call returns 1 and leaves everything as it is, and the next answer
is to evict again. -/
theorem fg_evict_refuses :
    evictLowThreshChunks ≤ twelveTwoOpen.nrZones * twelveTwoOpen.maxZoneChunks
    ∧ ∃ s, (cacheSystem (Fin 2) (chunk clearedPool) twelveTwoOpen fun _ => 0).Reach GetsAndWell s
      ∧ s.pool 0 = .get (.evict 17 .lock)
      ∧ ((evictionCall twelveTwoOpen).Total (Answers.Obeys twelveTwoOpen) (s.cache, .running .lock)
        fun y => y = (s.cache, .returned 1))
      ∧ (∀ a : Answers, zsmGetActiveZone twelveTwoOpen a.ret s.cache.zoneState
        = .ok (.evict, s.cache.zoneState))
      ∧ ¬ MakesRoom twelveTwoOpen s.cache := by
  refine ⟨by decide, ?_⟩
  obtain ⟨s, hr, ht, hrefuses⟩ := twelve_reach (refillTwelve 0 ++ askTold 0 17) 17
    (fun s => decide s.cache.policy.Refuses) (by decide +kernel)
  have hsingle := hr.mono fun _ _ hc => GetsAndWell.single hc
  obtain ⟨hfree, hactive, hwrites⟩ := asked_to_evict (by decide) hsingle ht
  obtain ⟨hinv, hlock, -⟩ := told_to_evict (by decide) (by decide) (by decide) (fun _ _ => rfl)
    hsingle ht
  have htotal : evictLowThreshChunks ≤ s.cache.policy.totalChunks := by
    rw [hinv.shared.books.total]
    decide
  have hrefuses' := of_decide_eq_true hrefuses
  refine ⟨s, hr, ht, (hinv.refuses_total_iff hlock htotal hrefuses').mpr rfl, ?_, ?_⟩
  · intro a
    unfold zsmGetActiveZone
    rw [hfree, hactive, hwrites]
    rfl
  · intro hroom
    have hone := ((hinv.refuses_total_iff hlock htotal hrefuses').mp hroom).1
    unfold zsmGetNumFreeZones at hone
    rw [hfree] at hone
    cases hone

end Twelve

end ZnCache
