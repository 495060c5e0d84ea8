/-
  ZnCache.Promotional.Finish — calls in progress can be finished.

  Threads of the promotional cache wait for one another: for the writer of an
  id, for a zone when all open ones are being written, for the readers of a
  zone that is to be reset.  Nowhere do they wait in a circle.  From every
  reached state some schedule of the threads that are there, with a device that
  obeys, brings every call to its return.

  The schedule has three parts.  A call that has found its entry, or has a zone,
  is held up by nobody (`settle`).  When these have returned, nobody reads, and
  evictions come to their end (`evictions_end`).  Then nobody holds a zone, so
  that a call that asks for one gets it, or is told to evict and the policy has
  a zone for it (`calls_can_finish`).
-/
import ZnCache.Cache.Entries
import ZnCache.Cache.WritePointers
import ZnCache.Lib.Leads
import ZnCache.Chunk.Identity
import ZnCache.Promotional.Publication

namespace ZnCache

open Lib Lib.ThreadPool

universe u

/-! ## §1. Distances. -/

/-- Steps that finish what has been begun: a thread moves on, or returns, the
device obeys, and no call is made. -/
def SysLabel.Finishes {Tid : Type u} (g : Geometry) : SysLabel Tid → Prop
  | .step _ a => a.Obeys g
  | .ret _ => True
  | .get .. | .fgEvict _ | .evictTask _ => False

/-- How far a call is from its return, if it has found its entry or holds a
zone. -/
def Pc.rank {E : Type} : Pc E → Nat
  | .get (.write ..) => 7
  | .get (.miss ..) => 6
  | .get (.commit ..) | .get (.read ..) => 5
  | .get (.writeUpdate ..) | .get (.readUpdate ..) => 4
  | .get (.publish ..) | .get (.readDone ..) | .get (.undoZoneGet ..) => 3
  | .get (.undoMap _) | .get (.hit ..) => 2
  | .get (.done ..) => 1
  | .idle | .evictor _ | .get (.find _) | .get (.findWait ..) | .get (.acquire _)
  | .get (.evict ..) => 0

/-- Where a thread is after such a call has returned. -/
def Pc.settled {E : Type} (pc : Pc E) : Pc E := if pc.rank = 0 then pc else .idle

/-- How far an eviction is from its end, beside the zones that are queued. -/
def FgEvict.rank : FgEvict → Nat
  | .clear .. => 4
  | .wait .. => 3
  | .start | .reset .. => 2
  | .loop .. => 1

/-- The same for a thread. -/
def Pc.evictRank (pc : Pc FgEvict) : Nat := (pc.evicting.map FgEvict.rank).getD 0

/-- Where a thread is after its eviction. -/
def Pc.evicted {E : Type} : Pc E → Pc E
  | .evictor _ => .idle
  | .get (.evict id _) => .get (.acquire id)
  | pc => pc

theorem Pc.settled_of_rank {E : Type} {pc : Pc E} (h : pc.rank = 0) : pc.settled = pc := if_pos h

theorem Pc.settled_of_ne {E : Type} {pc : Pc E} (h : pc.rank ≠ 0) : pc.settled = .idle := if_neg h

theorem Pc.evicted_of_none {E : Type} {pc : Pc E} (h : pc.evicting = none) : pc.evicted = pc := by
  match pc with
  | .evictor _ | .get (.evict ..) => cases h
  | .idle | .get (.find _) | .get (.findWait ..) | .get (.read ..) | .get (.readUpdate ..)
  | .get (.readDone ..) | .get (.hit ..) | .get (.acquire _) | .get (.write ..) | .get (.miss ..)
  | .get (.commit ..) | .get (.writeUpdate ..) | .get (.publish ..) | .get (.undoZoneGet ..)
  | .get (.undoMap _) | .get (.done ..) => rfl

theorem Pc.evictRank_ne {pc : Pc FgEvict} (h : pc.evictRank ≠ 0) : ∃ e, pc.evicting = some e := by
  cases he : pc.evicting with
  | some e => exact ⟨e, rfl⟩
  | none => simp [evictRank, he] at h

theorem Pc.evicting_of_rank_zero {pc : Pc FgEvict} (h : pc.evictRank = 0) : pc.evicting = none := by
  cases he : pc.evicting with
  | none => rfl
  | some e => cases e <;> simp [evictRank, he, FgEvict.rank] at h

/-- A thread that reads, or holds a zone, has a rank. -/
theorem Pc.not_reads {E : Type} {pc : Pc E} (h : pc.rank = 0) (z : Nat) : ¬ pc.Reads z := by
  match pc with
  | .get (.read ..) | .get (.readUpdate ..) | .get (.readDone ..) => cases h
  | .idle | .evictor _ | .get (.find _) | .get (.findWait ..) | .get (.acquire _)
  | .get (.evict ..) => exact fun hz => hz

theorem Pc.not_holds {E : Type} {pc : Pc E} (h : pc.rank = 0) : ¬ pc.Holds := by
  match pc with
  | .get (.write ..) | .get (.miss ..) | .get (.commit ..) | .get (.undoZoneGet ..) => cases h
  | .idle | .evictor _ | .get (.find _) | .get (.findWait ..) | .get (.acquire _)
  | .get (.evict ..) => exact fun hz => hz

/-- A thread that owns a full zone has a rank, or evicts. -/
theorem Pc.not_ownsFull {g : Geometry} {pc : Pc FgEvict} (h : pc.rank = 0)
    (he : pc.evicting = none) (z : Nat) : pc.ownsFull g ≠ some z := by
  match pc with
  | .get (.writeUpdate ..) => cases h
  | .evictor _ | .get (.evict ..) => cases he
  | .idle | .get (.find _) | .get (.findWait ..) | .get (.acquire _) => exact fun hz => by cases hz

/-! ## §2. What is known of a reached state. -/

variable {Tid : Type u} [DecidableEq Tid] {g : Geometry} {rb : Buffer}

/-- A chunk that was given back and is still to be published is in a zone of the
array. -/
theorem pending_lt_reach {D : Life Tid → LifeLabel Tid → Prop}
    {s : Life Tid} (hr : (lifeSystem Tid g rb).Reach D s) :
    ∀ t id l, (s.role t).pending = some (id, l) → l.zone < g.nrZones := by
  refine TransSys.Reach.invariant
    (I := fun s => ∀ t id l, (s.role t).pending = some (id, l) → l.zone < g.nrZones) ?_ ?_ hr
  · intro s hs t id l ht
    obtain ⟨bytes, rfl⟩ := hs
    cases ht
  · intro s k s' hreach h _ hs
    -- what a role says of a chunk was said before
    have hbefore : ∀ {t : Tid} {r : Role}, (∀ x, r.pending = some x → (s.role t).pending = some x) →
        ∀ u id l, (Function.update s.role t r u).pending = some (id, l) → l.zone < g.nrZones :=
      fun hr u id l hu => h u id l (said_before hr hu)
    cases hs with
    | @acquire t ret id r _ _ ht => exact hbefore fun x hx => by cases r <;> cases hx
    | @write t id l results r d ht =>
      refine hbefore fun x hx => ?_
      split at hx <;> cases hx
    | @commit t ret id l data r zsm ht hz =>
      intro u id' l' hu
      by_cases hut : u = t
      · subst hut
        dsimp only at hu
        rw [Function.update_self] at hu
        cases hu
        have hst := (zsmReturnActiveZone_cases hz).1
        exact (inArray_reach hreach).used _ (by rw [hst]; decide)
      · dsimp only at hu
        rw [Function.update_of_ne hut] at hu
        exact h u id' l' hu
    | push ht => exact hbefore fun x hx => by rw [ht]; exact hx
    | abandon | enter | read | pop | clear | drain | reset | publish | drop =>
      exact hbefore fun x hx => by cases hx
    | touch => exact h
    | @leave t id l data ht => exact hbefore fun x hx => by rw [Role.pending_ofData] at hx; cases hx

variable [Fintype Tid]

/-- The runs whose ids are small and whose zone commands succeed. -/
abbrev Reached (g : Geometry) (rb : Buffer) (s : Sys ZnPolicyPromotional FgEvict Tid) : Prop :=
  (cacheSystem Tid promotional g rb).Reach (fun _ l => l.SmallId ∧ l.ZoneOk g) s

omit [DecidableEq Tid] [Fintype Tid] in
theorem SysLabel.Finishes.admissible {l : SysLabel Tid} (h : l.Finishes g) : l.SmallId ∧ l.ZoneOk g := by
  cases l with
  | step t a => exact ⟨trivial, h.1⟩
  | ret => exact ⟨trivial, trivial⟩
  | get | fgEvict | evictTask => exact h.elim

/-- Eviction hands out no zone. -/
theorem promotional_writes_eq (a : Answers) (s : CacheState ZnPolicyPromotional) (e : FgEvict)
    (s' : CacheState ZnPolicyPromotional) (e' : Option FgEvict)
    (h : promotional.step g a s e = some (.ok (s', e'))) :
    s'.zoneState.writesOccurring = s.zoneState.writesOccurring := by
  cases fgEvictStep_cases h with
  | start | leave | pop | clear | wait | drained => rfl
  | reset hz =>
    obtain ⟨-, rfl⟩ := zsmEvict_cases hz
    rfl

/-- Eviction leaves what is being written. -/
theorem promotional_conds {a : Answers} {s : CacheState ZnPolicyPromotional} {e : FgEvict}
    {s' : CacheState ZnPolicyPromotional} {e' : Option FgEvict}
    (h : promotional.step g a s e = some (.ok (s', e'))) : KeepsConds s.cacheMap s'.cacheMap := by
  cases fgEvictStep_cases h with
  | start | leave | pop | wait | drained | reset => exact .refl _
  | clear hc => exact .clearZone hc

theorem promotional_recorded (a : Answers) (s : CacheState ZnPolicyPromotional) (e : FgEvict)
    (s' : CacheState ZnPolicyPromotional) (e' : Option FgEvict) (hrec : Recorded s.cacheMap)
    (h : promotional.step g a s e = some (.ok (s', e'))) : Recorded s'.cacheMap := by
  cases fgEvictStep_cases h with
  | start | leave | pop | wait | drained | reset => exact hrec
  | clear hc => exact hrec.clearZone hc

theorem promotional_zones (g : Geometry) (a : Answers) (s : CacheState ZnPolicyPromotional)
    (e : FgEvict) (s' : CacheState ZnPolicyPromotional) (e' : Option FgEvict)
    (h : promotional.step g a s e = some (.ok (s', e'))) :
    s'.cacheMap.numZones = s.cacheMap.numZones := by
  cases fgEvictStep_cases h with
  | start | leave | pop | wait | drained | reset => rfl
  | clear hc =>
    obtain ⟨-, zm, rfl, -⟩ := znCachemapClearZone_ok hc
    rfl

/-- **What is known of a reached state.** -/
structure Orderly (g : Geometry) (s : Sys ZnPolicyPromotional FgEvict Tid) : Prop where
  zsm : ZsmInv g s.cache.zoneState
  places : Places g s.cache.zoneState s.cache.policy fun t => (s.pool t).role
  full : FullOwned g s.cache.zoneState s.cache.policy fun t => (s.pool t).role
  pending_lt : ∀ t id l, (s.pool t).role.pending = some (id, l) → l.zone < g.nrZones
  writes : WritesExact s
  readers : ReadersExact s
  attended : Attended s
  recorded : Recorded s.cache.cacheMap
  zones : s.cache.cacheMap.numZones = g.nrZones
  ids : IdsIn (fun id => id < 2 ^ 31) s
  keys : ∀ k, s.cache.cacheMap.zoneMap k ≠ none → k < 2 ^ 31

theorem Orderly.of_reach (hpos : 1 ≤ g.maxZoneChunks) (hmax : g.maxZoneChunks < 2 ^ 32)
    {s : Sys ZnPolicyPromotional FgEvict Tid} (hr : Reached g rb s) : Orderly g s := by
  have hlife : (lifeSystem Tid g rb).Reach (fun _ l => l.ZoneOk g) s.life :=
    life_simulates (fun _ _ _ hc hz _ _ => hz hc.2) hr
  exact {
    zsm := zsm_inv_reach hpos (promotional_zsm_inv g) (fun _ _ h => h.2) hr
    places := places_reach hmax hlife
    full := fullOwned_reach hmax hlife
    pending_lt := pending_lt_reach hlife
    writes := writes_exact promotional_writes_eq hr
    readers := readers_exact promotional_readers hr
    attended := attended_reach (fun _ _ _ _ _ _ _ _ h => promotional_conds h) hr
    recorded := recorded_reach promotional_recorded hr
    zones := num_zones promotional_zones hr
    ids := ids_in (fun _ _ _ h => h.1) hr
    keys := keys_in promotional_keys (fun _ _ _ h => h.1) hr }

/-! ## §3. Calls that nobody holds up. -/

section Settling

variable {s : Sys ZnPolicyPromotional FgEvict Tid} {t : Tid}

omit [Fintype Tid] in
/-- A step of `zn_cache_get` is a step of the system. -/
theorem sysStep_get {a : Answers} {gp gp' : GetPc FgEvict} {c : CacheState ZnPolicyPromotional}
    (ht : s.pool t = .get gp) (h : getStep promotional g rb a s.cache gp = some (.ok (c, gp'))) :
    sysStep promotional g rb s (.step t a) = some (.ok (s.goto t c (.get gp'))) := by
  simp only [sysStep, ht, h]
  rfl

omit [DecidableEq Tid] in
/-- **A call that has found its entry, or holds a zone, moves on.** -/
theorem Orderly.moves (h : Orderly g s) (hmax : g.maxZoneChunks < 2 ^ 32) {a : Answers}
    (ha : a.Obeys g) {gp : GetPc FgEvict} (ht : s.pool t = .get gp)
    (hrank : (Pc.get gp).rank ≠ 0) (hdone : (Pc.get gp).returned = none) :
    ∃ c gp', getStep promotional g rb a s.cache gp = some (.ok (c, gp'))
      ∧ (Pc.get gp').rank < (Pc.get gp).rank ∧ (Pc.get gp').rank ≠ 0 := by
  have hrole : (s.pool t).role = gp.role := by rw [ht]; rfl
  have hid : gp.id < 2 ^ 31 := h.ids t gp ht
  cases gp with
  | find | findWait | acquire | evict => exact absurd rfl hrank
  | done id data => cases hdone
  | read id l => exact ⟨_, _, rfl, by simp [Pc.rank], by simp [Pc.rank]⟩
  | readUpdate id l data =>
    obtain ⟨p, hp, -⟩ := znPolicyPromotionalUpdate_read h.places.lru_ok l
    refine ⟨{ s.cache with policy := p }, .readDone id l data, ?_, by simp [Pc.rank], by simp [Pc.rank]⟩
    simp only [getStep, promotional, hp]
    rfl
  | readDone id l data => exact ⟨_, _, rfl, by simp [Pc.rank], by simp [Pc.rank]⟩
  | hit id data => exact ⟨_, _, rfl, by simp [Pc.rank], by simp [Pc.rank]⟩
  | write id l =>
    obtain ⟨r, d, hw⟩ := writeChunk_returns ha.2.1 ha.2.2.1 s.cache.device l id (znGenWriteBuffer id rb)
    refine ⟨_, _, by simp only [getStep, hw]; rfl, ?_⟩
    dsimp only
    by_cases hr : r = 0
    · rw [if_neg (by simpa using hr)]
      simp [Pc.rank]
    · rw [if_pos hr]
      simp [Pc.rank]
  | miss id l data => exact ⟨_, _, rfl, by simp [Pc.rank], by simp [Pc.rank]⟩
  | commit id l data =>
    have hwrites : (s.pool t).role.writes = some l := by rw [hrole]; rfl
    have hr := zsmReturnActiveZone_spec h.zsm ha.1 (h.places.writing t l hwrites)
      (h.places.at_offset t l hwrites)
    exact ⟨_, _, by simp only [getStep, hr]; rfl, by simp [Pc.rank], by simp [Pc.rank]⟩
  | writeUpdate id l data =>
    have hpending : (s.pool t).role.pending = some (id, l) := by rw [hrole]; rfl
    obtain ⟨p, hp, -⟩ := znPolicyPromotionalUpdate_write h.places.lru_ok l fun hlast => by
      rw [h.places.max_eq, last_iff hmax (h.places.pending_lt t id l hpending)] at hlast
      -- a full zone that the policy does not know is this thread's
      refine h.places.not_lru (t := t) ?_
      show (s.pool t).role.place g = some l.zone
      rw [hrole]
      exact if_pos hlast
    refine ⟨{ s.cache with policy := p }, .publish id l data, ?_, by simp [Pc.rank], by simp [Pc.rank]⟩
    simp only [getStep, promotional, hp]
    rfl
  | publish id l data =>
    have hlt : l.zone < s.cache.cacheMap.numZones := by
      rw [h.zones]
      exact h.pending_lt t id l (by rw [hrole]; rfl)
    obtain ⟨c, hc, hrc⟩ := h.attended.entry (t := t) id (by rw [ht]; exact fun _ hmp => hmp)
    have hid' : id < 2 ^ 31 := hid
    rw [← guint_eq_gint (by omega)] at hc
    have hins := znCachemapInsert_eq hc hlt hrc
    exact ⟨_, _, by simp only [getStep, hins]; rfl, by simp [Pc.rank], by simp [Pc.rank]⟩
  | undoZoneGet id l =>
    have hwrites : (s.pool t).role.writes = some l := by rw [hrole]; rfl
    have hr := zsmFailedToWrite_spec h.zsm (h.places.writing t l hwrites)
      (h.places.at_offset t l hwrites)
    exact ⟨_, _, by simp only [getStep, hr]; rfl, by simp [Pc.rank], by simp [Pc.rank]⟩
  | undoMap id =>
    obtain ⟨c, hc, hrc⟩ := h.attended.entry (t := t) id (by rw [ht]; exact fun _ hmp => hmp)
    have hfail := znCachemapFail_eq hc hrc
    exact ⟨_, _, by simp only [getStep, hfail]; rfl, by simp [Pc.rank], by simp [Pc.rank]⟩

/-- One step of such a call, its return included. -/
theorem Orderly.ranked_step (h : Orderly g s) (hmax : g.maxZoneChunks < 2 ^ 32)
    (hrank : (s.pool t).rank ≠ 0) :
    ∃ l c pc, l.Finishes g ∧ (cacheSystem Tid promotional g rb).step s l (s.goto t c pc)
      ∧ pc.rank < (s.pool t).rank ∧ pc.settled = (s.pool t).settled := by
  obtain ⟨a, ha⟩ := Answers.exists_obeys g
  rw [Pc.settled_of_ne hrank]
  cases hpc : s.pool t with
  | idle | evictor =>
    rw [hpc] at hrank
    exact absurd rfl hrank
  | get gp =>
    rw [hpc] at hrank
    cases hret : (Pc.get gp).returned with
    | some r =>
      obtain ⟨id, data⟩ := r
      have hdone := Pc.eq_of_returned hret
      refine ⟨.ret t, s.cache, .idle, trivial, ?_, ?_, rfl⟩
      · rw [hdone] at hpc
        show sysStep promotional g rb s (.ret t) = _
        simp only [sysStep, hpc]
      · rw [hdone]
        exact Nat.one_pos
    | none =>
      obtain ⟨c, gp', hstep, hlt, hne⟩ := h.moves hmax ha hpc hrank hret
      exact ⟨.step t a, c, .get gp', ha, sysStep_get hpc hstep, hlt, Pc.settled_of_ne hne⟩

/-- **Calls that nobody holds up return**, and nothing else happens. -/
theorem settle (hpos : 1 ≤ g.maxZoneChunks) (hmax : g.maxZoneChunks < 2 ^ 32) (hr : Reached g rb s) :
    (cacheSystem Tid promotional g rb).Leads (fun _ l => l.Finishes g)
      (fun s' => Reached g rb s' ∧ ∀ u, s'.pool u = (s.pool u).settled) s := by
  let I : Sys ZnPolicyPromotional FgEvict Tid → Prop := fun s' =>
    Reached g rb s' ∧ (fun u => (s'.pool u).settled) = fun u => (s.pool u).settled
  have hrun := TransSys.Leads.of_measure (T := cacheSystem Tid promotional g rb)
    (D := fun _ l => l.Finishes g) (I := I) (P := fun s' => ∀ u, (s'.pool u).rank = 0)
    (fun s' => total Pc.rank s'.pool) ?_ s ⟨hr, rfl⟩
  · refine hrun.mono fun s' hs' => ?_
    obtain ⟨⟨hr', hview⟩, hzero⟩ := hs'
    exact ⟨hr', fun u => (Pc.settled_of_rank (hzero u)).symm.trans (congrFun hview u)⟩
  · intro s₁ hI hnot
    obtain ⟨hr₁, hview⟩ := hI
    push Not at hnot
    obtain ⟨u, hu⟩ := hnot
    obtain ⟨l, c, pc, hl, hs, hlt, hsame⟩ := (Orderly.of_reach hpos hmax hr₁).ranked_step hmax hu
    refine ⟨l, _, hl, hs, ⟨.next hr₁ hl.admissible hs, ?_⟩, total_update_lt hlt⟩
    rw [Sys.goto_view_same Pc.settled s₁ u c hsame]
    exact hview

end Settling

/-! ## §4. Evictions. -/

section Evictions

variable {s : Sys ZnPolicyPromotional FgEvict Tid} {t : Tid}

omit [DecidableEq Tid] in
/-- **An eviction moves on when nobody reads**: it comes closer to its end, or a
zone leaves the queue. -/
theorem Orderly.evicts (h : Orderly g s) {a : Answers} (ha : a.Obeys g)
    (hrank : ∀ u, (s.pool u).rank = 0) {e : FgEvict} (ht : (s.pool t).evicting = some e) :
    ∃ c e', promotional.step g a s.cache e = some (.ok (c, e'))
      ∧ 5 * c.policy.lru.length + (e'.map FgEvict.rank).getD 0
        < 5 * s.cache.policy.lru.length + e.rank
      ∧ c.policy.lru.length ≤ s.cache.policy.lru.length := by
  have hfull : ∀ {zone}, e.zone = some zone → (s.cache.zoneState.state zone).state = .full := by
    intro zone hz
    apply h.full.owner_full t
    rw [Pc.role_ownsFull]
    apply Pc.ownsFull_of_evicts
    show (s.pool t).evicting.bind FgEvict.zone = _
    rw [ht]
    exact hz
  cases e with
  | start => exact ⟨_, _, rfl, by simp [FgEvict.rank], le_refl _⟩
  | loop i bound =>
    by_cases hlt : i < bound
    · rcases znPolicyPromotionalGetZoneToEvict_spec h.places.lru_ok with ⟨-, hnone⟩
        | ⟨zone, rest, p, hlru, hsome, -, hrest, -⟩
      · refine ⟨s.cache, none, ?_, by simp [FgEvict.rank], le_refl _⟩
        simp only [promotional, fgEvictStep, if_pos hlt, hnone]
      · refine ⟨{ s.cache with policy := p }, some (.clear i bound zone), ?_, ?_, ?_⟩
        · simp only [promotional, fgEvictStep, if_pos hlt, hsome]
        · rw [hlru, hrest]
          simp [FgEvict.rank]
          omega
        · rw [hlru, hrest]
          exact Nat.le_succ _
    · refine ⟨s.cache, none, ?_, by simp [FgEvict.rank], le_refl _⟩
      simp only [promotional, fgEvictStep, if_neg hlt]
  | clear i bound zone =>
    have hlt : zone < s.cache.cacheMap.numZones := by
      rw [h.zones]
      exact h.zsm.lt_of_state (by rw [hfull rfl]; decide)
    obtain ⟨m, hm⟩ := h.recorded.clearZone_returns hlt h.keys
    refine ⟨{ s.cache with cacheMap := m }, some (.wait i bound zone), ?_, by simp [FgEvict.rank], le_refl _⟩
    simp only [promotional, fgEvictStep, hm]
    rfl
  | wait i bound zone =>
    have hzero : s.cache.cacheMap.activeReaders zone = 0 := by
      rw [h.readers zone, (countOn_eq_zero_iff _ _).mpr fun u _ => Pc.not_reads (hrank u) zone]
      rfl
    refine ⟨s.cache, some (.reset i bound zone), ?_, by simp [FgEvict.rank], le_refl _⟩
    simp only [promotional, fgEvictStep, hzero, lt_irrefl, if_false]
  | reset i bound zone =>
    refine ⟨{ s.cache with
        zoneState := evicted s.cache.zoneState zone, device := s.cache.device.forget zone },
      some (.loop ((i + 1) % 2 ^ 32) bound), ?_, by simp [FgEvict.rank], le_refl _⟩
    simp only [promotional, fgEvictStep, evictAndCheck_full ha.1 (hfull rfl)]
    rfl

omit [Fintype Tid] in
/-- A step of the policy, where it leaves its thread. -/
theorem evicting_goes {a : Answers} {e : FgEvict} {c : CacheState ZnPolicyPromotional}
    {e' : Option FgEvict} (ht : (s.pool t).evicting = some e)
    (h : promotional.step g a s.cache e = some (.ok (c, e'))) :
    ∃ pc, sysStep promotional g rb s (.step t a) = some (.ok (s.goto t c pc))
      ∧ pc.evicting = e' ∧ pc.evicted = (s.pool t).evicted ∧ pc.rank = 0 := by
  rcases evicting_eq ht with hpc | ⟨id, hpc⟩
  · refine ⟨evictorPc e', by simp only [sysStep, hpc, h]; rfl, ?_⟩
    rw [hpc]
    cases e' <;> exact ⟨rfl, rfl, rfl⟩
  · refine ⟨.get (evictPc id e'), by simp only [sysStep, hpc, getStep, h]; rfl, ?_⟩
    rw [hpc]
    cases e' <;> exact ⟨rfl, rfl, rfl⟩

/-- **Evictions come to their end when nobody reads**, and nothing else happens. -/
theorem evictions_end (hpos : 1 ≤ g.maxZoneChunks) (hmax : g.maxZoneChunks < 2 ^ 32)
    (hr : Reached g rb s) (hrank : ∀ u, (s.pool u).rank = 0) :
    (cacheSystem Tid promotional g rb).Leads (fun _ l => l.Finishes g)
      (fun s' => Reached g rb s' ∧ (∀ u, s'.pool u = (s.pool u).evicted)
        ∧ s'.cache.policy.lru.length ≤ s.cache.policy.lru.length) s := by
  let I : Sys ZnPolicyPromotional FgEvict Tid → Prop := fun s' =>
    Reached g rb s' ∧ (∀ u, (s'.pool u).rank = 0)
      ∧ ((fun u => (s'.pool u).evicted) = fun u => (s.pool u).evicted)
      ∧ s'.cache.policy.lru.length ≤ s.cache.policy.lru.length
  have hrun := TransSys.Leads.of_measure (T := cacheSystem Tid promotional g rb)
    (D := fun _ l => l.Finishes g) (I := I) (P := fun s' => ∀ u, (s'.pool u).evictRank = 0)
    (fun s' => 5 * s'.cache.policy.lru.length + total Pc.evictRank s'.pool) ?_ s
    ⟨hr, hrank, rfl, le_refl _⟩
  · refine hrun.mono fun s' hs' => ?_
    obtain ⟨⟨hr', -, hview, hle⟩, hzero⟩ := hs'
    refine ⟨hr', fun u => ?_, hle⟩
    exact (Pc.evicted_of_none (Pc.evicting_of_rank_zero (hzero u))).symm.trans (congrFun hview u)
  · intro s₁ hI hnot
    obtain ⟨hr₁, hrank₁, hview, hle⟩ := hI
    push Not at hnot
    obtain ⟨u, hu⟩ := hnot
    obtain ⟨e, he⟩ := Pc.evictRank_ne hu
    obtain ⟨a, ha⟩ := Answers.exists_obeys g
    obtain ⟨c, e', hstep, hlt, hshort⟩ := (Orderly.of_reach hpos hmax hr₁).evicts ha hrank₁ he
    obtain ⟨pc, hs, he', hsame, hzero⟩ := evicting_goes he hstep
    have hl : (SysLabel.step u a).Finishes g := ha
    refine ⟨.step u a, _, hl, hs, ⟨.next hr₁ hl.admissible hs, ?_, ?_, ?_⟩, ?_⟩
    · exact Sys.goto_forall (Q := fun pc => pc.rank = 0) hrank₁ u c hzero
    · rw [Sys.goto_view_same Pc.evicted s₁ u c hsame]
      exact hview
    · exact le_trans hshort hle
    · -- what the queue loses pays for what the eviction has ahead
      have hcount := total_update Pc.evictRank s₁.pool u pc
      have hold : (s₁.pool u).evictRank = e.rank := by
        rw [Pc.evictRank, he]
        rfl
      have hnew : pc.evictRank = (e'.map FgEvict.rank).getD 0 := by
        rw [Pc.evictRank, he']
      show 5 * c.policy.lru.length + total Pc.evictRank (Function.update s₁.pool u pc) < _
      omega

end Evictions

/-! ## §5. Calls that wait for a zone or for a writer. -/

/-- Nobody is anywhere but at the start of a search, asleep, or about to ask for
a zone. -/
def Calm (s : Sys ZnPolicyPromotional FgEvict Tid) : Prop :=
  ∀ u, (s.pool u).rank = 0 ∧ (s.pool u).evicting = none

/-- Whether a call is in progress. -/
def Pc.busy {E : Type} : Pc E → Nat
  | .idle => 0
  | .get _ | .evictor _ => 1

/-- Whether a thread searches for its id. -/
def Pc.searching {E : Type} : Pc E → Nat
  | .get (.find _) | .get (.findWait ..) => 1
  | _ => 0

/-- How much there is to do: calls in progress, searches, zones that are queued. -/
def toDo (s : Sys ZnPolicyPromotional FgEvict Tid) : Nat × Nat × Nat :=
  (total Pc.busy s.pool, total Pc.searching s.pool, s.cache.policy.lru.length)

/-- There is less to do: fewer calls, or as many and fewer searches, or as many
of both and fewer zones. -/
def LessToDo : Nat × Nat × Nat → Nat × Nat × Nat → Prop :=
  Prod.Lex (· < ·) (Prod.Lex (· < ·) (· < ·))

theorem lessToDo_wf : WellFounded LessToDo :=
  WellFounded.prod_lex Nat.lt_wfRel.wf (WellFounded.prod_lex Nat.lt_wfRel.wf Nat.lt_wfRel.wf)

section Rounds

variable {s : Sys ZnPolicyPromotional FgEvict Tid} {t : Tid}

/-- The end of a round. -/
abbrev RoundDone (g : Geometry) (rb : Buffer) (s s' : Sys ZnPolicyPromotional FgEvict Tid) : Prop :=
  (Reached g rb s' ∧ Calm s') ∧ LessToDo (toDo s') (toDo s)

omit [DecidableEq Tid] [Fintype Tid] in
theorem Calm.cases (h : Calm s) (t : Tid) :
    s.pool t = .idle ∨ (∃ id, s.pool t = .get (.find id))
      ∨ (∃ id c seen, s.pool t = .get (.findWait id c seen)) ∨ ∃ id, s.pool t = .get (.acquire id) := by
  obtain ⟨hrank, hevict⟩ := h t
  match hpc : s.pool t with
  | .idle => exact Or.inl rfl
  | .get (.find id) => exact Or.inr (Or.inl ⟨id, rfl⟩)
  | .get (.findWait id c seen) => exact Or.inr (Or.inr (Or.inl ⟨id, c, seen, rfl⟩))
  | .get (.acquire id) => exact Or.inr (Or.inr (Or.inr ⟨id, rfl⟩))
  | .evictor e | .get (.evict _ e) =>
    rw [hpc] at hevict
    cases hevict
  | .get (.read ..) | .get (.readUpdate ..) | .get (.readDone ..) | .get (.hit ..)
  | .get (.write ..) | .get (.miss ..) | .get (.commit ..) | .get (.writeUpdate ..)
  | .get (.publish ..) | .get (.undoZoneGet ..) | .get (.undoMap _) | .get (.done ..) =>
    rw [hpc] at hrank
    cases hrank

/-- A call that has found its entry, or has got a zone, returns. -/
theorem Calm.returns (hcalm : Calm s) (hpos : 1 ≤ g.maxZoneChunks) (hmax : g.maxZoneChunks < 2 ^ 32)
    {c : CacheState ZnPolicyPromotional} {pc : Pc FgEvict} (hr : Reached g rb (s.goto t c pc))
    (hpc : pc.rank ≠ 0) (hbusy : s.pool t ≠ .idle) :
    (cacheSystem Tid promotional g rb).Leads (fun _ l => l.Finishes g) (RoundDone g rb s)
      (s.goto t c pc) := by
  refine (settle hpos hmax hr).mono fun s' hs' => ?_
  obtain ⟨hr', hpool⟩ := hs'
  have hupdate : s'.pool = Function.update s.pool t .idle := by
    funext u
    rw [hpool u, Sys.goto_pool]
    by_cases hu : u = t
    · rw [hu, Function.update_self, Function.update_self, Pc.settled_of_ne hpc]
    · rw [Function.update_of_ne hu, Function.update_of_ne hu, Pc.settled_of_rank (hcalm u).1]
  refine ⟨⟨hr', fun u => ?_⟩, Prod.Lex.left _ _ ?_⟩
  · rw [hupdate]
    by_cases hu : u = t
    · rw [hu, Function.update_self]
      exact ⟨rfl, rfl⟩
    · rw [Function.update_of_ne hu]
      exact hcalm u
  · rw [hupdate]
    apply total_update_lt
    cases hpc' : s.pool t with
    | idle => exact absurd hpc' hbusy
    | get | evictor => exact Nat.one_pos

/-- A call that is told to evict finds a zone to evict, and asks again. -/
theorem Calm.evicts (hcalm : Calm s) (hpos : 1 ≤ g.maxZoneChunks) (hmax : g.maxZoneChunks < 2 ^ 32)
    (hr : Reached g rb s) {id : Nat} (ht : s.pool t = .get (.acquire id))
    (hr₁ : Reached g rb (s.goto t s.cache (.get (.evict id .start))))
    (hfree : s.cache.zoneState.free = []) (hlru : s.cache.policy.lru ≠ []) :
    (cacheSystem Tid promotional g rb).Leads (fun _ l => l.Finishes g) (RoundDone g rb s)
      (s.goto t s.cache (.get (.evict id .start))) := by
  obtain ⟨a, ha⟩ := Answers.exists_obeys g
  have hl : (SysLabel.step t a).Finishes g := ha
  obtain ⟨zone, rest, p, hold, hsome, -, hrest, -⟩ :=
    (znPolicyPromotionalGetZoneToEvict_spec
      (Orderly.of_reach hpos hmax hr).places.lru_ok).resolve_left fun hnil => hlru hnil.1
  -- the bound is taken while no zone is free
  have hstart : sysStep promotional g rb (s.goto t s.cache (.get (.evict id .start))) (.step t a)
      = some (.ok (s.goto t s.cache (.get (.evict id (.loop 0 4))))) := by
    have hstep : sysStep promotional g rb (s.goto t s.cache (.get (.evict id .start))) (.step t a)
        = some (.ok ((s.goto t s.cache (.get (.evict id .start))).goto t s.cache
          (.get (.evict id (.loop 0 4))))) := sysStep_get (Function.update_self ..)
      (by simp [getStep, promotional, fgEvictStep, zsmGetNumFreeZones, hfree, evictPc, u32Sub,
        evictLowThreshZones, Except.map])
    rw [hstep, Sys.goto, Sys.goto_pool, Function.update_idem]
    rfl
  have hpop : sysStep promotional g rb (s.goto t s.cache (.get (.evict id (.loop 0 4)))) (.step t a)
      = some (.ok (s.goto t { s.cache with policy := p } (.get (.evict id (.clear 0 4 zone))))) := by
    have hstep : sysStep promotional g rb (s.goto t s.cache (.get (.evict id (.loop 0 4)))) (.step t a)
        = some (.ok ((s.goto t s.cache (.get (.evict id (.loop 0 4)))).goto t
          { s.cache with policy := p } (.get (.evict id (.clear 0 4 zone))))) :=
      sysStep_get (Function.update_self ..)
      (by simp [getStep, promotional, fgEvictStep, hsome, evictPc, Except.map])
    rw [hstep, Sys.goto, Sys.goto_pool, Function.update_idem]
    rfl
  have hr₂ : Reached g rb (s.goto t s.cache (.get (.evict id (.loop 0 4)))) :=
    .next hr₁ hl.admissible hstart
  have hr₃ : Reached g rb (s.goto t { s.cache with policy := p } (.get (.evict id (.clear 0 4 zone)))) :=
    .next hr₂ hl.admissible hpop
  refine .later hl hstart (.later hl hpop ?_)
  refine (evictions_end hpos hmax hr₃ ?_).mono fun s' hs' => ?_
  · exact Sys.goto_forall (Q := fun pc => pc.rank = 0) (fun u => (hcalm u).1) t _ rfl
  obtain ⟨hr', hpool, hle⟩ := hs'
  have hsame : s'.pool = s.pool := by
    funext u
    rw [hpool u, Sys.goto_pool]
    by_cases hu : u = t
    · rw [hu, Function.update_self, ht]
      rfl
    · rw [Function.update_of_ne hu, Pc.evicted_of_none (hcalm u).2]
  have hshort : s'.cache.policy.lru.length < s.cache.policy.lru.length := by
    have hle' : s'.cache.policy.lru.length ≤ p.lru.length := hle
    rw [hold, List.length_cons, ← hrest]
    omega
  refine ⟨⟨hr', fun u => hsame ▸ hcalm u⟩, ?_⟩
  unfold toDo
  rw [hsame]
  exact Prod.Lex.right _ (Prod.Lex.right _ hshort)

omit [DecidableEq Tid] in
/-- With nobody holding a zone, a call that asks for one gets it, or all zones
are full and the policy has one for it. -/
theorem Calm.answer (hcalm : Calm s) (h : Orderly g s) (hact : 1 ≤ g.maxNrActiveZones)
    (hzones : 1 ≤ g.nrZones) {a : Answers} (ha : a.Obeys g) :
    (∃ l z, zsmGetActiveZone g a.ret s.cache.zoneState = .ok (.success l, z))
      ∨ zsmGetActiveZone g a.ret s.cache.zoneState = .ok (.evict, s.cache.zoneState)
        ∧ s.cache.zoneState.free = [] ∧ s.cache.policy.lru ≠ [] := by
  have hwrites : s.cache.zoneState.writesOccurring = 0 := by
    rw [h.writes, (countOn_eq_zero_iff _ _).mpr fun u _ => Pc.not_holds (hcalm u).1]
    rfl
  obtain ⟨r, z, hr, hcase⟩ := zsmGetActiveZone_spec h.zsm ha.1
  cases hcase with
  | reuse | opened => exact Or.inl ⟨_, _, hr⟩
  | retry hactive hbusy hany =>
    -- nothing is being written, so a slot is unused
    rcases hbusy with hfree | hslots
    · exact absurd ⟨hfree, hwrites⟩ hany
    · rw [hwrites] at hslots
      omega
  | evict hactive hfree =>
    refine Or.inr ⟨hr, hfree, ?_⟩
    have hzonesIn : zonesIn g s.cache.zoneState .writeOccuring = 0 := by
      have hcount := h.zsm.writes
      omega
    have hfull : (s.cache.zoneState.state 0).state = .full := by
      have hnotFree : ¬ (s.cache.zoneState.state 0).state = .free := fun hst => by
        have hmem := (h.zsm.mem_free 0).mpr ⟨hzones, hst⟩
        rw [hfree] at hmem
        cases hmem
      have hnotActive : ¬ (s.cache.zoneState.state 0).state = .active := fun hst => by
        have hmem := (h.zsm.mem_active 0).mpr ⟨hzones, hst⟩
        rw [hactive] at hmem
        cases hmem
      have hnotWritten := (countOn_eq_zero_iff _ _).mp hzonesIn 0 (Finset.mem_range.mpr hzones)
      cases hst : (s.cache.zoneState.state 0).state with
      | full => rfl
      | free => exact absurd hst hnotFree
      | active => exact absurd hst hnotActive
      | writeOccuring => exact absurd hst hnotWritten
    rcases h.full.covered 0 hfull with hin | ⟨u, hu⟩
    · exact List.ne_nil_of_mem hin
    · rw [Pc.role_ownsFull] at hu
      exact absurd hu (Pc.not_ownsFull (hcalm u).1 (hcalm u).2 0)

/-- **A call that asks for a zone**, when nobody holds one. -/
theorem Calm.acquires (hcalm : Calm s) (hpos : 1 ≤ g.maxZoneChunks) (hmax : g.maxZoneChunks < 2 ^ 32)
    (hact : 1 ≤ g.maxNrActiveZones) (hzones : 1 ≤ g.nrZones) (hr : Reached g rb s) {id : Nat}
    (ht : s.pool t = .get (.acquire id)) :
    (cacheSystem Tid promotional g rb).Leads (fun _ l => l.Finishes g) (RoundDone g rb s) s := by
  obtain ⟨a, ha⟩ := Answers.exists_obeys g
  have hl : (SysLabel.step t a).Finishes g := ha
  rcases hcalm.answer (Orderly.of_reach hpos hmax hr) hact hzones ha with
    ⟨l, z, hz⟩ | ⟨hz, hfree, hlru⟩
  · have hs : sysStep promotional g rb s (.step t a)
        = some (.ok (s.goto t { s.cache with zoneState := z } (.get (.write id l)))) :=
      sysStep_get ht (by simp only [getStep, hz]; rfl)
    refine .later hl hs (hcalm.returns hpos hmax (.next hr hl.admissible hs) (by simp [Pc.rank]) ?_)
    rw [ht]
    exact fun h => by cases h
  · have hs : sysStep promotional g rb s (.step t a)
        = some (.ok (s.goto t s.cache (.get (.evict id .start)))) :=
      sysStep_get ht (by simp only [getStep, hz]; rfl)
    exact .later hl hs (hcalm.evicts hpos hmax hr ht (.next hr hl.admissible hs) hfree hlru)

/-- **A call that searches**, when no call is to fill an entry: it finds its
entry, or is to make it. -/
theorem Calm.searches (hcalm : Calm s) (hpos : 1 ≤ g.maxZoneChunks) (hmax : g.maxZoneChunks < 2 ^ 32)
    (hr : Reached g rb s) (hnone : ∀ (u : Tid) (id : Nat), s.pool u ≠ .get (.acquire id))
    {gp : GetPc FgEvict} (ht : s.pool t = .get gp) (hsearch : (Pc.get gp).searching = 1) {id : Nat}
    {a : Answers} (ha : a.Obeys g) {r : FindResult} {m m₀ : ZnCachemap}
    (hfind : FindCase m₀ id r m)
    (hentry : ∀ k c, m₀.zoneMap k = some (.cond c) → s.cache.cacheMap.zoneMap k = some (.cond c))
    (hstep : getStep promotional g rb a s.cache gp
      = some (.ok ({ s.cache with cacheMap := m }, r.getPc id))) :
    (cacheSystem Tid promotional g rb).Leads (fun _ l => l.Finishes g) (RoundDone g rb s) s := by
  have hl : (SysLabel.step t a).Finishes g := ha
  have hs := sysStep_get ht hstep
  have hr₁ := TransSys.Reach.next hr hl.admissible hs
  refine .later hl hs ?_
  cases hfind with
  | located =>
    refine hcalm.returns hpos hmax hr₁ (by simp [FindResult.getPc, Pc.rank]) ?_
    rw [ht]
    exact fun h => by cases h
  | sleep hc =>
    -- an entry that is being written has its writer, and there is none
    obtain ⟨u, id', hplays, -⟩ := (Orderly.of_reach hpos hmax hr).attended.writer (hentry _ _ hc)
    rcases hcalm.cases u with hu | ⟨i, hu⟩ | ⟨i, c', seen, hu⟩ | ⟨i, hu⟩
    · rw [hu] at hplays
      exact absurd rfl (hplays.not_writer _ _)
    · rw [hu] at hplays
      cases hplays
    · rw [hu] at hplays
      cases hplays
    · exact absurd hu (hnone u i)
  | write =>
    refine .now ⟨⟨hr₁, fun u => ?_⟩, ?_⟩
    · exact Sys.goto_forall (Q := fun pc => pc.rank = 0 ∧ pc.evicting = none) hcalm t _ ⟨rfl, rfl⟩ u
    · -- one search less, and no call more
      have hbusy := total_update Pc.busy s.pool t (.get (.acquire id))
      have hsearching := total_update Pc.searching s.pool t (.get (.acquire id))
      rw [ht] at hbusy hsearching
      rw [hsearch] at hsearching
      have hsame : total Pc.busy (Function.update s.pool t (.get (.acquire id))) = total Pc.busy s.pool := by
        have hone : (Pc.get gp).busy = (Pc.get (GetPc.acquire id : GetPc FgEvict)).busy := rfl
        omega
      have hless : total Pc.searching (Function.update s.pool t (.get (.acquire id)))
          < total Pc.searching s.pool := by
        have hzero : (Pc.get (GetPc.acquire id : GetPc FgEvict)).searching = 0 := rfl
        omega
      show LessToDo (total Pc.busy (Function.update s.pool t (.get (.acquire id))), _, _) _
      rw [hsame]
      exact Prod.Lex.right _ (Prod.Lex.left _ _ hless)

/-- **A round.**  While a call is in progress there is less to do after some
run. -/
theorem Calm.round (hcalm : Calm s) (hpos : 1 ≤ g.maxZoneChunks) (hmax : g.maxZoneChunks < 2 ^ 32)
    (hact : 1 ≤ g.maxNrActiveZones) (hzones : 1 ≤ g.nrZones) (hr : Reached g rb s)
    (hbusy : ¬ ∀ u, s.pool u = .idle) :
    (cacheSystem Tid promotional g rb).Leads (fun _ l => l.Finishes g) (RoundDone g rb s) s := by
  by_cases hex : ∃ (u : Tid) (id : Nat), s.pool u = .get (.acquire id)
  · obtain ⟨u, id, hu⟩ := hex
    exact hcalm.acquires hpos hmax hact hzones hr hu
  push Not at hex hbusy
  obtain ⟨u, hu⟩ := hbusy
  obtain ⟨a, ha⟩ := Answers.exists_obeys g
  have hatt := (Orderly.of_reach hpos hmax hr).attended
  rcases hcalm.cases u with hidle | ⟨id, hfind⟩ | ⟨id, c, seen, hwait⟩ | ⟨id, hacq⟩
  · exact absurd hidle hu
  · obtain ⟨r, m, heq⟩ := hatt.find_returns id
    exact hcalm.searches hpos hmax hr hex hfind rfl ha (znCachemapFind_cases heq) (fun _ _ h => h)
      (by simp only [getStep, heq]; rfl)
  · obtain ⟨r, m, heq⟩ := hatt.wake_returns hwait
    obtain ⟨-, hfound⟩ := znCachemapWake_ok heq
    exact hcalm.searches hpos hmax hr hex hwait rfl ha (znCachemapFind_cases hfound) (fun _ _ h => h)
      (by simp only [getStep, heq]; rfl)
  · exact absurd hacq (hex u id)

end Rounds

/-- What calls are in progress are brought to their return, one round after the
other. -/
theorem leads_idle (hpos : 1 ≤ g.maxZoneChunks) (hmax : g.maxZoneChunks < 2 ^ 32)
    (hact : 1 ≤ g.maxNrActiveZones) (hzones : 1 ≤ g.nrZones)
    {s : Sys ZnPolicyPromotional FgEvict Tid} (hr : Reached g rb s) :
    (cacheSystem Tid promotional g rb).Leads (fun _ l => l.Finishes g)
      (fun s' => Reached g rb s' ∧ ∀ t, s'.pool t = .idle) s := by
  refine (settle hpos hmax hr).trans fun s₁ h₁ => ?_
  obtain ⟨hr₁, hpool₁⟩ := h₁
  have hrank₁ : ∀ u, (s₁.pool u).rank = 0 := by
    intro u
    rw [hpool₁ u, Pc.settled]
    split
    · assumption
    · rfl
  refine (evictions_end hpos hmax hr₁ hrank₁).trans fun s₂ h₂ => ?_
  obtain ⟨hr₂, hpool₂, -⟩ := h₂
  have hcalm₂ : Calm s₂ := by
    intro u
    rw [hpool₂ u]
    cases he : (s₁.pool u).evicting with
    | none =>
      rw [Pc.evicted_of_none he]
      exact ⟨hrank₁ u, he⟩
    | some e => rcases evicting_eq he with hpc | ⟨id, hpc⟩ <;> rw [hpc] <;> exact ⟨rfl, rfl⟩
  refine (TransSys.Leads.of_rounds lessToDo_wf toDo (I := fun s => Reached g rb s ∧ Calm s)
    (P := fun s => ∀ t, s.pool t = .idle) ?_ s₂ ⟨hr₂, hcalm₂⟩).mono fun _ h => ⟨h.1.1, h.2⟩
  exact fun s hs hbusy => hs.2.round hpos hmax hact hzones hs.1 hbusy

/-- **CALLS IN PROGRESS CAN BE FINISHED.**  From every state of every run of the
promotional cache, whatever the transfers came to and however the threads were
scheduled, some schedule of the threads that are there brings every call and
every eviction to its return: there is no deadlock, and no loop that cannot be
left. -/
theorem calls_can_finish (hpos : 1 ≤ g.maxZoneChunks) (hmax : g.maxZoneChunks < 2 ^ 32)
    (hact : 1 ≤ g.maxNrActiveZones) (hzones : 1 ≤ g.nrZones)
    {s : Sys ZnPolicyPromotional FgEvict Tid}
    (hr : (cacheSystem Tid promotional g rb).Reach (fun _ l => l.SmallId ∧ l.ZoneOk g) s) :
    (cacheSystem Tid promotional g rb).Leads (fun _ l => l.Finishes g)
      (fun s' => ∀ t, s'.pool t = .idle) s :=
  (leads_idle hpos hmax hact hzones hr).mono fun _ h => h.2

/-- Thread 0 is to write id 1, and thread 1 sleeps until it has: they can be
finished. -/
theorem calls_can_finish_asleep : ∃ s : Sys ZnPolicyPromotional FgEvict (Fin 2),
    (s.pool 0).rank = 7 ∧ (s.pool 1).searching = 1
      ∧ s.cache.cacheMap.zoneMap 1 = some (.cond 0) ∧ (s.cache.cacheMap.conds 0).rc = 2
      ∧ (cacheSystem (Fin 2) promotional oneChunk fun _ => 0).Leads (fun _ l => l.Finishes oneChunk)
          (fun s' => ∀ t, s'.pool t = .idle) s := by
  obtain ⟨s, hr, hs⟩ := TransSys.Reach.exists_of_exec
    (T := cacheSystem (Fin 2) promotional oneChunk fun _ => 0)
    (C := fun _ l => l.SmallId ∧ l.ZoneOk oneChunk) sysExec_ok ⟨fun _ => 0, rfl⟩
    (fun s => (s.pool 0).rank = 7 ∧ (s.pool 1).searching = 1
      ∧ s.cache.cacheMap.zoneMap 1 = some (.cond 0) ∧ (s.cache.cacheMap.conds 0).rc = 2)
    [.get 0 1, .get 1 1, .step 0 allWell, .step 1 allWell, .step 0 allWell] (by decide)
  obtain ⟨hwrites, hasleep, hentry, hrc⟩ := of_decide_eq_true hs
  exact ⟨s, hwrites, hasleep, hentry, hrc,
    calls_can_finish (by decide) (by decide) (by decide) (by decide) hr⟩

/-! ## §6. With no call in progress. -/

/-- **The cache at rest.** -/
structure AtRest (g : Geometry) (c : CacheState ZnPolicyPromotional) : Prop where
  settled : ∀ k r, c.cacheMap.zoneMap k = some r → ∃ l, r = .loc l
  destroyed : ∀ i, i < c.cacheMap.nextCond → (c.cacheMap.conds i).cleared = 1
  unread : ∀ z, c.cacheMap.activeReaders z = 0
  unwritten : c.zoneState.writesOccurring = 0
  /-- Each zone is in one queue, once. -/
  queued : (c.zoneState.free ++ c.zoneState.active ++ c.policy.lru).Perm (List.range g.nrZones)
  full : ∀ z, z < g.nrZones → (z ∈ c.policy.lru ↔ (c.zoneState.state z).state = .full)

section Idle

variable {s : Sys ZnPolicyPromotional FgEvict Tid}

omit [DecidableEq Tid] in
theorem Orderly.unwritten (h : Orderly g s) (hidle : ∀ t, s.pool t = .idle) :
    s.cache.zoneState.writesOccurring = 0 := by
  rw [h.writes, (countOn_eq_zero_iff _ _).mpr fun u _ => Pc.not_holds (by rw [hidle u]; rfl)]
  rfl

omit [DecidableEq Tid] in
theorem Orderly.lru_full_iff (h : Orderly g s) (hidle : ∀ t, s.pool t = .idle) (z : Nat) :
    z ∈ s.cache.policy.lru ↔ (s.cache.zoneState.state z).state = .full := by
  refine ⟨h.full.lru_full z, fun hz => ?_⟩
  rcases h.full.covered z hz with hin | ⟨u, hu⟩
  · exact hin
  · rw [hidle u] at hu
    cases hu

omit [DecidableEq Tid] in
theorem Orderly.queued (h : Orderly g s) (hidle : ∀ t, s.pool t = .idle) :
    (s.cache.zoneState.free ++ s.cache.zoneState.active ++ s.cache.policy.lru).Perm
      (List.range g.nrZones) :=
  h.zsm.queued (h.unwritten hidle) (List.nodup_append.mp h.places.tokens.nodup).2.1
    (h.lru_full_iff hidle)

end Idle

/-- **WITH NO CALL IN PROGRESS NOTHING IS LEFT BEHIND.**  No entry is being
written and every condition has been destroyed; no reader is counted and no zone
is out; and no zone is lost: each is free, open, or full and known to the
policy. -/
theorem idle_at_rest (hpos : 1 ≤ g.maxZoneChunks) (hmax : g.maxZoneChunks < 2 ^ 32)
    {s : Sys ZnPolicyPromotional FgEvict Tid}
    (hr : (cacheSystem Tid promotional g rb).Reach (fun _ l => l.SmallId ∧ l.ZoneOk g) s)
    (hidle : ∀ t, s.pool t = .idle) : AtRest g s.cache := by
  have h := Orderly.of_reach hpos hmax hr
  obtain ⟨hno, hdestroyed⟩ := nothing_pending h.attended hidle
  refine ⟨fun k r hk => ?_, hdestroyed, fun z => ?_, h.unwritten hidle, h.queued hidle,
    fun z _ => h.lru_full_iff hidle z⟩
  · cases r with
    | loc l => exact ⟨l, rfl⟩
    | cond c => exact absurd hk (hno k c)
  · have hrank : ∀ u, (s.pool u).rank = 0 := fun u => by rw [hidle u]; rfl
    rw [h.readers z, (countOn_eq_zero_iff _ _).mpr fun u _ => Pc.not_reads (hrank u) z]
    rfl

/-- Zone 0 has been filled, evicted and filled again, and the cache is at rest. -/
theorem idle_at_rest_evicted : ∃ s : Sys ZnPolicyPromotional FgEvict (Fin 2),
    s.cache.cacheMap.nextCond = 2 ∧ s.cache.hits = 1 ∧ AtRest oneChunk s.cache := by
  obtain ⟨s, hr, hs⟩ := TransSys.Reach.exists_of_exec
    (T := cacheSystem (Fin 2) promotional oneChunk fun _ => 0)
    (C := fun _ l => l.SmallId ∧ l.ZoneOk oneChunk) sysExec_ok ⟨fun _ => 0, rfl⟩
    (fun s => (s.cache.cacheMap.nextCond = 2 ∧ s.cache.hits = 1)
      ∧ ∀ t, (s.pool t).isIdle = true) (evictBetween 0 1 ++ [.ret 0]) (by decide)
  obtain ⟨⟨hconds, hhits⟩, hidle⟩ := of_decide_eq_true hs
  exact ⟨s, hconds, hhits, idle_at_rest (by decide) (by decide) hr (idle_of_isIdle hidle)⟩

end ZnCache
