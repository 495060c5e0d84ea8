/-
  ZnCache.Sequential.Refinement — one caller sees a cache of zones.

  One thread serves a sequence of `zn_cache_get` requests, with no other thread
  and no background evictor.  Each call is driven by what the device answers to
  its steps (`getProgram`), and must come to an end by itself: a step that
  waits would wait forever.

  Main result: `get_refines` — when zone commands and transfers succeed, every
  call returns the data it was asked for, and hits and misses are those of the
  reference cache (`ZoneLru`).
-/
import ZnCache.Sequential.Settled
import ZnCache.Promotional.Storage
import ZnCache.Promotional.Agreement
import ZnCache.Lib.Drive

namespace ZnCache

open Lib

/-! ## §1. Requests served by one thread. -/

section Serving

variable {P E : Type}

/-- `zn_cache_get` as a program. -/
def getProgram (pol : EvictPolicy P E) (g : Geometry) (randomBuffer : Buffer) :
    Program (CacheState P × GetPc E) Answers Fault (CacheState P × Option Buffer) where
  step a s := getStep pol g randomBuffer a s.1 s.2
  result s :=
    match s.2 with
    | .done _ data => some (s.1, data)
    | _ => none

/-- What a call returned, and what it added to the two counters. -/
structure Reply where
  id : Nat
  data : Option Buffer
  hits : Nat
  misses : Nat

/-- Serve the requests in turn, each with the device's answers to its steps,
and in at most `fuel` steps; `none` if a call does not return. -/
def serve (pol : EvictPolicy P E) (g : Geometry) (randomBuffer : Buffer) (fuel : Nat) :
    CacheState P → List (UInt32 × (Nat → Answers)) → Option (List Reply)
  | _, [] => some []
  | s, (id, answers) :: rest =>
    match (getProgram pol g randomBuffer).drive fuel answers (s, .find id.toNat) with
    | some (.ok (s', data)) =>
      (serve pol g randomBuffer fuel s' rest).map fun replies =>
        { id := id.toNat, data := data, hits := s'.hits - s.hits,
          misses := s'.misses - s.misses } :: replies
    | _ => none

/-- A reply with the data of its id, that was counted as a hit or as a miss. -/
structure Reply.Agrees (g : Geometry) (rb : Buffer) (r : Reply) (id : Nat) (hit : Bool) : Prop where
  id_eq : r.id = id
  valid : ∃ data, r.data = some data ∧ ValidFor g.chunkSz rb id data
    ∧ (g.chunkSz < 2 ^ 32 → znValidateRead g.chunkSz data id rb = some 0)
  hits : r.hits = if hit then 1 else 0
  misses : r.misses = if hit then 0 else 1

end Serving

/-! ## §2. One call. -/

variable {g : Geometry} {rb : Buffer} {s : CacheState ZnPolicyPromotional}
  {Q : CacheState ZnPolicyPromotional × Option Buffer → Prop}

/-- Total correctness of `zn_cache_get` from a point in it. -/
abbrev GetTotal (g : Geometry) (rb : Buffer) (s : CacheState ZnPolicyPromotional)
    (pc : GetPc FgEvict) (Q : CacheState ZnPolicyPromotional × Option Buffer → Prop) : Prop :=
  (getProgram promotional g rb).Total (Answers.Obeys g) (s, pc) Q

/-- A read and the decrement undo the increment of the find. -/
theorem addReaders_cancel (m : ZnCachemap) (z : Nat) :
    (m.addReaders z 1).addReaders z (-1) = m := by
  unfold ZnCachemap.addReaders
  simp

/-- **A hit** returns the data of its id and touches its zone. -/
theorem hit_total (hg : g.Sound) (h : Settled g rb none s) {id : Nat} (hid : id < 2 ^ 31)
    {l : ZnPair} (hl : s.cacheMap.zoneMap id = some (.loc l)) :
    GetTotal g rb s (.find id) fun r => Settled g rb none r.1
      ∧ view g r.1 = (view g s).touch id ∧ r.1.hits = s.hits + 1 ∧ r.1.misses = s.misses
      ∧ ∃ data, r.2 = some data ∧ ValidFor g.chunkSz rb id data := by
  obtain ⟨p, hp, hsettled, hview⟩ := h.touch hl (s.hits + 1)
  obtain ⟨e, he⟩ := h.inverse
  have hstored : s.device.written l.zone l.chunkOffset = some id :=
    h.stored _ _ _ ((he.bwd _ _).trans (e.eq_some_iff.mpr (he.of_loc hl)))
  have hfind : znCachemapFind s.cacheMap id = .ok (.located l, s.cacheMap.addReaders l.zone 1) := by
    unfold znCachemapFind
    rw [ptr_eq hid, hl]
  refine .step rfl fun a _ => ⟨({ s with cacheMap := s.cacheMap.addReaders l.zone 1 }, .read id l), ?_, ?_⟩
  · simp only [getProgram, getStep, hfind]
    rfl
  refine .step rfl fun a ha => ⟨({ s with cacheMap := s.cacheMap.addReaders l.zone 1 },
    .readUpdate id l (znReadFromDisk g s.device l a.pread)), rfl, ?_⟩
  obtain ⟨data, hdata⟩ : ∃ data, znReadFromDisk g s.device l a.pread = some data :=
    ⟨_, if_pos ha.2.2.2⟩
  have hvalid := read_valid (Nat.lt_trans hid (by decide)) hg.four_le h.holds hstored hdata
  rw [hdata]
  refine .step rfl fun a _ => ⟨({ s with
    cacheMap := s.cacheMap.addReaders l.zone 1, policy := p }, .readDone id l (some data)), ?_, ?_⟩
  · simp only [getProgram, getStep, promotional, hp]
    rfl
  refine .step rfl fun a _ => ⟨({ s with policy := p }, .hit id (some data)), ?_, ?_⟩
  · simp only [getProgram, getStep, addReaders_cancel]
  refine .step rfl fun a _ => ⟨({ s with policy := p, hits := s.hits + 1 }, .done id (some data)), rfl, ?_⟩
  exact .returned rfl ⟨hsettled, hview, rfl, rfl, data, rfl, hvalid⟩

/-- The two tests for the last chunk of the open zone agree. -/
theorem Settled.last_chunk {pend : Option (Nat × Nat)} (h : Settled g rb pend s)
    (hmax : g.maxZoneChunks < 2 ^ 32) {off : Nat} (hlt : off < g.maxZoneChunks) :
    off = u32Sub s.policy.zoneMaxChunks 1 ↔ off + 1 = g.maxZoneChunks := by
  rw [h.max_eq]
  unfold u32Sub
  omega

/-- **A miss with a zone to write to** appends its id. -/
theorem append_total (hg : g.Sound) (hmax : g.maxZoneChunks < 2 ^ 32) (hact : 1 ≤ g.maxNrActiveZones)
    {id c : Nat} (hid : id < 2 ^ 31) (h : Settled g rb (some (id, c)) s)
    (hroom : s.zoneState.active ≠ [] ∨ s.zoneState.free ≠ []) (k : Nat) :
    GetTotal g rb s (.acquire id) fun r => Settled g rb none r.1
      ∧ view g r.1 = ((view g s).openZone k).append g.maxZoneChunks id
      ∧ r.1.hits = s.hits ∧ r.1.misses = s.misses + 1
      ∧ ∃ data, r.2 = some data ∧ ValidFor g.chunkSz rb id data := by
  refine .step rfl fun a ha => ?_
  obtain ⟨z, free, hr, ho⟩ := h.opens hg.max_pos hact ha.1 hroom
  have hoff : ((handedOut s.zoneState z free).state z).chunkOffset
      = (s.zoneState.state z).chunkOffset := by simp [handedOut, writingZone]
  have hlt := (ho.inv.open_offset z (Or.inr (by simp [handedOut, writingZone]))).1
  rw [hoff] at hlt
  have hzlt : z < g.nrZones := ho.inv.lt_of_state (by simp [handedOut, writingZone])
  refine ⟨({ s with zoneState := handedOut s.zoneState z free },
    .write id (locationOf s.zoneState z)), ?_, ?_⟩
  · simp only [getProgram, getStep, hr]
    rfl
  -- the transfer
  refine .step rfl fun a ha => ?_
  obtain ⟨r, d, hwrite⟩ := writeChunk_returns ha.2.1 ha.2.2.1 s.device (locationOf s.zoneState z) id
    (znGenWriteBuffer id rb)
  obtain ⟨rfl, hd, hw⟩ := writeChunk_ok hg.addressable hg.blocks hzlt hlt ha.2.1 h.holds hwrite
  refine ⟨({ s with zoneState := handedOut s.zoneState z free, device := d },
    .miss id (locationOf s.zoneState z) (znGenWriteBuffer id rb)), ?_, ?_⟩
  · simp only [getProgram, getStep, hwrite]
    rfl
  refine .step rfl fun a _ => ⟨({ s with
    zoneState := handedOut s.zoneState z free, device := d, misses := s.misses + 1 },
    .commit id (locationOf s.zoneState z) (znGenWriteBuffer id rb)), rfl, ?_⟩
  -- the zone is given back
  refine .step rfl fun a ha => ?_
  have hreturn : zsmReturnActiveZone g a.ret (handedOut s.zoneState z free) (locationOf s.zoneState z)
      = .ok (0, committed g (handedOut s.zoneState z free) (locationOf s.zoneState z)) :=
    zsmReturnActiveZone_spec ho.inv ha.1 (by simp [handedOut, writingZone, locationOf]) hoff
  refine ⟨({ s with
    zoneState := committed g (handedOut s.zoneState z free) (locationOf s.zoneState z)
    device := d, misses := s.misses + 1 },
    .writeUpdate id (locationOf s.zoneState z) (znGenWriteBuffer id rb)), ?_, ?_⟩
  · simp only [getProgram, getStep, hreturn]
    rfl
  -- the policy is told
  have hlast := h.last_chunk hmax hlt
  obtain ⟨p, hp, hok, hpmax, hlru⟩ := znPolicyPromotionalUpdate_write h.lru_ok
    (locationOf s.zoneState z) fun _ hin => ho.not_full ((h.mem_lru z).mp hin)
  refine .step rfl fun a _ => ⟨({ s with
    zoneState := committed g (handedOut s.zoneState z free) (locationOf s.zoneState z)
    device := d, misses := s.misses + 1, policy := p },
    .publish id (locationOf s.zoneState z) (znGenWriteBuffer id rb)), ?_, ?_⟩
  · simp only [getProgram, getStep, promotional, hp]
    rfl
  -- the entry is made
  have hentry : s.cacheMap.zoneMap (guintToPointer id) = some (.cond c) := by
    rw [guintToPointer_eq (by omega)]
    exact (h.pending id c).mpr rfl
  have hinsert : znCachemapInsert s.cacheMap id (locationOf s.zoneState z)
      = .ok (published s.cacheMap id (locationOf s.zoneState z) c) :=
    znCachemapInsert_eq hentry (h.zones ▸ hzlt) (h.cond_held id c rfl)
  let s' : CacheState ZnPolicyPromotional :=
    { cacheMap := published s.cacheMap id (locationOf s.zoneState z) c
      policy := p
      zoneState := committed g (handedOut s.zoneState z free) (locationOf s.zoneState z)
      hits := s.hits
      misses := s.misses + 1
      device := d }
  have hlru' : p.lru = if (s.zoneState.state z).chunkOffset + 1 = g.maxZoneChunks
      then s.policy.lru ++ [z] else s.policy.lru := by
    rw [hlru]
    exact if_congr hlast rfl rfl
  have happend : Appends g rb s id c z free s' := ⟨ho, hok, hpmax, hlru', hd, hw, rfl, rfl⟩
  refine .step rfl fun a _ => ⟨(s', .done id (some (znGenWriteBuffer id rb))), ?_, ?_⟩
  · simp only [getProgram, getStep, hinsert]
    rfl
  exact .returned rfl ⟨happend.settled h hid hmax, happend.view_eq h hid hmax k, rfl, rfl, _, rfl,
    gen_valid (by omega) g.chunkSz rb⟩

/-- **The eviction loop** with `k` rounds left evicts the `k` least recent
zones, or all of them. -/
theorem fgEvict_total {id bound : Nat} {pend : Option (Nat × Nat)} (hbound : bound < 2 ^ 32) :
    ∀ (k i : Nat) (s : CacheState ZnPolicyPromotional), i + k = bound → Settled g rb pend s →
      (∀ s', Settled g rb pend s' → view g s' = (view g s).evict (min k s.policy.lru.length) →
        s'.hits = s.hits → s'.misses = s.misses → GetTotal g rb s' (.acquire id) Q) →
      GetTotal g rb s (.evict id (.loop i bound)) Q := by
  intro k
  induction k with
  | zero =>
    intro i s hi h hcont
    refine .step rfl fun a _ => ⟨(s, .acquire id), ?_, ?_⟩
    · simp only [getProgram, getStep, promotional, fgEvictStep, if_neg (show ¬ i < bound by omega)]
      rfl
    · exact hcont s h (by simp [ZoneLru.evict]) rfl rfl
  | succ k ih =>
    intro i s hi h hcont
    have hlt : i < bound := by omega
    rcases znPolicyPromotionalGetZoneToEvict_spec h.lru_ok with ⟨hnil, hnone⟩ | ⟨z, rest, p, hl, hpop, hok, hlru, hpmax⟩
    · -- no zone is left: the loop breaks
      refine .step rfl fun a _ => ⟨(s, .acquire id), ?_, ?_⟩
      · simp only [getProgram, getStep, promotional, fgEvictStep, if_pos hlt, hnone]
        rfl
      · exact hcont s h (by simp [ZoneLru.evict, hnil]) rfl rfl
    · have hin : z ∈ s.policy.lru := by rw [hl]; exact List.mem_cons_self ..
      have hfull : (s.zoneState.state z).state = .full := (h.mem_lru z).mp hin
      obtain ⟨e, he⟩ := h.inverse
      have hzlt : z < s.cacheMap.numZones := by
        rw [h.zones]
        exact h.zsm.lt_of_state (by simp [hfull])
      have hclear := (he.clearZone hzlt (List.Perm.refl (s.cacheMap.dataMap z).entries)).1
      refine .step rfl fun a _ => ⟨({ s with policy := p }, .evict id (.clear i bound z)), ?_, ?_⟩
      · simp only [getProgram, getStep, promotional, fgEvictStep, if_pos hlt, hpop]
        rfl
      refine .step rfl fun a _ => ⟨({ s with policy := p, cacheMap := zoneCleared s.cacheMap z },
        .evict id (.wait i bound z)), ?_, ?_⟩
      · simp only [getProgram, getStep, promotional, fgEvictStep, hclear]
        rfl
      -- there is no reader to wait for
      have hready : ¬ 0 < (zoneCleared s.cacheMap z).activeReaders z := by
        show ¬ 0 < s.cacheMap.activeReaders z
        rw [h.readers]
        omega
      refine .step rfl fun a _ => ⟨({ s with policy := p, cacheMap := zoneCleared s.cacheMap z },
        .evict id (.reset i bound z)), ?_, ?_⟩
      · simp only [getProgram, getStep, promotional, fgEvictStep, if_neg hready]
        rfl
      refine .step rfl fun a ha => ⟨(zoneEvicted s z p, .evict id (.loop ((i + 1) % 2 ^ 32) bound)),
        ?_, ?_⟩
      · simp only [getProgram, getStep, promotional, fgEvictStep, evictAndCheck_full ha.1 hfull]
        rfl
      obtain ⟨hsettled, hview⟩ := h.evict hl hok hpmax hlru
      rw [Nat.mod_eq_of_lt (by omega)]
      refine ih (i + 1) _ (by omega) hsettled fun s' hs' hview' hhits hmisses => ?_
      refine hcont s' hs' ?_ hhits hmisses
      rw [hview', hview]
      show ((view g s).evict 1).evict (min k p.lru.length) = _
      rw [hlru, hl, List.length_cons, ZoneLru.evict_evict]
      congr 1
      omega

/-- When no zone is open and none is free, all of them are full. -/
theorem Settled.all_full {pend : Option (Nat × Nat)} (h : Settled g rb pend s)
    (ha : s.zoneState.active = []) (hf : s.zoneState.free = []) :
    s.policy.lru.length = g.nrZones := by
  have hperm : s.policy.lru.Perm (List.range g.nrZones) := by
    refine (List.perm_ext_iff_of_nodup h.lru_ok.nodup List.nodup_range).mpr fun z => ?_
    rw [List.mem_range]
    show z ∈ s.policy.lru ↔ _
    rw [h.mem_lru]
    constructor
    · intro hfull
      exact h.zsm.lt_of_state (by simp [hfull])
    · intro hlt
      cases hst : (s.zoneState.state z).state with
      | full => rfl
      | writeOccuring => exact absurd hst (h.not_writing z)
      | free =>
        have hin := (h.zsm.mem_free z).mpr ⟨hlt, hst⟩
        rw [hf] at hin
        cases hin
      | active =>
        have hin := (h.zsm.mem_active z).mpr ⟨hlt, hst⟩
        rw [ha] at hin
        cases hin
  rw [hperm.length_eq, List.length_range]

/-- **A miss** opens a zone if none is open, and appends its id. -/
theorem miss_total (hg : g.Sound) (hmax : g.maxZoneChunks < 2 ^ 32) (hn : 1 ≤ g.nrZones)
    (hact : 1 ≤ g.maxNrActiveZones) (h : Settled g rb none s) {id : Nat} (hid : id < 2 ^ 31)
    (hnone : s.cacheMap.zoneMap id = none) :
    GetTotal g rb s (.find id) fun r => Settled g rb none r.1
      ∧ view g r.1
        = ((view g s).openZone (min evictLowThreshZones g.nrZones)).append g.maxZoneChunks id
      ∧ r.1.hits = s.hits ∧ r.1.misses = s.misses + 1
      ∧ ∃ data, r.2 = some data ∧ ValidFor g.chunkSz rb id data := by
  obtain ⟨hfind, hclaimed⟩ := h.claim hid hnone
  refine .step rfl fun a _ => ⟨({ s with cacheMap := claimed s.cacheMap id }, .acquire id), ?_, ?_⟩
  · simp only [getProgram, getStep, hfind]
    rfl
  by_cases hroom : s.zoneState.active ≠ [] ∨ s.zoneState.free ≠ []
  · exact append_total hg hmax hact hid hclaimed hroom _
  obtain ⟨ha, hf⟩ : s.zoneState.active = [] ∧ s.zoneState.free = [] := by
    simpa only [not_or, not_not] using hroom
  -- every zone is full: `zn_fg_evict` runs, and the loop tries again
  have hevict : ∀ ret, zsmGetActiveZone g ret s.zoneState = .ok (.evict, s.zoneState) := by
    intro ret
    simp [zsmGetActiveZone, ha, hf, h.no_writer]
  refine .step rfl fun a _ => ⟨({ s with cacheMap := claimed s.cacheMap id }, .evict id .start), ?_, ?_⟩
  · simp only [getProgram, getStep, hevict]
    rfl
  refine .step rfl fun a _ => ⟨({ s with cacheMap := claimed s.cacheMap id },
    .evict id (.loop 0 evictLowThreshZones)), ?_, ?_⟩
  · simp only [getProgram, getStep, promotional, fgEvictStep, zsmGetNumFreeZones, hf]
    rfl
  refine fgEvict_total (by decide) evictLowThreshZones 0 _ (by decide) hclaimed
    fun s' hs' hview hhits hmisses => ?_
  rw [hclaimed.all_full ha hf] at hview
  have hcurrent : (view g s).current = none := by simp [view, ha]
  have hfree : (view g s).free = 0 := by simp [view, hf]
  have hpos : 0 < min evictLowThreshZones g.nrZones := Nat.lt_min.mpr ⟨by decide, hn⟩
  have hroom' : s'.zoneState.free ≠ [] := by
    intro hnil
    have hlen : (view g s').free = 0 := by rw [view, hnil]; rfl
    rw [hview] at hlen
    have hsum : (view g s).free + min evictLowThreshZones g.nrZones = 0 := hlen
    omega
  refine (append_total hg hmax hact hid hs' (Or.inr hroom') 0).mono fun r hr => ?_
  obtain ⟨hsettled, hview', hhits', hmisses', hdata⟩ := hr
  refine ⟨hsettled, ?_, hhits'.trans hhits, hmisses'.trans (by rw [hmisses]), hdata⟩
  rw [hview', hview]
  exact congrArg (fun r => r.append g.maxZoneChunks id) (ZoneLru.openZone_evict hcurrent hfree hpos)

/-- **One call** is one request to the reference cache. -/
theorem get_total (hg : g.Sound) (hmax : g.maxZoneChunks < 2 ^ 32) (hn : 1 ≤ g.nrZones)
    (hact : 1 ≤ g.maxNrActiveZones) (h : Settled g rb none s) {id : Nat} (hid : id < 2 ^ 31) :
    GetTotal g rb s (.find id) fun r => Settled g rb none r.1
      ∧ (Reply.mk id r.2 (r.1.hits - s.hits) (r.1.misses - s.misses)).Agrees g rb id
          ((view g s).get (min evictLowThreshZones g.nrZones) g.maxZoneChunks id).1
      ∧ view g r.1 = ((view g s).get (min evictLowThreshZones g.nrZones) g.maxZoneChunks id).2 := by
  have hagrees : ∀ {data : Option Buffer} {hits misses : Nat} {hit : Bool},
      hits = (if hit then 1 else 0) → misses = (if hit then 0 else 1) →
      (∃ d, data = some d ∧ ValidFor g.chunkSz rb id d) →
      (Reply.mk id data hits misses).Agrees g rb id hit := by
    intro data hits misses hit hh hm hdata
    obtain ⟨d, rfl, hvalid⟩ := hdata
    exact ⟨rfl, ⟨d, rfl, hvalid, fun hsz => hvalid.validate hsz⟩, hh, hm⟩
  unfold ZoneLru.get
  cases hk : s.cacheMap.zoneMap id with
  | some r =>
    cases r with
    | loc l =>
      rw [if_pos ((h.view_holds id).mpr ⟨l, hk⟩)]
      refine (hit_total hg h hid hk).mono fun r hr => ?_
      obtain ⟨hsettled, hview, hhits, hmisses, hdata⟩ := hr
      exact ⟨hsettled, hagrees (by simp [hhits]) (by simp [hmisses]) hdata, hview⟩
    | cond c => cases (h.pending id c).mp hk
  | none =>
    have hno : ¬ (view g s).Holds id := by
      intro hh
      obtain ⟨l, hl⟩ := (h.view_holds id).mp hh
      rw [hk] at hl
      cases hl
    rw [if_neg hno]
    refine (miss_total hg hmax hn hact h hid hk).mono fun r hr => ?_
    obtain ⟨hsettled, hview, hhits, hmisses, hdata⟩ := hr
    exact ⟨hsettled, hagrees (by simp [hhits]) (by simp [hmisses]) hdata, hview⟩

/-! ## §3. Any sequence of requests. -/

/-- The cache `zn_init_cache` builds. -/
theorem settled_init (g : Geometry) (rb bytes : Buffer) :
    Settled g rb none (initCache promotional g bytes) := by
  have hinit := zsmInit_inv g
  constructor
  case zsm => exact hinit
  case no_writer => rfl
  case one_open => exact Nat.zero_le 1
  case lru_ok => exact ZnPolicyPromotional.init_ok g
  case max_eq => rfl
  case mem_lru =>
    intro z
    refine iff_of_false (fun hin => ?_) fun hst => ?_
    · cases hin
    · cases hst
  case inverse => exact ⟨⊥, znCachemapInit_represents g.nrZones⟩
  case zones => rfl
  case pending => exact fun k c => iff_of_false (fun h => by cases h) fun h => by cases h
  case cond_held => exact fun k c h => by cases h
  case readers => exact fun _ => rfl
  case filled =>
    intro z c
    refine iff_of_false (fun h => ?_) (Nat.not_lt_zero c)
    cases h
  case stored => exact fun z c id h => by cases h
  case holds => exact fun z c id h => by cases h

/-- Whoever is served has been served in as few steps or more. -/
theorem serve_mono {P E : Type} {pol : EvictPolicy P E} {n m : Nat} (hle : n ≤ m) :
    ∀ (requests : List (UInt32 × (Nat → Answers))) (s : CacheState P) (replies : List Reply),
      serve pol g rb n s requests = some replies → serve pol g rb m s requests = some replies := by
  intro requests
  induction requests with
  | nil => intro s replies h; exact h
  | cons request rest ih =>
    intro s replies h
    obtain ⟨id, answers⟩ := request
    unfold serve at h ⊢
    split at h
    · rename_i s' data hdrive
      obtain ⟨replies', hrest, heq⟩ := Option.map_eq_some_iff.mp h
      rw [Program.drive_mono n m _ _ _ hdrive hle]
      exact Option.map_eq_some_iff.mpr ⟨replies', ih s' replies' hrest, heq⟩
    · cases h

/-- Requests to a cache that agrees with itself, from any point of the run. -/
theorem serve_refines (hg : g.Sound) (hmax : g.maxZoneChunks < 2 ^ 32) (hn : 1 ≤ g.nrZones)
    (hact : 1 ≤ g.maxNrActiveZones) : ∀ (requests : List (UInt32 × (Nat → Answers)))
    (s : CacheState ZnPolicyPromotional), Settled g rb none s →
    (∀ r ∈ requests, r.1.toNat < 2 ^ 31) → (∀ r ∈ requests, ∀ i, (r.2 i).Obeys g) →
      ∃ fuel replies, serve promotional g rb fuel s requests = some replies
        ∧ List.Forall₂ (fun (reply : Reply) (r : Nat × Bool) => reply.Agrees g rb r.1 r.2) replies
            ((requests.map fun r => r.1.toNat).zip
              (ZoneLru.serve (min evictLowThreshZones g.nrZones) g.maxZoneChunks (view g s)
                (requests.map fun r => r.1.toNat))) := by
  intro requests
  induction requests with
  | nil => intro s _ _ _; exact ⟨0, [], rfl, .nil⟩
  | cons request rest ih =>
    intro s h hids hobeys
    obtain ⟨id, answers⟩ := request
    have hid : id.toNat < 2 ^ 31 := hids _ (List.mem_cons_self ..)
    obtain ⟨n, ⟨s', data⟩, hdrive, hsettled, hagrees, hview⟩ := get_total hg hmax hn hact h hid answers
      (hobeys _ (List.mem_cons_self ..))
    obtain ⟨m, replies, hrest, hall⟩ := ih s' hsettled
      (fun r hr => hids r (List.mem_cons_of_mem _ hr)) (fun r hr => hobeys r (List.mem_cons_of_mem _ hr))
    -- enough steps for this call, and for every later one
    have hdrive' := Program.drive_mono n (max n m) _ _ _ hdrive (Nat.le_max_left n m)
    have hrest' := serve_mono (Nat.le_max_right n m) rest s' replies hrest
    refine ⟨max n m, _ :: replies, ?_, .cons hagrees ?_⟩
    · rw [serve, hdrive']
      dsimp only
      rw [hrest']
      rfl
    · rw [← hview]
      exact hall

/-- **THE REFINEMENT THEOREM.**  Every request of any finite sequence returns,
with the data of its id; hits and misses are those of the reference cache. -/
theorem get_refines (hg : g.Sound) (hmax : g.maxZoneChunks < 2 ^ 32) (hn : 1 ≤ g.nrZones)
    (hact : 1 ≤ g.maxNrActiveZones) (rb bytes : Buffer)
    (requests : List (UInt32 × (Nat → Answers)))
    (hids : ∀ r ∈ requests, r.1.toNat < 2 ^ 31) (hobeys : ∀ r ∈ requests, ∀ i, (r.2 i).Obeys g) :
    ∃ fuel replies, serve promotional g rb fuel (initCache promotional g bytes) requests = some replies
      ∧ List.Forall₂ (fun (reply : Reply) (r : Nat × Bool) => reply.Agrees g rb r.1 r.2) replies
          ((requests.map fun r => r.1.toNat).zip
            (ZoneLru.serve (min evictLowThreshZones g.nrZones) g.maxZoneChunks ⟨[], none, g.nrZones⟩
              (requests.map fun r => r.1.toNat))) := by
  have hview : view g (initCache promotional g bytes) = ⟨[], none, g.nrZones⟩ := by
    show ZoneLru.mk [] none (List.range g.nrZones).length = _
    rw [List.length_range]
  rw [← hview]
  exact serve_refines hg hmax hn hact requests _ (settled_init g rb bytes) hids hobeys

/-- Two zones of two chunks: id 1 is a hit while it is cached, and a miss after
the fifth id has evicted both zones. -/
theorem get_refines_two_zones : ∃ fuel replies,
    serve promotional ⟨2, 1, 4096, 8192, 8192, .zns⟩ (fun _ => 0) fuel
        (initCache promotional ⟨2, 1, 4096, 8192, 8192, .zns⟩ fun _ => 0)
        ([1, 2, 3, 1, 4, 5, 1].map fun id => (id, fun _ => ⟨0, [⟨4096, 0⟩], 4096⟩)) = some replies
      ∧ replies.map Reply.hits = [0, 0, 0, 1, 0, 0, 0] := by
  have hg : Geometry.Sound ⟨2, 1, 4096, 8192, 8192, .zns⟩ :=
    ⟨⟨by decide, by decide⟩, by decide, by decide, by decide⟩
  obtain ⟨fuel, replies, hserve, hall⟩ := get_refines hg (by decide) (by decide) (by decide)
    (fun _ => 0) (fun _ => 0) ([1, 2, 3, 1, 4, 5, 1].map fun id => (id, fun _ => ⟨0, [⟨4096, 0⟩], 4096⟩))
    (by simp) (by simp [Answers.Obeys, DeviceOk, TransfersOk])
  refine ⟨fuel, replies, hserve, ?_⟩
  have hhits : ∀ {rs : List Reply} {ps : List (Nat × Bool)},
      List.Forall₂ (fun (reply : Reply) (r : Nat × Bool) =>
        reply.Agrees ⟨2, 1, 4096, 8192, 8192, .zns⟩ (fun _ => 0) r.1 r.2) rs ps →
      rs.map Reply.hits = ps.map fun p => if p.2 then 1 else 0 := by
    intro rs ps h
    induction h with
    | nil => rfl
    | cons hr _ ih => rw [List.map_cons, List.map_cons, ih, hr.hits]
  rw [hhits hall]
  decide

end ZnCache
