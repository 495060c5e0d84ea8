/-
  ZnCache.Promotional.Life — the life of a zone under the promotional policy.

  What happens to a zone does not depend on where exactly a thread is in its
  code, only on the `Role` it plays: it writes a chunk, publishes it, reads
  one, or evicts a zone.  `Life` is the cache seen so: the zone state manager,
  the policy, the two maps without their conditions, the device, and a role for
  every thread.  Its steps are the fifteen events that touch a zone.

  Main result: `life_simulates` — every run of the cache, seen so, is a run of
  `Life`.  The invariants of the following modules are proved of `Life` and
  read back through it.
-/
import ZnCache.Promotional.FgEvict
import ZnCache.Cache.Cases
import ZnCache.CacheMap.Bijection
import ZnCache.ZoneState.Cases

namespace ZnCache

open Lib Lib.ThreadPool

universe u

/-! ## §1. Roles. -/

/-- What a thread is doing to a zone. -/
inductive Role where
  | out
  /-- Holds a location that it is about to write. -/
  | writing (id : Nat) (l : ZnPair)
  /-- Holds a location whose write failed. -/
  | failed (l : ZnPair)
  /-- Holds a location that is written. -/
  | wrote (id : Nat) (l : ZnPair) (data : Buffer)
  /-- Has given the zone back; the policy does not know yet. -/
  | pushing (id : Nat) (l : ZnPair) (data : Buffer)
  /-- The policy knows; the cache map does not. -/
  | publishing (id : Nat) (l : ZnPair) (data : Buffer)
  /-- Was handed a location, and counted as its reader. -/
  | reading (id : Nat) (l : ZnPair)
  /-- Has read, and is still counted. -/
  | leaving (id : Nat) (l : ZnPair) (data : Option Buffer)
  /-- Holds a buffer to return. -/
  | result (id : Nat) (data : Buffer)
  | clearing (zone : Nat)
  | waiting (zone : Nat)
  | resetting (zone : Nat)

namespace Role

/-- The location handed out and not given back. -/
def writes : Role → Option ZnPair
  | writing _ l | failed l | wrote _ l _ => some l
  | _ => none

/-- The chunk given back and not published. -/
def pending : Role → Option (Nat × ZnPair)
  | pushing id l _ | publishing id l _ => some (id, l)
  | _ => none

/-- The chunk read and counted. -/
def reads : Role → Option (Nat × ZnPair)
  | reading id l | leaving id l _ => some (id, l)
  | _ => none

/-- The zone taken from the policy. -/
def evicts : Role → Option Nat
  | clearing z | waiting z | resetting z => some z
  | _ => none

/-- The zone taken from the policy whose entries are gone. -/
def cleared : Role → Option Nat
  | waiting z | resetting z => some z
  | _ => none

/-- What a reader returns with. -/
def ofData (id : Nat) : Option Buffer → Role
  | some data => result id data
  | none => out

end Role

/-- The role of a thread in `zn_fg_evict`. -/
def FgEvict.role : FgEvict → Role
  | .start | .loop _ _ => .out
  | .clear _ _ z => .clearing z
  | .wait _ _ z => .waiting z
  | .reset _ _ z => .resetting z

/-- The role of a thread in `zn_cache_get`. -/
def GetPc.role : GetPc FgEvict → Role
  | .find _ | .findWait _ _ _ | .acquire _ | .undoMap _ => .out
  | .read id l => .reading id l
  | .readUpdate id l data | .readDone id l data => .leaving id l data
  | .hit id data | .done id data => .ofData id data
  | .evict _ e => e.role
  | .write id l => .writing id l
  | .miss id l data | .commit id l data => .wrote id l data
  | .writeUpdate id l data => .pushing id l data
  | .publish id l data => .publishing id l data
  | .undoZoneGet _ l => .failed l

/-- The role of a thread. -/
def Pc.role : Pc FgEvict → Role
  | .idle => .out
  | .get pc => pc.role
  | .evictor e => e.role

/-! ## §2. The events. -/

/-- The cache as the zones see it. -/
structure Life (Tid : Type u) where
  zsm : ZoneStateManager
  policy : ZnPolicyPromotional
  /-- Where `zone_map` has an id. -/
  loc : Nat → Option (Nat × Nat)
  /-- What `data_map` has at a zone and chunk. -/
  data : Nat → Nat → Option Nat
  dev : Device
  role : Tid → Role

/-- The events, with what is answered to them. -/
inductive LifeLabel (Tid : Type u) where
  | acquire (t : Tid) (ret : Int)
  | write (t : Tid) (results : List PwriteResult)
  | commit (t : Tid) (ret : Int)
  | abandon (t : Tid)
  | push (t : Tid)
  | publish (t : Tid)
  | enter (t : Tid)
  | read (t : Tid) (ret : Int)
  | touch (t : Tid)
  | leave (t : Tid)
  | drop (t : Tid)
  | pop (t : Tid)
  | clear (t : Tid)
  | drain (t : Tid)
  | reset (t : Tid) (ret : Int)

/-- The role after `zsm_get_active_zone`. -/
def ZsmGetActiveZone.role (id : Nat) : ZsmGetActiveZone → Role
  | .success l => .writing id l
  | _ => .out

/-- The location table after the entries of a zone are cleared: those of the
ids its table holds are gone, and no other zone's. -/
structure ClearsZone (zone : Nat) (loc loc' : Nat → Option (Nat × Nat))
    (data : Nat → Nat → Option Nat) : Prop where
  only : ∀ k, loc' k = loc k ∨ loc' k = none ∧ ∃ c, loc k = some (zone, c)
  listed : ∀ c k, data zone c = some k → k < 2 ^ 32 → loc' k = none

variable {Tid : Type u} [DecidableEq Tid]

/-- **The events that touch a zone.** -/
inductive LifeStep (g : Geometry) (rb : Buffer) (s : Life Tid) : LifeLabel Tid → Life Tid → Prop
  | acquire {t : Tid} {ret : Int} {id : Nat} {r : ZsmGetActiveZone} {zsm : ZoneStateManager}
      (hid : id < 2 ^ 32) (ht : s.role t = .out)
      (h : zsmGetActiveZone g ret s.zsm = .ok (r, zsm)) :
      LifeStep g rb s (.acquire t ret)
        { s with zsm := zsm, role := Function.update s.role t (r.role id) }
  | write {t : Tid} {id : Nat} {l : ZnPair} {results : List PwriteResult} {r : Int} {d : Device}
      (ht : s.role t = .writing id l)
      (h : writeChunk g s.dev l id (znGenWriteBuffer id rb) results = some (r, d)) :
      LifeStep g rb s (.write t results)
        { s with
          dev := d
          role := Function.update s.role t
            (if r ≠ 0 then .failed l else .wrote id l (znGenWriteBuffer id rb)) }
  | commit {t : Tid} {ret : Int} {id : Nat} {l : ZnPair} {data : Buffer} {r : Int}
      {zsm : ZoneStateManager} (ht : s.role t = .wrote id l data)
      (h : zsmReturnActiveZone g ret s.zsm l = .ok (r, zsm)) :
      LifeStep g rb s (.commit t ret)
        { s with zsm := zsm, role := Function.update s.role t (.pushing id l data) }
  | abandon {t : Tid} {l : ZnPair} {zsm : ZoneStateManager} (ht : s.role t = .failed l)
      (h : zsmFailedToWrite g s.zsm l = .ok zsm) :
      LifeStep g rb s (.abandon t) { s with zsm := zsm, role := Function.update s.role t .out }
  | push {t : Tid} {id : Nat} {l : ZnPair} {data : Buffer} {p : ZnPolicyPromotional}
      (ht : s.role t = .pushing id l data)
      (h : znPolicyPromotionalUpdate s.policy l .write = .ok p) :
      LifeStep g rb s (.push t)
        { s with policy := p, role := Function.update s.role t (.publishing id l data) }
  | publish {t : Tid} {id : Nat} {l : ZnPair} {data : Buffer} {data' : Nat → Nat → Option Nat}
      (ht : s.role t = .publishing id l data) (hid : id < 2 ^ 32) (hloc : s.loc id = none)
      (hdata : l.chunkOffset < 2 ^ 32 → ∀ z c, data' z c
        = if z = l.zone ∧ c = l.chunkOffset then some id else s.data z c) :
      LifeStep g rb s (.publish t)
        { s with
          loc := Function.update s.loc id (some (l.zone, l.chunkOffset))
          data := data'
          role := Function.update s.role t (.result id data) }
  | enter {t : Tid} {id : Nat} {l : ZnPair} (hid : id < 2 ^ 32) (ht : s.role t = .out)
      (hloc : s.loc id = some (l.zone, l.chunkOffset)) :
      LifeStep g rb s (.enter t) { s with role := Function.update s.role t (.reading id l) }
  | read {t : Tid} {id : Nat} {l : ZnPair} {ret : Int} (ht : s.role t = .reading id l) :
      LifeStep g rb s (.read t ret)
        { s with role := Function.update s.role t (.leaving id l (znReadFromDisk g s.dev l ret)) }
  | touch {t : Tid} {id : Nat} {l : ZnPair} {data : Option Buffer} {p : ZnPolicyPromotional}
      (ht : s.role t = .leaving id l data)
      (h : znPolicyPromotionalUpdate s.policy l .read = .ok p) :
      LifeStep g rb s (.touch t) { s with policy := p }
  | leave {t : Tid} {id : Nat} {l : ZnPair} {data : Option Buffer}
      (ht : s.role t = .leaving id l data) :
      LifeStep g rb s (.leave t) { s with role := Function.update s.role t (.ofData id data) }
  | drop {t : Tid} {id : Nat} {data : Buffer} (ht : s.role t = .result id data) :
      LifeStep g rb s (.drop t) { s with role := Function.update s.role t .out }
  | pop {t : Tid} {zone : Nat} {p : ZnPolicyPromotional} (ht : s.role t = .out)
      (h : znPolicyPromotionalGetZoneToEvict s.policy = (some zone, p)) :
      LifeStep g rb s (.pop t)
        { s with policy := p, role := Function.update s.role t (.clearing zone) }
  | clear {t : Tid} {zone : Nat} {loc' : Nat → Option (Nat × Nat)} (ht : s.role t = .clearing zone)
      (h : ClearsZone zone s.loc loc' s.data) :
      LifeStep g rb s (.clear t)
        { s with
          loc := loc'
          data := Function.update s.data zone fun _ => none
          role := Function.update s.role t (.waiting zone) }
  | drain {t : Tid} {zone : Nat} (ht : s.role t = .waiting zone)
      (hno : ∀ u id l, (s.role u).reads = some (id, l) → l.zone ≠ zone) :
      LifeStep g rb s (.drain t) { s with role := Function.update s.role t (.resetting zone) }
  | reset {t : Tid} {ret : Int} {zone : Nat} {zsm : ZoneStateManager}
      (ht : s.role t = .resetting zone) (h : zsmEvict g ret s.zsm zone = .ok (0, zsm)) :
      LifeStep g rb s (.reset t ret)
        { s with
          zsm := zsm
          dev := s.dev.forget zone
          role := Function.update s.role t .out }

/-- The runs of the events. -/
def lifeSystem (Tid : Type u) [DecidableEq Tid] (g : Geometry) (rb : Buffer) :
    TransSys (Life Tid) (LifeLabel Tid) where
  init s := ∃ bytes, s = { zsm := zsmInit g, policy := znPolicyPromotionalInit g, loc := fun _ => none,
                           data := fun _ _ => none, dev := ⟨bytes, fun _ _ => none⟩,
                           role := fun _ => .out }
  step := LifeStep g rb

/-! ## §3. What is assumed. -/

/-- Zone commands succeed. -/
def LifeLabel.ZoneOk (g : Geometry) : LifeLabel Tid → Prop
  | .acquire _ ret | .commit _ ret | .reset _ ret => DeviceOk g ret
  | _ => True

/-- Transfers succeed. -/
def LifeLabel.TransferOk : LifeLabel Tid → Prop
  | .write _ results => TransfersOk results
  | _ => True

/-- A zone is cleared when no chunk of it waits to be published. -/
def LifeLabel.PublishedFirst (s : Life Tid) : LifeLabel Tid → Prop
  | .clear t => ∀ zone, s.role t = .clearing zone →
      ∀ u id l, (s.role u).pending = some (id, l) → l.zone ≠ zone
  | _ => True

/-- The zone whose entries a thread is about to clear. -/
def Pc.clears (pc : Pc FgEvict) : Option Nat :=
  match pc.evicting with
  | some (.clear _ _ zone) => some zone
  | _ => none

/-- The chunk a thread has given back to the zone state manager and not yet
inserted into the cache map. -/
def Pc.unpublished : Pc FgEvict → Option ZnPair
  | .get (.writeUpdate _ l _) | .get (.publish _ l _) => some l
  | _ => none

/-- **The order the comment in `zn_fg_evict` relies on**: when the entries of a
zone are cleared, no thread is between its `zsm_return_active_zone` for a chunk
of the zone and its `zn_cachemap_insert`. -/
def SysLabel.PublishedFirst {P : Type} (s : Sys P FgEvict Tid) : SysLabel Tid → Prop
  | .step t _ => ∀ zone ∈ (s.pool t).clears, ∀ u, ∀ l ∈ (s.pool u).unpublished, l.zone ≠ zone
  | _ => True

instance SysLabel.decPublishedFirst [Fintype Tid] {P : Type} (s : Sys P FgEvict Tid)
    (l : SysLabel Tid) : Decidable (l.PublishedFirst s) :=
  match l with
  | .step t _ => inferInstanceAs (Decidable
      (∀ zone ∈ (s.pool t).clears, ∀ u, ∀ l ∈ (s.pool u).unpublished, l.zone ≠ zone))
  | .get _ _ | .fgEvict _ | .evictTask _ | .ret _ => isTrue trivial

/-! ## §4. The simulation. -/

/-- The cache, seen by the zones. -/
def Sys.life (s : Sys ZnPolicyPromotional FgEvict Tid) : Life Tid where
  zsm := s.cache.zoneState
  policy := s.cache.policy
  loc := locOf s.cache.cacheMap
  data := fun z c => (s.cache.cacheMap.dataMap z).lookup c
  dev := s.cache.device
  role := fun t => (s.pool t).role

section Simulation

variable {g : Geometry} {rb : Buffer} {s : Sys ZnPolicyPromotional FgEvict Tid}

omit [DecidableEq Tid] in
theorem life_role (t : Tid) : s.life.role t = (s.pool t).role := rfl

/-- The zones' view after a thread has moved. -/
theorem life_goto (t : Tid) (c : CacheState ZnPolicyPromotional) (pc : Pc FgEvict) :
    (s.goto t c pc).life = { zsm := c.zoneState, policy := c.policy, loc := locOf c.cacheMap,
                             data := fun z x => (c.cacheMap.dataMap z).lookup x, dev := c.device,
                             role := Function.update s.life.role t pc.role } := by
  unfold Sys.life
  rw [Sys.goto_view Pc.role]
  rfl

/-- A step that the zones do not see. -/
theorem life_goto_same {t : Tid} {c : CacheState ZnPolicyPromotional} {pc : Pc FgEvict}
    (hrole : pc.role = (s.pool t).role) (hz : c.zoneState = s.cache.zoneState)
    (hp : c.policy = s.cache.policy) (hl : ∀ k, locOf c.cacheMap k = locOf s.cache.cacheMap k)
    (hd : c.cacheMap.dataMap = s.cache.cacheMap.dataMap) (hdev : c.device = s.cache.device) :
    (s.goto t c pc).life = s.life := by
  rw [life_goto, hz, hp, hd, hdev, funext hl, hrole, ← life_role, Function.update_eq_self]
  rfl

omit [DecidableEq Tid] in
theorem pending_unpublished {t : Tid} {id : Nat} {l : ZnPair}
    (h : (s.pool t).role.pending = some (id, l)) : (s.pool t).unpublished = some l := by
  generalize s.pool t = pc at h ⊢
  match pc with
  | .idle => cases h
  | .evictor e | .get (.evict _ e) => cases e <;> cases h
  | .get (.writeUpdate _ _ _) | .get (.publish _ _ _) => cases h; rfl
  | .get (.hit _ data) | .get (.done _ data) => cases data <;> cases h
  | .get (.find _) | .get (.findWait _ _ _) | .get (.acquire _) | .get (.undoMap _)
  | .get (.read _ _) | .get (.readUpdate _ _ _) | .get (.readDone _ _ _) | .get (.write _ _)
  | .get (.miss _ _ _) | .get (.commit _ _ _) | .get (.undoZoneGet _ _) => cases h

omit [DecidableEq Tid] in
/-- A counted reader is a reader of its zone. -/
theorem reads_of_role {t : Tid} {id : Nat} {l : ZnPair}
    (h : (s.pool t).role.reads = some (id, l)) : (s.pool t).Reads l.zone := by
  generalize s.pool t = pc at h ⊢
  match pc with
  | .idle => cases h
  | .evictor e | .get (.evict _ e) => cases e <;> cases h
  | .get (.read _ _) | .get (.readUpdate _ _ _) | .get (.readDone _ _ _) => cases h; rfl
  | .get (.hit _ data) | .get (.done _ data) => cases data <;> cases h
  | .get (.find _) | .get (.findWait _ _ _) | .get (.acquire _) | .get (.undoMap _)
  | .get (.writeUpdate _ _ _) | .get (.publish _ _ _) | .get (.write _ _)
  | .get (.miss _ _ _) | .get (.commit _ _ _) | .get (.undoZoneGet _ _) => cases h

/-- What a step of the cache is to the zones: nothing, or one event, under
the same assumptions. -/
def Simulates (g : Geometry) (rb : Buffer) (s : Sys ZnPolicyPromotional FgEvict Tid)
    (l : SysLabel Tid) (s' : Sys ZnPolicyPromotional FgEvict Tid) : Prop :=
  s'.life = s.life ∨ ∃ k, LifeStep g rb s.life k s'.life ∧ (l.ZoneOk g → k.ZoneOk g)
    ∧ (l.TransferOk g → k.TransferOk) ∧ (l.PublishedFirst s → k.PublishedFirst s.life)

/-- An event that carries no assumption on publication. -/
theorem Simulates.of_event {l : SysLabel Tid} {s' : Sys ZnPolicyPromotional FgEvict Tid}
    {k : LifeLabel Tid} (h : LifeStep g rb s.life k s'.life) (hz : l.ZoneOk g → k.ZoneOk g)
    (ht : l.TransferOk g → k.TransferOk) (hp : k.PublishedFirst s.life) :
    Simulates g rb s l s' := Or.inr ⟨k, h, hz, ht, fun _ => hp⟩

/-- A stretch of a find: a reader enters, or nothing happens to the zones. -/
theorem find_simulates {t : Tid} {l : SysLabel Tid} {id : Nat} {r : FindResult}
    {m m₀ : ZnCachemap} (hid : id < 2 ^ 32) (ht : (s.pool t).role = .out)
    (hl : ∀ k, locOf m₀ k = locOf s.cache.cacheMap k) (hd : m₀.dataMap = s.cache.cacheMap.dataMap)
    (h : FindCase m₀ id r m) :
    Simulates g rb s l (s.goto t { s.cache with cacheMap := m } (.get (r.getPc id))) := by
  have hmap : ∀ k, locOf m k = locOf s.cache.cacheMap k := fun k => (locOf_find h k).trans (hl k)
  have hdata : m.dataMap = s.cache.cacheMap.dataMap := by
    rw [← hd]
    cases h <;> rfl
  cases h with
  | @located loc hloc =>
    have hlocId : s.life.loc id = some (loc.zone, loc.chunkOffset) := by
      show locOf s.cache.cacheMap id = _
      rw [← hl, locOf_eq_some]
      exact ⟨loc, by rw [← gintToPointer_natCast (show id < 2 ^ 64 by omega)]; exact hloc, rfl⟩
    refine .of_event (k := .enter t) ?_ (fun _ => trivial) (fun _ => trivial) trivial
    rw [life_goto]
    simp only [hdata, funext hmap]
    exact .enter hid ht hlocId
  | sleep | write => exact Or.inl (life_goto_same ht.symm rfl rfl hmap hdata rfl)

/-- The role of a thread that `zn_fg_evict` goes on with, or returns to. -/
def evictRole : Option FgEvict → Role
  | none => .out
  | some e => e.role

/-- One step of `zn_fg_evict`, called from wherever. -/
theorem evict_simulates [Fintype Tid] {t : Tid} {a : Answers} {e : FgEvict} {e' : Option FgEvict}
    {c : CacheState ZnPolicyPromotional} {pc : Pc FgEvict} (hreaders : ReadersExact s)
    (hkeys : KeysU32 s.cache.cacheMap) (ht : (s.pool t).evicting = some e) (hrole : (s.pool t).role = e.role)
    (hpc : pc.role = evictRole e') (h : FgEvictCase g a s.cache e c e') :
    Simulates g rb s (.step t a) (s.goto t c pc) := by
  have hrole' : s.life.role t = e.role := hrole
  cases h with
  | start => exact Or.inl (life_goto_same (by rw [hpc, hrole]; rfl) rfl rfl (fun _ => rfl) rfl rfl)
  | leave => exact Or.inl (life_goto_same (by rw [hpc, hrole]; rfl) rfl rfl (fun _ => rfl) rfl rfl)
  | pop hpop =>
    refine .of_event (k := .pop t) ?_ (fun _ => trivial) (fun _ => trivial) trivial
    rw [life_goto, hpc]
    exact .pop hrole' hpop
  | @clear i bound zone m hclear =>
    obtain ⟨-, zm, rfl, hzm, hvisited⟩ := znCachemapClearZone_ok hclear
    refine Or.inr ⟨.clear t, ?_, fun _ => trivial, fun _ => trivial, ?_⟩
    · rw [life_goto, hpc]
      have hdata : (fun z x => ((({ s.cache.cacheMap with zoneMap := zm } : ZnCachemap).setData
          zone ∅).dataMap z).lookup x) = Function.update s.life.data zone fun _ => none := by
        funext z x
        by_cases hz : z = zone
        · subst hz; simp
        · simp [hz, Sys.life]
      simp only [hdata]
      refine .clear hrole' ⟨fun k => ?_, fun x k hk hlt => ?_⟩
      · rcases hzm k with heq | ⟨hnone, l, hl, hlz⟩
        · exact Or.inl (locOf_congr heq)
        · refine Or.inr ⟨locOf_eq_none (by simp [hnone]), l.chunkOffset, ?_⟩
          exact locOf_eq_some.mpr ⟨l, hl, by rw [hlz]⟩
      · obtain ⟨hgone, hwas⟩ := hvisited _ (AList.mem_lookup_iff.mp hk)
        -- from `2^31` on, `GPOINTER_TO_INT` is negative: there is no such key
        have hkey : gintToPointer (gpointerToInt k) = k := by
          have hbound : gintToPointer (gpointerToInt k) < 2 ^ 32 := hkeys _ hwas
          unfold gintToPointer gpointerToInt at hbound ⊢
          split at hbound <;> split <;> omega
        rw [hkey] at hgone
        exact locOf_eq_none (by simp [hgone])
    · intro hfirst zone' hz'
      rw [hrole'] at hz'
      cases hz'
      intro u id l hu
      exact hfirst zone (by rw [Pc.clears, ht]; rfl) u l (pending_unpublished hu)
  | wait => exact Or.inl (life_goto_same (by rw [hpc, hrole]; rfl) rfl rfl (fun _ => rfl) rfl rfl)
  | @drained i bound zone hle =>
    refine .of_event (k := .drain t) ?_ (fun _ => trivial) (fun _ => trivial) trivial
    rw [life_goto, hpc]
    refine .drain hrole' fun u id l hu hz => ?_
    have hzero : countOn Finset.univ (Pc.Reads (E := FgEvict) zone) s.pool = 0 := by
      have := hreaders zone
      omega
    have hreads := reads_of_role hu
    rw [hz] at hreads
    exact (countOn_eq_zero_iff _ _).mp hzero u (Finset.mem_univ u) hreads
  | @reset i bound zone i' z hevict =>
    refine .of_event (k := .reset t a.ret) ?_ (fun h => h) (fun _ => trivial) trivial
    rw [life_goto, hpc]
    exact .reset hrole' hevict

/-- One step of `zn_cache_get`. -/
theorem get_simulates [Fintype Tid] {t : Tid} {a : Answers} {pc pc' : GetPc FgEvict}
    {c : CacheState ZnPolicyPromotional} (hreaders : ReadersExact s)
    (hkeys : KeysU32 s.cache.cacheMap) (hid : pc.id < 2 ^ 32)
    (ht : s.pool t = .get pc) (h : GetCase promotional g rb a s.cache pc c pc') :
    Simulates g rb s (.step t a) (s.goto t c (.get pc')) := by
  have hrole : (s.pool t).role = pc.role := by rw [ht]; rfl
  have hrole' : s.life.role t = pc.role := hrole
  -- each step is one event of the zones' life, or none that they see
  cases h with
  | find hf => exact find_simulates hid hrole (fun _ => rfl) rfl hf
  | wake hf =>
    refine find_simulates hid hrole ?_ ?_ hf
    · exact fun _ => rfl
    · rfl
  | @read id l =>
    refine .of_event (k := .read t a.pread) ?_ (fun _ => trivial) (fun _ => trivial) trivial
    rw [life_goto]
    exact .read hrole'
  | @readUpdate id l data p hp =>
    refine .of_event (k := .touch t) ?_ (fun _ => trivial) (fun _ => trivial) trivial
    rw [life_goto, show (Pc.get (GetPc.readDone id l data)).role = s.life.role t from hrole'.symm,
      Function.update_eq_self]
    exact .touch hrole' (Option.some.inj hp)
  | readDone =>
    refine .of_event (k := .leave t) ?_ (fun _ => trivial) (fun _ => trivial) trivial
    rw [life_goto]
    exact .leave hrole'
  | hit => exact Or.inl (life_goto_same hrole.symm rfl rfl (fun _ => rfl) rfl rfl)
  | @acquire id r z hr =>
    refine .of_event (k := .acquire t a.ret) ?_ (fun h => h) (fun _ => trivial) trivial
    rw [life_goto, show (Pc.get (r.getPc promotional id)).role = r.role id by cases r <;> rfl]
    exact .acquire hid hrole' hr
  | @evict id e s' e' hs =>
    refine evict_simulates hreaders hkeys (by rw [ht]; rfl) hrole ?_ (fgEvictStep_cases hs)
    cases e' <;> rfl
  | @write id l r d hw =>
    refine .of_event (k := .write t a.pwrites) ?_ (fun _ => trivial) (fun h => h.1) trivial
    have hto : (Pc.get (if r ≠ 0 then GetPc.undoZoneGet id l
        else .miss id l (znGenWriteBuffer id rb))).role
          = if r ≠ 0 then .failed l else .wrote id l (znGenWriteBuffer id rb) := by
      split <;> rfl
    rw [life_goto, hto]
    exact .write hrole' hw
  | miss => exact Or.inl (life_goto_same hrole.symm rfl rfl (fun _ => rfl) rfl rfl)
  | commit hz =>
    refine .of_event (k := .commit t a.ret) ?_ (fun h => h) (fun _ => trivial) trivial
    rw [life_goto]
    exact .commit hrole' hz
  | writeUpdate hp =>
    refine .of_event (k := .push t) ?_ (fun _ => trivial) (fun _ => trivial) trivial
    rw [life_goto]
    exact .push hrole' (Option.some.inj hp)
  | @publish id l data m hm =>
    obtain ⟨x, hx, -, -, rfl⟩ := znCachemapInsert_ok hm
    have hid' : id < 2 ^ 64 := Nat.lt_trans hid (by decide)
    have hloc : s.life.loc id = none :=
      locOf_eq_none (by rw [← guintToPointer_eq hid']; simp [hx])
    refine .of_event (k := .publish t) ?_ (fun _ => trivial) (fun _ => trivial) trivial
    have hloc' : locOf (published s.cache.cacheMap id l x)
        = Function.update s.life.loc id (some (l.zone, l.chunkOffset)) := locOf_published hid'
    rw [life_goto]
    simp only [hloc']
    exact .publish hrole' hid hloc fun h32 => lookup_published hid' (Nat.lt_trans h32 (by decide))
  | undoZoneGet hz =>
    refine .of_event (k := .abandon t) ?_ (fun _ => trivial) (fun _ => trivial) trivial
    rw [life_goto]
    exact .abandon hrole' hz
  | undoMap hm =>
    obtain ⟨x, hx, -, rfl⟩ := znCachemapFail_ok hm
    exact Or.inl (life_goto_same hrole.symm rfl rfl (locOf_withdrawn hx) rfl rfl)

/-- **One step of the system.** -/
theorem sysStep_simulates [Fintype Tid] {l : SysLabel Tid}
    {s' : Sys ZnPolicyPromotional FgEvict Tid} (hreaders : ReadersExact s) (hids : IdsU32 s)
    (hkeys : KeysU32 s.cache.cacheMap)
    (h : sysStep promotional g rb s l = some (.ok s')) : Simulates g rb s l s' := by
  cases sysStep_cases h with
  | get ht =>
    exact Or.inl (life_goto_same (by rw [ht]; rfl) rfl rfl (fun _ => rfl) rfl rfl)
  | fgEvict ht =>
    exact Or.inl (life_goto_same (by rw [ht]; rfl) rfl rfl (fun _ => rfl) rfl rfl)
  | taskSleeps => exact Or.inl rfl
  | taskEvicts ht =>
    exact Or.inl (life_goto_same (by rw [ht]; rfl) rfl rfl (fun _ => rfl) rfl rfl)
  | step ht hcase => exact get_simulates hreaders hkeys (hids _ _ ht) ht hcase
  | @evict t a e e' c ht hstep =>
    refine evict_simulates hreaders hkeys (by rw [ht]; rfl) (by rw [ht]; rfl) ?_
      (fgEvictStep_cases hstep)
    cases e' <;> rfl
  | @ret t id data ht =>
    cases data with
    | none => exact Or.inl (life_goto_same (by rw [ht]; rfl) rfl rfl (fun _ => rfl) rfl rfl)
    | some data =>
      refine .of_event (k := .drop t) ?_ (fun _ => trivial) (fun _ => trivial) trivial
      rw [life_goto]
      exact .drop (show (s.pool t).role = _ by rw [ht]; rfl)

/-- **THE SIMULATION THEOREM.**  The zones' view of a run of the cache is a run
of their life, under the assumptions the run meets. -/
theorem life_simulates [Fintype Tid] {C : Sys ZnPolicyPromotional FgEvict Tid → SysLabel Tid → Prop}
    {D : Life Tid → LifeLabel Tid → Prop}
    (hD : ∀ s l k, C s l → (l.ZoneOk g → k.ZoneOk g) → (l.TransferOk g → k.TransferOk) →
      (l.PublishedFirst s → k.PublishedFirst s.life) → D s.life k)
    (hr : (cacheSystem Tid promotional g rb).Reach C s) :
    (lifeSystem Tid g rb).Reach D s.life := by
  refine TransSys.Reach.simulate Sys.life ?_ ?_ hr
  · intro s hs
    obtain ⟨bytes, rfl⟩ := hs
    exact ⟨bytes, rfl⟩
  · intro s l s' hreach _ hc hs
    have hreaders := readers_exact promotional_readers hreach
    have hids := ids_u32 hreach
    have hkeys := keys_u32 promotional_keys hreach
    rcases sysStep_simulates hreaders hids hkeys hs with heq | ⟨k, hk, hz, ht, hp⟩
    · exact Or.inl heq
    · exact Or.inr ⟨k, hD s l k hc hz ht hp, hk⟩

end Simulation

end ZnCache
