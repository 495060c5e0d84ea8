/-
  ZnCache.Promotional.Places — a zone is in one place at a time.

  A zone is in the free queue, in the active queue, in the LRU queue of the
  policy, or held by a thread: the one that writes a chunk of it, the one that
  has filled it and not told the policy yet, or the one that evicts it.  The
  zones are the tokens of `Lib.Tokens`, and every event moves at most one.

  This needs no device: a zone command that fails only loses its zone.  It does
  need the two tests for the last chunk of a zone to agree (`last_iff`), which
  they do as long as the number of chunks fits 32 bits.

  Main result: `places_reach` — every run keeps `Places`.
-/
import ZnCache.Promotional.Life
import ZnCache.Lib.Tokens

namespace ZnCache

open Lib

universe u

/-! ## §1. Who holds a zone. -/

/-- The chunk that fills its zone, by the test of `zsm_return_active_zone`. -/
def Geometry.LastChunk (g : Geometry) (l : ZnPair) : Prop :=
  (l.chunkOffset + 1) % 2 ^ 32 = g.maxZoneChunks

instance Geometry.decLastChunk (g : Geometry) (l : ZnPair) : Decidable (g.LastChunk l) := by
  unfold Geometry.LastChunk
  infer_instance

/-- `zone_max_chunks - 1` is the offset of the last chunk. -/
theorem last_iff {g : Geometry} (hmax : g.maxZoneChunks < 2 ^ 32) {l : ZnPair}
    (hl : l.chunkOffset < 2 ^ 32) :
    l.chunkOffset = u32Sub (g.maxZoneChunks % 2 ^ 32) 1 ↔ g.LastChunk l := by
  unfold u32Sub Geometry.LastChunk
  omega

/-- The zone a thread holds. -/
def Role.place (g : Geometry) : Role → Option Nat
  | .writing _ l | .failed l | .wrote _ l _ => some l.zone
  | .pushing _ l _ => if g.LastChunk l then some l.zone else none
  | .clearing z | .waiting z | .resetting z => some z
  | _ => none

theorem Role.place_of_writes {g : Geometry} {r : Role} {l : ZnPair} (h : r.writes = some l) :
    r.place g = some l.zone := by
  cases r <;> cases h <;> rfl

theorem Role.place_of_evicts {g : Geometry} {r : Role} {z : Nat} (h : r.evicts = some z) :
    r.place g = some z := by
  cases r <;> cases h <;> rfl

@[simp] theorem Role.place_ofData (g : Geometry) (id : Nat) (data : Option Buffer) :
    (Role.ofData id data).place g = none := by
  cases data <;> rfl

@[simp] theorem Role.writes_ofData (id : Nat) (data : Option Buffer) :
    (Role.ofData id data).writes = none := by
  cases data <;> rfl

@[simp] theorem Role.pending_ofData (id : Nat) (data : Option Buffer) :
    (Role.ofData id data).pending = none := by
  cases data <;> rfl

variable {Tid : Type u} {g : Geometry} {zsm : ZoneStateManager} {policy : ZnPolicyPromotional}
  {role : Tid → Role}

/-- The zones that are in a queue. -/
def queuedZones (zsm : ZoneStateManager) (policy : ZnPolicyPromotional) : List Nat :=
  zsm.free ++ zsm.active ++ policy.lru

/-- **A zone is in one place at a time**, and what goes with that. -/
structure Places (g : Geometry) (zsm : ZoneStateManager) (policy : ZnPolicyPromotional)
    (role : Tid → Role) : Prop where
  tokens : Tokens (queuedZones zsm policy) (Role.place g ∘ role)
  lru_ok : policy.LruOk
  max_eq : policy.zoneMaxChunks = g.maxZoneChunks % 2 ^ 32
  zone_id : ∀ z, (zsm.state z).zoneId = z
  offset_lt : ∀ z, (zsm.state z).chunkOffset < 2 ^ 32
  pending_lt : ∀ t id l, (role t).pending = some (id, l) → l.chunkOffset < 2 ^ 32
  writing : ∀ t l, (role t).writes = some l → (zsm.state l.zone).state = .writeOccuring
  /-- A location handed out is where its zone stands. -/
  at_offset : ∀ t l, (role t).writes = some l → (zsm.state l.zone).chunkOffset = l.chunkOffset

namespace Places

/-! ## §2. What the invariant says. -/

/-- A queued zone is held by no thread. -/
theorem not_held (h : Places g zsm policy role) {z : Nat} (hz : z ∈ queuedZones zsm policy)
    (t : Tid) : (role t).place g ≠ some z :=
  fun ht => h.tokens.apart t z ht hz

/-- The holder of a zone is the only one. -/
theorem not_held_else (h : Places g zsm policy role) {t : Tid} {z : Nat}
    (ht : (role t).place g = some z) (u : Tid) (hu : u ≠ t) : (role u).place g ≠ some z :=
  fun hu' => hu (h.tokens.distinct u t z hu' ht)

theorem not_active (h : Places g zsm policy role) {t : Tid} {z : Nat}
    (ht : (role t).place g = some z) : z ∉ zsm.active :=
  fun hz => h.tokens.apart t z ht (by simp [queuedZones, hz])

theorem not_lru (h : Places g zsm policy role) {t : Tid} {z : Nat}
    (ht : (role t).place g = some z) : z ∉ policy.lru :=
  fun hz => h.tokens.apart t z ht (by simp [queuedZones, hz])

theorem writes_lt (h : Places g zsm policy role) {t : Tid} {l : ZnPair}
    (ht : (role t).writes = some l) : l.chunkOffset < 2 ^ 32 :=
  h.at_offset t l ht ▸ h.offset_lt l.zone

/-! ## §3. How it is kept. -/

variable [DecidableEq Tid] {t : Tid} {r : Role}

/-- The zones and the policy may stay as they are while a thread keeps what it
holds. -/
theorem goto (h : Places g zsm policy role) (hplace : r.place g = (role t).place g)
    (hwrites : ∀ l, r.writes = some l → (role t).writes = some l)
    (hpending : ∀ id l, r.pending = some (id, l) → l.chunkOffset < 2 ^ 32) :
    Places g zsm policy (Function.update role t r) where
  tokens := by
    rw [Function.comp_update, hplace]
    show Tokens _ (Function.update (Role.place g ∘ role) t ((Role.place g ∘ role) t))
    rw [Function.update_eq_self]
    exact h.tokens
  lru_ok := h.lru_ok
  max_eq := h.max_eq
  zone_id := h.zone_id
  offset_lt := h.offset_lt
  pending_lt u id l hu := by
    by_cases hut : u = t
    · subst hut
      rw [Function.update_self] at hu
      exact hpending id l hu
    · rw [Function.update_of_ne hut] at hu
      exact h.pending_lt u id l hu
  writing u l hu := by
    by_cases hut : u = t
    · subst hut
      rw [Function.update_self] at hu
      exact h.writing u l (hwrites l hu)
    · rw [Function.update_of_ne hut] at hu
      exact h.writing u l hu
  at_offset u l hu := by
    by_cases hut : u = t
    · subst hut
      rw [Function.update_self] at hu
      exact h.at_offset u l (hwrites l hu)
    · rw [Function.update_of_ne hut] at hu
      exact h.at_offset u l hu

/-- The policy may change as long as every zone stays in one place. -/
theorem setPolicy (h : Places g zsm policy role) {policy' : ZnPolicyPromotional}
    (hlru : policy'.LruOk) (hmax : policy'.zoneMaxChunks = policy.zoneMaxChunks)
    (hwrites : r.writes = none)
    (hpending : ∀ id l, r.pending = some (id, l) → l.chunkOffset < 2 ^ 32)
    (htokens : Tokens (queuedZones zsm policy')
      (Function.update (Role.place g ∘ role) t (r.place g))) :
    Places g zsm policy' (Function.update role t r) where
  tokens := by
    rw [Function.comp_update]
    exact htokens
  lru_ok := hlru
  max_eq := hmax.trans h.max_eq
  zone_id := h.zone_id
  offset_lt := h.offset_lt
  pending_lt u id l hu := by
    by_cases hut : u = t
    · subst hut
      rw [Function.update_self] at hu
      exact hpending id l hu
    · rw [Function.update_of_ne hut] at hu
      exact h.pending_lt u id l hu
  writing u l hu := by
    by_cases hut : u = t
    · subst hut
      rw [Function.update_self, hwrites] at hu
      cases hu
    · rw [Function.update_of_ne hut] at hu
      exact h.writing u l hu
  at_offset u l hu := by
    by_cases hut : u = t
    · subst hut
      rw [Function.update_self, hwrites] at hu
      cases hu
    · rw [Function.update_of_ne hut] at hu
      exact h.at_offset u l hu

/-- One zone may change its record when no other thread holds it. -/
theorem move (h : Places g zsm policy role) {z : Nat} {zn : ZnZone} {free' active' : List Nat}
    {writes' : Int} (hid : zn.zoneId = (zsm.state z).zoneId) (hoff : zn.chunkOffset < 2 ^ 32)
    (hother : ∀ u, u ≠ t → (role u).place g ≠ some z)
    (hwrites : ∀ l, r.writes = some l →
      l.zone = z ∧ zn.state = .writeOccuring ∧ zn.chunkOffset = l.chunkOffset)
    (hpending : ∀ id l, r.pending = some (id, l) → l.chunkOffset < 2 ^ 32)
    (htokens : Tokens (free' ++ active' ++ policy.lru)
      (Function.update (Role.place g ∘ role) t (r.place g))) :
    Places g { active := active', free := free', state := Function.update zsm.state z zn,
               writesOccurring := writes' } policy (Function.update role t r) where
  tokens := by
    rw [Function.comp_update]
    exact htokens
  lru_ok := h.lru_ok
  max_eq := h.max_eq
  zone_id y := by
    dsimp only
    by_cases hy : y = z
    · subst hy; rw [Function.update_self, hid, h.zone_id]
    · rw [Function.update_of_ne hy, h.zone_id]
  offset_lt y := by
    dsimp only
    by_cases hy : y = z
    · subst hy; rw [Function.update_self]; exact hoff
    · rw [Function.update_of_ne hy]; exact h.offset_lt y
  pending_lt u id l hu := by
    by_cases hut : u = t
    · subst hut
      rw [Function.update_self] at hu
      exact hpending id l hu
    · rw [Function.update_of_ne hut] at hu
      exact h.pending_lt u id l hu
  writing u l hu := by
    dsimp only
    by_cases hut : u = t
    · subst hut
      rw [Function.update_self] at hu
      obtain ⟨hz, hst, -⟩ := hwrites l hu
      rw [hz, Function.update_self, hst]
    · -- another thread's location is in another zone
      rw [Function.update_of_ne hut] at hu
      have hne : l.zone ≠ z := fun hz => hother u hut (hz ▸ Role.place_of_writes hu)
      rw [Function.update_of_ne hne]
      exact h.writing u l hu
  at_offset u l hu := by
    dsimp only
    by_cases hut : u = t
    · subst hut
      rw [Function.update_self] at hu
      obtain ⟨hz, -, hoffset⟩ := hwrites l hu
      rw [hz, Function.update_self, hoffset]
    · rw [Function.update_of_ne hut] at hu
      have hne : l.zone ≠ z := fun hz => hother u hut (hz ▸ Role.place_of_writes hu)
      rw [Function.update_of_ne hne]
      exact h.at_offset u l hu

end Places

/-! ## §4. The events. -/

variable [DecidableEq Tid] {t : Tid}

/-- A thread that has nothing takes the zone `zsm_get_active_zone` hands out. -/
theorem Places.acquire (h : Places g zsm policy role) {id : Nat} {r : ZsmGetActiveZone}
    {zsm' : ZoneStateManager} (ht : role t = .out) (hc : AcquireCase zsm r zsm') :
    Places g zsm' policy (Function.update role t (r.role id)) := by
  have hnone : ∀ {r' : Role}, r'.place g = none → r'.place g = (role t).place g := by
    intro r' hr'
    rw [hr', ht]
    rfl
  cases hc with
  | unchanged hr =>
    have hout : r.role id = .out := by
      cases r with
      | success l => exact absurd rfl (hr l)
      | retry | error | evict => rfl
    rw [hout]
    exact h.goto (hnone rfl) (fun _ hl => by cases hl) (fun _ _ hl => by cases hl)
  | @lost z rest hf =>
    have hgoto := h.goto (t := t) (r := .out) (hnone rfl) (fun _ hl => by cases hl)
      (fun _ _ hl => by cases hl)
    refine { hgoto with tokens := hgoto.tokens.lose (z := z) ?_ }
    rw [queuedZones, hf]
    exact List.Perm.refl _
  | @reuse z rest ha hst =>
    have hq : (queuedZones zsm policy).Perm (z :: (zsm.free ++ rest ++ policy.lru)) := by
      rw [queuedZones, ha, List.append_assoc, List.append_assoc]
      exact List.perm_middle
    refine h.move rfl (h.offset_lt z) (fun u _ => h.not_held (hq.mem_iff.mpr (by simp)) u) ?_
      (fun _ _ hl => by cases hl) ?_
    · intro l hl
      cases hl
      exact ⟨h.zone_id z, rfl, rfl⟩
    · show Tokens _ (Function.update _ t (some (zsm.state z).zoneId))
      rw [h.zone_id z]
      exact h.tokens.take hq
  | @opened z rest hf hst =>
    have hq : (queuedZones zsm policy).Perm (z :: (rest ++ zsm.active ++ policy.lru)) := by
      rw [queuedZones, hf]
      exact List.Perm.refl _
    refine h.move rfl (Nat.two_pow_pos 32) (fun u _ => h.not_held (hq.mem_iff.mpr (by simp)) u) ?_
      (fun _ _ hl => by cases hl) ?_
    · intro l hl
      cases hl
      exact ⟨h.zone_id z, rfl, rfl⟩
    · show Tokens _ (Function.update _ t (some (zsm.state z).zoneId))
      rw [h.zone_id z]
      exact h.tokens.take hq

/-- The queues after a zone has been put back into the active queue. -/
theorem perm_reopened (zsm : ZoneStateManager) (policy : ZnPolicyPromotional) (z : Nat) :
    (zsm.free ++ (zsm.active ++ [z]) ++ policy.lru).Perm (z :: queuedZones zsm policy) := by
  rw [queuedZones]
  simpa using @List.perm_middle _ z (zsm.free ++ zsm.active) policy.lru

/-- A thread gives its zone back, unless it has filled it. -/
theorem Places.commit (h : Places g zsm policy role) {id : Nat} {l : ZnPair} {data : Buffer}
    {zsm' : ZoneStateManager} (ht : role t = .wrote id l data) (hc : ReturnCase g zsm l zsm') :
    Places g zsm' policy (Function.update role t (.pushing id l data)) := by
  have hheld : (role t).place g = some l.zone := by rw [ht]; rfl
  have hlt : l.chunkOffset < 2 ^ 32 := h.writes_lt (t := t) (by rw [ht]; rfl)
  have hpending : ∀ id' l', (Role.pushing id l data).pending = some (id', l') →
      l'.chunkOffset < 2 ^ 32 := by
    intro id' l' hl'
    cases hl'
    exact hlt
  -- the last chunk: the thread keeps the zone until it tells the policy
  have hkeep : g.LastChunk l → Tokens (queuedZones zsm policy)
      (Function.update (Role.place g ∘ role) t ((Role.pushing id l data).place g)) := by
    intro hlast
    rw [Role.place, if_pos hlast, ← hheld]
    show Tokens _ (Function.update (Role.place g ∘ role) t ((Role.place g ∘ role) t))
    rw [Function.update_eq_self]
    exact h.tokens
  cases hc with
  | closed hlast =>
    exact h.move rfl (by simp [closedZone]) (h.not_held_else hheld) (fun _ hl => by cases hl)
      hpending (hkeep hlast)
  | stuck hlast =>
    exact h.move rfl (Nat.mod_lt _ (by decide)) (h.not_held_else hheld)
      (fun _ hl => by cases hl) hpending (hkeep hlast)
  | reopened hnot =>
    refine h.move rfl (Nat.mod_lt _ (by decide)) (h.not_held_else hheld)
      (fun _ hl => by cases hl) hpending ?_
    rw [Role.place, if_neg (show ¬ g.LastChunk l from hnot)]
    exact h.tokens.give hheld (perm_reopened zsm policy l.zone)

theorem Places.abandon (h : Places g zsm policy role) {l : ZnPair} (ht : role t = .failed l) :
    Places g (abandoned zsm l) policy (Function.update role t .out) := by
  have hheld : (role t).place g = some l.zone := by rw [ht]; rfl
  exact h.move rfl (h.writes_lt (t := t) (by rw [ht]; rfl)) (h.not_held_else hheld)
    (fun _ hl => by cases hl) (fun _ _ hl => by cases hl)
    (h.tokens.give hheld (perm_reopened zsm policy l.zone))

/-- The thread that filled a zone puts it into the LRU queue. -/
theorem Places.push (hmax : g.maxZoneChunks < 2 ^ 32) (h : Places g zsm policy role) {id : Nat}
    {l : ZnPair} {data : Buffer} {p : ZnPolicyPromotional} (ht : role t = .pushing id l data)
    (hp : znPolicyPromotionalUpdate policy l .write = .ok p) :
    Places g zsm p (Function.update role t (.publishing id l data))
      ∧ p.lru = if g.LastChunk l then policy.lru ++ [l.zone] else policy.lru := by
  have hlt : l.chunkOffset < 2 ^ 32 := h.pending_lt t id l (by rw [ht]; rfl)
  have hlast : l.chunkOffset = u32Sub policy.zoneMaxChunks 1 ↔ g.LastChunk l := by
    rw [h.max_eq]
    exact last_iff hmax hlt
  have hplace : (role t).place g = if g.LastChunk l then some l.zone else none := by rw [ht]; rfl
  obtain ⟨p', hp', hok, hmaxp, hlru⟩ := znPolicyPromotionalUpdate_write h.lru_ok l
    fun hoff => h.not_lru (t := t) (by rw [hplace, if_pos (hlast.mp hoff)])
  obtain rfl : p' = p := Except.ok.inj (hp'.symm.trans hp)
  simp only [hlast] at hlru
  refine ⟨h.setPolicy hok hmaxp rfl ?_ ?_, hlru⟩
  · intro id' l' hl'
    cases hl'
    exact hlt
  · show Tokens _ (Function.update (Role.place g ∘ role) t none)
    unfold queuedZones
    by_cases hl : g.LastChunk l
    · rw [if_pos hl] at hplace hlru
      rw [hlru]
      refine h.tokens.give hplace ?_
      rw [queuedZones, ← List.append_assoc]
      exact List.perm_append_singleton ..
    · rw [if_neg hl] at hplace hlru
      rw [hlru, ← hplace]
      show Tokens _ (Function.update (Role.place g ∘ role) t ((Role.place g ∘ role) t))
      rw [Function.update_eq_self]
      exact h.tokens

omit [DecidableEq Tid] in
/-- A read rearranges the LRU queue. -/
theorem Places.touch (h : Places g zsm policy role) {l : ZnPair} {p : ZnPolicyPromotional}
    (hp : znPolicyPromotionalUpdate policy l .read = .ok p) :
    Places g zsm p role ∧ p.lru.Perm policy.lru := by
  obtain ⟨p', hp', hok, hmaxp, hlru⟩ := znPolicyPromotionalUpdate_read h.lru_ok l
  obtain rfl : p' = p := Except.ok.inj (hp'.symm.trans hp)
  have hperm : p'.lru.Perm policy.lru := by
    rw [hlru]
    split
    · rename_i hin
      exact (List.perm_append_singleton ..).trans (List.perm_cons_erase hin).symm
    · exact List.Perm.refl _
  refine ⟨?_, hperm⟩
  exact { h with
    tokens := h.tokens.perm (hperm.append_left _)
    lru_ok := hok
    max_eq := hmaxp.trans h.max_eq }

/-- An evictor takes the head of the LRU queue. -/
theorem Places.pop (h : Places g zsm policy role) {zone : Nat} {p : ZnPolicyPromotional}
    (hp : znPolicyPromotionalGetZoneToEvict policy = (some zone, p)) :
    Places g zsm p (Function.update role t (.clearing zone)) ∧ policy.lru = zone :: p.lru := by
  rcases znPolicyPromotionalGetZoneToEvict_spec h.lru_ok with ⟨-, hnone⟩
    | ⟨z, rest, p', hlru, hsome, hok, hrest, hmaxp⟩
  · rw [hnone] at hp
    cases hp
  · obtain ⟨hz, rfl⟩ := Prod.mk.inj (hsome.symm.trans hp)
    obtain rfl := Option.some.inj hz
    rw [← hrest] at hlru
    refine ⟨h.setPolicy hok hmaxp rfl (fun _ _ hl => by cases hl) (h.tokens.take ?_), hlru⟩
    unfold queuedZones
    rw [hlru]
    exact List.perm_middle

theorem Places.reset (h : Places g zsm policy role) {zone : Nat} (ht : role t = .resetting zone) :
    Places g (evicted zsm zone) policy (Function.update role t .out) := by
  have hheld : (role t).place g = some zone := by rw [ht]; rfl
  refine h.move rfl (Nat.two_pow_pos 32) (h.not_held_else hheld) (fun _ hl => by cases hl)
    (fun _ _ hl => by cases hl) (h.tokens.give hheld ?_)
  rw [queuedZones, List.append_assoc, List.append_assoc, List.append_assoc, List.singleton_append]
  exact List.perm_middle

/-- **One event** keeps every zone in one place. -/
theorem LifeStep.places (hmax : g.maxZoneChunks < 2 ^ 32) {rb : Buffer} {s s' : Life Tid}
    {l : LifeLabel Tid} (h : Places g s.zsm s.policy s.role) (hs : LifeStep g rb s l s') :
    Places g s'.zsm s'.policy s'.role := by
  cases hs with
  | acquire _ ht hr => exact h.acquire ht (zsmGetActiveZone_cases hr)
  | @write t id l results r d ht =>
    by_cases hr : r ≠ 0
    · rw [if_pos hr]
      exact h.goto (by rw [ht]; rfl) (fun _ hl => by rw [ht]; exact hl) (fun _ _ hl => by cases hl)
    · rw [if_neg hr]
      exact h.goto (by rw [ht]; rfl) (fun _ hl => by rw [ht]; exact hl) (fun _ _ hl => by cases hl)
  | commit ht hr => exact h.commit ht (zsmReturnActiveZone_cases hr).2.2
  | abandon ht hr =>
    obtain ⟨-, -, rfl⟩ := zsmFailedToWrite_cases hr
    exact h.abandon ht
  | push ht hp => exact (h.push hmax ht hp).1
  | touch _ hp => exact (h.touch hp).1
  | pop _ hp => exact (h.pop hp).1
  | reset ht hr =>
    obtain ⟨-, rfl⟩ := zsmEvict_cases hr
    exact h.reset ht
  | publish ht | enter _ ht | read ht | drop ht | clear ht | drain ht =>
    exact h.goto (by rw [ht]; rfl) (fun _ hl => by cases hl) (fun _ _ hl => by cases hl)
  | leave ht =>
    exact h.goto (by rw [ht, Role.place_ofData]; rfl) (fun _ hl => by simp at hl)
      (fun _ _ hl => by simp at hl)

/-- **Every run** keeps every zone in one place. -/
theorem places_reach (hmax : g.maxZoneChunks < 2 ^ 32) {rb : Buffer} {s : Life Tid}
    {D : Life Tid → LifeLabel Tid → Prop} (hr : (lifeSystem Tid g rb).Reach D s) :
    Places g s.zsm s.policy s.role := by
  refine TransSys.Reach.invariant (I := fun s => Places g s.zsm s.policy s.role) ?_
    (fun s l s' _ h _ hs => LifeStep.places hmax h hs) hr
  intro s hs
  obtain ⟨bytes, rfl⟩ := hs
  refine ⟨⟨?_, ?_, ?_⟩, ZnPolicyPromotional.init_ok g, rfl, fun _ => rfl, fun _ => ?_, ?_, ?_, ?_⟩
  · simpa [queuedZones, zsmInit] using List.nodup_range
  · intro t z ht
    cases ht
  · intro t u z ht
    cases ht
  · show 0 < 2 ^ 32
    decide
  · intro t id l ht
    cases ht
  · intro t l ht
    cases ht
  · intro t l ht
    cases ht

end ZnCache
