/-
  ZnCache.Promotional.Chunks — which chunks must not be overwritten.

  A chunk is live for an id when the cache map has the id there, when a thread
  has given its zone back and is about to publish it, or when a thread is
  reading it.  `ChunksOk` says that the two tables of the cache map are inverse
  to each other, and that live chunks are out of the way of everything that
  destroys: they lie below the offset of a zone that can still be written, in
  no free zone, and in no zone that an evictor has cleared.

  The order of publication is what carries it (`LifeLabel.PublishedFirst`): a
  zone is cleared when none of its chunks waits to be published.  Nothing is
  assumed of the device, and `max_zone_chunks` fits 32 bits.

  Main result: `chunks_reach`.
-/
import ZnCache.Promotional.Places

namespace ZnCache

open Lib

universe u

/-! ## §1. Live chunks. -/

variable {Tid : Type u} {g : Geometry} {zsm : ZoneStateManager} {policy : ZnPolicyPromotional}
  {loc : Nat → Option (Nat × Nat)} {data : Nat → Nat → Option Nat} {role : Tid → Role}

/-- Chunk `c` of zone `z` is mapped to `id`, waits to be, or is read as such. -/
def Live (loc : Nat → Option (Nat × Nat)) (role : Tid → Role) (id z c : Nat) : Prop :=
  loc id = some (z, c) ∨ ∃ t l, ((role t).pending = some (id, l) ∨ (role t).reads = some (id, l))
    ∧ l.zone = z ∧ l.chunkOffset = c

/-- Zone `z` can still be written: it is in the active queue, or handed out. -/
def Writable (zsm : ZoneStateManager) (role : Tid → Role) (z : Nat) : Prop :=
  z ∈ zsm.active ∨ ∃ t l, (role t).writes = some l ∧ l.zone = z

/-- **Live chunks are out of the way.** -/
structure ChunksOk (g : Geometry) (zsm : ZoneStateManager) (loc : Nat → Option (Nat × Nat))
    (data : Nat → Nat → Option Nat) (role : Tid → Role) : Prop where
  /-- The two tables of the cache map are inverse to each other. -/
  inverse : ∀ id z c, loc id = some (z, c) ↔ data z c = some id
  small : ∀ id z c, loc id = some (z, c) → id < 2 ^ 32
  pending_unmapped : ∀ t id l, (role t).pending = some (id, l) →
    data l.zone l.chunkOffset = none
  pending_inj : ∀ t u id id' l l', (role t).pending = some (id, l) →
    (role u).pending = some (id', l') → l.zone = l'.zone → l.chunkOffset = l'.chunkOffset → t = u
  used : ∀ id z c, Live loc role id z c → (zsm.state z).state ≠ .free
  below : ∀ id z c, Live loc role id z c → Writable zsm role z → c < (zsm.state z).chunkOffset
  /-- A zone that can be written has not wrapped around. -/
  room : ∀ z, Writable zsm role z → 0 < g.maxZoneChunks →
    (zsm.state z).chunkOffset < g.maxZoneChunks
  cleared : ∀ t z, (role t).cleared = some z → ∀ id c, loc id ≠ some (z, c)
  cleared_pending : ∀ t z, (role t).cleared = some z →
    ∀ u id l, (role u).pending = some (id, l) → l.zone ≠ z
  drained : ∀ t z, role t = .resetting z →
    ∀ u id l, (role u).reads = some (id, l) → l.zone ≠ z

theorem Role.cleared_evicts {r : Role} {z : Nat} (h : r.cleared = some z) : r.evicts = some z := by
  cases r <;> cases h <;> rfl

@[simp] theorem Role.reads_ofData (id : Nat) (data : Option Buffer) :
    (Role.ofData id data).reads = none := by
  cases data <;> rfl

@[simp] theorem Role.cleared_ofData (id : Nat) (data : Option Buffer) :
    (Role.ofData id data).cleared = none := by
  cases data <;> rfl

theorem Role.ofData_ne_resetting (id : Nat) (data : Option Buffer) (z : Nat) :
    Role.ofData id data ≠ .resetting z := by
  cases data <;> exact fun h => by cases h

/-- A zone held by a thread that does not write is not writable. -/
theorem Places.not_writable (h : Places g zsm policy role) {t : Tid} {z : Nat}
    (ht : (role t).place g = some z) (hno : (role t).writes = none) : ¬ Writable zsm role z := by
  intro hw
  rcases hw with hactive | ⟨u, l, hu, hz⟩
  · exact h.not_active ht hactive
  · have hut : u = t := h.tokens.distinct u t z (hz ▸ Role.place_of_writes hu) ht
    rw [hut, hno] at hu
    cases hu

/-! ## §2. Roles that rely on nothing new. -/

section Moves

variable [DecidableEq Tid] {t : Tid} {r : Role}

/-- What a role says after `t` has moved to a role that says no more. -/
theorem said_before {α : Type} {f : Role → Option α} {u : Tid} {x : α}
    (hr : ∀ y, f r = some y → f (role t) = some y) (h : f (Function.update role t r u) = some x) :
    f (role u) = some x := by
  by_cases hut : u = t
  · subst hut
    rw [Function.update_self] at h
    exact hr x h
  · rwa [Function.update_of_ne hut] at h

/-- What a role does not say is said by another thread, and was before. -/
theorem said_else {α : Type} {f : Role → Option α} {u : Tid} {x : α}
    (h : f (Function.update role t r u) = some x) (hr : f r = none) : u ≠ t ∧ f (role u) = some x := by
  by_cases hut : u = t
  · rw [hut, Function.update_self, hr] at h
    cases h
  · rw [Function.update_of_ne hut] at h
    exact ⟨hut, h⟩

/-- The thread that is about to reset a zone is not the one that has moved. -/
theorem resetting_else {u : Tid} {z : Nat} (h : Function.update role t r u = .resetting z)
    (hr : ∀ z, r ≠ .resetting z) : role u = .resetting z := by
  by_cases hut : u = t
  · rw [hut, Function.update_self] at h
    exact absurd h (hr z)
  · rwa [Function.update_of_ne hut] at h

theorem Live.before {id z c : Nat} (hpending : ∀ x, r.pending = some x → (role t).pending = some x)
    (hreads : ∀ x, r.reads = some x → (role t).reads = some x)
    (h : Live loc (Function.update role t r) id z c) : Live loc role id z c := by
  rcases h with hloc | ⟨u, l, hu, hl⟩
  · exact Or.inl hloc
  · exact Or.inr ⟨u, l, hu.imp (said_before hpending) (said_before hreads), hl⟩

theorem Writable.before {z : Nat} (hwrites : ∀ x, r.writes = some x → (role t).writes = some x)
    (h : Writable zsm (Function.update role t r) z) : Writable zsm role z :=
  h.imp_right fun ⟨u, l, hu, hl⟩ => ⟨u, l, said_before hwrites hu, hl⟩

namespace ChunksOk

/-- A thread that does not reset and reads nothing new leaves drained zones
drained. -/
theorem drained_before (h : ChunksOk g zsm loc data role) (hr : ∀ z, r ≠ .resetting z)
    (hreads : ∀ x, r.reads = some x → (role t).reads = some x) (u : Tid) (z : Nat)
    (hu : Function.update role t r u = .resetting z) (v : Tid) (id : Nat) (l : ZnPair)
    (hv : (Function.update role t r v).reads = some (id, l)) : l.zone ≠ z :=
  h.drained u z (resetting_else hu hr) v id l (said_before hreads hv)

/-- The maps stay as they are, a thread relies on nothing new, and a zone
becomes writable only from the start, when it was free. -/
theorem quiet (h : ChunksOk g zsm loc data role) {zsm' : ZoneStateManager}
    (hpending : ∀ x, r.pending = some x → (role t).pending = some x)
    (hreads : ∀ x, r.reads = some x → (role t).reads = some x)
    (hcleared : ∀ z, r.cleared = some z → (role t).cleared = some z)
    (hreset : ∀ z, r = .resetting z → ∀ u id l, (role u).reads = some (id, l) → l.zone ≠ z)
    (hfree : ∀ z, (zsm'.state z).state = .free → (zsm.state z).state = .free)
    (hwritable : ∀ z, Writable zsm' (Function.update role t r) z →
      (Writable zsm role z ∧ (zsm'.state z).chunkOffset = (zsm.state z).chunkOffset)
        ∨ ((zsm.state z).state = .free ∧ (zsm'.state z).chunkOffset = 0)) :
    ChunksOk g zsm' loc data (Function.update role t r) where
  inverse := h.inverse
  small := h.small
  pending_unmapped u id l hu := h.pending_unmapped u id l (said_before hpending hu)
  pending_inj u v id id' l l' hu hv :=
    h.pending_inj u v id id' l l' (said_before hpending hu) (said_before hpending hv)
  used id z c hl hz := h.used id z c (hl.before hpending hreads) (hfree z hz)
  below id z c hl hw := by
    have hlive := hl.before hpending hreads
    rcases hwritable z hw with ⟨hw', hoff⟩ | ⟨hst, -⟩
    · rw [hoff]
      exact h.below id z c hlive hw'
    · exact absurd hst (h.used id z c hlive)
  room z hw hpos := by
    rcases hwritable z hw with ⟨hw', hoff⟩ | ⟨-, hoff⟩
    · rw [hoff]
      exact h.room z hw' hpos
    · rw [hoff]
      exact hpos
  cleared u z hu := h.cleared u z (said_before hcleared hu)
  cleared_pending u z hu v id l hv :=
    h.cleared_pending u z (said_before hcleared hu) v id l (said_before hpending hv)
  drained u z hu v id l hv := by
    by_cases hut : u = t
    · subst hut
      rw [Function.update_self] at hu
      exact hreset z hu v id l (said_before hreads hv)
    · rw [Function.update_of_ne hut] at hu
      exact h.drained u z hu v id l (said_before hreads hv)

/-- The zones stay as they are too. -/
theorem goto (h : ChunksOk g zsm loc data role)
    (hpending : ∀ x, r.pending = some x → (role t).pending = some x)
    (hreads : ∀ x, r.reads = some x → (role t).reads = some x)
    (hcleared : ∀ z, r.cleared = some z → (role t).cleared = some z)
    (hreset : ∀ z, r = .resetting z → ∀ u id l, (role u).reads = some (id, l) → l.zone ≠ z)
    (hwrites : ∀ x, r.writes = some x → (role t).writes = some x) :
    ChunksOk g zsm loc data (Function.update role t r) :=
  h.quiet hpending hreads hcleared hreset (fun _ hz => hz)
    fun _ hw => Or.inl ⟨hw.before hwrites, rfl⟩

/-! ## §3. The zones. -/

theorem acquire (hp : Places g zsm policy role) (h : ChunksOk g zsm loc data role) {id : Nat}
    {r : ZsmGetActiveZone} {zsm' : ZoneStateManager} (ht : role t = .out)
    (hc : AcquireCase zsm r zsm') :
    ChunksOk g zsm' loc data (Function.update role t (r.role id)) := by
  have hpending : ∀ x, (r.role id).pending = some x → (role t).pending = some x := by
    intro x hx
    cases r <;> cases hx
  have hreads : ∀ x, (r.role id).reads = some x → (role t).reads = some x := by
    intro x hx
    cases r <;> cases hx
  have hcleared : ∀ z, (r.role id).cleared = some z → (role t).cleared = some z := by
    intro z hz
    cases r <;> cases hz
  have hreset : ∀ z, r.role id = .resetting z →
      ∀ u id l, (role u).reads = some (id, l) → l.zone ≠ z := by
    intro z hz
    cases r <;> cases hz
  cases hc with
  | unchanged hr =>
    refine h.goto hpending hreads hcleared hreset ?_
    intro x hx
    cases r with
    | success l => exact absurd rfl (hr l)
    | retry | error | evict => cases hx
  | lost =>
    refine h.quiet hpending hreads hcleared hreset (fun _ hz => hz) fun z hw => Or.inl ⟨?_, rfl⟩
    have hw' : Writable zsm (Function.update role t (ZsmGetActiveZone.error.role id)) z := hw
    exact hw'.before fun x hx => by cases hx
  | @reuse z rest ha hst =>
    refine h.quiet hpending hreads hcleared hreset ?_ ?_
    · intro y hy
      by_cases hyz : y = z
      · subst hyz
        simp at hy
      · simpa [hyz] using hy
    · intro y hw
      refine Or.inl ⟨?_, ?_⟩
      · rcases hw with hactive | ⟨u, l, hu, hl⟩
        · exact Or.inl (by rw [ha]; exact List.mem_cons_of_mem z hactive)
        · by_cases hut : u = t
          · -- the zone handed out was in the active queue
            subst hut
            rw [Function.update_self] at hu
            cases hu
            exact Or.inl (by rw [← hl, ha]; simp [hp.zone_id z])
          · rw [Function.update_of_ne hut] at hu
            exact Or.inr ⟨u, l, hu, hl⟩
      · by_cases hyz : y = z
        · subst hyz
          simp
        · simp [hyz]
  | @opened z rest hf hst =>
    refine h.quiet hpending hreads hcleared hreset ?_ ?_
    · intro y hy
      by_cases hyz : y = z
      · subst hyz
        simp at hy
      · simpa [hyz] using hy
    · intro y hw
      by_cases hyz : y = z
      · -- nothing is live in a FREE zone
        subst hyz
        exact Or.inr ⟨hst, by simp⟩
      · refine Or.inl ⟨?_, by simp [hyz]⟩
        rcases hw with hactive | ⟨u, l, hu, hl⟩
        · exact Or.inl hactive
        · by_cases hut : u = t
          · subst hut
            rw [Function.update_self] at hu
            cases hu
            exact absurd (hl.symm.trans (hp.zone_id z)) hyz
          · rw [Function.update_of_ne hut] at hu
            exact Or.inr ⟨u, l, hu, hl⟩

theorem abandon (hp : Places g zsm policy role) (h : ChunksOk g zsm loc data role) {l : ZnPair}
    (ht : role t = .failed l) :
    ChunksOk g (abandoned zsm l) loc data (Function.update role t .out) := by
  have hwrites : (role t).writes = some l := by rw [ht]; rfl
  refine h.quiet (fun x hx => by cases hx) (fun x hx => by cases hx) (fun z hz => by cases hz)
    (fun z hz => by cases hz) ?_ ?_
  · intro y hy
    by_cases hyz : y = l.zone
    · subst hyz
      simp [abandoned, reopenedZone] at hy
    · simpa [abandoned, hyz] using hy
  · intro y hw
    by_cases hyz : y = l.zone
    · subst hyz
      refine Or.inl ⟨Or.inr ⟨t, l, hwrites, rfl⟩, ?_⟩
      rw [hp.at_offset t l hwrites]
      simp [abandoned, reopenedZone]
    · refine Or.inl ⟨?_, by simp [abandoned, hyz]⟩
      rcases hw with hactive | ⟨u, l', hu, hl'⟩
      · refine Or.inl ?_
        simpa [abandoned, hyz] using hactive
      · exact Or.inr ⟨u, l', (said_else hu rfl).2, hl'⟩

/-- The zone of a committed chunk, afterwards: not free, and if it can still be
written then from the next chunk on. -/
theorem commit_zone (hmax : g.maxZoneChunks < 2 ^ 32) (hp : Places g zsm policy role) (h : ChunksOk g zsm loc data role) {id : Nat}
    {l : ZnPair} {d : Buffer} {zsm' : ZoneStateManager} (ht : role t = .wrote id l d)
    (hst : (zsm.state l.zone).state = .writeOccuring) (hc : ReturnCase g zsm l zsm') :
    (zsm'.state l.zone).state ≠ .free
      ∧ (Writable zsm' (Function.update role t (.pushing id l d)) l.zone →
        (zsm'.state l.zone).chunkOffset = l.chunkOffset + 1
          ∧ (0 < g.maxZoneChunks → l.chunkOffset + 1 < g.maxZoneChunks)) := by
  have hheld : (role t).place g = some l.zone := by rw [ht]; rfl
  have hwrites : (role t).writes = some l := by rw [ht]; rfl
  -- no other thread writes the zone, and it was not in the active queue
  have hnot : ∀ {zsm' : ZoneStateManager}, zsm'.active = zsm.active →
      ¬ Writable zsm' (Function.update role t (.pushing id l d)) l.zone := by
    intro zsm' hactive hw
    rcases hw with hin | ⟨u, l', hu, hl'⟩
    · exact hp.not_active hheld (hactive ▸ hin)
    · by_cases hut : u = t
      · subst hut
        rw [Function.update_self] at hu
        cases hu
      · rw [Function.update_of_ne hut] at hu
        exact hp.not_held_else hheld u hut (hl' ▸ Role.place_of_writes hu)
  cases hc with
  | closed => exact ⟨by simp [closedZone], fun hw => absurd hw (hnot rfl)⟩
  | stuck => exact ⟨by simp [hst], fun hw => absurd hw (hnot rfl)⟩
  | reopened hlast =>
    refine ⟨by simp [reopenedZone], fun _ => ?_⟩
    have hlt := hp.writes_lt hwrites
    have hroom := h.room l.zone (Or.inr ⟨t, l, hwrites, rfl⟩)
    rw [hp.at_offset t l hwrites] at hroom
    have hoff : (zsm.setZone l.zone (reopenedZone zsm l.zone
        ((l.chunkOffset + 1) % 2 ^ 32))).state l.zone
          = reopenedZone zsm l.zone ((l.chunkOffset + 1) % 2 ^ 32) := by
      rw [ZoneStateManager.setZone_state, Function.update_self]
    dsimp only
    rw [hoff]
    show (l.chunkOffset + 1) % 2 ^ 32 = l.chunkOffset + 1 ∧ _
    -- the offset does not wrap around: it would have reached `max_zone_chunks`
    omega

/-- What is live after a commit: the chunk committed is new. -/
theorem live_commit {id : Nat} {l : ZnPair} {d : Buffer} {k z c : Nat}
    (hl : Live loc (Function.update role t (.pushing id l d)) k z c) :
    Live loc role k z c ∨ (k = id ∧ z = l.zone ∧ c = l.chunkOffset) := by
  rcases hl with hloc | ⟨u, l', hu, hz, hc⟩
  · exact Or.inl (Or.inl hloc)
  · by_cases hut : u = t
    · subst hut
      rw [Function.update_self] at hu
      rcases hu with hu | hu
      · cases hu
        exact Or.inr ⟨rfl, hz.symm, hc.symm⟩
      · cases hu
    · rw [Function.update_of_ne hut] at hu
      exact Or.inl (Or.inr ⟨u, l', hu, hz, hc⟩)

/-- **A commit** adds a chunk that waits to be published. -/
theorem commit (hmax : g.maxZoneChunks < 2 ^ 32) (hp : Places g zsm policy role)
    (h : ChunksOk g zsm loc data role) {id : Nat} {l : ZnPair} {d : Buffer}
    {zsm' : ZoneStateManager} (ht : role t = .wrote id l d)
    (hst : (zsm.state l.zone).state = .writeOccuring) (hc : ReturnCase g zsm l zsm') :
    ChunksOk g zsm' loc data (Function.update role t (.pushing id l d)) := by
  have hheld : (role t).place g = some l.zone := by rw [ht]; rfl
  have hwrites : (role t).writes = some l := by rw [ht]; rfl
  have hwritable : Writable zsm role l.zone := Or.inr ⟨t, l, hwrites, rfl⟩
  obtain ⟨hused, hnext⟩ := commit_zone hmax hp h ht hst hc
  have hlive : ∀ {id' z c}, Live loc (Function.update role t (.pushing id l d)) id' z c →
      Live loc role id' z c ∨ (z = l.zone ∧ c = l.chunkOffset) :=
    fun hl => (live_commit hl).imp_right And.right
  -- what is live in a zone that can be written is below where it stands
  have hnotlive : ∀ {id'}, ¬ Live loc role id' l.zone l.chunkOffset := by
    intro id' hl
    have hlt := h.below id' _ _ hl hwritable
    rw [hp.at_offset t l hwrites] at hlt
    exact Nat.lt_irrefl _ hlt
  have hpending : ∀ {u id' l'}, (Function.update role t (.pushing id l d) u).pending = some (id', l') →
      (u = t ∧ l' = l) ∨ (u ≠ t ∧ (role u).pending = some (id', l')) := by
    intro u id' l' hu
    by_cases hut : u = t
    · subst hut
      rw [Function.update_self] at hu
      cases hu
      exact Or.inl ⟨rfl, rfl⟩
    · rw [Function.update_of_ne hut] at hu
      exact Or.inr ⟨hut, hu⟩
  have hcleared : ∀ {u z}, (Function.update role t (.pushing id l d) u).cleared = some z →
      (role u).cleared = some z := fun hu => (said_else hu rfl).2
  constructor
  case inverse => exact h.inverse
  case small => exact h.small
  case pending_unmapped =>
    intro u id' l' hu
    rcases hpending hu with ⟨-, rfl⟩ | ⟨-, hu⟩
    · cases hd : data l'.zone l'.chunkOffset with
      | none => rfl
      | some k => exact absurd (Or.inl ((h.inverse k _ _).mpr hd)) hnotlive
    · exact h.pending_unmapped u id' l' hu
  case pending_inj =>
    intro u v id₁ id₂ l₁ l₂ hu hv hz hc'
    rcases hpending hu with ⟨hut, hl₁⟩ | ⟨-, hu'⟩ <;>
      rcases hpending hv with ⟨hvt, hl₂⟩ | ⟨-, hv'⟩
    · rw [hut, hvt]
    · subst hl₁
      exact absurd (Or.inr ⟨v, l₂, Or.inl hv', hz.symm, hc'.symm⟩) hnotlive
    · subst hl₂
      exact absurd (Or.inr ⟨u, l₁, Or.inl hu', hz, hc'⟩) hnotlive
    · exact h.pending_inj u v id₁ id₂ l₁ l₂ hu' hv' hz hc'
  case used =>
    intro id' z c hl
    by_cases hz : z = l.zone
    · exact hz ▸ hused
    · rw [(hc.state_ne hz).1]
      rcases hlive hl with hl | ⟨hz', -⟩
      · exact h.used id' z c hl
      · exact absurd hz' hz
  case below =>
    intro id' z c hl hw
    by_cases hz : z = l.zone
    · subst hz
      rw [(hnext hw).1]
      rcases hlive hl with hl | ⟨-, rfl⟩
      · have hlt := h.below id' _ _ hl hwritable
        rw [hp.at_offset t l hwrites] at hlt
        exact Nat.lt_succ_of_lt hlt
      · exact Nat.lt_succ_self _
    · rw [(hc.state_ne hz).1]
      rcases hlive hl with hl | ⟨hz', -⟩
      · refine h.below id' z c hl ?_
        have hw' : Writable zsm (Function.update role t (.pushing id l d)) z :=
          hw.imp_left (hc.state_ne hz).2
        exact hw'.before fun x hx => by cases hx
      · exact absurd hz' hz
  case room =>
    intro z hw hpos
    by_cases hz : z = l.zone
    · subst hz
      rw [(hnext hw).1]
      exact (hnext hw).2 hpos
    · rw [(hc.state_ne hz).1]
      have hw' : Writable zsm (Function.update role t (.pushing id l d)) z :=
        hw.imp_left (hc.state_ne hz).2
      exact h.room z (hw'.before fun x hx => by cases hx) hpos
  case cleared => exact fun u z hu => h.cleared u z (hcleared hu)
  case cleared_pending =>
    intro u z hu v id' l' hv
    rcases hpending hv with ⟨rfl, rfl⟩ | ⟨-, hv⟩
    · -- the zone is held by its writer, not by an evictor
      intro hz
      have hevict := Role.place_of_evicts (g := g) (Role.cleared_evicts (hcleared hu))
      have huv : u = v := hp.tokens.distinct u v z hevict (hz ▸ hheld)
      have hcl := hcleared hu
      rw [huv, ht] at hcl
      cases hcl
    · exact h.cleared_pending u z (hcleared hu) v id' l' hv
  case drained => exact h.drained_before (fun _ => Role.noConfusion) fun _ hx => by cases hx

/-! ## §4. The cache map. -/

/-- Where the map has an id after a publication. -/
theorem loc_publish {id z₀ c₀ k z c : Nat}
    (hk : Function.update loc id (some (z₀, c₀)) k = some (z, c)) :
    (k = id ∧ z = z₀ ∧ c = c₀) ∨ (k ≠ id ∧ loc k = some (z, c)) := by
  by_cases hkid : k = id
  · subst hkid
    rw [Function.update_self] at hk
    cases hk
    exact Or.inl ⟨rfl, rfl, rfl⟩
  · rw [Function.update_of_ne hkid] at hk
    exact Or.inr ⟨hkid, hk⟩

/-- What is live after a publication was live before. -/
theorem live_publish {id : Nat} {l : ZnPair} {d : Buffer} (ht : role t = .publishing id l d)
    {k z c : Nat} (hl : Live (Function.update loc id (some (l.zone, l.chunkOffset)))
      (Function.update role t (.result id d)) k z c) : Live loc role k z c := by
  rcases hl with hk | ⟨u, l', hu, hl'⟩
  · rcases loc_publish hk with ⟨rfl, rfl, rfl⟩ | ⟨-, hk⟩
    · exact Or.inr ⟨t, l, Or.inl (by rw [ht]; rfl), rfl, rfl⟩
    · exact Or.inl hk
  · exact Or.inr ⟨u, l', hu.imp (fun hu => (said_else hu rfl).2)
      fun hu => (said_else hu rfl).2, hl'⟩

/-- **A publication** turns a chunk that waits into a mapped one. -/
theorem publish (h : ChunksOk g zsm loc data role) {id : Nat} {l : ZnPair} {d : Buffer}
    {data' : Nat → Nat → Option Nat} (ht : role t = .publishing id l d) (hid : id < 2 ^ 32)
    (hloc : loc id = none) (hdata : ∀ z c, data' z c
      = if z = l.zone ∧ c = l.chunkOffset then some id else data z c) :
    ChunksOk g zsm (Function.update loc id (some (l.zone, l.chunkOffset))) data'
      (Function.update role t (.result id d)) := by
  have hmine : (role t).pending = some (id, l) := by rw [ht]; rfl
  have hunmapped := h.pending_unmapped t id l hmine
  have hwritable : ∀ {z}, Writable zsm (Function.update role t (.result id d)) z →
      Writable zsm role z := fun hw => hw.before fun x hx => by cases hx
  constructor
  case inverse =>
    intro k z c
    rw [hdata]
    by_cases hcell : z = l.zone ∧ c = l.chunkOffset
    · obtain ⟨rfl, rfl⟩ := hcell
      rw [if_pos ⟨rfl, rfl⟩]
      constructor
      · intro hk
        rcases loc_publish hk with ⟨rfl, -, -⟩ | ⟨-, hk⟩
        · rfl
        · rw [h.inverse, hunmapped] at hk
          cases hk
      · intro hk
        cases hk
        rw [Function.update_self]
    · rw [if_neg hcell]
      constructor
      · intro hk
        rcases loc_publish hk with ⟨-, hz, hc⟩ | ⟨-, hk⟩
        · exact absurd ⟨hz, hc⟩ hcell
        · exact (h.inverse k z c).mp hk
      · intro hk
        have hk' := (h.inverse k z c).mpr hk
        have hkid : k ≠ id := by
          rintro rfl
          rw [hloc] at hk'
          cases hk'
        rw [Function.update_of_ne hkid]
        exact hk'
  case small =>
    intro k z c hk
    rcases loc_publish hk with ⟨rfl, -, -⟩ | ⟨-, hk⟩
    · exact hid
    · exact h.small k z c hk
  case pending_unmapped =>
    intro u id' l' hu
    obtain ⟨hut, hu⟩ := said_else hu rfl
    rw [hdata, if_neg]
    · exact h.pending_unmapped u id' l' hu
    · -- two chunks that wait are not at one place
      rintro ⟨hz, hc⟩
      exact hut (h.pending_inj u t id' id l' l hu hmine hz hc)
  case pending_inj =>
    intro u v id₁ id₂ l₁ l₂ hu hv hz hc
    exact h.pending_inj u v id₁ id₂ l₁ l₂ (said_else hu rfl).2
      (said_else hv rfl).2 hz hc
  case used => exact fun k z c hl => h.used k z c (live_publish ht hl)
  case below => exact fun k z c hl hw => h.below k z c (live_publish ht hl) (hwritable hw)
  case room => exact fun z hw => h.room z (hwritable hw)
  case cleared =>
    intro u z hu k c hk
    obtain ⟨-, hu⟩ := said_else hu rfl
    rcases loc_publish hk with ⟨-, rfl, -⟩ | ⟨-, hk⟩
    · exact h.cleared_pending u _ hu t id l hmine rfl
    · exact h.cleared u z hu k c hk
  case cleared_pending =>
    intro u z hu v id' l' hv
    exact h.cleared_pending u z (said_else hu rfl).2 v id' l'
      (said_else hv rfl).2
  case drained => exact h.drained_before (fun _ => Role.noConfusion) fun _ hx => by cases hx

/-- What is read after a reader has entered: its chunk is mapped. -/
theorem reads_enter {id : Nat} {l : ZnPair} (hloc : loc id = some (l.zone, l.chunkOffset)) {u : Tid}
    {id' : Nat} {l' : ZnPair}
    (hu : (Function.update role t (.reading id l) u).reads = some (id', l')) :
    loc id' = some (l'.zone, l'.chunkOffset) ∨ (role u).reads = some (id', l') := by
  by_cases hut : u = t
  · subst hut
    rw [Function.update_self] at hu
    cases hu
    exact Or.inl hloc
  · rw [Function.update_of_ne hut] at hu
    exact Or.inr hu

theorem live_enter {id : Nat} {l : ZnPair} (hloc : loc id = some (l.zone, l.chunkOffset))
    {k z c : Nat} (hl : Live loc (Function.update role t (.reading id l)) k z c) :
    Live loc role k z c := by
  rcases hl with hk | ⟨u, l', hu | hu, rfl, rfl⟩
  · exact Or.inl hk
  · exact Or.inr ⟨u, l', Or.inl ((said_else hu rfl).2), rfl, rfl⟩
  · rcases reads_enter hloc hu with hk | hu
    · exact Or.inl hk
    · exact Or.inr ⟨u, l', Or.inr hu, rfl, rfl⟩

/-- A reader enters where the map sends it. -/
theorem enter (h : ChunksOk g zsm loc data role) {id : Nat} {l : ZnPair}
    (hloc : loc id = some (l.zone, l.chunkOffset)) :
    ChunksOk g zsm loc data (Function.update role t (.reading id l)) := by
  have hpending : ∀ {u x}, (Function.update role t (.reading id l) u).pending = some x →
      (role u).pending = some x := fun hu => (said_else hu rfl).2
  have hcleared : ∀ {u x}, (Function.update role t (.reading id l) u).cleared = some x →
      (role u).cleared = some x := fun hu => (said_else hu rfl).2
  have hwritable : ∀ {z}, Writable zsm (Function.update role t (.reading id l)) z →
      Writable zsm role z := fun hw => hw.before fun x hx => by cases hx
  constructor
  case inverse => exact h.inverse
  case small => exact h.small
  case pending_unmapped => exact fun u id' l' hu => h.pending_unmapped u id' l' (hpending hu)
  case pending_inj =>
    exact fun u v i₁ i₂ l₁ l₂ hu hv => h.pending_inj u v i₁ i₂ l₁ l₂ (hpending hu) (hpending hv)
  case used => exact fun k z c hl => h.used k z c (live_enter hloc hl)
  case below => exact fun k z c hl hw => h.below k z c (live_enter hloc hl) (hwritable hw)
  case room => exact fun z hw => h.room z (hwritable hw)
  case cleared => exact fun u z hu => h.cleared u z (hcleared hu)
  case cleared_pending =>
    exact fun u z hu v id' l' hv => h.cleared_pending u z (hcleared hu) v id' l' (hpending hv)
  case drained =>
    intro u z hu v id' l' hv hz
    have hu := resetting_else hu fun _ => Role.noConfusion
    rcases reads_enter hloc hv with hk | hv
    · -- the map sends nobody into a cleared zone
      exact h.cleared u z (by rw [hu]; rfl) id' _ (hz ▸ hk)
    · exact h.drained u z hu v id' l' hv hz

omit [DecidableEq Tid] in
/-- A clear leaves no entry behind that points into its zone. -/
theorem loc_clear (h : ChunksOk g zsm loc data role) {zone : Nat}
    {loc' : Nat → Option (Nat × Nat)} (hc : ClearsZone zone loc loc' data) {k z c : Nat}
    (hk : loc' k = some (z, c)) : loc k = some (z, c) ∧ z ≠ zone := by
  rcases hc.only k with heq | ⟨hnone, -⟩
  · rw [heq] at hk
    refine ⟨hk, ?_⟩
    rintro rfl
    have hlisted := hc.listed c k ((h.inverse k _ c).mp hk) (h.small k _ c hk)
    rw [heq, hk] at hlisted
    cases hlisted
  · rw [hnone] at hk
    cases hk

theorem live_clear (h : ChunksOk g zsm loc data role) {zone : Nat}
    {loc' : Nat → Option (Nat × Nat)} (hc : ClearsZone zone loc loc' data) {k z c : Nat}
    (hl : Live loc' (Function.update role t (.waiting zone)) k z c) : Live loc role k z c := by
  rcases hl with hk | ⟨u, l', hu, hl'⟩
  · exact Or.inl (loc_clear h hc hk).1
  · exact Or.inr ⟨u, l', hu.imp (fun hu => (said_else hu rfl).2)
      fun hu => (said_else hu rfl).2, hl'⟩

/-- **An evictor clears its zone** when no chunk of it waits to be published. -/
theorem clear (h : ChunksOk g zsm loc data role) {zone : Nat} {loc' : Nat → Option (Nat × Nat)}
    (ht : role t = .clearing zone) (hc : ClearsZone zone loc loc' data)
    (hfirst : ∀ u id l, (role u).pending = some (id, l) → l.zone ≠ zone) :
    ChunksOk g zsm loc' (Function.update data zone fun _ => none)
      (Function.update role t (.waiting zone)) := by
  have hpending : ∀ {u x}, (Function.update role t (.waiting zone) u).pending = some x →
      (role u).pending = some x := fun hu => (said_else hu rfl).2
  have hreads : ∀ {u x}, (Function.update role t (.waiting zone) u).reads = some x →
      (role u).reads = some x := fun hu => (said_else hu rfl).2
  have hcleared : ∀ {u z}, (Function.update role t (.waiting zone) u).cleared = some z →
      z = zone ∨ (role u).cleared = some z := by
    intro u z hu
    by_cases hut : u = t
    · subst hut
      rw [Function.update_self] at hu
      cases hu
      exact Or.inl rfl
    · rw [Function.update_of_ne hut] at hu
      exact Or.inr hu
  have hwritable : ∀ {z}, Writable zsm (Function.update role t (.waiting zone)) z →
      Writable zsm role z := fun hw => hw.before fun x hx => by cases hx
  constructor
  case inverse =>
    intro k z c
    constructor
    · intro hk
      obtain ⟨hk, hz⟩ := loc_clear h hc hk
      rw [Function.update_of_ne hz]
      exact (h.inverse k z c).mp hk
    · intro hk
      have hz : z ≠ zone := by
        rintro rfl
        rw [Function.update_self] at hk
        cases hk
      rw [Function.update_of_ne hz] at hk
      have hk' := (h.inverse k z c).mpr hk
      rcases hc.only k with heq | ⟨-, c', hcell⟩
      · rw [heq]
        exact hk'
      · rw [hk'] at hcell
        cases hcell
        exact absurd rfl hz
  case small => exact fun k z c hk => h.small k z c (loc_clear h hc hk).1
  case pending_unmapped =>
    intro u id l hu
    rw [Function.update_of_ne (hfirst u id l (hpending hu))]
    exact h.pending_unmapped u id l (hpending hu)
  case pending_inj =>
    exact fun u v i₁ i₂ l₁ l₂ hu hv => h.pending_inj u v i₁ i₂ l₁ l₂ (hpending hu) (hpending hv)
  -- nothing becomes live by a clear
  case used => exact fun k z c hl => h.used k z c (live_clear h hc hl)
  case below => exact fun k z c hl hw => h.below k z c (live_clear h hc hl) (hwritable hw)
  case room => exact fun z hw => h.room z (hwritable hw)
  case cleared =>
    intro u z hu k c hk
    obtain ⟨hk, hz⟩ := loc_clear h hc hk
    rcases hcleared hu with rfl | hu
    · exact hz rfl
    · exact h.cleared u z hu k c hk
  case cleared_pending =>
    intro u z hu v id l hv
    rcases hcleared hu with rfl | hu
    · exact hfirst v id l (hpending hv)
    · exact h.cleared_pending u z hu v id l (hpending hv)
  case drained => exact h.drained_before (fun _ => Role.noConfusion) fun _ hx => by cases hx

/-- An evictor has seen no reader in its zone. -/
theorem drain (h : ChunksOk g zsm loc data role) {zone : Nat} (ht : role t = .waiting zone)
    (hno : ∀ u id l, (role u).reads = some (id, l) → l.zone ≠ zone) :
    ChunksOk g zsm loc data (Function.update role t (.resetting zone)) := by
  refine h.goto (fun x hx => by cases hx) (fun x hx => by cases hx) ?_ ?_ (fun x hx => by cases hx)
  · intro z hz
    rw [ht]
    exact hz
  · intro z hz
    cases hz
    exact hno

/-- Nothing is live in a zone that is about to be reset. -/
theorem live_reset (h : ChunksOk g zsm loc data role) {zone : Nat} (ht : role t = .resetting zone)
    {k z c : Nat} (hl : Live loc (Function.update role t .out) k z c) :
    Live loc role k z c ∧ z ≠ zone := by
  have hcl : (role t).cleared = some zone := by rw [ht]; rfl
  rcases hl with hk | ⟨u, l, hu | hu, rfl, rfl⟩
  · refine ⟨Or.inl hk, ?_⟩
    rintro rfl
    exact h.cleared t _ hcl k c hk
  · have hu' := (said_else hu rfl).2
    exact ⟨Or.inr ⟨u, l, Or.inl hu', rfl, rfl⟩, h.cleared_pending t zone hcl u k l hu'⟩
  · have hu' := (said_else hu rfl).2
    exact ⟨Or.inr ⟨u, l, Or.inr hu', rfl, rfl⟩, h.drained t zone ht u k l hu'⟩

/-- **A reset** frees a zone in which nothing is live. -/
theorem reset (hp : Places g zsm policy role) (h : ChunksOk g zsm loc data role) {zone : Nat}
    (ht : role t = .resetting zone) :
    ChunksOk g (evicted zsm zone) loc data (Function.update role t .out) := by
  have hpending : ∀ {u x}, (Function.update role t .out u).pending = some x →
      (role u).pending = some x := fun hu => (said_else hu rfl).2
  have hreads : ∀ {u x}, (Function.update role t .out u).reads = some x →
      (role u).reads = some x := fun hu => (said_else hu rfl).2
  have hcleared : ∀ {u z}, (Function.update role t .out u).cleared = some z →
      (role u).cleared = some z := fun hu => (said_else hu rfl).2
  have hwritable : ∀ {z}, Writable (evicted zsm zone) (Function.update role t .out) z →
      Writable zsm role z ∧ z ≠ zone := by
    intro z hw
    have hw' : Writable zsm (Function.update role t .out) z := hw
    have hw'' := hw'.before fun x hx => by cases hx
    refine ⟨hw'', ?_⟩
    -- the zone is held by its evictor until now, and so by no writer
    rintro rfl
    exact hp.not_writable (t := t) (by rw [ht]; rfl) (by rw [ht]; rfl) hw''
  have hstate : ∀ {z}, z ≠ zone → (evicted zsm zone).state z = zsm.state z := by
    intro z hz
    simp [evicted, hz]
  constructor
  case inverse => exact h.inverse
  case small => exact h.small
  case pending_unmapped => exact fun u id l hu => h.pending_unmapped u id l (hpending hu)
  case pending_inj =>
    exact fun u v i₁ i₂ l₁ l₂ hu hv => h.pending_inj u v i₁ i₂ l₁ l₂ (hpending hu) (hpending hv)
  case used =>
    intro k z c hl
    obtain ⟨hl, hz⟩ := live_reset h ht hl
    rw [hstate hz]
    exact h.used k z c hl
  case below =>
    intro k z c hl hw
    obtain ⟨hl, hz⟩ := live_reset h ht hl
    rw [hstate hz]
    exact h.below k z c hl (hwritable hw).1
  case room =>
    intro z hw
    obtain ⟨hw, hz⟩ := hwritable hw
    rw [hstate hz]
    exact h.room z hw
  case cleared => exact fun u z hu => h.cleared u z (hcleared hu)
  case cleared_pending =>
    exact fun u z hu v id l hv => h.cleared_pending u z (hcleared hu) v id l (hpending hv)
  case drained => exact h.drained_before (fun _ => Role.noConfusion) fun _ hx => by cases hx

end ChunksOk

/-! ## §5. Every run. -/

/-- **One event** keeps live chunks out of the way. -/
theorem LifeStep.chunksOk (hmax : g.maxZoneChunks < 2 ^ 32) {rb : Buffer} {s s' : Life Tid}
    {l : LifeLabel Tid} (hp : Places g s.zsm s.policy s.role)
    (h : ChunksOk g s.zsm s.loc s.data s.role) (hl : l.PublishedFirst s)
    (hs : LifeStep g rb s l s') : ChunksOk g s'.zsm s'.loc s'.data s'.role := by
  cases hs with
  | acquire _ ht hr => exact h.acquire hp ht (zsmGetActiveZone_cases hr)
  | @write t id l results r d ht =>
    by_cases hr : r ≠ 0
    · rw [if_pos hr]
      exact h.goto (fun x hx => by cases hx) (fun x hx => by cases hx) (fun z hz => by cases hz)
        (fun z hz => by cases hz) (fun x hx => by rw [ht]; exact hx)
    · rw [if_neg hr]
      exact h.goto (fun x hx => by cases hx) (fun x hx => by cases hx) (fun z hz => by cases hz)
        (fun z hz => by cases hz) (fun x hx => by rw [ht]; exact hx)
  | commit ht hr =>
    obtain ⟨hst, -, hc⟩ := zsmReturnActiveZone_cases hr
    exact h.commit hmax hp ht hst hc
  | abandon ht hr =>
    obtain ⟨-, -, rfl⟩ := zsmFailedToWrite_cases hr
    exact h.abandon hp ht
  | @push t id l data p ht =>
    exact h.goto (fun x hx => by rw [ht]; exact hx) (fun x hx => by cases hx)
      (fun z hz => by cases hz) (fun z hz => by cases hz) (fun x hx => by cases hx)
  | @publish t id l data data' ht hid hloc hdata =>
    exact h.publish ht hid hloc (hdata (hp.pending_lt t id l (by rw [ht]; rfl)))
  | enter _ _ hloc => exact h.enter hloc
  | @read t id l ret ht =>
    exact h.goto (fun x hx => by cases hx) (fun x hx => by rw [ht]; exact hx)
      (fun z hz => by cases hz) (fun z hz => by cases hz) (fun x hx => by cases hx)
  | touch => exact h
  | leave =>
    exact h.goto (fun x hx => by simp at hx) (fun x hx => by simp at hx)
      (fun z hz => by simp at hz) (fun z hz => absurd hz (Role.ofData_ne_resetting _ _ z))
      (fun x hx => by simp at hx)
  | drop | pop =>
    exact h.goto (fun x hx => by cases hx) (fun x hx => by cases hx) (fun z hz => by cases hz)
      (fun z hz => by cases hz) (fun x hx => by cases hx)
  | @clear t zone loc' ht hc => exact h.clear ht hc (hl zone ht)
  | drain ht hno => exact h.drain ht hno
  | reset ht hr =>
    obtain ⟨-, rfl⟩ := zsmEvict_cases hr
    exact h.reset hp ht

end Moves

/-- **Every run** that clears a zone only when its chunks are published. -/
theorem chunks_reach [DecidableEq Tid] (hmax : g.maxZoneChunks < 2 ^ 32) {rb : Buffer}
    {D : Life Tid → LifeLabel Tid → Prop} (hD : ∀ s l, D s l → l.PublishedFirst s) {s : Life Tid}
    (hr : (lifeSystem Tid g rb).Reach D s) : ChunksOk g s.zsm s.loc s.data s.role := by
  refine TransSys.Reach.invariant (I := fun s => ChunksOk g s.zsm s.loc s.data s.role) ?_
    (fun s l s' hreach h hl hs =>
      LifeStep.chunksOk hmax (places_reach hmax hreach) h (hD s l hl) hs) hr
  intro s hs
  obtain ⟨bytes, rfl⟩ := hs
  have hlive : ∀ {id z c}, ¬ Live (fun _ => none) (fun _ : Tid => Role.out) id z c := by
    intro id z c hl
    rcases hl with hk | ⟨u, l, hu | hu, -⟩
    · cases hk
    · cases hu
    · cases hu
  have hwritable : ∀ {z}, ¬ Writable (zsmInit g) (fun _ : Tid => Role.out) z := by
    intro z hw
    rcases hw with hin | ⟨u, l, hu, -⟩
    · cases hin
    · cases hu
  constructor
  case inverse => exact fun id z c => iff_of_false (by simp) (by simp)
  case small => exact fun id z c h => by cases h
  case pending_unmapped => exact fun _ _ _ _ => rfl
  case pending_inj => exact fun t u id id' l l' h => by cases h
  case used => exact fun id z c h => absurd h hlive
  case below => exact fun id z c h => absurd h hlive
  case room => exact fun z h => absurd h hwritable
  case cleared => exact fun t z h => by cases h
  case cleared_pending => exact fun t z h => by cases h
  case drained => exact fun t z h => by cases h

end ZnCache
