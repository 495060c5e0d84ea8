/-
  ZnCache.Promotional.Storage — what stands on the device where a chunk is live.

  `Stored` follows the history of the device: a live chunk was last written for
  its id.  `Buffers` follows the bytes: the history is right about them, and
  every buffer a thread holds is the one its id asks for.

  Both rest on `ChunksOk`: a write goes to the offset of a writable zone, above
  all live chunks, and a reset hits a zone without live chunks.  `Stored`
  assumes nothing of the device; `Buffers` needs transfers that succeed, and a
  device whose chunks do not overlap.

  Main results: `stored_reach`, `buffers_reach`.
-/
import ZnCache.Promotional.Chunks

namespace ZnCache

open Lib

universe u

variable {Tid : Type u} {g : Geometry} {rb : Buffer}

/-! ## §1. The history. -/

/-- **Live chunks hold what they should.** -/
structure Stored (loc : Nat → Option (Nat × Nat)) (dev : Device) (role : Tid → Role) : Prop where
  live : ∀ id z c, Live loc role id z c → dev.written z c = some id
  wrote : ∀ t id l d, role t = .wrote id l d → dev.written l.zone l.chunkOffset = some id

variable [DecidableEq Tid]

/-- A thread that writes a chunk when another one moves did so before. -/
theorem wrote_before {role : Tid → Role} {t u : Tid} {r : Role} {id : Nat} {l : ZnPair} {d : Buffer}
    (hr : ∀ id l d, r ≠ .wrote id l d) (hu : Function.update role t r u = .wrote id l d) :
    role u = .wrote id l d := by
  by_cases hut : u = t
  · subst hut
    rw [Function.update_self] at hu
    exact absurd hu (hr id l d)
  · rwa [Function.update_of_ne hut] at hu

/-- Nothing new is live, and nothing has been written. -/
theorem Stored.goto {loc loc' : Nat → Option (Nat × Nat)} {dev : Device} {role : Tid → Role}
    (h : Stored loc dev role) {t : Tid} {r : Role}
    (hlive : ∀ {id z c}, Live loc' (Function.update role t r) id z c → Live loc role id z c)
    (hr : ∀ id l d, r ≠ .wrote id l d) : Stored loc' dev (Function.update role t r) where
  live id z c hl := h.live id z c (hlive hl)
  wrote u id l d hu := h.wrote u id l d (wrote_before hr hu)

/-- **A write** hits no live chunk. -/
theorem Stored.write {s : Life Tid} (hp : Places g s.zsm s.policy s.role)
    (hc : ChunksOk g s.zsm s.loc s.data s.role) (h : Stored s.loc s.dev s.role) {t : Tid}
    {id : Nat} {l : ZnPair} {results : List PwriteResult} {r : Int} {d : Device}
    (ht : s.role t = .writing id l)
    (hw : writeChunk g s.dev l id (znGenWriteBuffer id rb) results = some (r, d)) :
    Stored s.loc d (Function.update s.role t
      (if r ≠ 0 then .failed l else .wrote id l (znGenWriteBuffer id rb))) := by
  have hwrites : (s.role t).writes = some l := by rw [ht]; rfl
  have hwritten := writeChunk_written hw
  have hpending : Role.pending (if r ≠ 0 then .failed l
      else .wrote id l (znGenWriteBuffer id rb)) = none := by split <;> rfl
  have hreads : Role.reads (if r ≠ 0 then .failed l
      else .wrote id l (znGenWriteBuffer id rb)) = none := by split <;> rfl
  constructor
  · intro k z c hl
    have hl' : Live s.loc s.role k z c := hl.before (fun x hx => by rw [hpending] at hx; cases hx)
      (fun x hx => by rw [hreads] at hx; cases hx)
    -- the chunk written is above everything live in its zone
    have hne : ¬ (z = l.zone ∧ c = l.chunkOffset) := by
      rintro ⟨rfl, rfl⟩
      have hlt := hc.below k _ _ hl' (Or.inr ⟨t, l, hwrites, rfl⟩)
      rw [hp.at_offset t l hwrites] at hlt
      exact Nat.lt_irrefl _ hlt
    rw [hwritten, if_neg hne]
    exact h.live k z c hl'
  · intro u id' l' d' hu
    rw [hwritten]
    by_cases hut : u = t
    · subst hut
      rw [Function.update_self] at hu
      split at hu
      · cases hu
      · rename_i hr
        cases hu
        rw [if_pos ⟨rfl, rfl⟩, if_pos (not_not.mp hr)]
    · rw [Function.update_of_ne hut] at hu
      -- another writer has another zone
      have hne : l'.zone ≠ l.zone := by
        intro hz
        refine hut (hp.tokens.distinct u t l.zone ?_ (Role.place_of_writes hwrites))
        rw [← hz]
        exact Role.place_of_writes (show (s.role u).writes = some l' by rw [hu]; rfl)
      rw [if_neg fun hcell => hne hcell.1]
      exact h.wrote u id' l' d' hu

/-- **A reset** forgets a zone without live chunks. -/
theorem Stored.reset {s : Life Tid} (hp : Places g s.zsm s.policy s.role)
    (hc : ChunksOk g s.zsm s.loc s.data s.role) (h : Stored s.loc s.dev s.role) {t : Tid}
    {zone : Nat} (ht : s.role t = .resetting zone) :
    Stored s.loc (s.dev.forget zone) (Function.update s.role t .out) := by
  have hkeep : ∀ {z : Nat}, z ≠ zone → ∀ c, (s.dev.forget zone).written z c = s.dev.written z c := by
    intro z hz c
    simp [Device.forget, hz]
  constructor
  · intro k z c hl
    obtain ⟨hl', hz⟩ := hc.live_reset ht hl
    rw [hkeep hz]
    exact h.live k z c hl'
  · intro u id l d hu
    have hu' := wrote_before (fun _ _ _ hx => by cases hx) hu
    have hne : l.zone ≠ zone := by
      intro hz
      have hut : u = t := hp.tokens.distinct u t zone
        (show (s.role u).place g = some zone by rw [hu', ← hz]; rfl)
        (show (s.role t).place g = some zone by rw [ht]; rfl)
      rw [hut, ht] at hu'
      cases hu'
    rw [hkeep hne]
    exact h.wrote u id l d hu'

/-- **One event** keeps the history right. -/
theorem LifeStep.stored {s s' : Life Tid} {l : LifeLabel Tid}
    (hp : Places g s.zsm s.policy s.role) (hc : ChunksOk g s.zsm s.loc s.data s.role)
    (h : Stored s.loc s.dev s.role) (hs : LifeStep g rb s l s') :
    Stored s'.loc s'.dev s'.role := by
  cases hs with
  | @acquire t ret id r =>
    refine h.goto (fun hl => hl.before (fun x hx => ?_) (fun x hx => ?_)) fun _ _ _ hx => ?_
    · cases r <;> cases hx
    · cases r <;> cases hx
    · cases r <;> cases hx
  | write ht hw => exact h.write hp hc ht hw
  | @commit t ret id l data r zsm ht =>
    refine ⟨fun k z c hl => ?_, fun u id' l' d hu => ?_⟩
    · rcases ChunksOk.live_commit hl with hl | ⟨rfl, rfl, rfl⟩
      · exact h.live k z c hl
      · exact h.wrote t _ l data ht
    · exact h.wrote u id' l' d (wrote_before (fun _ _ _ hx => by cases hx) hu)
  | abandon | drop | pop =>
    exact h.goto (fun hl => hl.before (fun x hx => by cases hx) (fun x hx => by cases hx))
      fun _ _ _ hx => by cases hx
  | push ht =>
    exact h.goto (fun hl => hl.before (fun x hx => by rw [ht]; exact hx) (fun x hx => by cases hx))
      fun _ _ _ hx => by cases hx
  | publish ht => exact h.goto (ChunksOk.live_publish ht) fun _ _ _ hx => by cases hx
  | enter _ _ hloc => exact h.goto (ChunksOk.live_enter hloc) fun _ _ _ hx => by cases hx
  | read ht =>
    exact h.goto (fun hl => hl.before (fun x hx => by cases hx) (fun x hx => by rw [ht]; exact hx))
      fun _ _ _ hx => by cases hx
  | touch => exact h
  | @leave t id l data ht =>
    refine h.goto (fun hl => hl.before (fun x hx => by simp at hx) (fun x hx => by simp at hx))
      fun _ _ _ hx => ?_
    cases data <;> cases hx
  | clear ht hcl => exact h.goto (hc.live_clear hcl) fun _ _ _ hx => by cases hx
  | drain =>
    exact h.goto (fun hl => hl.before (fun x hx => by cases hx) (fun x hx => by cases hx))
      fun _ _ _ hx => by cases hx
  | reset ht => exact h.reset hp hc ht

/-- **Every run** that clears a zone only when its chunks are published. -/
theorem stored_reach (hmax : g.maxZoneChunks < 2 ^ 32) {D : Life Tid → LifeLabel Tid → Prop}
    (hD : ∀ s l, D s l → l.PublishedFirst s) {s : Life Tid}
    (hr : (lifeSystem Tid g rb).Reach D s) : Stored s.loc s.dev s.role := by
  refine TransSys.Reach.invariant (I := fun s => Stored s.loc s.dev s.role) ?_
    (fun s l s' hreach h _ hs =>
      LifeStep.stored (places_reach hmax hreach) (chunks_reach hmax hD hreach) h hs) hr
  intro s hs
  obtain ⟨bytes, rfl⟩ := hs
  refine ⟨fun id z c hl => ?_, fun t id l d ht => by cases ht⟩
  rcases hl with hk | ⟨u, l, hu | hu, -⟩
  · cases hk
  · cases hu
  · cases hu

/-! ## §2. The bytes. -/

/-- The zones of every run are those of the array. -/
theorem inArray_reach {D : Life Tid → LifeLabel Tid → Prop} {s : Life Tid}
    (hr : (lifeSystem Tid g rb).Reach D s) : InArray g s.zsm := by
  refine TransSys.Reach.invariant (I := fun s => InArray g s.zsm) ?_ ?_ hr
  · intro s hs
    obtain ⟨bytes, rfl⟩ := hs
    exact .init g
  · intro s l s' _ h _ hs
    cases hs with
    | acquire _ _ hr => exact h.acquire (zsmGetActiveZone_cases hr)
    | commit _ hr =>
      obtain ⟨hst, -, hc⟩ := zsmReturnActiveZone_cases hr
      exact h.commit hst hc
    | abandon _ hr =>
      obtain ⟨hst, -, rfl⟩ := zsmFailedToWrite_cases hr
      exact h.abandon hst
    | reset _ hr =>
      obtain ⟨hst, rfl⟩ := zsmEvict_cases hr
      exact h.evict hst
    | write | push | publish | enter | read | touch | leave | drop | pop | clear | drain => exact h

/-- The buffer a thread holds, and the id it is for. -/
def Role.buffer : Role → Option (Nat × Buffer)
  | .wrote id _ data | .pushing id _ data | .publishing id _ data | .result id data
  | .leaving id _ (some data) => some (id, data)
  | _ => none

/-- The id a thread is about to write or to read a chunk of. -/
def Role.wants : Role → Option Nat
  | .writing id _ | .reading id _ => some id
  | _ => none

/-- **The bytes are right**: those the history speaks of, and those in hand. -/
structure Buffers (g : Geometry) (rb : Buffer) (dev : Device) (role : Tid → Role) : Prop where
  holds : dev.Holds g rb
  valid : ∀ t id data, (role t).buffer = some (id, data) → ValidFor g.chunkSz rb id data
  wants_lt : ∀ t id, (role t).wants = some id → id < 2 ^ 32

/-- The device stays right while a thread comes to hold a valid buffer. -/
theorem Buffers.goto {dev dev' : Device} {role : Tid → Role} (h : Buffers g rb dev role) {t : Tid}
    {r : Role} (hholds : dev'.Holds g rb)
    (hvalid : ∀ id data, r.buffer = some (id, data) → ValidFor g.chunkSz rb id data)
    (hwants : ∀ id, r.wants = some id → id < 2 ^ 32) :
    Buffers g rb dev' (Function.update role t r) where
  holds := hholds
  valid u id data hu := by
    by_cases hut : u = t
    · subst hut
      rw [Function.update_self] at hu
      exact hvalid id data hu
    · rw [Function.update_of_ne hut] at hu
      exact h.valid u id data hu
  wants_lt u id hu := by
    by_cases hut : u = t
    · subst hut
      rw [Function.update_self] at hu
      exact hwants id hu
    · rw [Function.update_of_ne hut] at hu
      exact h.wants_lt u id hu

omit [DecidableEq Tid] in
theorem Buffers.forget {dev : Device} {role : Tid → Role} (h : Buffers g rb dev role) {z : Nat} :
    Buffers g rb (dev.forget z) role where
  holds := h.holds.forget z
  valid := h.valid
  wants_lt := h.wants_lt

/-- The device's and the chunks' sizes fit together: whole blocks, at least one
chunk a zone, chunks that do not overlap. -/
structure Geometry.Sound (g : Geometry) : Prop where
  addressable : g.Addressable
  blocks : writeGranularity ∣ g.chunkSz
  chunk_pos : 0 < g.chunkSz
  chunk_le : g.chunkSz ≤ g.zoneCap

theorem Geometry.Sound.max_pos {g : Geometry} (h : g.Sound) : 0 < g.maxZoneChunks :=
  Nat.div_pos h.chunk_le h.chunk_pos

theorem Geometry.Sound.four_le {g : Geometry} (h : g.Sound) : 4 ≤ g.chunkSz := by
  have : writeGranularity ≤ g.chunkSz := Nat.le_of_dvd h.chunk_pos h.blocks
  exact Nat.le_trans (by decide) this

/-- **One event** keeps the bytes right, if its transfer succeeds. -/
theorem LifeStep.buffers (hg : g.Sound) {s s' : Life Tid} {l : LifeLabel Tid}
    (hp : Places g s.zsm s.policy s.role) (hin : InArray g s.zsm)
    (hc : ChunksOk g s.zsm s.loc s.data s.role) (hst : Stored s.loc s.dev s.role)
    (h : Buffers g rb s.dev s.role) (hl : l.TransferOk) (hs : LifeStep g rb s l s') :
    Buffers g rb s'.dev s'.role := by
  -- a thread that wants nothing new and holds what it held
  have hkeep : ∀ {t : Tid} {r : Role}, (∀ x, r.buffer = some x → (s.role t).buffer = some x) →
      r.wants = none → Buffers g rb s.dev (Function.update s.role t r) := fun hb hw =>
    h.goto h.holds (fun id data hr => h.valid _ id data (hb _ hr))
      fun id hr => by rw [hw] at hr; cases hr
  cases hs with
  | @acquire t ret id r zsm hid ht =>
    refine h.goto h.holds (fun id' data hr => ?_) fun id' hr => ?_
    · cases r <;> cases hr
    · cases r <;> cases hr
      exact hid
  | @write t id l results r d ht hw =>
    have hwrites : (s.role t).writes = some l := by rw [ht]; rfl
    have hz : l.zone < g.nrZones := hin.used l.zone (by simp [hp.writing t l hwrites])
    have hroom := hc.room l.zone (Or.inr ⟨t, l, hwrites, rfl⟩) hg.max_pos
    rw [hp.at_offset t l hwrites] at hroom
    obtain ⟨rfl, hholds, -⟩ := writeChunk_ok hg.addressable hg.blocks hz hroom hl h.holds hw
    have hid : id < 2 ^ 32 := h.wants_lt t id (by rw [ht]; rfl)
    rw [if_neg (by simp)]
    refine h.goto hholds (fun id' data hr => ?_) fun id' hr => by cases hr
    cases hr
    exact gen_valid hid g.chunkSz rb
  | commit ht | push ht | publish ht =>
    exact hkeep (fun x hx => by rw [ht]; exact hx) rfl
  | abandon | drop | pop | clear | drain => exact hkeep (fun x hx => by cases hx) rfl
  | enter hid => exact h.goto h.holds (fun id data hr => by cases hr) fun id' hr => by cases hr; exact hid
  | @read t id l ret ht =>
    have hreads : (s.role t).reads = some (id, l) := by rw [ht]; rfl
    have hwritten := hst.live id l.zone l.chunkOffset (Or.inr ⟨t, l, Or.inr hreads, rfl, rfl⟩)
    have hid : id < 2 ^ 32 := h.wants_lt t id (by rw [ht]; rfl)
    refine h.goto h.holds (fun id' data hr => ?_) fun id' hr => by cases hr
    cases hd : znReadFromDisk g s.dev l ret with
    | none => rw [hd] at hr; cases hr
    | some data' =>
      rw [hd] at hr
      cases hr
      exact read_valid hid hg.four_le h.holds hwritten hd
  | touch => exact h
  | @leave t id l data ht =>
    refine hkeep (fun x hx => ?_) ?_
    · rw [ht]
      cases data <;> exact hx
    · cases data <;> rfl
  | reset => exact (hkeep (fun x hx => by cases hx) rfl).forget

/-- **Every run** whose transfers succeed, and that clears a zone only when its
chunks are published. -/
theorem buffers_reach (hg : g.Sound) (hmax : g.maxZoneChunks < 2 ^ 32)
    {D : Life Tid → LifeLabel Tid → Prop} (hD : ∀ s l, D s l → l.PublishedFirst s ∧ l.TransferOk)
    {s : Life Tid} (hr : (lifeSystem Tid g rb).Reach D s) : Buffers g rb s.dev s.role := by
  have hfirst : ∀ s l, D s l → l.PublishedFirst s := fun s l hd => (hD s l hd).1
  refine TransSys.Reach.invariant (I := fun s => Buffers g rb s.dev s.role) ?_
    (fun s l s' hreach h hd hs =>
      LifeStep.buffers hg (places_reach hmax hreach) (inArray_reach hreach)
        (chunks_reach hmax hfirst hreach) (stored_reach hmax hfirst hreach) h (hD s l hd).2 hs) hr
  intro s hs
  obtain ⟨bytes, rfl⟩ := hs
  refine ⟨fun z c id hw => ?_, fun t id data ht => ?_, fun t id ht => ?_⟩
  · cases hw
  · cases ht
  · cases ht

end ZnCache
