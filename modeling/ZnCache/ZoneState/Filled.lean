/-
  ZnCache.ZoneState.Filled — how many chunks are committed.

  `ZnZone.filled` is the number of chunks of one zone that are committed, by its
  record.  A zone that is handed out or given up keeps its number, a commit adds
  one chunk to one zone, and a reset takes the chunks of a full zone away.

  `chunksFilled` counts over all zones, and `committedChunks` lists what is
  counted; `zonesReset` says how many zones a step has reset, by their records
  before and after it.
-/
import ZnCache.ZoneState.History
import ZnCache.Lib.ThreadPool
import Mathlib.Algebra.Order.BigOperators.Group.Finset

namespace ZnCache

open Lib.ThreadPool

variable {g : Geometry} {z z' : ZoneStateManager}

/-! ## §1. One zone. -/

theorem ZnZone.filled_full {zn : ZnZone} (h : zn.state = .full) : zn.filled g = g.maxZoneChunks := by
  unfold ZnZone.filled
  rw [if_pos h]

theorem ZnZone.filled_open {zn : ZnZone} (h : zn.state ≠ .full) : zn.filled g = zn.chunkOffset := by
  unfold ZnZone.filled
  rw [if_neg h]

/-- A chunk that is committed is a chunk of the device. -/
theorem ZsmInv.chunk_in (h : ZsmInv g z) {y c : Nat} (hlt : c < (z.state y).filled g) :
    y < g.nrZones ∧ c < g.maxZoneChunks := by
  cases hst : (z.state y).state with
  | free =>
    rw [ZnZone.filled_open (by rw [hst]; decide), h.free_offset _ hst] at hlt
    omega
  | full =>
    rw [ZnZone.filled_full hst] at hlt
    exact ⟨h.lt_of_state (by rw [hst]; decide), hlt⟩
  | active | writeOccuring =>
    rw [ZnZone.filled_open (by rw [hst]; decide)] at hlt
    have hroom := (h.open_offset y (by simp [hst])).1
    exact ⟨h.lt_of_state (by rw [hst]; decide), by omega⟩

/-- A zone that is handed out keeps its chunks. -/
theorem GetActiveZoneCase.filled {r : ZsmGetActiveZone} (hc : GetActiveZoneCase g z r z') (y : Nat) :
    (z'.state y).filled g = (z.state y).filled g := by
  have hout : ∀ {i : Nat}, (z.state i).state ≠ .full →
      (Function.update z.state i (writingZone z i) y).filled g = (z.state y).filled g := by
    intro i hst
    by_cases hy : y = i
    · rw [hy, Function.update_self, ZnZone.filled_open hst, ZnZone.filled_open fun h => by cases h]
      rfl
    · rw [Function.update_of_ne hy]
  cases hc with
  | evict | retry => rfl
  | reuse ha hst => exact hout (by rw [hst]; decide)
  | opened ha hf hst => exact hout (by rw [hst]; decide)

/-- A commit adds one chunk to its zone. -/
theorem committed_state (hmax : g.maxZoneChunks < 2 ^ 32) (h : ZsmInv g z) {l : ZnPair}
    (hst : (z.state l.zone).state = .writeOccuring)
    (hoff : (z.state l.zone).chunkOffset = l.chunkOffset) :
    ∃ zn : ZnZone, (committed g z l).state = Function.update z.state l.zone zn
      ∧ zn.filled g = l.chunkOffset + 1 := by
  obtain ⟨hlt, -⟩ := h.open_offset l.zone (Or.inr hst)
  rw [hoff] at hlt
  have hmod : (l.chunkOffset + 1) % 2 ^ 32 = l.chunkOffset + 1 := Nat.mod_eq_of_lt (by omega)
  unfold committed
  rw [hmod]
  split
  · rename_i hlast
    refine ⟨closedZone z l.zone, rfl, ?_⟩
    rw [ZnZone.filled_full rfl, hlast]
  · exact ⟨reopenedZone z l.zone (l.chunkOffset + 1), rfl, ZnZone.filled_open fun h => by cases h⟩

/-- A location that is given up leaves its zone as full as it was. -/
theorem abandoned_filled {l : ZnPair} (hst : (z.state l.zone).state = .writeOccuring)
    (hoff : (z.state l.zone).chunkOffset = l.chunkOffset) (y : Nat) :
    ((abandoned z l).state y).filled g = (z.state y).filled g := by
  show (Function.update z.state l.zone (reopenedZone z l.zone l.chunkOffset) y).filled g = _
  by_cases hy : y = l.zone
  · have hopen : (z.state l.zone).state ≠ .full := by
      rw [hst]
      decide
    rw [hy, Function.update_self, ZnZone.filled_open hopen, ZnZone.filled_open (fun h => by cases h), hoff]
    rfl
  · rw [Function.update_of_ne hy]

/-! ## §2. All zones. -/

/-- How many chunks are committed. -/
def chunksFilled (g : Geometry) (z : ZoneStateManager) : Nat :=
  weightOn (Finset.range g.nrZones) (ZnZone.filled g) z.state

theorem chunksFilled_init (g : Geometry) : chunksFilled g (zsmInit g) = 0 := by
  unfold chunksFilled weightOn
  exact Finset.sum_eq_zero fun _ _ => rfl

theorem chunksFilled_congr (h : ∀ y, (z'.state y).filled g = (z.state y).filled g) :
    chunksFilled g z' = chunksFilled g z := by
  unfold chunksFilled weightOn
  exact Finset.sum_congr rfl fun y _ => h y

/-- One zone changes. -/
theorem chunksFilled_update {i : Nat} (hi : i < g.nrZones) {n : ZnZone}
    (hz : z'.state = Function.update z.state i n) :
    chunksFilled g z' + (z.state i).filled g = chunksFilled g z + n.filled g := by
  unfold chunksFilled
  rw [hz]
  exact weightOn_update _ _ (Finset.mem_range.mpr hi) n

/-- A chunk is committed. -/
theorem chunksFilled_commit (hmax : g.maxZoneChunks < 2 ^ 32) (h : ZsmInv g z) {l : ZnPair}
    (hst : (z.state l.zone).state = .writeOccuring)
    (hoff : (z.state l.zone).chunkOffset = l.chunkOffset) :
    chunksFilled g (committed g z l) = chunksFilled g z + 1 := by
  have hopen : (z.state l.zone).state ≠ .full := by
    rw [hst]
    decide
  have hi : l.zone < g.nrZones := h.lt_of_state (by rw [hst]; decide)
  obtain ⟨zn, hzn, hfilled⟩ := committed_state hmax h hst hoff
  have hweigh := chunksFilled_update hi hzn
  rw [ZnZone.filled_open hopen, hoff] at hweigh
  omega

/-- There is room for so many. -/
theorem chunksFilled_le (h : ZsmInv g z) : chunksFilled g z ≤ g.nrZones * g.maxZoneChunks := by
  have hzone : ∀ i ∈ Finset.range g.nrZones, (z.state i).filled g ≤ g.maxZoneChunks := by
    intro i _
    by_contra hmore
    have hin : i < g.nrZones ∧ g.maxZoneChunks < g.maxZoneChunks :=
      h.chunk_in (Nat.lt_of_not_le hmore)
    omega
  calc chunksFilled g z ≤ (Finset.range g.nrZones).card • g.maxZoneChunks :=
        Finset.sum_le_card_nsmul _ _ _ hzone
    _ = g.nrZones * g.maxZoneChunks := by rw [Finset.card_range, nsmul_eq_mul, Nat.cast_id]

/-- **Told to evict, with every chunk taken.** -/
theorem chunksFilled_of_evict (h : ZsmInv g z) (hc : GetActiveZoneCase g z .evict z') :
    chunksFilled g z = g.nrZones * g.maxZoneChunks := by
  cases hc with
  | evict ha hf hw =>
    have hfull : ∀ i, i < g.nrZones → (z.state i).state = .full := by
      intro i hi
      have hnone : zonesIn g z .writeOccuring = 0 := by
        have hcount := h.writes
        omega
      cases hst : (z.state i).state with
      | full => rfl
      | free =>
        have hin := (h.mem_free i).mpr ⟨hi, hst⟩
        rw [hf] at hin
        cases hin
      | active =>
        have hin := (h.mem_active i).mpr ⟨hi, hst⟩
        rw [ha] at hin
        cases hin
      | writeOccuring =>
        exact absurd hst ((countOn_eq_zero_iff _ _).mp hnone i (Finset.mem_range.mpr hi))
    have hall : ∀ i ∈ Finset.range g.nrZones, (z.state i).filled g = g.maxZoneChunks :=
      fun i hi => ZnZone.filled_full (hfull i (Finset.mem_range.mp hi))
    unfold chunksFilled weightOn
    rw [Finset.sum_const_nat hall, Finset.card_range]

/-! ## §3. Which chunks. -/

/-- The chunks that are committed. -/
def committedChunks (g : Geometry) (z : ZoneStateManager) : List (Nat × Nat) :=
  (List.range g.nrZones).flatMap fun y => (List.range ((z.state y).filled g)).map fun c => (y, c)

theorem mem_committedChunks {y c : Nat} :
    (y, c) ∈ committedChunks g z ↔ y < g.nrZones ∧ c < (z.state y).filled g := by
  unfold committedChunks
  simp only [List.mem_flatMap, List.mem_map, List.mem_range, Prod.mk.injEq]
  constructor
  · rintro ⟨y', hy, c', hc, rfl, rfl⟩
    exact ⟨hy, hc⟩
  · rintro ⟨hy, hc⟩
    exact ⟨y, hy, c, hc, rfl, rfl⟩

theorem nodup_committedChunks : (committedChunks g z).Nodup := by
  unfold committedChunks
  rw [List.nodup_flatMap]
  constructor
  · intro y _
    exact List.nodup_range.map fun c c' h => (Prod.mk.inj h).2
  · apply List.Nodup.pairwise_of_forall_ne List.nodup_range
    intro y _ y' _ hne p hp hp'
    obtain ⟨c, -, rfl⟩ := List.mem_map.mp hp
    obtain ⟨c', -, heq⟩ := List.mem_map.mp hp'
    exact hne (Prod.mk.inj heq).1.symm

/-- All zones, as a list. -/
theorem chunksFilled_eq_sum (g : Geometry) (z : ZoneStateManager) :
    chunksFilled g z = ((List.range g.nrZones).map fun y => (z.state y).filled g).sum := by
  have hrange : Finset.range g.nrZones = (List.range g.nrZones).toFinset := by
    ext y
    rw [Finset.mem_range, List.mem_toFinset, List.mem_range]
  unfold chunksFilled weightOn
  rw [hrange, List.sum_toFinset _ List.nodup_range]

theorem length_committedChunks : (committedChunks g z).length = chunksFilled g z := by
  rw [chunksFilled_eq_sum]
  unfold committedChunks
  rw [List.length_flatMap]
  simp only [List.length_map, List.length_range]

/-- **By the queues**: where each zone is free, open or in the list `full` of the
full ones, the chunks are those of the full zones, and those that the open zones
have been written up to. -/
theorem chunksFilled_queued (h : ZsmInv g z) {full : List Nat}
    (hperm : (z.free ++ z.active ++ full).Perm (List.range g.nrZones))
    (hfull : ∀ y ∈ full, (z.state y).state = .full) :
    chunksFilled g z = full.length * g.maxZoneChunks
      + (z.active.map fun y => (z.state y).chunkOffset).sum := by
  have hfree : (z.free.map fun y => (z.state y).filled g).sum = 0 := by
    apply List.sum_eq_zero
    intro n hn
    obtain ⟨y, hy, rfl⟩ := List.mem_map.mp hn
    have hst := ((h.mem_free y).mp hy).2
    rw [ZnZone.filled_open (by rw [hst]; decide), h.free_offset y hst]
  have hactive : (z.active.map fun y => (z.state y).filled g)
      = z.active.map fun y => (z.state y).chunkOffset := by
    apply List.map_congr_left
    intro y hy
    have hst := ((h.mem_active y).mp hy).2
    exact ZnZone.filled_open (by rw [hst]; decide)
  have hclosed : (full.map fun y => (z.state y).filled g) = full.map fun _ => g.maxZoneChunks :=
    List.map_congr_left fun y hy => ZnZone.filled_full (hfull y hy)
  rw [chunksFilled_eq_sum, ← (hperm.map _).sum_eq, List.map_append, List.map_append, List.sum_append,
    List.sum_append, hfree, hactive, hclosed, List.map_const', List.sum_replicate_nat]
  omega

/-! ## §4. Resets. -/

/-- How many zones were full, and are free. -/
def zonesReset (g : Geometry) (z z' : ZoneStateManager) : Nat :=
  ((Finset.range g.nrZones).filter fun i =>
    (z.state i).state = .full ∧ (z'.state i).state = .free).card

theorem zonesReset_eq_zero (h : ∀ i, (z.state i).state = .full → (z'.state i).state = .full) :
    zonesReset g z z' = 0 := by
  unfold zonesReset
  rw [Finset.card_eq_zero, Finset.filter_eq_empty_iff]
  rintro i - ⟨hfull, hfree⟩
  rw [h i hfull] at hfree
  cases hfree

theorem zonesReset_self : zonesReset g z z = 0 := zonesReset_eq_zero fun _ h => h

/-- One zone that is not full changes. -/
theorem zonesReset_update {i : Nat} {zn : ZnZone} (hz : z'.state = Function.update z.state i zn)
    (hi : (z.state i).state ≠ .full) : zonesReset g z z' = 0 := by
  apply zonesReset_eq_zero
  intro y hy
  have hne : y ≠ i := by
    intro heq
    rw [heq] at hy
    exact hi hy
  rw [hz, Function.update_of_ne hne]
  exact hy

/-- **A full zone is reset**: its chunks are gone. -/
theorem evicted_filled (h : ZsmInv g z) {i : Nat} (hi : (z.state i).state = .full) :
    zonesReset g z (evicted z i) = 1
      ∧ chunksFilled g (evicted z i) + g.maxZoneChunks = chunksFilled g z := by
  have hlt : i < g.nrZones := h.lt_of_state (by rw [hi]; decide)
  constructor
  · have hone : (Finset.range g.nrZones).filter (fun y =>
        (z.state y).state = .full ∧ ((evicted z i).state y).state = .free) = {i} := by
      ext y
      rw [Finset.mem_filter, Finset.mem_singleton, Finset.mem_range]
      constructor
      · rintro ⟨-, hfull, hfree⟩
        by_contra hy
        have hfree' : (Function.update z.state i _ y).state = .free := hfree
        rw [Function.update_of_ne hy, hfull] at hfree'
        cases hfree'
      · rintro rfl
        refine ⟨hlt, hi, ?_⟩
        show (Function.update z.state y _ y).state = _
        rw [Function.update_self]
    unfold zonesReset
    rw [hone, Finset.card_singleton]
  · have hempty : ({ z.state i with state := .free, chunkOffset := 0 } : ZnZone).filled g = 0 :=
      ZnZone.filled_open fun h => by cases h
    have hweigh : chunksFilled g (evicted z i) + (z.state i).filled g = chunksFilled g z + _ :=
      chunksFilled_update hlt rfl
    rw [ZnZone.filled_full hi, hempty] at hweigh
    omega

end ZnCache
