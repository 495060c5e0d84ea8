/-
  ZnCache.CacheMap.Clearing — clearing a zone is clearing its chunks.

  `zn_cachemap_clear_zone` goes through one zone's table and removes the ids it
  finds from `zone_map`, then empties the table; `zn_cachemap_clear_chunk` takes
  one pair out of both maps.  On a map that stores a bijection the two come to
  the same map, `zoneCleared`, whatever the order of either.

  Main result: `clear_zone_is_clear_chunks`.
-/
import ZnCache.CacheMap.Bijection

namespace ZnCache

open Lib Lib.PartialBijection

/-- `zn_cachemap_clear_chunk` on one location after the other. -/
def clearChunks : List ZnPair → ZnCachemap → Except Fault ZnCachemap
  | [], m => .ok m
  | location :: rest, m => (znCachemapClearChunk m location).bind (clearChunks rest)

/-- The locations mapped in `zone`, each once. -/
structure ListsZone (m : ZnCachemap) (zone : Nat) (locations : List ZnPair) : Prop where
  zone_eq : ∀ l ∈ locations, l.zone = zone
  once : (locations.map ZnPair.chunkOffset).Nodup
  mapped : ∀ c, c ∈ locations.map ZnPair.chunkOffset ↔ Mapped m zone c

/-- An id is located in the zone. -/
def LocatedIn (m : ZnCachemap) (zone k : Nat) : Prop :=
  ∃ l, m.zoneMap k = some (.loc l) ∧ l.zone = zone

theorem locatedIn_iff {m : ZnCachemap} {zone k : Nat} :
    LocatedIn m zone k ↔ (locOf m k).any (fun l => l.1 = zone) = true := by
  rw [Option.any_eq_true]
  constructor
  · rintro ⟨l, hl, hz⟩
    exact ⟨_, locOf_eq_some.mpr ⟨l, hl, rfl⟩, by simpa using hz⟩
  · rintro ⟨p, hp, hz⟩
    obtain ⟨l, hl, rfl⟩ := locOf_eq_some.mp hp
    exact ⟨l, hl, by simpa using hz⟩

theorem zoneCleared_zoneMap_of_located {m : ZnCachemap} {zone k : Nat} (h : LocatedIn m zone k) :
    (zoneCleared m zone).zoneMap k = none := if_pos (locatedIn_iff.mp h)

theorem zoneCleared_zoneMap_of_not {m : ZnCachemap} {zone k : Nat} (h : ¬ LocatedIn m zone k) :
    (zoneCleared m zone).zoneMap k = m.zoneMap k := if_neg (fun h' => h (locatedIn_iff.mpr h'))

namespace Represents

variable {m : ZnCachemap} {e : PEquiv Nat (Nat × Nat)}

theorem mapped_iff (h : Represents m e) {zone c : Nat} :
    Mapped m zone c ↔ ∃ k, e k = some (zone, c) := by
  constructor
  · rintro ⟨k, l, hl, rfl, rfl⟩
    exact ⟨k, h.of_loc hl⟩
  · rintro ⟨k, hk⟩
    obtain ⟨l, hl, hz, hc⟩ := h.to_loc hk
    exact ⟨k, l, hl, hz, hc⟩

/-- The map after one chunk is cleared, written out. -/
theorem clearChunk_eq (h : Represents m e) {k : Nat} {l : ZnPair}
    (hk : e k = some (l.zone, l.chunkOffset)) :
    znCachemapClearChunk m l = .ok ((m.setEntry k none).setData l.zone
      ((m.dataMap l.zone).erase l.chunkOffset)) := by
  obtain ⟨l', hl', hz, hc⟩ := h.to_loc hk
  obtain ⟨-, hzlt, hc32⟩ := h.bounds k _ _ hk
  have hkey := h.keyAt_eq hk
  have heq := znCachemapClearChunk_eq hzlt (by rw [hkey]; exact hl') hz hc
  rw [hkey, guintToPointer_eq (by omega)] at heq
  exact heq

/-- A zone in which nothing is mapped is cleared already. -/
theorem zoneCleared_of_unmapped (h : Represents m e) {zone : Nat}
    (hno : ∀ c, ¬ Mapped m zone c) : zoneCleared m zone = m := by
  have hmap : (fun k => if (locOf m k).any (fun l => l.1 = zone) then none else m.zoneMap k)
      = m.zoneMap := by
    funext k
    refine if_neg fun hany => ?_
    obtain ⟨l, hl, hz⟩ := locatedIn_iff.mpr hany
    exact hno l.chunkOffset ⟨k, l, hl, hz, rfl⟩
  have hempty : m.dataMap zone = ∅ := by
    refine AList.ext (List.eq_nil_iff_forall_not_mem.mpr ?_)
    rintro ⟨c, k⟩ hin
    have hk : e k = some (zone, c) := by
      rw [← e.eq_some_iff, ← h.bwd]
      exact AList.mem_lookup_iff.mpr hin
    exact hno c (h.mapped_iff.mpr ⟨k, hk⟩)
  have hdata : Function.update m.dataMap zone ∅ = m.dataMap := by
    rw [← hempty]
    exact Function.update_eq_self zone m.dataMap
  unfold zoneCleared ZnCachemap.setData
  rw [hmap]
  show { m with dataMap := Function.update m.dataMap zone ∅ } = m
  rw [hdata]

/-- Clearing one of its chunks first does not change what clearing the zone
comes to. -/
theorem zoneCleared_clearChunk (h : Represents m e) {k : Nat} {l : ZnPair}
    (hk : e k = some (l.zone, l.chunkOffset)) :
    zoneCleared ((m.setEntry k none).setData l.zone ((m.dataMap l.zone).erase l.chunkOffset)) l.zone
      = zoneCleared m l.zone := by
  obtain ⟨l', hl', hz, -⟩ := h.to_loc hk
  have hkin : LocatedIn m l.zone k := ⟨l', hl', hz⟩
  let m' := (m.setEntry k none).setData l.zone ((m.dataMap l.zone).erase l.chunkOffset)
  have hmap : (zoneCleared m' l.zone).zoneMap = (zoneCleared m l.zone).zoneMap := by
    funext x
    by_cases hx : x = k
    · subst hx
      have hnone : m'.zoneMap x = none := Function.update_self ..
      have hnot : ¬ LocatedIn m' l.zone x := by
        rintro ⟨y, hy, -⟩
        rw [hnone] at hy
        cases hy
      rw [zoneCleared_zoneMap_of_not hnot, zoneCleared_zoneMap_of_located hkin, hnone]
    · have hsame : m'.zoneMap x = m.zoneMap x := Function.update_of_ne hx ..
      have hiff : LocatedIn m' l.zone x ↔ LocatedIn m l.zone x := by
        unfold LocatedIn
        rw [hsame]
      by_cases hin : LocatedIn m l.zone x
      · rw [zoneCleared_zoneMap_of_located hin, zoneCleared_zoneMap_of_located (hiff.mpr hin)]
      · rw [zoneCleared_zoneMap_of_not hin, zoneCleared_zoneMap_of_not (fun h' => hin (hiff.mp h')),
          hsame]
  have hdata : (zoneCleared m' l.zone).dataMap = (zoneCleared m l.zone).dataMap := by
    show Function.update (Function.update m.dataMap l.zone _) l.zone ∅
      = Function.update m.dataMap l.zone ∅
    rw [Function.update_idem]
  show (⟨m.numZones, (zoneCleared m' l.zone).zoneMap, (zoneCleared m' l.zone).dataMap,
    m.activeReaders, m.conds, m.nextCond⟩ : ZnCachemap) = zoneCleared m l.zone
  rw [hmap, hdata]
  rfl

/-- **Chunk by chunk**, in whatever order, the zone is cleared. -/
theorem clearChunks_eq {zone : Nat} : ∀ (locations : List ZnPair) {m : ZnCachemap}
    {e : PEquiv Nat (Nat × Nat)}, Represents m e → ListsZone m zone locations →
    clearChunks locations m = .ok (zoneCleared m zone)
  | [], m, e, h, hl => by
      have hno : ∀ c, ¬ Mapped m zone c := fun c hc => by simpa using (hl.mapped c).mpr hc
      rw [h.zoneCleared_of_unmapped hno]
      rfl
  | l :: rest, m, e, h, hl => by
      obtain rfl := hl.zone_eq l List.mem_cons_self
      have hnd := List.nodup_cons.mp hl.once
      obtain ⟨k, hk⟩ := h.mapped_iff.mp ((hl.mapped l.chunkOffset).mp List.mem_cons_self)
      have hstep := h.clearChunk_eq hk
      obtain ⟨m', hm', h'⟩ := h.clearChunk hk
      obtain rfl := Except.ok.inj (hstep.symm.trans hm')
      -- the rest lists what is still mapped in the zone
      have hrest : ListsZone ((m.setEntry k none).setData l.zone
          ((m.dataMap l.zone).erase l.chunkOffset)) l.zone rest := by
        refine ⟨fun x hx => hl.zone_eq x (List.mem_cons_of_mem _ hx), hnd.2, ?_⟩
        intro c
        rw [h'.mapped_iff]
        simp only [eraseOn_apply_eq_some]
        have hiff := (hl.mapped c).trans h.mapped_iff
        rw [List.map_cons, List.mem_cons] at hiff
        constructor
        · intro hc
          obtain ⟨x, hx⟩ := hiff.mp (Or.inr hc)
          refine ⟨x, hx, fun heq => ?_⟩
          exact hnd.1 ((Prod.mk.inj heq).2 ▸ hc)
        · rintro ⟨x, hx, hne⟩
          rcases hiff.mpr ⟨x, hx⟩ with rfl | hc
          · exact absurd rfl hne
          · exact hc
      show (znCachemapClearChunk m l).bind (clearChunks rest) = _
      rw [hstep]
      show clearChunks rest _ = _
      rw [clearChunks_eq rest h' hrest, h.zoneCleared_clearChunk hk]

end Represents

/-- **CLEARING A ZONE IS CLEARING ITS CHUNKS.**  On every reachable map the
two come to the same map, for every order of iteration and every order of the
locations.  The ids located in the zone lose their entries, every other entry
stands, the zone's table is empty and every other table stands. -/
theorem clear_zone_is_clear_chunks {numZones : Nat} {m : ZnCachemap}
    (hr : (mapSystem numZones).Reach (fun m op => op.Allowed m) m) {zone : Nat}
    (hz : zone < m.numZones) {iter : List (Sigma fun _ : Nat => Nat)}
    (hp : iter.Perm (m.dataMap zone).entries) {locations : List ZnPair}
    (hl : ListsZone m zone locations) :
    ∃ m', znCachemapClearZone m zone iter = .ok m' ∧ clearChunks locations m = .ok m'
      ∧ (∀ k, (∃ l, m.zoneMap k = some (.loc l) ∧ l.zone = zone) → m'.zoneMap k = none)
      ∧ (∀ k, (¬ ∃ l, m.zoneMap k = some (.loc l) ∧ l.zone = zone) → m'.zoneMap k = m.zoneMap k)
      ∧ m'.dataMap zone = ∅ ∧ (∀ z, z ≠ zone → m'.dataMap z = m.dataMap z)
      ∧ m'.conds = m.conds ∧ m'.activeReaders = m.activeReaders := by
  obtain ⟨e, h⟩ := mapRun_represents hr
  refine ⟨zoneCleared m zone, (h.clearZone hz hp).1, h.clearChunks_eq locations hl,
    fun k => zoneCleared_zoneMap_of_located, fun k => zoneCleared_zoneMap_of_not,
    Function.update_self .., fun z hne => Function.update_of_ne hne .., rfl, rfl⟩

/-- The chunks of zone 0, in either order. -/
theorem threeStored_listed : ListsZone threeStored 0 [⟨0, 0, 0, false⟩, ⟨0, 1, 0, false⟩] := by
  refine ⟨by decide, by decide, fun c => ?_⟩
  obtain ⟨e, h⟩ := mapRun_represents threeStored_reach
  have hkeys : (threeStored.dataMap 0).keys = [1, 0] := rfl
  have hmem : Mapped threeStored 0 c ↔ c ∈ (threeStored.dataMap 0).keys := by
    rw [h.mapped_iff, ← AList.mem_keys, ← AList.lookup_isSome, Option.isSome_iff_exists]
    simp only [h.bwd, e.eq_some_iff]
  rw [hmem, hkeys]
  simp [or_comm]

/-- Ids 0 and 7 lose their entries both ways, and id 9 in the other zone stays. -/
theorem clear_zone_is_clear_chunks_three :
    ∃ m' : ZnCachemap, znCachemapClearZone threeStored 0 [⟨0, 0⟩, ⟨1, 7⟩] = .ok m'
      ∧ clearChunks [⟨0, 0, 0, false⟩, ⟨0, 1, 0, false⟩] threeStored = .ok m'
      ∧ m'.zoneMap 0 = none ∧ m'.zoneMap 7 = none
      ∧ m'.zoneMap 9 = some (.loc ⟨1, 0, 0, false⟩) := by
  have hperm : List.Perm [⟨0, 0⟩, ⟨1, 7⟩] (threeStored.dataMap 0).entries := List.Perm.swap ..
  obtain ⟨m', hzone, hchunks, hgone, hstays, -⟩ :=
    clear_zone_is_clear_chunks threeStored_reach (by decide) hperm threeStored_listed
  refine ⟨m', hzone, hchunks, hgone 0 ⟨_, rfl, rfl⟩, hgone 7 ⟨_, rfl, rfl⟩, ?_⟩
  rw [hstays 9]
  · rfl
  · rintro ⟨l, hl, hzero⟩
    obtain rfl : (⟨1, 0, 0, false⟩ : ZnPair) = l := by
      have hnine : threeStored.zoneMap 9 = some (.loc ⟨1, 0, 0, false⟩) := rfl
      exact ZoneMapResult.loc.inj (Option.some.inj (hnine.symm.trans hl))
    cases hzero

end ZnCache
