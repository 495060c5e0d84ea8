/-
  ZnCache.CacheMap.Spec — what each operation of the cache map does.

  For every operation of `cachemap.c`, when it returns and the map it returns,
  as an equation.  Later modules use these and unfold no operation.

  A write that ends (`zn_cachemap_insert`, `zn_cachemap_fail`) broadcasts the
  condition and gives the writer's reference back: `RcCond.signalled`.  A
  sleeper takes a reference and gives it back: `acquired`, `released`.
-/
import ZnCache.CacheMap.Defs

namespace ZnCache

variable {m m' : ZnCachemap}

/-! ## §1. Condition boxes. -/

namespace RcCond

/-- One more reference. -/
def acquired (b : RcCond) : RcCond := { b with rc := b.rc + 1 }

/-- One reference less; the last one clears the condition. -/
def released (b : RcCond) : RcCond :=
  { b with rc := b.rc - 1, cleared := b.cleared + if b.rc = 1 then 1 else 0 }

/-- A broadcast, and the writer's reference given back. -/
def signalled (b : RcCond) : RcCond := { b with broadcasts := b.broadcasts + 1 }.released

end RcCond

theorem rcBoxAcquire_eq {c : Nat} (h : (m.conds c).rc ≠ 0) :
    rcBoxAcquire m c = .ok (m.setCond c (m.conds c).acquired) := if_neg h

theorem rcBoxRelease_eq {c : Nat} (h : (m.conds c).rc ≠ 0) :
    rcBoxRelease m c = .ok (m.setCond c (m.conds c).released) := by
  unfold rcBoxRelease RcCond.released
  split
  · contradiction
  · rename_i h1; simp [h1]
  · rename_i n hn; simp [hn]

theorem rcBoxRelease_ok {c : Nat} (h : rcBoxRelease m c = .ok m') :
    (m.conds c).rc ≠ 0 ∧ m' = m.setCond c (m.conds c).released := by
  have hrc : (m.conds c).rc ≠ 0 := by
    intro h0
    rw [rcBoxRelease, h0] at h
    cases h
  exact ⟨hrc, Except.ok.inj (h.symm.trans (rcBoxRelease_eq hrc))⟩

/-- Broadcast and release, as both ends of a write do them. -/
theorem signal_eq {c : Nat} (h : (m.conds c).rc ≠ 0) :
    (gCondBroadcast m c >>= fun m₁ => rcBoxRelease m₁ c)
      = .ok (m.setCond c (m.conds c).signalled) := by
  rw [gCondBroadcast, if_neg h]
  show rcBoxRelease (m.setCond c _) c = _
  rw [rcBoxRelease_eq (by simpa using h)]
  simp [ZnCachemap.setCond, RcCond.signalled]

theorem signal_error {c : Nat} (h : (m.conds c).rc = 0) :
    (gCondBroadcast m c >>= fun m₁ => rcBoxRelease m₁ c) = .error .badPointer := by
  rw [gCondBroadcast, if_pos h]
  rfl

/-! ## §2. Find. -/

/-- The map after a new entry has been claimed for writing. -/
def claimed (m : ZnCachemap) (id : Nat) : ZnCachemap :=
  ({ m.setCond m.nextCond { rc := 1, broadcasts := 0, cleared := 0 } with
      nextCond := m.nextCond + 1 }).setEntry (gintToPointer id) (some (.cond m.nextCond))

/-- **What one stretch of `zn_cachemap_find` does.** -/
inductive FindCase (m : ZnCachemap) (id : Nat) : FindResult → ZnCachemap → Prop
  | located {l : ZnPair} (h : m.zoneMap (gintToPointer id) = some (.loc l)) :
      FindCase m id (.located l) (m.addReaders l.zone 1)
  | sleep {c : Nat} (h : m.zoneMap (gintToPointer id) = some (.cond c))
      (hrc : (m.conds c).rc ≠ 0) :
      FindCase m id (.sleep c (m.conds c).broadcasts) (m.setCond c (m.conds c).acquired)
  | write (h : m.zoneMap (gintToPointer id) = none) :
      FindCase m id (.write m.nextCond) (claimed m id)

theorem znCachemapFind_cases {id : Nat} {r : FindResult} (h : znCachemapFind m id = .ok (r, m')) :
    FindCase m id r m' := by
  unfold znCachemapFind at h
  split at h
  · rename_i c hc
    by_cases hrc : (m.conds c).rc = 0
    · rw [rcBoxAcquire, if_pos hrc] at h; cases h
    · rw [rcBoxAcquire_eq hrc] at h
      cases h
      exact .sleep hc hrc
  · rename_i l hl
    cases h
    exact .located hl
  · rename_i hn
    cases h
    exact .write hn

/-- A stretch of `zn_cachemap_find` returns unless it would wait on a condition
that has been freed. -/
theorem znCachemapFind_returns (id : Nat)
    (h : ∀ c, m.zoneMap (gintToPointer id) = some (.cond c) → (m.conds c).rc ≠ 0) :
    ∃ r m', znCachemapFind m id = .ok (r, m') := by
  unfold znCachemapFind
  split
  · rename_i c hc
    rw [rcBoxAcquire_eq (h c hc)]
    exact ⟨_, _, rfl⟩
  · exact ⟨_, _, rfl⟩
  · exact ⟨_, _, rfl⟩

theorem znCachemapWake_ok {id c : Nat} {r : FindResult}
    (h : znCachemapWake m id c = .ok (r, m')) :
    (m.conds c).rc ≠ 0 ∧ znCachemapFind (m.setCond c (m.conds c).released) id = .ok (r, m') := by
  obtain ⟨m₁, hr, hfind⟩ := bind_eq_ok h
  obtain ⟨hrc, rfl⟩ := rcBoxRelease_ok hr
  exact ⟨hrc, hfind⟩

theorem znCachemapWake_eq {id c : Nat} (h : (m.conds c).rc ≠ 0) :
    znCachemapWake m id c = znCachemapFind (m.setCond c (m.conds c).released) id := by
  unfold znCachemapWake
  rw [rcBoxRelease_eq h]
  rfl

/-! ## §3. Insert and fail. -/

/-- The entry of `id` is being written. -/
def Pending (m : ZnCachemap) (id : Nat) : Prop := ∃ c, m.zoneMap (gintToPointer id) = some (.cond c)

/-- The map after a write has been published. -/
def published (m : ZnCachemap) (id : Nat) (l : ZnPair) (c : Nat) : ZnCachemap :=
  ((m.setEntry (guintToPointer id) (some (.loc l))).setData l.zone
    ((m.dataMap l.zone).insert (guintToPointer l.chunkOffset) (gintToPointer id))).setCond c
      (m.conds c).signalled

/-- The map after a write has been given up. -/
def withdrawn (m : ZnCachemap) (id c : Nat) : ZnCachemap :=
  (m.setCond c (m.conds c).signalled).setEntry (gintToPointer id) none

theorem znCachemapInsert_eq {id c : Nat} {l : ZnPair}
    (h : m.zoneMap (guintToPointer id) = some (.cond c)) (hz : l.zone < m.numZones)
    (hrc : (m.conds c).rc ≠ 0) : znCachemapInsert m id l = .ok (published m id l c) := by
  unfold znCachemapInsert
  simp only [h, if_pos hz]
  exact signal_eq hrc

theorem znCachemapInsert_ok {id : Nat} {l : ZnPair} (h : znCachemapInsert m id l = .ok m') :
    ∃ c, m.zoneMap (guintToPointer id) = some (.cond c) ∧ l.zone < m.numZones
      ∧ (m.conds c).rc ≠ 0 ∧ m' = published m id l c := by
  cases hm : m.zoneMap (guintToPointer id) with
  | none => simp [znCachemapInsert, hm] at h
  | some r =>
    cases r with
    | loc l' => simp [znCachemapInsert, hm] at h
    | cond c =>
      by_cases hz : l.zone < m.numZones
      · by_cases hrc : (m.conds c).rc = 0
        · rw [znCachemapInsert] at h
          simp only [hm, if_pos hz] at h
          rw [signal_error (by simpa using hrc)] at h
          cases h
        · have heq := znCachemapInsert_eq hm hz hrc
          exact ⟨c, rfl, hz, hrc, Except.ok.inj (h.symm.trans heq)⟩
      · simp [znCachemapInsert, hm, hz] at h

theorem znCachemapFail_eq {id c : Nat} (h : m.zoneMap (gintToPointer id) = some (.cond c))
    (hrc : (m.conds c).rc ≠ 0) : znCachemapFail m id = .ok (withdrawn m id c) := by
  unfold znCachemapFail
  simp only [h]
  have hs := signal_eq hrc
  rw [gCondBroadcast, if_neg hrc] at hs ⊢
  show (rcBoxRelease _ c >>= fun m₂ => _) = _
  rw [show rcBoxRelease _ c = _ from hs]
  rfl

theorem znCachemapFail_ok {id : Nat} (h : znCachemapFail m id = .ok m') :
    ∃ c, m.zoneMap (gintToPointer id) = some (.cond c) ∧ (m.conds c).rc ≠ 0
      ∧ m' = withdrawn m id c := by
  cases hm : m.zoneMap (gintToPointer id) with
  | none => simp [znCachemapFail, hm] at h
  | some r =>
    cases r with
    | loc l => simp [znCachemapFail, hm] at h
    | cond c =>
      by_cases hrc : (m.conds c).rc = 0
      · rw [znCachemapFail] at h
        simp only [hm] at h
        rw [gCondBroadcast, if_pos hrc] at h
        cases h
      · exact ⟨c, rfl, hrc, Except.ok.inj (h.symm.trans (znCachemapFail_eq hm hrc))⟩

/-! ## §4. Clearing. -/

/-- The key `zn_cachemap_clear_chunk` finds at a location. -/
def keyAt (m : ZnCachemap) (l : ZnPair) : Nat :=
  gintToPointer (gpointerToInt
    (((m.dataMap l.zone).lookup (guintToPointer l.chunkOffset)).getD 0))

theorem znCachemapClearChunk_ok {l : ZnPair} (h : znCachemapClearChunk m l = .ok m') :
    ∃ l', m.zoneMap (keyAt m l) = some (.loc l') ∧ l'.zone = l.zone
      ∧ l'.chunkOffset = l.chunkOffset
      ∧ m' = (m.setEntry (keyAt m l) none).setData l.zone
          ((m.dataMap l.zone).erase (guintToPointer l.chunkOffset)) := by
  unfold znCachemapClearChunk at h
  split at h
  · simp only at h
    split at h
    · rename_i l' hl'
      by_cases hz : l'.zone = l.zone
      · by_cases hc : l'.chunkOffset = l.chunkOffset
        · rw [check_of hz, check_of hc] at h
          cases h
          exact ⟨l', hl', hz, hc, rfl⟩
        · rw [check_of hz, check, if_neg hc] at h; cases h
      · rw [check, if_neg hz] at h; cases h
    · cases h
  · cases h

theorem znCachemapClearChunk_eq {l l' : ZnPair} (hz : l.zone < m.numZones)
    (h : m.zoneMap (keyAt m l) = some (.loc l')) (hl : l'.zone = l.zone)
    (hc : l'.chunkOffset = l.chunkOffset) :
    znCachemapClearChunk m l = .ok ((m.setEntry (keyAt m l) none).setData l.zone
      ((m.dataMap l.zone).erase (guintToPointer l.chunkOffset))) := by
  unfold znCachemapClearChunk
  rw [if_pos hz]
  unfold keyAt at h ⊢
  simp only [h]
  rw [check_of hl, check_of hc]
  rfl

/-- The loop of `zn_cachemap_clear_zone` removes entries that are located in
the zone, those of the ids it visits among them, and does nothing else.  Each
id it visits has an entry. -/
theorem clearEntries_ok {zone : Nat} : ∀ (iter : List (Sigma fun _ : Nat => Nat)) (m m' : ZnCachemap),
    clearEntries zone iter m = .ok m' →
      ∃ zm, m' = { m with zoneMap := zm }
        ∧ (∀ k, zm k = m.zoneMap k ∨ zm k = none ∧ ∃ l, m.zoneMap k = some (.loc l) ∧ l.zone = zone)
        ∧ ∀ e ∈ iter, zm (gintToPointer (gpointerToInt e.2)) = none
          ∧ m.zoneMap (gintToPointer (gpointerToInt e.2)) ≠ none
  | [], m, m', h => by
      cases h
      exact ⟨m.zoneMap, rfl, fun _ => Or.inl rfl, by simp⟩
  | e :: rest, m, m', h => by
      rw [clearEntries] at h
      split at h
      · rename_i l hl
        split at h
        · rename_i hz
          obtain ⟨zm, rfl, hzm, hvisited⟩ := clearEntries_ok rest _ m' h
          rw [ZnCachemap.setEntry_zoneMap] at hzm
          -- the key of this entry: gone now, and after the rest of the loop
          have hgone : zm (gintToPointer (gpointerToInt e.2)) = none := by
            have := hzm (gintToPointer (gpointerToInt e.2))
            rw [Function.update_self] at this
            exact this.elim id And.left
          refine ⟨zm, rfl, fun k => ?_, fun x hx => ?_⟩
          · by_cases hk : k = gintToPointer (gpointerToInt e.2)
            · subst hk
              exact Or.inr ⟨hgone, l, hl, hz⟩
            · have := hzm k
              rwa [Function.update_of_ne hk] at this
          · rcases List.mem_cons.mp hx with rfl | hx
            · exact ⟨hgone, by simp [hl]⟩
            · obtain ⟨hnone, hwas⟩ := hvisited x hx
              refine ⟨hnone, fun hnot => hwas ?_⟩
              rw [ZnCachemap.setEntry_zoneMap]
              by_cases hk : gintToPointer (gpointerToInt x.2) = gintToPointer (gpointerToInt e.2)
              · rw [hk, Function.update_self]
              · rw [Function.update_of_ne hk, hnot]
        · cases h
      · cases h

theorem znCachemapClearZone_ok {zone : Nat} {iter : List (Sigma fun _ : Nat => Nat)}
    (h : znCachemapClearZone m zone iter = .ok m') :
    zone < m.numZones ∧ ∃ zm, m' = ({ m with zoneMap := zm } : ZnCachemap).setData zone ∅
      ∧ (∀ k, zm k = m.zoneMap k ∨ zm k = none ∧ ∃ l, m.zoneMap k = some (.loc l) ∧ l.zone = zone)
      ∧ ∀ e ∈ iter, zm (gintToPointer (gpointerToInt e.2)) = none
        ∧ m.zoneMap (gintToPointer (gpointerToInt e.2)) ≠ none := by
  unfold znCachemapClearZone at h
  split at h
  · rename_i hz
    obtain ⟨m₁, hc, heq⟩ := bind_eq_ok h
    obtain ⟨zm, rfl, hzm⟩ := clearEntries_ok iter m m₁ hc
    cases heq
    exact ⟨hz, zm, rfl, hzm⟩
  · cases h

/-- The loop of `zn_cachemap_clear_zone` returns when every entry still to be
visited is located in the zone, each under its own id, and removes just these. -/
theorem clearEntries_eq {zone : Nat} : ∀ (iter : List (Sigma fun _ : Nat => Nat)) (m : ZnCachemap),
    (∀ e ∈ iter, e.2 < 2 ^ 31 ∧ ∃ l, m.zoneMap e.2 = some (.loc l) ∧ l.zone = zone) →
    (iter.map Sigma.snd).Nodup →
    clearEntries zone iter m
      = .ok { m with zoneMap := fun k => if k ∈ iter.map Sigma.snd then none else m.zoneMap k }
  | [], m, _, _ => by simp [clearEntries]
  | e :: rest, m, hall, hnd => by
      obtain ⟨hlt, l, hl, hz⟩ := hall e (List.mem_cons_self ..)
      obtain ⟨hnotin, hnd'⟩ := List.nodup_cons.mp (by rwa [List.map_cons] at hnd)
      have hkey : gintToPointer (gpointerToInt e.2) = e.2 := by
        rw [gpointerToInt_eq hlt, gintToPointer_natCast (by omega)]
      rw [clearEntries]
      simp only [hkey, hl, if_pos hz]
      -- the entries left are under other ids, so they are still there
      rw [clearEntries_eq rest (m.setEntry e.2 none) ?_ hnd']
      · congr 2
        funext k
        by_cases hk : k = e.2
        · subst hk; simp
        · rw [ZnCachemap.setEntry_zoneMap, Function.update_of_ne hk]
          simp only [List.map_cons, List.mem_cons, hk, false_or]
      · intro e' he'
        obtain ⟨hlt', l', hl', hz'⟩ := hall e' (List.mem_cons_of_mem _ he')
        refine ⟨hlt', l', ?_, hz'⟩
        have hne : e'.2 ≠ e.2 := fun heq => hnotin (heq ▸ List.mem_map_of_mem he')
        rw [ZnCachemap.setEntry_zoneMap, Function.update_of_ne hne]
        exact hl'

end ZnCache
