/-
  ZnCache.CacheMap.Bijection — the two maps of the cache map are inverse.

  `zone_map` restricted to located entries and the family `data_map` are the
  two directions of ONE partial bijection between ids and (zone, chunk) pairs:
  `Represents m e`.  Every operation is an operation on that bijection, so a
  lookup by location finds the id whose entry has that location, and the
  assertions of the two clearing operations hold.

  Main results:
    * `Represents.insert`, `.clearChunk`, `.clearZone`, … — one per operation;
    * `cachemap_bijection` — the statement over every reachable state.
-/
import ZnCache.CacheMap.Spec
import ZnCache.Lib.PartialBijection
import ZnCache.Lib.Transition

namespace ZnCache

open Lib Lib.PartialBijection

/-- The location `zone_map` has under a key, if the entry is `RESULT_LOC`. -/
def locOf (m : ZnCachemap) (k : Nat) : Option (Nat × Nat) :=
  match m.zoneMap k with
  | some (.loc l) => some (l.zone, l.chunkOffset)
  | _ => none

/-- **`m` stores the partial bijection `e`**, in both directions. -/
structure Represents (m : ZnCachemap) (e : PEquiv Nat (Nat × Nat)) : Prop where
  fwd : ∀ k, locOf m k = e k
  bwd : ∀ z c, (m.dataMap z).lookup c = e.symm (z, c)
  /-- Ids fit a signed `int`, zones the array, and offsets a `uint32_t`. -/
  bounds : ∀ k z c, e k = some (z, c) → k < 2 ^ 31 ∧ z < m.numZones ∧ c < 2 ^ 32

/-- The map with no location in `zone`. -/
def zoneCleared (m : ZnCachemap) (zone : Nat) : ZnCachemap :=
  ({ m with zoneMap := fun k => if (locOf m k).any (fun l => l.1 = zone) then none else m.zoneMap k }
    : ZnCachemap).setData zone ∅

theorem locOf_eq_some {m : ZnCachemap} {k : Nat} {p : Nat × Nat} :
    locOf m k = some p ↔ ∃ l, m.zoneMap k = some (.loc l) ∧ (l.zone, l.chunkOffset) = p := by
  unfold locOf
  split
  · rename_i l hl
    simp [hl]
  · rename_i hno
    simp only [reduceCtorEq, false_iff, not_exists, not_and]
    intro l hl
    exact absurd hl (hno l)

/-- `locOf` reads one entry. -/
theorem locOf_congr {m m' : ZnCachemap} {k k' : Nat} (h : m'.zoneMap k' = m.zoneMap k) :
    locOf m' k' = locOf m k := by
  unfold locOf
  rw [h]

theorem locOf_eq_none {m : ZnCachemap} {k : Nat} (h : ∀ l, m.zoneMap k ≠ some (.loc l)) :
    locOf m k = none := by
  rw [Option.eq_none_iff_forall_ne_some]
  intro p hp
  obtain ⟨l, hl, -⟩ := locOf_eq_some.mp hp
  exact h l hl

theorem ptr_eq {id : Nat} (hid : id < 2 ^ 31) : gintToPointer (id : Int) = id :=
  gintToPointer_natCast (by omega)

/-- An entry that is not located may become any other such entry. -/
theorem locOf_setEntry {m : ZnCachemap} {k : Nat} {r : Option ZoneMapResult}
    (hk : ∀ l, m.zoneMap k ≠ some (.loc l)) (hr : ∀ l, r ≠ some (.loc l)) (x : Nat) :
    locOf (m.setEntry k r) x = locOf m x := by
  by_cases hx : x = k
  · subst hx
    rw [locOf_eq_none hk]
    exact locOf_eq_none (by simpa using hr)
  · exact locOf_congr (by simp [hx])

/-- No stretch of a find moves a location. -/
theorem locOf_find {m : ZnCachemap} {id : Nat} {r : FindResult} {m' : ZnCachemap} (hc : FindCase m id r m')
    (k : Nat) : locOf m' k = locOf m k := by
  cases hc with
  | located => rfl
  | sleep => rfl
  | write hnone =>
    exact (locOf_setEntry (fun l => by simp [hnone]) (fun l => by simp) k).trans rfl

/-- Giving a write up moves no location. -/
theorem locOf_withdrawn {m : ZnCachemap} {id c : Nat} (hc : m.zoneMap (gintToPointer id) = some (.cond c))
    (k : Nat) : locOf (withdrawn m id c) k = locOf m k :=
  (locOf_setEntry (fun l => by simp [hc]) (fun l => by simp) k).trans rfl

/-- A publication gives its id a location. -/
theorem locOf_published {m : ZnCachemap} {id c : Nat} {l : ZnPair} (hid : id < 2 ^ 64) :
    locOf (published m id l c) = Function.update (locOf m) id (some (l.zone, l.chunkOffset)) := by
  have hku : guintToPointer id = id := guintToPointer_eq hid
  funext k
  by_cases hk : k = id
  · rw [hk, Function.update_self]
    exact locOf_eq_some.mpr ⟨l, by simp [published, hku], rfl⟩
  · rw [Function.update_of_ne hk]
    exact locOf_congr (by simp [published, hku, hk])

/-- A publication gives its chunk an id. -/
theorem lookup_published {m : ZnCachemap} {id c : Nat} {l : ZnPair} (hid : id < 2 ^ 64)
    (hl : l.chunkOffset < 2 ^ 64) (z x : Nat) :
    ((published m id l c).dataMap z).lookup x
      = if z = l.zone ∧ x = l.chunkOffset then some id else (m.dataMap z).lookup x := by
  have hkc : guintToPointer l.chunkOffset = l.chunkOffset := guintToPointer_eq hl
  have hki : gintToPointer (id : Int) = id := gintToPointer_natCast hid
  simp only [published, hkc, hki, ZnCachemap.setCond_dataMap, ZnCachemap.setData_dataMap,
    ZnCachemap.setEntry_dataMap]
  by_cases hz : z = l.zone
  · subst hz
    rw [Function.update_self]
    by_cases hx : x = l.chunkOffset
    · subst hx
      simp
    · rw [AList.lookup_insert_ne hx, if_neg (by simp [hx])]
  · rw [Function.update_of_ne hz, if_neg (by simp [hz])]

namespace Represents

variable {m : ZnCachemap} {e : PEquiv Nat (Nat × Nat)}

/-- An entry that is located is a pair of the bijection. -/
theorem of_loc (h : Represents m e) {k : Nat} {l : ZnPair} (hl : m.zoneMap k = some (.loc l)) :
    e k = some (l.zone, l.chunkOffset) := by
  rw [← h.fwd, locOf_eq_some]
  exact ⟨l, hl, rfl⟩

/-- An entry that is not located is no pair of the bijection. -/
theorem of_not_loc (h : Represents m e) {k : Nat} (hk : ∀ l, m.zoneMap k ≠ some (.loc l)) :
    e k = none := by
  rw [← h.fwd]
  exact locOf_eq_none hk

theorem to_loc (h : Represents m e) {k z c : Nat} (hk : e k = some (z, c)) :
    ∃ l, m.zoneMap k = some (.loc l) ∧ l.zone = z ∧ l.chunkOffset = c := by
  rw [← h.fwd] at hk
  obtain ⟨l, hl, hp⟩ := locOf_eq_some.mp hk
  exact ⟨l, hl, (Prod.mk.inj hp).1, (Prod.mk.inj hp).2⟩

/-! ## §1. Operations that move no location. -/

/-- The bijection is untouched by an operation that leaves the locations and the
zones' tables alone. -/
theorem congr {m' : ZnCachemap} (h : Represents m e) (hloc : ∀ k, locOf m' k = locOf m k)
    (hd : m'.dataMap = m.dataMap) (hn : m'.numZones = m.numZones) : Represents m' e where
  fwd k := (hloc k).trans (h.fwd k)
  bwd z c := by rw [hd]; exact h.bwd z c
  bounds k z c := by rw [hn]; exact h.bounds k z c

theorem find (h : Represents m e) {id : Nat} {r : FindResult} {m' : ZnCachemap}
    (hc : FindCase m id r m') : Represents m' e := by
  refine h.congr (locOf_find hc) ?_ ?_
  · cases hc <;> rfl
  · cases hc <;> rfl

/-! ## §2. A new location. -/

/-- **Insert** adds one pair. -/
theorem insert (h : Represents m e) {id c : Nat} {l : ZnPair} (hid : id < 2 ^ 31)
    (hz : l.zone < m.numZones) (hc32 : l.chunkOffset < 2 ^ 32)
    (hid_none : e id = none) (hl_none : e.symm (l.zone, l.chunkOffset) = none) :
    Represents (published m id l c) (insertPair e id (l.zone, l.chunkOffset) hid_none hl_none) := by
  refine ⟨fun k => ?_, fun z x => ?_, fun k z x hk => ?_⟩
  · rw [insertPair_apply, locOf_published (by omega)]
    by_cases hkid : k = id
    · rw [hkid, Function.update_self, Function.update_self]
    · rw [Function.update_of_ne hkid, Function.update_of_ne hkid, h.fwd]
  · rw [insertPair_symm_apply, lookup_published (by omega) (by omega)]
    by_cases hzx : z = l.zone ∧ x = l.chunkOffset
    · obtain ⟨rfl, rfl⟩ := hzx
      rw [if_pos ⟨rfl, rfl⟩, Function.update_self]
    · have hne : (z, x) ≠ (l.zone, l.chunkOffset) := fun heq => hzx (Prod.mk.inj heq)
      rw [if_neg hzx, Function.update_of_ne hne, h.bwd]
  · rw [insertPair_apply] at hk
    by_cases hkid : k = id
    · subst hkid
      rw [Function.update_self] at hk
      obtain ⟨rfl, rfl⟩ := Prod.mk.inj (Option.some.inj hk)
      exact ⟨hid, hz, hc32⟩
    · rw [Function.update_of_ne hkid] at hk
      exact h.bounds k z x hk

/-! ## §3. Clearing. -/

/-- The lookup of `zn_cachemap_clear_chunk` finds the id of the location. -/
theorem keyAt_eq (h : Represents m e) {k : Nat} {l : ZnPair}
    (hk : e k = some (l.zone, l.chunkOffset)) : keyAt m l = k := by
  obtain ⟨hlt, -, hc⟩ := h.bounds k _ _ hk
  unfold keyAt
  rw [guintToPointer_eq (by omega), h.bwd, e.eq_some_iff.mpr hk, Option.getD_some,
    gpointerToInt_eq hlt, ptr_eq hlt]

/-- **Clear chunk** returns on a mapped location and drops its pair. -/
theorem clearChunk (h : Represents m e) {k : Nat} {l : ZnPair}
    (hk : e k = some (l.zone, l.chunkOffset)) :
    ∃ m', znCachemapClearChunk m l = .ok m'
      ∧ Represents m' (eraseOn e fun p => p = (l.zone, l.chunkOffset)) := by
  obtain ⟨l', hl', hz, hc⟩ := h.to_loc hk
  obtain ⟨-, hzlt, hc32⟩ := h.bounds k _ _ hk
  have hkey := h.keyAt_eq hk
  refine ⟨_, znCachemapClearChunk_eq hzlt (by rw [hkey]; exact hl') hz hc, ?_⟩
  rw [hkey, guintToPointer_eq (by omega)]
  refine ⟨fun x => ?_, fun z x => ?_, fun x z c' hx => ?_⟩
  · by_cases hxk : x = k
    · subst hxk
      have hdrop := eraseOn_apply_of_pos e (fun p => p = (l.zone, l.chunkOffset)) hk rfl
      rw [hdrop]
      exact locOf_eq_none (by simp)
    · have hloc : locOf ((m.setEntry k none).setData l.zone
          ((m.dataMap l.zone).erase l.chunkOffset)) x = locOf m x := locOf_congr (by simp [hxk])
      rw [hloc, h.fwd]
      cases hex : e x with
      | none => exact (eraseOn_apply_of_none e _ hex).symm
      | some p =>
        have hne : p ≠ (l.zone, l.chunkOffset) := fun heq => hxk (left_unique e (heq ▸ hex) hk)
        exact (eraseOn_apply_of_neg e _ hex hne).symm
  · rw [eraseOn_symm_apply]
    by_cases hzl : z = l.zone
    · subst hzl
      by_cases hx : x = l.chunkOffset
      · subst hx; simp
      · rw [if_neg (by simp [hx]), ← h.bwd]
        simp [AList.lookup_erase_ne hx]
    · rw [if_neg (by simp [hzl]), ← h.bwd]
      simp [hzl]
  · exact h.bounds x z c' ((eraseOn_apply_eq_some e _ x _).mp hx).1

/-- The ids stored in `data_map[zone]` are those located in the zone. -/
theorem mem_values (h : Represents m e) {zone k : Nat} :
    k ∈ (m.dataMap zone).entries.map Sigma.snd ↔ (locOf m k).any (fun l => l.1 = zone) = true := by
  have hlookup : ∀ c, (⟨c, k⟩ : Sigma fun _ : Nat => Nat) ∈ (m.dataMap zone).entries
      ↔ e k = some (zone, c) := by
    intro c
    rw [← AList.mem_lookup_iff, Option.mem_def, h.bwd, e.eq_some_iff]
  rw [h.fwd, List.mem_map]
  constructor
  · intro hmem
    obtain ⟨⟨c, k'⟩, hin, rfl⟩ := hmem
    rw [(hlookup c).mp hin]
    simp
  · intro hany
    obtain ⟨⟨z, c⟩, hek, hz⟩ := (Option.any_eq_true _ _).mp hany
    obtain rfl : z = zone := by simpa using hz
    exact ⟨⟨c, k⟩, (hlookup c).mpr hek, rfl⟩

/-- **Clear zone** returns, in whatever order it iterates, and drops the pairs
of the zone. -/
theorem clearZone (h : Represents m e) {zone : Nat} (hz : zone < m.numZones)
    {iter : List (Sigma fun _ : Nat => Nat)} (hp : iter.Perm (m.dataMap zone).entries) :
    znCachemapClearZone m zone iter = .ok (zoneCleared m zone)
      ∧ Represents (zoneCleared m zone) (eraseOn e fun p => p.1 = zone) := by
  have hentry : ∀ x ∈ iter, e x.2 = some (zone, x.1) := by
    intro x hx
    rw [← e.eq_some_iff, ← h.bwd]
    exact AList.mem_lookup_iff.mpr (hp.mem_iff.mp hx)
  have hall : ∀ x ∈ iter, x.2 < 2 ^ 31 ∧ ∃ l, m.zoneMap x.2 = some (.loc l) ∧ l.zone = zone := by
    intro x hx
    obtain ⟨l, hl, hlz, -⟩ := h.to_loc (hentry x hx)
    exact ⟨(h.bounds _ _ _ (hentry x hx)).1, l, hl, hlz⟩
  have hnd : (iter.map Sigma.snd).Nodup := by
    have hnd' : iter.Nodup := hp.nodup_iff.mpr (List.NodupKeys.nodup (m.dataMap zone).nodupKeys)
    refine List.Nodup.map_on (fun x hx y hy hxy => ?_) hnd'
    have heq := (hentry x hx).symm.trans (hxy ▸ hentry y hy)
    exact Sigma.ext (Prod.mk.inj (Option.some.inj heq)).2 (heq_of_eq hxy)
  refine ⟨?_, ?_⟩
  · rw [znCachemapClearZone, if_pos hz, clearEntries_eq iter m hall hnd]
    show Except.ok _ = _
    unfold zoneCleared
    congr 3
    funext k
    have hiff : k ∈ iter.map Sigma.snd ↔ (locOf m k).any (fun l => l.1 = zone) = true := by
      rw [(hp.map Sigma.snd).mem_iff]
      exact h.mem_values
    simp only [hiff]
  · refine ⟨fun k => ?_, fun z c => ?_, fun k z c hk => ?_⟩
    · cases hek : e k with
      | none =>
        have hloc : locOf m k = none := (h.fwd k).trans hek
        rw [eraseOn_apply_of_none e _ hek, ← hloc]
        exact locOf_congr (by simp [zoneCleared, hloc])
      | some p =>
        have hloc : locOf m k = some p := (h.fwd k).trans hek
        by_cases hpz : p.1 = zone
        · rw [eraseOn_apply_of_pos e _ hek hpz]
          exact locOf_eq_none (by simp [zoneCleared, hloc, hpz])
        · rw [eraseOn_apply_of_neg e _ hek hpz, ← hloc]
          exact locOf_congr (by simp [zoneCleared, hloc, hpz])
    · rw [eraseOn_symm_apply, ← h.bwd]
      by_cases hzz : z = zone
      · subst hzz; simp [zoneCleared]
      · simp [zoneCleared, hzz]
    · exact h.bounds k z c ((eraseOn_apply_eq_some e _ k _).mp hk).1

end Represents

/-! ## §4. Runs of the cache map. -/

/-- One call, or one stretch of a find. -/
inductive MapOp where
  | find (id : Nat)
  | wake (id cond : Nat)
  | insert (id : Nat) (location : ZnPair)
  | clearChunk (location : ZnPair)
  | clearZone (zone : Nat) (iter : List (Sigma fun _ : Nat => Nat))
  | fail (id : Nat)

/-- Some entry has this zone and chunk. -/
def Mapped (m : ZnCachemap) (zone chunk : Nat) : Prop :=
  ∃ k l, m.zoneMap k = some (.loc l) ∧ l.zone = zone ∧ l.chunkOffset = chunk

/-- The callers' side: ids below `2^31`; a pending id is inserted at a location
of the device that is not mapped, or fails; a mapped chunk is cleared. -/
def MapOp.Allowed (m : ZnCachemap) : MapOp → Prop
  | .find id => id < 2 ^ 31
  | .wake id _ => id < 2 ^ 31
  | .insert id l => id < 2 ^ 31 ∧ Pending m id ∧ l.zone < m.numZones ∧ l.chunkOffset < 2 ^ 32
      ∧ ¬ Mapped m l.zone l.chunkOffset
  | .clearChunk l => Mapped m l.zone l.chunkOffset
  | .clearZone zone iter => zone < m.numZones ∧ iter.Perm (m.dataMap zone).entries
  | .fail id => id < 2 ^ 31 ∧ Pending m id

/-- One call. -/
def mapOp (m : ZnCachemap) : MapOp → Except Fault ZnCachemap
  | .find id => (znCachemapFind m id).map Prod.snd
  | .wake id c => (znCachemapWake m id c).map Prod.snd
  | .insert id l => znCachemapInsert m id l
  | .clearChunk l => znCachemapClearChunk m l
  | .clearZone zone iter => znCachemapClearZone m zone iter
  | .fail id => znCachemapFail m id

/-- The runs from `zn_cachemap_init`. -/
def mapSystem (numZones : Nat) : TransSys ZnCachemap MapOp where
  init m := m = znCachemapInit numZones
  step m op m' := mapOp m op = .ok m'

theorem find_of_map {m' : ZnCachemap} {x : Except Fault (FindResult × ZnCachemap)}
    (h : x.map Prod.snd = .ok m') : ∃ r, x = .ok (r, m') := by
  cases x with
  | error f => cases h
  | ok p =>
    cases h
    exact ⟨p.1, rfl⟩

/-- **Step lemma.** -/
theorem mapOp_represents {m m' : ZnCachemap} {e : PEquiv Nat (Nat × Nat)} {op : MapOp}
    (h : Represents m e) (hop : op.Allowed m) (hs : mapOp m op = .ok m') :
    ∃ e', Represents m' e' := by
  cases op with
  | find id =>
    obtain ⟨r, hr⟩ := find_of_map hs
    exact ⟨e, h.find (znCachemapFind_cases hr)⟩
  | wake id c =>
    obtain ⟨r, hr⟩ := find_of_map hs
    obtain ⟨-, hf⟩ := znCachemapWake_ok hr
    have h' : Represents (m.setCond c (m.conds c).released) e := h.congr (fun _ => rfl) rfl rfl
    exact ⟨e, h'.find (znCachemapFind_cases hf)⟩
  | insert id l =>
    obtain ⟨hid, ⟨c', hc'⟩, hz, hc32, hnot⟩ := hop
    obtain ⟨c, -, -, -, rfl⟩ := znCachemapInsert_ok hs
    rw [ptr_eq hid] at hc'
    have hnone : e id = none := h.of_not_loc (fun l' => by simp [hc'])
    have hlnone : e.symm (l.zone, l.chunkOffset) = none := by
      rw [Option.eq_none_iff_forall_ne_some]
      intro k hk
      obtain ⟨l', hl', hz', hc'⟩ := h.to_loc (e.eq_some_iff.mp hk)
      exact hnot ⟨k, l', hl', hz', hc'⟩
    exact ⟨_, h.insert hid hz hc32 hnone hlnone⟩
  | clearChunk l =>
    obtain ⟨k, l', hl', hz, hc⟩ := hop
    have hk := h.of_loc hl'
    rw [hz, hc] at hk
    obtain ⟨m'', heq, h'⟩ := h.clearChunk hk
    obtain rfl : m'' = m' := Except.ok.inj (heq.symm.trans hs)
    exact ⟨_, h'⟩
  | clearZone zone iter =>
    obtain ⟨heq, h'⟩ := h.clearZone hop.1 hop.2
    obtain rfl : zoneCleared m zone = m' := Except.ok.inj (heq.symm.trans hs)
    exact ⟨_, h'⟩
  | fail id =>
    obtain ⟨c, hc, -, rfl⟩ := znCachemapFail_ok hs
    exact ⟨e, h.congr (locOf_withdrawn hc) rfl rfl⟩

theorem znCachemapInit_represents (numZones : Nat) :
    Represents (znCachemapInit numZones) ⊥ where
  fwd _ := rfl
  bwd _ _ := rfl
  bounds _ _ _ h := by cases h

/-- **Run lemma.** -/
theorem mapRun_represents {numZones : Nat} {m : ZnCachemap}
    (hr : (mapSystem numZones).Reach (fun m op => op.Allowed m) m) : ∃ e, Represents m e := by
  refine TransSys.Reach.invariant (I := fun m => ∃ e, Represents m e) ?_ ?_ hr
  · intro m hm
    obtain rfl : m = znCachemapInit numZones := hm
    exact ⟨⊥, znCachemapInit_represents numZones⟩
  · intro m op m' _ hinv hop hs
    obtain ⟨e, h⟩ := hinv
    exact mapOp_represents h hop hs

/-- **THE BIJECTION THEOREM.**  In every reachable state an id is located at a
chunk exactly when the zone's table has it there; distinct ids have distinct
locations; an id that is being written is in no table; and both clearing calls
return. -/
theorem cachemap_bijection (numZones : Nat) (m : ZnCachemap)
    (hr : (mapSystem numZones).Reach (fun m op => op.Allowed m) m) :
    (∀ id z c : Nat, id < 2 ^ 31 → c < 2 ^ 32 →
      ((∃ l, m.zoneMap (gintToPointer id) = some (.loc l) ∧ l.zone = z ∧ l.chunkOffset = c)
        ↔ (m.dataMap z).lookup (guintToPointer c) = some (gintToPointer id)))
    ∧ (∀ (id id' : Nat) (l l' : ZnPair), id < 2 ^ 31 → id' < 2 ^ 31 →
        m.zoneMap (gintToPointer id) = some (.loc l) →
        m.zoneMap (gintToPointer id') = some (.loc l') →
        l.zone = l'.zone → l.chunkOffset = l'.chunkOffset → id = id')
    ∧ (∀ id z c : Nat, id < 2 ^ 31 → Pending m id → (m.dataMap z).lookup c ≠ some (gintToPointer id))
    ∧ (∀ l : ZnPair, Mapped m l.zone l.chunkOffset → ∃ m', znCachemapClearChunk m l = .ok m')
    ∧ (∀ zone iter, zone < m.numZones → iter.Perm (m.dataMap zone).entries →
        ∃ m', znCachemapClearZone m zone iter = .ok m') := by
  obtain ⟨e, h⟩ := mapRun_represents hr
  refine ⟨?_, ?_, ?_, ?_, ?_⟩
  · intro id z c hid hc
    rw [guintToPointer_eq (by omega), h.bwd, e.eq_some_iff, ptr_eq hid]
    constructor
    · intro hl
      obtain ⟨l, hl, rfl, rfl⟩ := hl
      exact h.of_loc hl
    · exact h.to_loc
  · intro id id' l l' hid hid' hl hl' hz hc
    rw [ptr_eq hid] at hl
    rw [ptr_eq hid'] at hl'
    have hk' := h.of_loc hl'
    rw [← hz, ← hc] at hk'
    exact left_unique e (h.of_loc hl) hk'
  · intro id z c hid hp hlookup
    obtain ⟨cond, hcond⟩ := hp
    rw [h.bwd, e.eq_some_iff] at hlookup
    obtain ⟨l, hl, -⟩ := h.to_loc hlookup
    rw [hcond] at hl
    cases hl
  · intro l hl
    obtain ⟨k, l', hl', hz, hc⟩ := hl
    have hk := h.of_loc hl'
    rw [hz, hc] at hk
    obtain ⟨m', heq, -⟩ := h.clearChunk hk
    exact ⟨m', heq⟩
  · intro zone iter hz hp
    exact ⟨_, (h.clearZone hz hp).1⟩

/-- The map after `id` was not found, and was then inserted at `l`. -/
def stored (m : ZnCachemap) (id : Nat) (l : ZnPair) : ZnCachemap :=
  published (claimed m id) id l m.nextCond

/-- A new id can be stored at a location with no id. -/
theorem mapRun_stored {numZones : Nat} {m : ZnCachemap}
    (hr : (mapSystem numZones).Reach (fun m op => op.Allowed m) m) (id : Nat) (l : ZnPair)
    (hid : id < 2 ^ 31) (hnew : m.zoneMap id = none) (hz : l.zone < m.numZones)
    (hc : l.chunkOffset < 2 ^ 32) (hfree : (m.dataMap l.zone).lookup l.chunkOffset = none) :
    (mapSystem numZones).Reach (fun m op => op.Allowed m) (stored m id l) := by
  have hki : gintToPointer (id : Int) = id := ptr_eq hid
  have hku : guintToPointer id = id := guintToPointer_eq (by omega)
  have hfind : (mapSystem numZones).step m (.find id) (claimed m id) := by
    show (znCachemapFind m id).map Prod.snd = .ok (claimed m id)
    unfold znCachemapFind
    rw [hki, hnew]
    unfold claimed
    rw [hki]
    rfl
  have h1 : (mapSystem numZones).Reach (fun m op => op.Allowed m) (claimed m id) :=
    .next (l := .find id) hr hid hfind
  have hpending : (claimed m id).zoneMap id = some (.cond m.nextCond) := by
    unfold claimed
    rw [hki]
    exact Function.update_self ..
  have hinsert : znCachemapInsert (claimed m id) id l = .ok (stored m id l) := by
    apply znCachemapInsert_eq
    · rw [hku]
      exact hpending
    · exact hz
    · show (Function.update m.conds m.nextCond _ m.nextCond).rc ≠ 0
      rw [Function.update_self]
      decide
  have hfree' : ¬ Mapped (claimed m id) l.zone l.chunkOffset := by
    obtain ⟨e, h⟩ := mapRun_represents h1
    rintro ⟨k, l', hl', hz', hc'⟩
    have hk := h.of_loc hl'
    rw [hz', hc', ← e.eq_some_iff, ← h.bwd] at hk
    exact Option.some_ne_none k (hk.symm.trans hfree)
  have hall : (MapOp.insert id l).Allowed (claimed m id) := by
    refine ⟨hid, ⟨m.nextCond, ?_⟩, hz, hc, hfree'⟩
    rw [hki]
    exact hpending
  exact .next h1 hall hinsert

/-- Ids 0 and 7 are in zone 0, and id 9 is in zone 1. -/
def threeStored : ZnCachemap :=
  stored (stored (stored (znCachemapInit 2) 0 ⟨0, 0, 0, false⟩) 7 ⟨0, 1, 0, false⟩) 9
    ⟨1, 0, 0, false⟩

theorem threeStored_reach : (mapSystem 2).Reach (fun m op => op.Allowed m) threeStored := by
  have h0 : (mapSystem 2).Reach (fun m op => op.Allowed m) (znCachemapInit 2) := .start rfl
  have h1 := mapRun_stored h0 0 ⟨0, 0, 0, false⟩ (by decide) rfl (by decide) (by decide) rfl
  have h2 := mapRun_stored h1 7 ⟨0, 1, 0, false⟩ (by decide) rfl (by decide) (by decide) rfl
  exact mapRun_stored h2 9 ⟨1, 0, 0, false⟩ (by decide) rfl (by decide) (by decide) rfl

/-- Three ids on two zones.  For id 0 at chunk 0 of zone 0 all three pointers are
NULL, and the reverse lookup still finds it. -/
theorem cachemap_bijection_three :
    (∃ l, threeStored.zoneMap 0 = some (.loc l) ∧ l.zone = 0 ∧ l.chunkOffset = 0)
      ∧ (∃ l, threeStored.zoneMap 7 = some (.loc l) ∧ l.zone = 0 ∧ l.chunkOffset = 1)
      ∧ (threeStored.dataMap 1).lookup 0 = some 9
      ∧ ∃ m', znCachemapClearZone threeStored 0 [⟨0, 0⟩, ⟨1, 7⟩] = .ok m' := by
  have hb := cachemap_bijection 2 threeStored threeStored_reach
  exact ⟨(hb.1 0 0 0 (by decide) (by decide)).mpr rfl, (hb.1 7 0 1 (by decide) (by decide)).mpr rfl,
    (hb.1 9 1 0 (by decide) (by decide)).mp ⟨_, rfl, rfl, rfl⟩,
    hb.2.2.2.2 0 [⟨0, 0⟩, ⟨1, 7⟩] (by decide) (List.Perm.swap ..)⟩

end ZnCache
