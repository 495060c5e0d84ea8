/-
  ZnCache.CacheMap.Encoding — data ids in pointers, over all of `uint32_t`.

  `zn_cachemap_find` and `zn_cachemap_insert` turn an id into a key as it is.
  The clearing operations read it back through `GPOINTER_TO_INT` into an `int`,
  and turn that into a key.  From `2^31` on the `int` is negative, its pointer
  is sign extended, and no entry has that key (`sign_extended`).

  Main result: `clearing_finds_iff` — clearing finds an id's entry exactly when
  the ids it reads are below `2^31`.
-/
import ZnCache.CacheMap.Bijection

namespace ZnCache

open Lib

/-! ## §1. The round trip. -/

/-- From `2^31` on the key read back is no 32-bit number. -/
theorem sign_extended {k : Nat} (hk : k < 2 ^ 32) (hlarge : 2 ^ 31 ≤ k) :
    2 ^ 32 ≤ gintToPointer (gpointerToInt k) := by
  unfold gintToPointer gpointerToInt
  rw [Nat.mod_eq_of_lt hk, if_neg (by omega)]
  omega

/-- The key read back is the one that was stored exactly below `2^31`. -/
theorem key_read_back {k : Nat} (hk : k < 2 ^ 32) :
    gintToPointer (gpointerToInt k) = k ↔ k < 2 ^ 31 := by
  constructor
  · intro heq
    by_contra hlarge
    have h := sign_extended hk (by omega)
    omega
  · intro hsmall
    rw [gpointerToInt_eq hsmall, ptr_eq hsmall]

/-! ## §2. What find and insert store. -/

/-- A find, or an insert at a location that fits its type, of any id. -/
def MapOp.Stores : MapOp → Prop
  | .find id | .wake id _ => id < 2 ^ 32
  | .insert id l => id < 2 ^ 32 ∧ l.chunkOffset < 2 ^ 32
  | _ => False

/-- **Ids and offsets are stored as they are.** -/
structure StoredPlain (m : ZnCachemap) : Prop where
  key_lt : ∀ k, m.zoneMap k ≠ none → k < 2 ^ 32
  /-- What a zone's table lists is located where it lists it. -/
  listed : ∀ z c k, (m.dataMap z).lookup c = some k →
    ∃ l, m.zoneMap k = some (.loc l) ∧ l.zone = z ∧ l.chunkOffset = c
  located : ∀ k l, m.zoneMap k = some (.loc l) →
    l.zone < m.numZones ∧ l.chunkOffset < 2 ^ 32
      ∧ ∃ k', (m.dataMap l.zone).lookup l.chunkOffset = some k'

namespace StoredPlain

variable {m m' : ZnCachemap}

/-- An entry that is not located may become another such entry. -/
theorem setEntry (h : StoredPlain m) {k : Nat} {r : Option ZoneMapResult} (hk : k < 2 ^ 32)
    (hold : ∀ l, m.zoneMap k ≠ some (.loc l)) (hr : ∀ l, r ≠ some (.loc l)) :
    StoredPlain (m.setEntry k r) := by
  have hloc : ∀ x l, (m.setEntry k r).zoneMap x = some (.loc l) ↔ m.zoneMap x = some (.loc l) := by
    intro x l
    rw [ZnCachemap.setEntry_zoneMap]
    by_cases hx : x = k
    · subst hx
      rw [Function.update_self]
      exact iff_of_false (hr l) (hold l)
    · rw [Function.update_of_ne hx]
  constructor
  · intro x hx
    by_cases hxk : x = k
    · exact hxk ▸ hk
    · rw [ZnCachemap.setEntry_zoneMap, Function.update_of_ne hxk] at hx
      exact h.key_lt x hx
  · intro z c x hx
    obtain ⟨l, hl, hz⟩ := h.listed z c x hx
    exact ⟨l, (hloc x l).mpr hl, hz⟩
  · intro x l hl
    exact h.located x l ((hloc x l).mp hl)

/-- Conditions and readers are stored elsewhere. -/
theorem congr (h : StoredPlain m) (hz : m'.zoneMap = m.zoneMap) (hd : m'.dataMap = m.dataMap)
    (hn : m'.numZones = m.numZones) : StoredPlain m' := by
  constructor
  · rw [hz]
    exact h.key_lt
  · rw [hz, hd]
    exact h.listed
  · rw [hz, hd, hn]
    exact h.located

theorem find (h : StoredPlain m) {id : Nat} {r : FindResult} (hid : id < 2 ^ 32)
    (hc : FindCase m id r m') : StoredPlain m' := by
  have hkey : gintToPointer (id : Int) = id := gintToPointer_natCast (by omega)
  cases hc with
  | located => exact h.congr rfl rfl rfl
  | sleep => exact h.congr rfl rfl rfl
  | write hnone =>
    have hset := h.setEntry (r := some (.cond m.nextCond)) (k := gintToPointer (id : Int))
      (by rw [hkey]; exact hid) (fun l hl => by rw [hnone] at hl; cases hl) (fun l hl => by cases hl)
    exact hset.congr rfl rfl rfl

/-- **Insert** locates an id, whatever its cell held before. -/
theorem insert (h : StoredPlain m) {id : Nat} {l : ZnPair} (hid : id < 2 ^ 32)
    (hc32 : l.chunkOffset < 2 ^ 32) (hi : znCachemapInsert m id l = .ok m') : StoredPlain m' := by
  obtain ⟨c, hcond, hz, -, rfl⟩ := znCachemapInsert_ok hi
  have hku : guintToPointer id = id := guintToPointer_eq (by omega)
  have hkc : guintToPointer l.chunkOffset = l.chunkOffset := guintToPointer_eq (by omega)
  have hki : gintToPointer (id : Int) = id := gintToPointer_natCast (by omega)
  rw [hku] at hcond
  unfold published
  rw [hku, hkc, hki]
  -- an id that is located already is not the one inserted
  have hother : ∀ {k l'}, m.zoneMap k = some (.loc l') → k ≠ id := by
    intro k l' hk heq
    rw [heq, hcond] at hk
    cases hk
  constructor
  · intro k hk
    by_cases hkid : k = id
    · exact hkid ▸ hid
    · apply h.key_lt k
      simpa [hkid] using hk
  · intro z x k hk
    by_cases hcell : z = l.zone ∧ x = l.chunkOffset
    · obtain ⟨rfl, rfl⟩ := hcell
      have hk' : id = k := by simpa using hk
      exact ⟨l, by simp [← hk'], rfl, rfl⟩
    · -- another cell still holds what it held
      have hold : (m.dataMap z).lookup x = some k := by
        by_cases hzl : z = l.zone
        · subst hzl
          have hx : x ≠ l.chunkOffset := fun hx => hcell ⟨rfl, hx⟩
          simpa [AList.lookup_insert_ne hx] using hk
        · simpa [hzl] using hk
      obtain ⟨l', hl', hz', hx'⟩ := h.listed z x k hold
      exact ⟨l', by simp [hother hl', hl'], hz', hx'⟩
  · intro k l' hk
    by_cases hkid : k = id
    · have hl' : l = l' := by simpa [hkid] using hk
      subst hl'
      exact ⟨hz, hc32, id, by simp⟩
    · have hk' : m.zoneMap k = some (.loc l') := by simpa [hkid] using hk
      obtain ⟨hz', hc', k', hcell⟩ := h.located k l' hk'
      apply And.intro hz'
      apply And.intro hc'
      by_cases hzl : l'.zone = l.zone
      · by_cases hx : l'.chunkOffset = l.chunkOffset
        · rw [hzl, hx]
          exact ⟨id, by simp⟩
        · exact ⟨k', by simpa [hzl, AList.lookup_insert_ne hx] using hcell⟩
      · exact ⟨k', by simpa [hzl] using hcell⟩

/-- **Step lemma.** -/
theorem step (h : StoredPlain m) {op : MapOp} (hop : op.Stores) (hs : mapOp m op = .ok m') :
    StoredPlain m' := by
  cases op with
  | find id =>
    obtain ⟨r, hr⟩ := find_of_map hs
    exact h.find hop (znCachemapFind_cases hr)
  | wake id c =>
    obtain ⟨r, hr⟩ := find_of_map hs
    have hreleased : StoredPlain (m.setCond c (m.conds c).released) := h.congr rfl rfl rfl
    exact hreleased.find hop (znCachemapFind_cases (znCachemapWake_ok hr).2)
  | insert id l => exact h.insert hop.1 hop.2 hs
  | clearChunk l => cases hop
  | clearZone zone iter => cases hop
  | fail id => cases hop

/-- **Run lemma.** -/
theorem reach {numZones : Nat} (hr : (mapSystem numZones).Reach (fun _ op => op.Stores) m) :
    StoredPlain m := by
  apply TransSys.Reach.invariant (I := StoredPlain) _ _ hr
  · intro m hm
    obtain rfl : m = znCachemapInit numZones := hm
    constructor
    · intro k hk
      exact absurd rfl hk
    · intro z c k hk
      cases hk
    · intro k l hk
      cases hk
  · intro m op m' _ h hop hs
    exact h.step hop hs

end StoredPlain

/-! ## §3. What clearing finds. -/

/-- `zn_cachemap_clear_chunk` on the location of `id` finds its key, passes its
assertions and removes the entry. -/
def ChunkClears (m : ZnCachemap) (id : Nat) (l : ZnPair) : Prop :=
  keyAt m l = guintToPointer id
    ∧ ∃ m', znCachemapClearChunk m l = .ok m' ∧ m'.zoneMap (gintToPointer id) = none

/-- `zn_cachemap_clear_zone` passes its assertions, in whatever order it visits
the table, and removes the entry of `id`. -/
def ZoneClears (m : ZnCachemap) (id zone : Nat) : Prop :=
  ∀ iter, iter.Perm (m.dataMap zone).entries →
    ∃ m', znCachemapClearZone m zone iter = .ok m' ∧ m'.zoneMap (gintToPointer id) = none

/-- The loop of `zn_cachemap_clear_zone` leaves the entries of ids it does not
visit. -/
theorem clearEntries_kept {zone k : Nat} : ∀ (iter : List (Sigma fun _ : Nat => Nat))
    (m m' : ZnCachemap), clearEntries zone iter m = .ok m' →
      (∀ e ∈ iter, gintToPointer (gpointerToInt e.2) ≠ k) → m'.zoneMap k = m.zoneMap k
  | [], m, m', h, _ => by
      cases h
      rfl
  | e :: rest, m, m', h, hnot => by
      rw [clearEntries] at h
      split at h
      · split at h
        · have hrest := clearEntries_kept rest _ m' h fun x hx => hnot x (List.mem_cons_of_mem e hx)
          rw [hrest, ZnCachemap.setEntry_zoneMap,
            Function.update_of_ne (hnot e (List.mem_cons_self ..)).symm]
        · cases h
      · cases h

namespace StoredPlain

variable {m : ZnCachemap} {id : Nat} {l : ZnPair}

theorem chunkClears_iff (h : StoredPlain m) (hid : id < 2 ^ 32)
    (hl : m.zoneMap (gintToPointer id) = some (.loc l)) :
    ChunkClears m id l
      ↔ id < 2 ^ 31 ∧ (m.dataMap l.zone).lookup (guintToPointer l.chunkOffset) = some id := by
  have hki : gintToPointer (id : Int) = id := gintToPointer_natCast (by omega)
  have hku : guintToPointer id = id := guintToPointer_eq (by omega)
  rw [hki] at hl
  obtain ⟨hz, hc, k, hcell⟩ := h.located id l hl
  have hkc : guintToPointer l.chunkOffset = l.chunkOffset := guintToPointer_eq (by omega)
  obtain ⟨l', hl', -, -⟩ := h.listed _ _ k hcell
  have hk32 : k < 2 ^ 32 := h.key_lt k (by simp [hl'])
  have hkey : keyAt m l = gintToPointer (gpointerToInt k) := by
    unfold keyAt
    rw [hkc, hcell, Option.getD_some]
  unfold ChunkClears
  rw [hkey, hku, hki, hkc, hcell, Option.some.injEq]
  constructor
  · intro hclears
    -- the key found is `id`, so the id in the cell is below `2^31`, and is `id`
    have hsmall : k < 2 ^ 31 := by
      by_contra hlarge
      have hbig := sign_extended hk32 (by omega)
      omega
    have hk := (key_read_back hk32).mpr hsmall
    omega
  · intro hsmall
    obtain ⟨hsmall, rfl⟩ := hsmall
    have hback := (key_read_back hk32).mpr hsmall
    have hfound : m.zoneMap (keyAt m l) = some (.loc l) := by
      rw [hkey, hback]
      exact hl
    refine ⟨hback, _, znCachemapClearChunk_eq hz hfound rfl rfl, ?_⟩
    rw [hkey, hback]
    simp

theorem zoneClears_iff (h : StoredPlain m) (hid : id < 2 ^ 32)
    (hl : m.zoneMap (gintToPointer id) = some (.loc l)) :
    ZoneClears m id l.zone
      ↔ (m.dataMap l.zone).lookup (guintToPointer l.chunkOffset) = some id
        ∧ ∀ c k, (m.dataMap l.zone).lookup c = some k → k < 2 ^ 31 := by
  have hki : gintToPointer (id : Int) = id := gintToPointer_natCast (by omega)
  rw [hki] at hl
  obtain ⟨hz, hc, -⟩ := h.located id l hl
  have hkc : guintToPointer l.chunkOffset = l.chunkOffset := guintToPointer_eq (by omega)
  have hentry : ∀ e ∈ (m.dataMap l.zone).entries,
      ∃ l', m.zoneMap e.2 = some (.loc l') ∧ l'.zone = l.zone ∧ l'.chunkOffset = e.1 :=
    fun e he => h.listed _ _ _ (AList.mem_lookup_iff.mpr he)
  unfold ZoneClears
  rw [hki, hkc]
  constructor
  · intro hclears
    obtain ⟨m', hok, hgone⟩ := hclears _ (List.Perm.refl _)
    obtain ⟨-, zm, rfl, -, hvisited⟩ := znCachemapClearZone_ok hok
    -- each id visited has an entry, so its key did not change
    have hsmall : ∀ e ∈ (m.dataMap l.zone).entries, e.2 < 2 ^ 31 := by
      intro e he
      obtain ⟨l', hl', -⟩ := hentry e he
      by_contra hlarge
      have hbig := sign_extended (h.key_lt e.2 (by simp [hl'])) (by omega)
      have hkey := h.key_lt _ (hvisited e he).2
      omega
    -- `id` was visited, for its entry is gone
    have hvisits : ∃ e ∈ (m.dataMap l.zone).entries, gintToPointer (gpointerToInt e.2) = id := by
      by_contra hnot
      have hnot' : ∀ e ∈ (m.dataMap l.zone).entries, gintToPointer (gpointerToInt e.2) ≠ id :=
        fun e he heq => hnot ⟨e, he, heq⟩
      rw [znCachemapClearZone, if_pos hz] at hok
      obtain ⟨m₁, hloop, heq⟩ := bind_eq_ok hok
      have hkept := clearEntries_kept _ m m₁ hloop hnot'
      have hm := Except.ok.inj heq
      have hzone : m₁.zoneMap id = none := by
        rw [← hgone, ← hm]
        rfl
      rw [hkept, hl] at hzone
      cases hzone
    obtain ⟨e, he, heq⟩ := hvisits
    have heid : e.2 = id := by
      have he31 := hsmall e he
      rwa [(key_read_back (by omega)).mpr he31] at heq
    obtain ⟨l', hl', -, hc'⟩ := hentry e he
    rw [heid, hl] at hl'
    cases hl'
    constructor
    · rw [hc', ← heid]
      exact AList.mem_lookup_iff.mpr he
    · intro c k hk
      exact hsmall ⟨c, k⟩ (AList.mem_lookup_iff.mp hk)
  · intro hcells iter hp
    obtain ⟨hcell, hsmall⟩ := hcells
    have hall : ∀ e ∈ iter, e.2 < 2 ^ 31
        ∧ ∃ l', m.zoneMap e.2 = some (.loc l') ∧ l'.zone = l.zone := by
      intro e he
      have he' := hp.mem_iff.mp he
      obtain ⟨l', hl', hz', -⟩ := hentry e he'
      exact ⟨hsmall e.1 e.2 (AList.mem_lookup_iff.mpr he'), l', hl', hz'⟩
    -- no id is listed twice: it is located at one chunk only
    have hnd : (iter.map Sigma.snd).Nodup := by
      apply List.Nodup.map_on
      · intro x hx y hy hxy
        obtain ⟨lx, hlx, -, hcx⟩ := hentry x (hp.mem_iff.mp hx)
        obtain ⟨ly, hly, -, hcy⟩ := hentry y (hp.mem_iff.mp hy)
        rw [hxy, hly] at hlx
        cases hlx
        exact Sigma.ext (hcx.symm.trans hcy) (heq_of_eq hxy)
      · exact hp.nodup_iff.mpr (List.NodupKeys.nodup (m.dataMap l.zone).nodupKeys)
    have hin : id ∈ iter.map Sigma.snd :=
      List.mem_map.mpr ⟨⟨_, id⟩, hp.mem_iff.mpr (AList.mem_lookup_iff.mp hcell), rfl⟩
    rw [znCachemapClearZone, if_pos hz, clearEntries_eq iter m hall hnd]
    refine ⟨_, rfl, ?_⟩
    show (if id ∈ iter.map Sigma.snd then none else m.zoneMap id) = none
    rw [if_pos hin]

end StoredPlain

/-- **THE ENCODING THEOREM.**  In every state that finds and inserts of 32-bit
ids reach, clearing the location of an id works exactly when its cell still
names it and the ids read are below `2^31`: this one for
`zn_cachemap_clear_chunk`, those of the zone for `zn_cachemap_clear_zone`. -/
theorem clearing_finds_iff (numZones : Nat) (m : ZnCachemap)
    (hr : (mapSystem numZones).Reach (fun _ op => op.Stores) m) (id : Nat) (l : ZnPair)
    (hid : id < 2 ^ 32) (hl : m.zoneMap (gintToPointer id) = some (.loc l)) :
    (ChunkClears m id l
      ↔ id < 2 ^ 31 ∧ (m.dataMap l.zone).lookup (guintToPointer l.chunkOffset) = some id)
    ∧ (ZoneClears m id l.zone
      ↔ (m.dataMap l.zone).lookup (guintToPointer l.chunkOffset) = some id
        ∧ ∀ c k, (m.dataMap l.zone).lookup c = some k → k < 2 ^ 31) :=
  ⟨(StoredPlain.reach hr).chunkClears_iff hid hl, (StoredPlain.reach hr).zoneClears_iff hid hl⟩

/-- The map after `id` has been found and inserted at chunk 0 of zone 0. -/
def storedAt (id : Nat) : ZnCachemap :=
  published (claimed (znCachemapInit 1) id) id ⟨0, 0, 0, false⟩ 0

theorem storedAt_reach {id : Nat} (hid : id < 2 ^ 32) :
    (mapSystem 1).Reach (fun _ op => op.Stores) (storedAt id)
      ∧ (storedAt id).zoneMap (gintToPointer id) = some (.loc ⟨0, 0, 0, false⟩)
      ∧ ∀ c k, ((storedAt id).dataMap 0).lookup c = some k ↔ c = 0 ∧ k = id := by
  have hku : guintToPointer id = id := guintToPointer_eq (by omega)
  have hki : gintToPointer (id : Int) = id := gintToPointer_natCast (by omega)
  have h0 : (mapSystem 1).Reach (fun _ op => op.Stores) (znCachemapInit 1) := .start rfl
  have h1 : (mapSystem 1).Reach (fun _ op => op.Stores) (claimed (znCachemapInit 1) id) :=
    .next (l := .find id) h0 hid rfl
  have hinsert : znCachemapInsert (claimed (znCachemapInit 1) id) id ⟨0, 0, 0, false⟩
      = .ok (storedAt id) := by
    apply znCachemapInsert_eq
    · simp [claimed, hku, hki, znCachemapInit]
    · show 0 < 1
      decide
    · simp [claimed, znCachemapInit]
  have hall : (MapOp.insert id ⟨0, 0, 0, false⟩).Stores := ⟨hid, Nat.two_pow_pos 32⟩
  have h2 : (mapSystem 1).Reach (fun _ op => op.Stores) (storedAt id) := .next h1 hall hinsert
  refine ⟨h2, ?_, ?_⟩
  · simp [storedAt, published, hku, hki]
  · intro c k
    have hdata : (storedAt id).dataMap 0 = (∅ : AList fun _ : Nat => Nat).insert 0 id := by
      unfold storedAt published
      rw [hki]
      rfl
    rw [hdata]
    by_cases hc : c = 0
    · subst hc
      rw [AList.lookup_insert]
      simp [eq_comm]
    · rw [AList.lookup_insert_ne hc]
      simp [hc]

/-- The largest `int` is stored and cleared. -/
theorem clearing_finds_iff_largest :
    ChunkClears (storedAt (2 ^ 31 - 1)) (2 ^ 31 - 1) ⟨0, 0, 0, false⟩
      ∧ ZoneClears (storedAt (2 ^ 31 - 1)) (2 ^ 31 - 1) 0 := by
  obtain ⟨hr, hl, hcells⟩ := @storedAt_reach (2 ^ 31 - 1) (by decide)
  have hiff := clearing_finds_iff 1 _ hr (2 ^ 31 - 1) ⟨0, 0, 0, false⟩ (by decide) hl
  have hcell := (hcells 0 _).mpr ⟨rfl, rfl⟩
  constructor
  · exact hiff.1.mpr ⟨by decide, hcell⟩
  · apply hiff.2.mpr
    apply And.intro hcell
    intro c k hk
    rw [((hcells c k).mp hk).2]
    decide

/-- **Id `2^31` is stored and not found again**, by either operation. -/
theorem upper_half_lost :
    ∃ m, (mapSystem 1).Reach (fun _ op => op.Stores) m
      ∧ m.zoneMap (gintToPointer (2 ^ 31 : Nat)) = some (.loc ⟨0, 0, 0, false⟩)
      ∧ znCachemapClearChunk m ⟨0, 0, 0, false⟩ = .error .assertion
      ∧ znCachemapClearZone m 0 (m.dataMap 0).entries = .error .assertion := by
  obtain ⟨hr, hl, -⟩ := @storedAt_reach (2 ^ 31) (by decide)
  exact ⟨_, hr, hl, by rfl, by rfl⟩

end ZnCache
