/-
  ZnCache.CacheMap.Cells — the entries of `zone_map` as the heap cells they are.

  `zn_cachemap_find` takes the pointer to an entry under the mutex, counts the
  reader, and copies the entry after it has given the mutex up.  The reader
  count keeps the zone from being reset; it does not keep `zn_cachemap_clear_zone`
  or `zn_cachemap_clear_chunk` from freeing the entry, and a later find may get
  the cell for another id (`copy_of_reused`).

  `CellMap` is the cache map with its pointers, `hitSystem` any number of finds
  over it, among insertions and clears of anybody.  Main result:
  `hit_pinned_iff` — copies are right as long as no clear frees a cell that is
  still to be copied, and no longer.
-/
import ZnCache.CacheMap.Spec
import ZnCache.Lib.CellTable
import ZnCache.Lib.Transition

namespace ZnCache

open Lib

universe u

/-! ## §1. The map with its pointers. -/

/-- The cache map, and what its `zone_map` really holds. -/
structure CellMap where
  map : ZnCachemap
  table : CellTable ZoneMapResult

namespace CellMap

/-- The pointers lead to the entries. -/
def Consistent (m : CellMap) : Prop := ∀ k, m.map.zoneMap k = m.table.view k

def init (numZones : Nat) : CellMap := ⟨znCachemapInit numZones, CellTable.empty⟩

/-- A find that has to write puts a new entry, at `p`, under its id. -/
def found (m : CellMap) (id p : Nat) (r : FindResult × ZnCachemap) : FindResult × CellMap :=
  match r with
  | (.write c, m') => (.write c, ⟨m', m.table.alloc (gintToPointer id) p (.cond c)⟩)
  | (r, m') => (r, ⟨m', m.table⟩)

/-- The locked part of `zn_cachemap_find`; `p` is what `g_new0` returns, if it
is called. -/
def find (m : CellMap) (id p : Nat) : Except Fault (FindResult × CellMap) :=
  (znCachemapFind m.map id).map (m.found id p)

/-- The same after the wait. -/
def wake (m : CellMap) (id c p : Nat) : Except Fault (FindResult × CellMap) :=
  (znCachemapWake m.map id c).map (m.found id p)

/-- `zn_cachemap_insert` overwrites the entry where it is. -/
def insert (m : CellMap) (id : Nat) (l : ZnPair) : Except Fault CellMap :=
  (znCachemapInsert m.map id l).map fun m' => ⟨m', m.table.store (guintToPointer id) (.loc l)⟩

/-- `zn_cachemap_fail` frees the entry. -/
def fail (m : CellMap) (id : Nat) : Except Fault CellMap :=
  (znCachemapFail m.map id).map fun m' => ⟨m', m.table.freeAll [gintToPointer id]⟩

/-- `zn_cachemap_clear_chunk` frees the entry of the chunk. -/
def clearChunk (m : CellMap) (l : ZnPair) : Except Fault CellMap :=
  (znCachemapClearChunk m.map l).map fun m' => ⟨m', m.table.freeAll [keyAt m.map l]⟩

/-- The keys `zn_cachemap_clear_zone` visits. -/
def keysOf (iter : List (Sigma fun _ : Nat => Nat)) : List Nat :=
  iter.map fun e => gintToPointer (gpointerToInt e.2)

/-- `zn_cachemap_clear_zone` frees the entries of the zone. -/
def clearZone (m : CellMap) (zone : Nat) (iter : List (Sigma fun _ : Nat => Nat)) :
    Except Fault CellMap :=
  (znCachemapClearZone m.map zone iter).map fun m' => ⟨m', m.table.freeAll (keysOf iter)⟩

end CellMap

/-! ## §2. Finds in two steps. -/

/-- Where a thread is in `zn_cachemap_find`, and in `zn_cache_get` until it has
given its reader back.  `seen` is the location it was counted for. -/
inductive HitPc where
  | idle
  | waiting (id cond : Nat)
  /-- Has given the mutex up, and holds the pointer `p`. -/
  | copying (p : Nat) (seen : ZnPair)
  /-- Has copied what was there; `none` if nothing was. -/
  | returned (result : Option ZoneMapResult) (seen : ZnPair)
  deriving DecidableEq

/-- Where a find leaves its thread. -/
def CellMap.hitPc (m : CellMap) (id : Nat) : FindResult → HitPc
  | .located l =>
    match m.table.ptr (gintToPointer id) with
    | some p => .copying p l
    | none => .idle
  | .sleep c _ => .waiting id c
  | .write _ => .idle

structure HitSys (Tid : Type u) where
  m : CellMap
  pool : Tid → HitPc

/-- One locked step, one copy, or one decrement of `active_readers`. -/
inductive HitOp (Tid : Type u) where
  | find (t : Tid) (id p : Nat)
  | wake (t : Tid) (p : Nat)
  | copy (t : Tid)
  | leave (t : Tid)
  | insert (id : Nat) (l : ZnPair)
  | fail (id : Nat)
  | clearChunk (l : ZnPair)
  | clearZone (zone : Nat) (iter : List (Sigma fun _ : Nat => Nat))

variable {Tid : Type u} [DecidableEq Tid]

/-- A find that went so far, by thread `t`. -/
def HitSys.found (s : HitSys Tid) (t : Tid) (id : Nat) (r : FindResult × CellMap) : HitSys Tid :=
  ⟨r.2, Function.update s.pool t (s.m.hitPc id r.1)⟩

/-- **One step**, if it can be taken and returns. -/
def hitStep (s : HitSys Tid) : HitOp Tid → Option (HitSys Tid)
  | .find t id p =>
    match s.pool t with
    | .idle =>
      if s.m.table.cell p = none then ((s.m.find id p).map (s.found t id)).toOption else none
    | _ => none
  | .wake t p =>
    match s.pool t with
    | .waiting id c =>
      if s.m.table.cell p = none then ((s.m.wake id c p).map (s.found t id)).toOption else none
    | _ => none
  | .copy t =>
    match s.pool t with
    | .copying p l => some { s with pool := Function.update s.pool t (.returned (s.m.table.cell p) l) }
    | _ => none
  | .leave t =>
    match s.pool t with
    | .returned (some (.loc l)) _ =>
      some ⟨{ s.m with map := s.m.map.addReaders l.zone (-1) }, Function.update s.pool t .idle⟩
    | _ => none
  | .insert id l => ((s.m.insert id l).map fun m => { s with m := m }).toOption
  | .fail id => ((s.m.fail id).map fun m => { s with m := m }).toOption
  | .clearChunk l => ((s.m.clearChunk l).map fun m => { s with m := m }).toOption
  | .clearZone zone iter =>
    if iter.Perm (s.m.map.dataMap zone).entries then
      ((s.m.clearZone zone iter).map fun m => { s with m := m }).toOption
    else none

/-- The runs from `zn_cachemap_init`. -/
def hitSystem (Tid : Type u) [DecidableEq Tid] (numZones : Nat) :
    TransSys (HitSys Tid) (HitOp Tid) where
  init s := s = ⟨CellMap.init numZones, fun _ => .idle⟩
  step s op s' := hitStep s op = some s'

/-- The keys whose entries a step frees, if it clears. -/
def HitOp.clears (s : HitSys Tid) : HitOp Tid → List Nat
  | .clearChunk l => [keyAt s.m.map l]
  | .clearZone _ iter => CellMap.keysOf iter
  | _ => []

/-- No clear frees a cell that a thread is still to copy. -/
def HitOp.SparesReaders (s : HitSys Tid) (op : HitOp Tid) : Prop :=
  ∀ t p l, s.pool t = .copying p l → ∀ k ∈ op.clears s, s.m.table.ptr k ≠ some p

/-- **What is to be copied is there**: the entry each thread was shown under the
mutex. -/
def HitSys.Pinned (s : HitSys Tid) : Prop :=
  ∀ t p l, s.pool t = .copying p l → s.m.table.cell p = some (.loc l)

/-! ## §3. Pointers and entries agree. -/

/-- What the loop of `zn_cachemap_clear_zone` leaves of `zone_map`. -/
theorem clearEntries_zoneMap {zone : Nat} :
    ∀ (iter : List (Sigma fun _ : Nat => Nat)) (m m' : ZnCachemap),
      clearEntries zone iter m = .ok m' →
        m'.zoneMap = fun k => if k ∈ CellMap.keysOf iter then none else m.zoneMap k
  | [], m, m', h => by
      cases h
      simp [CellMap.keysOf]
  | e :: rest, m, m', h => by
      rw [clearEntries] at h
      split at h
      · split at h
        · rw [clearEntries_zoneMap rest _ m' h]
          funext k
          show (if k ∈ CellMap.keysOf rest then none else Function.update m.zoneMap _ none k)
            = if k ∈ gintToPointer (gpointerToInt e.2) :: CellMap.keysOf rest then none else _
          by_cases hk : k = gintToPointer (gpointerToInt e.2)
          · simp [hk]
          · simp [hk]
        · cases h
      · cases h

namespace CellMap

variable {m m' : CellMap}

/-- What a find that returned did to the map and to the cells. -/
theorem found_consistent {m₀ : ZnCachemap} {id p : Nat} {r : FindResult} {m₁ : ZnCachemap}
    (h : m.Consistent) (hzone : m₀.zoneMap = m.map.zoneMap) (hp : m.table.cell p = none)
    (hc : FindCase m₀ id r m₁) : (m.found id p (r, m₁)).2.Consistent := by
  intro k
  cases hc with
  | located =>
    show m₀.zoneMap k = _
    rw [hzone]
    exact h k
  | sleep =>
    show m₀.zoneMap k = _
    rw [hzone]
    exact h k
  | write =>
    show Function.update m₀.zoneMap (gintToPointer id) _ k = (m.table.alloc _ p _).view k
    rw [CellTable.view_alloc hp, hzone]
    by_cases hk : k = gintToPointer id
    · rw [hk, Function.update_self, Function.update_self]
    · rw [Function.update_of_ne hk, Function.update_of_ne hk]
      exact h k

/-- A find leaves the cells that are in use. -/
theorem found_cell {id p q : Nat} {r : FindResult × ZnCachemap} {e : ZoneMapResult}
    (hq : m.table.cell q = some e) : (m.found id p r).2.table.cell q = some e := by
  obtain ⟨r, m₁⟩ := r
  cases r with
  | write c => exact CellTable.cell_alloc hq
  | located | sleep => exact hq

/-- A find that was shown a location has the pointer to it. -/
theorem hitPc_copying {m₀ : ZnCachemap} {id q : Nat} {r : FindResult} {m₁ : ZnCachemap} {l : ZnPair}
    (h : m.Consistent) (hzone : m₀.zoneMap = m.map.zoneMap) (hc : FindCase m₀ id r m₁)
    (hpc : m.hitPc id r = .copying q l) : m.table.cell q = some (.loc l) := by
  cases hc with
  | @located l' hl =>
    obtain ⟨p, hp, hcell⟩ := CellTable.ptr_of_view ((h _).symm.trans (hzone ▸ hl))
    simp only [hitPc, hp] at hpc
    cases hpc
    exact hcell
  | sleep | write => cases hpc

/-- `zn_cachemap_insert` overwrites an entry that is not located. -/
theorem insert_spec {id : Nat} {l : ZnPair} (h : m.Consistent) (hm : m.insert id l = .ok m') :
    m'.Consistent ∧ ∀ q l', m.table.cell q = some (.loc l') → m'.table.cell q = some (.loc l') := by
  unfold insert at hm
  obtain ⟨m₁, hins, rfl⟩ := map_eq_ok hm
  obtain ⟨c, hc, -, -, rfl⟩ := znCachemapInsert_ok hins
  have hview : m.table.view (guintToPointer id) = some (.cond c) := (h _).symm.trans hc
  constructor
  · intro k
    show Function.update m.map.zoneMap (guintToPointer id) _ k = (m.table.store _ _).view k
    rw [CellTable.view_store (by rw [hview]; simp)]
    by_cases hk : k = guintToPointer id
    · rw [hk, Function.update_self, Function.update_self]
    · rw [Function.update_of_ne hk, Function.update_of_ne hk]
      exact h k
  · intro q l' hq
    show (m.table.store _ _).cell q = _
    rw [CellTable.cell_store, hq]
    intro hptr
    rw [CellTable.view_of_ptr hptr, hq] at hview
    cases hview

/-- `zn_cachemap_fail` frees an entry that is not located. -/
theorem fail_spec {id : Nat} (h : m.Consistent) (hm : m.fail id = .ok m') :
    m'.Consistent ∧ ∀ q l', m.table.cell q = some (.loc l') → m'.table.cell q = some (.loc l') := by
  unfold fail at hm
  obtain ⟨m₁, hfail, rfl⟩ := map_eq_ok hm
  obtain ⟨c, hc, -, rfl⟩ := znCachemapFail_ok hfail
  have hview : m.table.view (gintToPointer id) = some (.cond c) := (h _).symm.trans hc
  constructor
  · intro k
    show Function.update m.map.zoneMap (gintToPointer id) none k = (m.table.free _).view k
    rw [CellTable.view_free]
    by_cases hk : k = gintToPointer id
    · rw [hk, Function.update_self, Function.update_self]
    · rw [Function.update_of_ne hk, Function.update_of_ne hk]
      exact h k
  · intro q l' hq
    show (m.table.freeAll [gintToPointer id]).cell q = _
    rw [CellTable.cell_freeAll_of_ne, hq]
    intro k hk hptr
    rw [List.mem_singleton.mp hk] at hptr
    rw [CellTable.view_of_ptr hptr, hq] at hview
    cases hview

/-- `zn_cachemap_clear_chunk` frees the entry it finds. -/
theorem clearChunk_spec {l : ZnPair} (h : m.Consistent) (hm : m.clearChunk l = .ok m') :
    m'.Consistent ∧ m'.table = m.table.freeAll [keyAt m.map l] := by
  unfold clearChunk at hm
  obtain ⟨m₁, hclear, rfl⟩ := map_eq_ok hm
  obtain ⟨l', -, -, -, rfl⟩ := znCachemapClearChunk_ok hclear
  apply And.intro _ rfl
  intro k
  show Function.update m.map.zoneMap (keyAt m.map l) none k = (m.table.free _).view k
  rw [CellTable.view_free]
  by_cases hk : k = keyAt m.map l
  · rw [hk, Function.update_self, Function.update_self]
  · rw [Function.update_of_ne hk, Function.update_of_ne hk]
    exact h k

/-- `zn_cachemap_clear_zone` frees the entries it visits. -/
theorem clearZone_spec {zone : Nat} {iter : List (Sigma fun _ : Nat => Nat)} (h : m.Consistent)
    (hm : m.clearZone zone iter = .ok m') :
    m'.Consistent ∧ m'.table = m.table.freeAll (keysOf iter) := by
  unfold clearZone at hm
  obtain ⟨m₁, hclear, rfl⟩ := map_eq_ok hm
  apply And.intro _ rfl
  intro k
  unfold znCachemapClearZone at hclear
  split at hclear
  · obtain ⟨m₂, hc, heq⟩ := bind_eq_ok hclear
    cases heq
    show m₂.zoneMap k = _
    rw [clearEntries_zoneMap iter m.map m₂ hc, CellTable.view_freeAll]
    dsimp only
    rw [h k]
  · cases hclear

end CellMap

/-! ## §4. Every run. -/

/-- What holds in every run whose clears spare the readers. -/
structure HitInv (s : HitSys Tid) : Prop where
  consistent : s.m.Consistent
  pinned : s.Pinned
  returned : ∀ t r l, s.pool t = .returned r l → r = some (.loc l)

namespace HitInv

variable {s s' : HitSys Tid}

/-- A thread has moved, and the cells of the others are still there. -/
theorem goto (h : HitInv s) {t : Tid} {m : CellMap} {pc : HitPc} (hm : m.Consistent)
    (hcell : ∀ q l, s.m.table.cell q = some (.loc l) → m.table.cell q = some (.loc l))
    (hcopying : ∀ p l, pc = .copying p l → m.table.cell p = some (.loc l))
    (hreturned : ∀ r l, pc = .returned r l → r = some (.loc l)) :
    HitInv ⟨m, Function.update s.pool t pc⟩ where
  consistent := hm
  pinned u p l hu := by
    by_cases hut : u = t
    · subst hut
      exact hcopying p l ((Function.update_self ..).symm.trans hu)
    · exact hcell p l (h.pinned u p l ((Function.update_of_ne hut ..).symm.trans hu))
  returned u r l hu := by
    by_cases hut : u = t
    · subst hut
      exact hreturned r l ((Function.update_self ..).symm.trans hu)
    · exact h.returned u r l ((Function.update_of_ne hut ..).symm.trans hu)

omit [DecidableEq Tid] in
/-- Nobody has moved, and the cells are still there. -/
theorem stay (h : HitInv s) {m : CellMap} (hm : m.Consistent)
    (hcell : ∀ t p l, s.pool t = .copying p l → m.table.cell p = s.m.table.cell p) :
    HitInv ⟨m, s.pool⟩ where
  consistent := hm
  pinned t p l ht := (hcell t p l ht).trans (h.pinned t p l ht)
  returned := h.returned

/-- A find, or what is left of one. -/
theorem found (h : HitInv s) {t : Tid} {id p : Nat} {m₀ : ZnCachemap} {r : FindResult}
    {m₁ : ZnCachemap} (hzone : m₀.zoneMap = s.m.map.zoneMap) (hp : s.m.table.cell p = none)
    (hc : FindCase m₀ id r m₁) : HitInv (s.found t id (s.m.found id p (r, m₁))) := by
  have hr : (s.m.found id p (r, m₁)).1 = r := by
    cases r <;> rfl
  unfold HitSys.found
  rw [hr]
  apply h.goto (CellMap.found_consistent h.consistent hzone hp hc)
  · exact fun q l hq => CellMap.found_cell hq
  · intro q l hpc
    exact CellMap.found_cell (CellMap.hitPc_copying h.consistent hzone hc hpc)
  · intro r' l hpc
    cases r with
    | located =>
      simp only [CellMap.hitPc] at hpc
      split at hpc <;> cases hpc
    | sleep | write => cases hpc

/-- **Step lemma.** -/
theorem step (h : HitInv s) {op : HitOp Tid} (hop : op.SparesReaders s)
    (hs : hitStep s op = some s') : HitInv s' := by
  cases op with
  | find t id p =>
    simp only [hitStep] at hs
    split at hs
    · split at hs
      · rename_i hp
        obtain ⟨x, hx, rfl⟩ := toOption_map_some hs
        obtain ⟨⟨r, m₁⟩, hfind, rfl⟩ := map_eq_ok hx
        exact h.found rfl hp (znCachemapFind_cases hfind)
      · cases hs
    · cases hs
  | wake t p =>
    simp only [hitStep] at hs
    split at hs
    · split at hs
      · rename_i c _ hp
        obtain ⟨x, hx, rfl⟩ := toOption_map_some hs
        obtain ⟨⟨r, m₁⟩, hwake, rfl⟩ := map_eq_ok hx
        -- giving the reference back changes no entry
        have hzone : (s.m.map.setCond c (s.m.map.conds c).released).zoneMap = s.m.map.zoneMap := rfl
        exact h.found hzone hp (znCachemapFind_cases (znCachemapWake_ok hwake).2)
      · cases hs
    · cases hs
  | copy t =>
    simp only [hitStep] at hs
    split at hs
    · rename_i p l ht
      cases hs
      apply h.goto h.consistent
      · exact fun _ _ hq => hq
      · exact fun _ _ hpc => by cases hpc
      · intro r l' hpc
        cases hpc
        exact h.pinned t p l ht
    · cases hs
  | leave t =>
    simp only [hitStep] at hs
    split at hs
    · cases hs
      apply h.goto
      · exact h.consistent
      · exact fun _ _ hq => hq
      · exact fun _ _ hpc => by cases hpc
      · exact fun _ _ hpc => by cases hpc
    · cases hs
  -- a writer stores into a cell with a condition variable, and the readers are
  -- at cells with a location
  | insert id l =>
    obtain ⟨m, hm, rfl⟩ := toOption_map_some hs
    obtain ⟨hcons, hcell⟩ := CellMap.insert_spec h.consistent hm
    apply h.stay hcons
    intro t p l' ht
    rw [h.pinned t p l' ht]
    exact hcell p l' (h.pinned t p l' ht)
  | fail id =>
    obtain ⟨m, hm, rfl⟩ := toOption_map_some hs
    obtain ⟨hcons, hcell⟩ := CellMap.fail_spec h.consistent hm
    apply h.stay hcons
    intro t p l' ht
    rw [h.pinned t p l' ht]
    exact hcell p l' (h.pinned t p l' ht)
  -- an evictor frees cells, but by assumption none that a reader is at
  | clearChunk l =>
    obtain ⟨m, hm, rfl⟩ := toOption_map_some hs
    obtain ⟨hcons, htable⟩ := CellMap.clearChunk_spec h.consistent hm
    apply h.stay hcons
    intro t p l' ht
    rw [htable]
    exact CellTable.cell_freeAll_of_ne _ _ (hop t p l' ht)
  | clearZone zone iter =>
    simp only [hitStep] at hs
    split at hs
    · obtain ⟨m, hm, rfl⟩ := toOption_map_some hs
      obtain ⟨hcons, htable⟩ := CellMap.clearZone_spec h.consistent hm
      apply h.stay hcons
      intro t p l' ht
      rw [htable]
      exact CellTable.cell_freeAll_of_ne _ _ (hop t p l' ht)
    · cases hs

/-- **Run lemma.** -/
theorem reach {numZones : Nat}
    (hr : (hitSystem Tid numZones).Reach (fun s op => op.SparesReaders s) s) : HitInv s := by
  apply TransSys.Reach.invariant (I := HitInv) _ _ hr
  · intro s hs
    obtain rfl : s = ⟨CellMap.init numZones, fun _ => .idle⟩ := hs
    constructor
    · exact fun _ => rfl
    · exact fun _ _ _ ht => by cases ht
    · exact fun _ _ _ ht => by cases ht
  · intro s op s' _ h hop hs
    exact h.step hop hs

end HitInv

/-- A clear that does not spare a reader frees what is to be copied. -/
theorem spares_of_pinned {s s' : HitSys Tid} {op : HitOp Tid} (h : s.m.Consistent)
    (hs : hitStep s op = some s') (hpinned : s'.Pinned) : op.SparesReaders s := by
  have hfreed : ∀ {m : CellMap} {ks : List Nat}, m.table = s.m.table.freeAll ks →
      HitSys.Pinned ⟨m, s.pool⟩ →
      ∀ t p l, s.pool t = .copying p l → ∀ k ∈ ks, s.m.table.ptr k ≠ some p := by
    intro m ks htable hpin t p l ht k hk hptr
    have hthere := hpin t p l ht
    rw [htable, CellTable.cell_freeAll_of_mem ks _ hk hptr] at hthere
    cases hthere
  intro t p l ht k hk
  cases op with
  | find | wake | copy | leave | insert | fail => cases hk
  | clearChunk l' =>
    obtain ⟨m, hm, rfl⟩ := toOption_map_some hs
    exact hfreed (CellMap.clearChunk_spec h hm).2 hpinned t p l ht k hk
  | clearZone zone iter =>
    simp only [hitStep] at hs
    split at hs
    · obtain ⟨m, hm, rfl⟩ := toOption_map_some hs
      exact hfreed (CellMap.clearZone_spec h hm).2 hpinned t p l ht k hk
    · cases hs

/-- **THE PINNED-HIT THEOREM.**  In every run whose clears free no cell that is
still to be copied: what is to be copied is the entry seen under the mutex, and
what was copied is the location its thread was counted for.  And every next
step keeps this exactly when it frees no such cell either. -/
theorem hit_pinned_iff {numZones : Nat} (s : HitSys Tid)
    (hr : (hitSystem Tid numZones).Reach (fun s op => op.SparesReaders s) s) :
    s.Pinned ∧ (∀ t r l, s.pool t = .returned r l → r = some (.loc l))
      ∧ ∀ op s', hitStep s op = some s' → (s'.Pinned ↔ op.SparesReaders s) := by
  have h := HitInv.reach hr
  refine ⟨h.pinned, h.returned, fun op s' hs => ⟨?_, ?_⟩⟩
  · exact spares_of_pinned h.consistent hs
  · exact fun hop => (h.step hop hs).pinned

/-! ## §5. One chunk, two threads. -/

/-- The entry of an idle thread, or of one that holds another cell. -/
def HitPc.SparedBy (m : CellMap) (ks : List Nat) : HitPc → Prop
  | .copying p _ => ∀ k ∈ ks, m.table.ptr k ≠ some p
  | .idle | .waiting .. | .returned .. => True

instance {m : CellMap} {ks : List Nat} : (pc : HitPc) → Decidable (pc.SparedBy m ks)
  | .copying p _ => inferInstanceAs (Decidable (∀ k ∈ ks, m.table.ptr k ≠ some p))
  | .idle | .waiting .. | .returned .. => isTrue trivial

/-- Replay a step of two threads that spares both. -/
def sparingStep (s : HitSys Bool) (op : HitOp Bool) : Option (HitSys Bool) :=
  if (s.pool false).SparedBy s.m (op.clears s) ∧ (s.pool true).SparedBy s.m (op.clears s) then
    hitStep s op
  else none

theorem sparingStep_sound {numZones : Nat} (s : HitSys Bool) (op : HitOp Bool) (s' : HitSys Bool)
    (h : sparingStep s op = some s') :
    op.SparesReaders s ∧ (hitSystem Bool numZones).step s op s' := by
  unfold sparingStep at h
  split at h
  · rename_i hspared
    apply And.intro _ h
    intro t p l ht
    have hpc : (s.pool t).SparedBy s.m (op.clears s) := by
      cases t with
      | false => exact hspared.1
      | true => exact hspared.2
    rw [ht] at hpc
    exact hpc
  · cases h

/-- Id 1 is put at chunk 0 of zone 0, and found there by thread `false`. -/
def findOne : List (HitOp Bool) :=
  [.find true 1 0, .insert 1 ⟨0, 0, 0, false⟩, .find false 1 5]

/-- The copy is made before the chunk is cleared. -/
theorem hit_pinned_iff_copied :
    ∃ s : HitSys Bool, s.pool false = .returned (some (.loc ⟨0, 0, 0, false⟩)) ⟨0, 0, 0, false⟩
      ∧ s.m.map.zoneMap 1 = none ∧ s.Pinned := by
  obtain ⟨s, hr, hs⟩ := TransSys.Reach.exists_of_exec (T := hitSystem Bool 1) sparingStep_sound rfl
    (fun s => s.pool false = .returned (some (.loc ⟨0, 0, 0, false⟩)) ⟨0, 0, 0, false⟩
      ∧ s.m.map.zoneMap 1 = none)
    (findOne ++ [.copy false, .clearChunk ⟨0, 0, 0, false⟩]) (by decide)
  obtain ⟨hret, hgone⟩ := of_decide_eq_true hs
  exact ⟨s, hret, hgone, (hit_pinned_iff s hr).1⟩

/-- **A hit that returns another id's condition.**  The zone is cleared between
the find and the copy, and the cell goes to id 2; had it gone to nobody, the
copy would read freed memory. -/
theorem copy_of_reused :
    (∃ s, (hitSystem Bool 1).Reach TransSys.Any s
      ∧ s.pool false = .returned (some (.cond 1)) ⟨0, 0, 0, false⟩)
    ∧ ∃ s, (hitSystem Bool 1).Reach TransSys.Any s
      ∧ s.pool false = .returned none ⟨0, 0, 0, false⟩ := by
  have hsound : ∀ (s : HitSys Bool) (op : HitOp Bool) (s' : HitSys Bool), hitStep s op = some s' →
      TransSys.Any s op ∧ (hitSystem Bool 1).step s op s' := fun _ _ _ h => ⟨trivial, h⟩
  constructor
  · obtain ⟨s, hr, hs⟩ := TransSys.Reach.exists_of_exec hsound rfl
      (fun s => s.pool false = .returned (some (.cond 1)) ⟨0, 0, 0, false⟩)
      (findOne ++ [.clearZone 0 [⟨0, 1⟩], .find true 2 0, .copy false]) (by decide)
    exact ⟨s, hr, of_decide_eq_true hs⟩
  · obtain ⟨s, hr, hs⟩ := TransSys.Reach.exists_of_exec hsound rfl
      (fun s => s.pool false = .returned none ⟨0, 0, 0, false⟩)
      (findOne ++ [.clearChunk ⟨0, 0, 0, false⟩, .copy false]) (by decide)
    exact ⟨s, hr, of_decide_eq_true hs⟩

end ZnCache
