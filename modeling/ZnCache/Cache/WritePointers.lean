/-
  ZnCache.Cache.WritePointers — the cache on a zoned device.

  The zone state manager counts chunks, the device bytes.  They agree while a
  thread that gives a zone back has written the whole chunk, or nothing of it.
  `zsm_failed_to_write` makes the zone active again at the offset where it was,
  and cannot take back the pieces the device has; then no chunk of the zone can
  be written any more (`pointer_ahead`).

  `Pointed` is the agreement, with what the threads hold that write.  Main
  result: `write_pointers_agree`, for both policies.
-/
import ZnCache.ZonedDevice
import ZnCache.Promotional.FgEvict
import ZnCache.Chunk.Gc

namespace ZnCache

open Lib

universe u

variable {Tid : Type u} {g : Geometry} {zsm zsm' : ZoneStateManager} {wps : Nat → Nat}
  {held : Tid → Option (ZnPair × Bool)}

/-! ## §1. The agreement. -/

/-- **The write pointers**, where `held` tells the locations that threads hold,
and whether the chunk is written. -/
structure Pointed (g : Geometry) (zsm : ZoneStateManager) (wps : Nat → Nat)
    (held : Tid → Option (ZnPair × Bool)) : Prop where
  free : ∀ z, (zsm.state z).state = .free → wps z = g.zoneSize * z
  active : ∀ z, (zsm.state z).state = .active →
    wps z = g.zoneSize * z + (zsm.state z).chunkOffset * g.chunkSz
  writing : ∀ t x, held t = some x → (zsm.state x.1.zone).state = .writeOccuring
    ∧ (zsm.state x.1.zone).chunkOffset = x.1.chunkOffset
  pointer : ∀ t x, held t = some x → wps x.1.zone
    = g.zoneSize * x.1.zone + (x.1.chunkOffset + if x.2 then 1 else 0) * g.chunkSz
  single : ∀ t u x y, held t = some x → held u = some y → x.1.zone = y.1.zone → t = u

/-- No zone was reset or finished. -/
theorem zoneCommands_none (hfree : ∀ z, (zsm'.state z).state = .free → (zsm.state z).state = .free)
    (hfull : ∀ z, (zsm'.state z).state = .full → (zsm.state z).state = .full) :
    zoneCommands g zsm zsm' wps = wps := by
  funext z
  unfold zoneCommands
  rw [if_neg fun h => h.2 (hfree z h.1), if_neg fun h => h.2 (hfull z h.1)]

/-- A zone that has become active was neither reset nor finished. -/
theorem zoneCommands_active {z : Nat} (hz : (zsm'.state z).state = .active) :
    zoneCommands g zsm zsm' wps z = wps z := by
  simp [zoneCommands, hz]

/-- One zone changes its record. -/
theorem zoneCommands_update {z : Nat} {zn : ZnZone}
    (hs' : zsm'.state = Function.update zsm.state z zn) {y : Nat} (hy : y ≠ z) :
    zoneCommands g zsm zsm' wps y = wps y := by
  unfold zoneCommands
  rw [hs', Function.update_of_ne hy, if_neg fun h => h.2 h.1, if_neg fun h => h.2 h.1]

namespace Pointed

/-- A zone that is not being written is held by nobody. -/
theorem not_held (h : Pointed g zsm wps held) {z : Nat}
    (hz : (zsm.state z).state ≠ .writeOccuring) {t : Tid} {x : ZnPair × Bool}
    (ht : held t = some x) : x.1.zone ≠ z :=
  fun heq => hz (heq ▸ (h.writing t x ht).1)

variable [DecidableEq Tid] {t : Tid} {x : Option (ZnPair × Bool)}

/-- What a thread holds after `t` has moved and holds nothing new. -/
theorem held_before (hx : ∀ y, x = some y → held t = some y) {u : Tid} {y : ZnPair × Bool}
    (hu : Function.update held t x u = some y) : held u = some y := by
  by_cases hut : u = t
  · rw [hut, Function.update_self] at hu
    rw [hut]
    exact hx y hu
  · rwa [Function.update_of_ne hut] at hu

/-- The zones stay as they are, and a thread holds nothing new. -/
theorem goto (h : Pointed g zsm wps held)
    (hsame : ∀ z, (zsm'.state z).state = (zsm.state z).state
      ∧ (zsm'.state z).chunkOffset = (zsm.state z).chunkOffset)
    (hx : ∀ y, x = some y → held t = some y) :
    Pointed g zsm' (zoneCommands g zsm zsm' wps) (Function.update held t x) := by
  rw [zoneCommands_none (fun z hz => (hsame z).1 ▸ hz) (fun z hz => (hsame z).1 ▸ hz)]
  constructor
  · intro z hz
    exact h.free z ((hsame z).1 ▸ hz)
  · intro z hz
    rw [(hsame z).2]
    exact h.active z ((hsame z).1 ▸ hz)
  · intro u y hu
    rw [(hsame y.1.zone).1, (hsame y.1.zone).2]
    exact h.writing u y (held_before hx hu)
  · intro u y hu
    exact h.pointer u y (held_before hx hu)
  · intro u v y y' hu hv
    exact h.single u v y y' (held_before hx hu) (held_before hx hv)

/-- **One zone changes its record**, and `t` is the only thread that may hold it,
before and after. -/
theorem move (h : Pointed g zsm wps held) {z : Nat} {zn : ZnZone}
    (hs' : zsm'.state = Function.update zsm.state z zn) {wps' : Nat → Nat}
    (hother : ∀ u, u ≠ t → ∀ y, held u = some y → y.1.zone ≠ z)
    (hwps : ∀ y, y ≠ z → wps' y = wps y)
    (hfree : zn.state = .free → wps' z = g.zoneSize * z)
    (hactive : zn.state = .active → wps' z = g.zoneSize * z + zn.chunkOffset * g.chunkSz)
    (hx : ∀ y, x = some y → y.1.zone = z ∧ zn.state = .writeOccuring
      ∧ zn.chunkOffset = y.1.chunkOffset
      ∧ wps' z = g.zoneSize * z + (y.1.chunkOffset + if y.2 then 1 else 0) * g.chunkSz) :
    Pointed g zsm' wps' (Function.update held t x) := by
  have hcases : ∀ u y, Function.update held t x u = some y →
      (u = t ∧ x = some y) ∨ (u ≠ t ∧ held u = some y) := by
    intro u y hu
    by_cases hut : u = t
    · rw [hut, Function.update_self] at hu
      exact Or.inl ⟨hut, hu⟩
    · rw [Function.update_of_ne hut] at hu
      exact Or.inr ⟨hut, hu⟩
  constructor
  · intro y hy
    rw [hs'] at hy
    by_cases hyz : y = z
    · rw [hyz, Function.update_self] at hy
      rw [hyz]
      exact hfree hy
    · rw [Function.update_of_ne hyz] at hy
      rw [hwps y hyz]
      exact h.free y hy
  · intro y hy
    rw [hs'] at hy ⊢
    by_cases hyz : y = z
    · rw [hyz, Function.update_self] at hy ⊢
      exact hactive hy
    · rw [Function.update_of_ne hyz] at hy ⊢
      rw [hwps y hyz]
      exact h.active y hy
  · intro u y hu
    rw [hs']
    rcases hcases u y hu with ⟨-, hxy⟩ | ⟨hut, hu⟩
    · obtain ⟨hz, hst, hoff, -⟩ := hx y hxy
      rw [hz, Function.update_self]
      exact ⟨hst, hoff⟩
    · rw [Function.update_of_ne (hother u hut y hu)]
      exact h.writing u y hu
  · intro u y hu
    rcases hcases u y hu with ⟨-, hxy⟩ | ⟨hut, hu⟩
    · obtain ⟨hz, -, -, hptr⟩ := hx y hxy
      rw [hz]
      exact hptr
    · rw [hwps _ (hother u hut y hu)]
      exact h.pointer u y hu
  · intro u v y y' hu hv heq
    rcases hcases u y hu with ⟨hut, hxy⟩ | ⟨hut, hu⟩
    · rcases hcases v y' hv with ⟨hvt, -⟩ | ⟨hvt, hv⟩
      · rw [hut, hvt]
      · exact absurd (heq.symm.trans (hx y hxy).1) (hother v hvt y' hv)
    · rcases hcases v y' hv with ⟨-, hxy'⟩ | ⟨hvt, hv⟩
      · exact absurd (heq.trans (hx y' hxy').1) (hother u hut y hu)
      · exact h.single u v y y' hu hv heq

/-! ## §2. What each call keeps. -/

/-- A location handed out, as its holder begins. -/
def taken : ZsmGetActiveZone → Option (ZnPair × Bool)
  | .success l => some (l, false)
  | _ => none

/-- A zone that nobody holds is taken at its write pointer. -/
theorem take (h : Pointed g zsm wps held) {z : Nat} {zn : ZnZone} {l : ZnPair}
    (hs' : zsm'.state = Function.update zsm.state z zn)
    (hst : (zsm.state z).state ≠ .writeOccuring) (hzn : zn.state = .writeOccuring)
    (hl : l.zone = z) (hoff : zn.chunkOffset = l.chunkOffset)
    (hptr : wps z = g.zoneSize * z + l.chunkOffset * g.chunkSz) :
    Pointed g zsm' (zoneCommands g zsm zsm' wps) (Function.update held t (some (l, false))) := by
  -- the zone is neither FREE nor FULL afterwards, so no command was sent
  have hbefore : ∀ c, c ≠ .writeOccuring → ∀ y, (zsm'.state y).state = c → (zsm.state y).state = c := by
    intro c hc y hy
    rw [hs'] at hy
    by_cases hyz : y = z
    · rw [hyz, Function.update_self, hzn] at hy
      exact absurd hy.symm hc
    · rwa [Function.update_of_ne hyz] at hy
  rw [zoneCommands_none (hbefore .free (by decide)) (hbefore .full (by decide))]
  apply h.move hs'
  · exact fun u _ y hu => h.not_held hst hu
  · exact fun _ _ => rfl
  · intro hz
    rw [hzn] at hz
    cases hz
  · intro hz
    rw [hzn] at hz
    cases hz
  · intro y hy
    cases hy
    refine ⟨hl, hzn, hoff, ?_⟩
    simpa using hptr

/-- **A zone is handed out** where its write pointer is. -/
theorem acquire (hinv : ZsmInv g zsm) (h : Pointed g zsm wps held) {r : ZsmGetActiveZone}
    (hc : AcquireCase zsm r zsm') :
    Pointed g zsm' (zoneCommands g zsm zsm' wps) (Function.update held t (taken r)) := by
  cases hc with
  | @unchanged r hr =>
    apply h.goto
    · exact fun _ => ⟨rfl, rfl⟩
    intro y hy
    cases r with
    | success l => exact absurd rfl (hr l)
    | retry | error | evict => cases hy
  | lost =>
    apply h.goto
    · exact fun _ => ⟨rfl, rfl⟩
    · exact fun y hy => by cases hy
  | @reuse z rest ha hst =>
    apply h.take rfl
    · simp [hst]
    · rfl
    · exact hinv.zone_id z
    · rfl
    · exact h.active z hst
  | @opened z rest hf hst =>
    apply h.take rfl
    · simp [hst]
    · rfl
    · exact hinv.zone_id z
    · rfl
    · simpa using h.free z hst

omit [DecidableEq Tid] in
/-- The other threads hold other zones. -/
theorem other_zone (h : Pointed g zsm wps held) {l : ZnPair} {b : Bool} (ht : held t = some (l, b))
    {u : Tid} (hut : u ≠ t) {y : ZnPair × Bool} (hu : held u = some y) : y.1.zone ≠ l.zone :=
  fun heq => hut (h.single u t y (l, b) hu ht heq)

/-- **The chunk is written**: the write pointer goes on by one chunk. -/
theorem write (h : Pointed g zsm wps held) {l : ZnPair} (ht : held t = some (l, false))
    (hx : ∀ y, x = some y → y = (l, true)) :
    Pointed g zsm (Function.update wps l.zone
      (g.zoneSize * l.zone + l.chunkOffset * g.chunkSz + g.chunkSz)) (Function.update held t x) := by
  obtain ⟨hst, hoff⟩ := h.writing t (l, false) ht
  have hself : zsm.state = Function.update zsm.state l.zone (zsm.state l.zone) := by
    rw [Function.update_eq_self]
  apply h.move hself
  · exact fun u hut y hu => h.other_zone ht hut hu
  · exact fun y hy => Function.update_of_ne hy ..
  · exact fun hz => by rw [hst] at hz; cases hz
  · exact fun hz => by rw [hst] at hz; cases hz
  · intro y hy
    obtain rfl := hx y hy
    refine ⟨rfl, hst, hoff, ?_⟩
    rw [Function.update_self, if_pos rfl, Nat.succ_mul, Nat.add_assoc]

/-- **A written chunk is committed**: the zone is active at the next one, or full. -/
theorem commit (hmax : g.maxZoneChunks < 2 ^ 32) (hinv : ZsmInv g zsm)
    (h : Pointed g zsm wps held) {l : ZnPair} (ht : held t = some (l, true)) :
    Pointed g (committed g zsm l) (zoneCommands g zsm (committed g zsm l) wps)
      (Function.update held t none) := by
  obtain ⟨hst, hoff⟩ := h.writing t (l, true) ht
  have hlt : l.chunkOffset < g.maxZoneChunks := hoff ▸ (hinv.open_offset l.zone (Or.inr hst)).1
  have hother : ∀ u, u ≠ t → ∀ y, held u = some y → y.1.zone ≠ l.zone :=
    fun u hut y hu => h.other_zone ht hut hu
  unfold committed
  split
  · have hs' : ({ zsm.setZone l.zone (closedZone zsm l.zone) with
        writesOccurring := zsm.writesOccurring - 1 } : ZoneStateManager).state
          = Function.update zsm.state l.zone (closedZone zsm l.zone) := rfl
    apply h.move hs' hother
    · exact fun y hy => zoneCommands_update hs' hy
    · exact fun hz => by cases hz
    · exact fun hz => by cases hz
    · exact fun y hy => by cases hy
  · rename_i hnot
    have hs' : ({ zsm.setZone l.zone
          (reopenedZone zsm l.zone ((l.chunkOffset + 1) % 2 ^ 32)) with
        active := zsm.active ++ [l.zone]
        writesOccurring := zsm.writesOccurring - 1 } : ZoneStateManager).state
          = Function.update zsm.state l.zone
            (reopenedZone zsm l.zone ((l.chunkOffset + 1) % 2 ^ 32)) := rfl
    apply h.move hs' hother
    · exact fun y hy => zoneCommands_update hs' hy
    · exact fun hz => by cases hz
    · intro _
      rw [zoneCommands_active (by rw [hs', Function.update_self]; rfl)]
      show wps l.zone = g.zoneSize * l.zone + (l.chunkOffset + 1) % 2 ^ 32 * g.chunkSz
      rw [Nat.mod_eq_of_lt (by omega)]
      exact h.pointer t (l, true) ht
    · exact fun y hy => by cases hy

/-- **A chunk of which nothing is written is given up.** -/
theorem abandon (h : Pointed g zsm wps held) {l : ZnPair} (ht : held t = some (l, false)) :
    Pointed g (abandoned zsm l) (zoneCommands g zsm (abandoned zsm l) wps)
      (Function.update held t none) := by
  have hs' : (abandoned zsm l).state
      = Function.update zsm.state l.zone (reopenedZone zsm l.zone l.chunkOffset) := rfl
  apply h.move hs'
  · exact fun u hut y hu => h.other_zone ht hut hu
  · exact fun y hy => zoneCommands_update hs' hy
  · exact fun hz => by cases hz
  · intro _
    rw [zoneCommands_active (by rw [hs', Function.update_self]; rfl)]
    exact h.pointer t (l, false) ht
  · exact fun y hy => by cases hy

/-- **A full zone is reset.** -/
theorem reset (h : Pointed g zsm wps held) {z : Nat} (hst : (zsm.state z).state = .full)
    (hx : x = none) :
    Pointed g (evicted zsm z) (zoneCommands g zsm (evicted zsm z) wps) (Function.update held t x) := by
  have hs' : (evicted zsm z).state
      = Function.update zsm.state z { zsm.state z with state := .free, chunkOffset := 0 } := rfl
  apply h.move hs'
  · exact fun u _ y hu => h.not_held (by simp [hst]) hu
  · exact fun y hy => zoneCommands_update hs' hy
  · intro _
    unfold zoneCommands
    rw [hs', Function.update_self, if_pos ⟨rfl, by simp [hst]⟩]
  · exact fun hz => by cases hz
  · exact fun y hy => by rw [hx] at hy; cases hy

end Pointed

/-! ## §3. The cache on a zoned device. -/

/-- What a thread in `zn_cache_get` holds, where `held` tells it of an evictor. -/
def GetPc.holds {E : Type} (held : E → Option (ZnPair × Bool)) : GetPc E → Option (ZnPair × Bool)
  | .write _ l | .undoZoneGet _ l => some (l, false)
  | .miss _ l _ | .commit _ l _ => some (l, true)
  | .evict _ e => held e
  | _ => none

/-- What a thread holds. -/
def Pc.holds {E : Type} (held : E → Option (ZnPair × Bool)) : Pc E → Option (ZnPair × Bool)
  | .idle => none
  | .get pc => pc.holds held
  | .evictor e => held e

/-- The location a thread writes to in its next step, where `target` tells it of
an evictor. -/
def Pc.target {E : Type} (target : E → Option ZnPair) : Pc E → Option ZnPair
  | .get (.write _ l) => some l
  | .get (.evict _ e) | .evictor e => target e
  | _ => none

/-- A cache, and the write pointers of its device. -/
structure Zoned (P E : Type) (Tid : Type u) where
  sys : Sys P E Tid
  wps : Nat → Nat

/-- A transfer to a location, or none, as a zoned device takes it. -/
def transferTo (g : Geometry) (wps : Nat → Nat) (results : List PwriteResult) :
    Option ZnPair → Option (Nat → Nat)
  | some l => zonedWriteOut g g.chunkSz (g.wp l.zone l.chunkOffset) results 0 wps
  | none => some wps

/-- What a step writes. -/
def zonedTransfer {P E : Type} (target : E → Option ZnPair) (g : Geometry) (s : Zoned P E Tid) :
    SysLabel Tid → Option (Nat → Nat)
  | .step t a => transferTo g s.wps a.pwrites ((s.sys.pool t).target target)
  | _ => some s.wps

/-- The runs of the cache on a zoned device whose zones are empty. -/
def zonedSystem (Tid : Type u) [DecidableEq Tid] {P E : Type} (pol : EvictPolicy P E)
    (target : E → Option ZnPair) (g : Geometry) (rb : Buffer) :
    TransSys (Zoned P E Tid) (SysLabel Tid) where
  init s := (cacheSystem Tid pol g rb).init s.sys ∧ s.wps = fun z => g.zoneSize * z
  step s l s' := (cacheSystem Tid pol g rb).step s.sys l s'.sys
    ∧ ∃ wps, zonedTransfer target g s l = some wps
      ∧ s'.wps = zoneCommands g s.sys.cache.zoneState s'.sys.cache.zoneState wps

/-- No chunk is left with a part of it written. -/
def SysLabel.WholeChunks {P E : Type} (target : E → Option ZnPair) (g : Geometry)
    (s : Zoned P E Tid) : SysLabel Tid → Prop
  | .step t a => (s.sys.pool t).target target ≠ none → AllOrNothing g a.pwrites
  | _ => True

instance SysLabel.decWholeChunks {P E : Type} (target : E → Option ZnPair) (g : Geometry)
    (s : Zoned P E Tid) (l : SysLabel Tid) : Decidable (l.WholeChunks target g s) :=
  match l with
  | .step t a =>
    inferInstanceAs (Decidable ((s.sys.pool t).target target ≠ none → AllOrNothing g a.pwrites))
  | .get _ _ | .fgEvict _ | .evictTask _ | .ret _ => isTrue trivial

/-- **What a step of an evictor may do** to the zones and to its device. -/
inductive EvictWrites (g : Geometry) (results : List PwriteResult) :
    ZoneStateManager → ZoneStateManager → Option ZnPair → Option (ZnPair × Bool)
      → Option (ZnPair × Bool) → Prop
  | quiet {zsm zsm' : ZoneStateManager} {x x' : Option (ZnPair × Bool)}
      (hsame : ∀ z, (zsm'.state z).state = (zsm.state z).state
        ∧ (zsm'.state z).chunkOffset = (zsm.state z).chunkOffset)
      (hx : ∀ y, x' = some y → x = some y) : EvictWrites g results zsm zsm' none x x'
  | takes {zsm zsm' : ZoneStateManager} {l : ZnPair} (hc : AcquireCase zsm (.success l) zsm') :
      EvictWrites g results zsm zsm' none none (some (l, false))
  | writes {zsm : ZoneStateManager} {l : ZnPair} {data bytes : Buffer} {res : Int × Buffer}
      (hout : znWriteOut g.chunkSz data writeGranularity (g.wp l.zone l.chunkOffset) results bytes
        = some res) (hres : res.1 = 0) :
      EvictWrites g results zsm zsm (some l) (some (l, false)) none
  | resets {zsm : ZoneStateManager} {z : Nat} (hst : (zsm.state z).state = .full) :
      EvictWrites g results zsm (evicted zsm z) none none none

/-- Every step of the policy's evictors is one of these. -/
def EvictPolicy.Writes {P E : Type} (pol : EvictPolicy P E) (held : E → Option (ZnPair × Bool))
    (target : E → Option ZnPair) (g : Geometry) : Prop :=
  held pol.entry = none ∧ ∀ a s e s' e', pol.step g a s e = some (.ok (s', e')) →
    EvictWrites g a.pwrites s.zoneState s'.zoneState (target e) (held e) (e'.bind held)

section Steps

variable [DecidableEq Tid] {P E : Type} {pol : EvictPolicy P E} {rb : Buffer}
  {heldE : E → Option (ZnPair × Bool)} {target : E → Option ZnPair}

/-- What is assumed of the geometry. -/
structure Geometry.Zonable (g : Geometry) : Prop where
  addressable : g.Addressable
  chunk_pos : 0 < g.chunkSz
  chunk_dvd : writeGranularity ∣ g.chunkSz
  chunk_fits : g.chunkSz ≤ g.zoneCap
  narrow : g.maxZoneChunks < 2 ^ 32

theorem Geometry.Zonable.max_pos {g : Geometry} (h : g.Zonable) : 1 ≤ g.maxZoneChunks :=
  Nat.div_pos h.chunk_fits h.chunk_pos

omit [DecidableEq Tid] in
/-- A transfer that is taken as a whole or not at all. -/
theorem Pointed.transfer (hg : g.Zonable) (hinv : ZsmInv g zsm) (h : Pointed g zsm wps held) {t : Tid}
    {l : ZnPair} (ht : held t = some (l, false)) {data bytes : Buffer} {results : List PwriteResult}
    {res : Int × Buffer} (hclean : AllOrNothing g results)
    (hout : znWriteOut g.chunkSz data writeGranularity (g.wp l.zone l.chunkOffset) results bytes
      = some res) {wps' : Nat → Nat}
    (hzoned : zonedWriteOut g g.chunkSz (g.wp l.zone l.chunkOffset) results 0 wps = some wps') :
    wps' = if res.1 = 0 then Function.update wps l.zone
      (g.zoneSize * l.zone + l.chunkOffset * g.chunkSz + g.chunkSz) else wps := by
  obtain ⟨hst, hoff⟩ := h.writing t (l, false) ht
  have hz : l.zone < g.nrZones := hinv.lt_of_state (by simp [hst])
  have hc : l.chunkOffset < g.maxZoneChunks := hoff ▸ (hinv.open_offset l.zone (Or.inr hst)).1
  have hwp := Geometry.wp_eq hg.addressable hz hc
  have hptr : wps l.zone = g.wp l.zone l.chunkOffset := by
    rw [hwp]
    exact h.pointer t (l, false) ht
  rw [zonedWriteOut_allOrNothing hg.addressable hg.chunk_pos hg.chunk_dvd hz hc hclean hptr hout
    hzoned, hwp]

/-- **A step of an evictor** keeps the agreement. -/
theorem Pointed.evict (hg : g.Zonable) (hinv : ZsmInv g zsm) (h : Pointed g zsm wps held) {t : Tid}
    {a : Answers} {l : Option ZnPair} {x' : Option (ZnPair × Bool)} (hclean : l ≠ none → AllOrNothing g a.pwrites)
    (hc : EvictWrites g a.pwrites zsm zsm' l (held t) x') {wps' : Nat → Nat}
    (hzoned : transferTo g wps a.pwrites l = some wps') :
    Pointed g zsm' (zoneCommands g zsm zsm' wps') (Function.update held t x') := by
  generalize hx : held t = x at hc
  cases hc with
  | quiet hsame hx' =>
    cases hzoned
    exact h.goto hsame fun y hy => hx.trans (hx' y hy)
  | takes hc =>
    cases hzoned
    exact h.acquire hinv hc
  | @writes l data bytes res hout hres =>
    rw [zoneCommands_none (fun _ hz => hz) (fun _ hz => hz),
      h.transfer hg hinv hx (hclean (by simp)) hout hzoned, if_pos hres]
    exact h.write hx fun y hy => by cases hy
  | resets hst =>
    cases hzoned
    exact h.reset hst rfl

/-- The agreement, for a cache. -/
def Zoned.Pointed (heldE : E → Option (ZnPair × Bool)) (g : Geometry) (s : Zoned P E Tid) : Prop :=
  ZnCache.Pointed g s.sys.cache.zoneState s.wps fun t => (s.sys.pool t).holds heldE

/-- **A step of `zn_cache_get`** keeps the agreement. -/
theorem GetCase.pointed (hg : g.Zonable) (hpol : pol.Writes heldE target g) {s s' : CacheState P}
    {a : Answers} {pc pc' : GetPc E} (hcase : GetCase pol g rb a s pc s' pc')
    (hinv : ZsmInv g s.zoneState) (h : ZnCache.Pointed g s.zoneState wps held) {t : Tid}
    (ht : held t = pc.holds heldE) (hok : DeviceOk g a.ret)
    (hwhole : (Pc.get pc).target target ≠ none → AllOrNothing g a.pwrites) {wps' : Nat → Nat}
    (hzoned : transferTo g wps a.pwrites ((Pc.get pc).target target) = some wps') :
    ZnCache.Pointed g s'.zoneState (zoneCommands g s.zoneState s'.zoneState wps')
      (Function.update held t (pc'.holds heldE)) := by
  -- a step that writes nothing, and leaves the zones alone
  have hquiet : ∀ {zsm' : ZoneStateManager} {x : Option (ZnPair × Bool)}, zsm' = s.zoneState →
      some wps = some wps' → (∀ y, x = some y → pc.holds heldE = some y) →
      ZnCache.Pointed g zsm' (zoneCommands g s.zoneState zsm' wps') (Function.update held t x) := by
    intro zsm' x hzsm hwps hx
    cases hzsm
    cases hwps
    exact h.goto (fun _ => ⟨rfl, rfl⟩) fun y hy => ht.trans (hx y hy)
  cases hcase with
  | find hf | wake hf =>
    apply hquiet rfl hzoned
    cases hf with
    | located | sleep | write => exact fun y hy => by cases hy
  | read | readUpdate | readDone | hit | writeUpdate | publish | undoMap =>
    exact hquiet rfl hzoned fun y hy => by cases hy
  | miss => exact hquiet rfl hzoned fun y hy => hy
  | @acquire id r z hr =>
    cases hzoned
    have htaken : (r.getPc pol id).holds heldE = Pointed.taken r := by
      cases r with
      | evict => exact hpol.1
      | success | retry | error => rfl
    rw [htaken]
    exact h.acquire hinv (zsmGetActiveZone_cases hr)
  | @evict id e c e' hstep =>
    have hafter : (evictPc id e').holds heldE = e'.bind heldE := by cases e' <;> rfl
    rw [hafter]
    have hcase := hpol.2 a s e s' e' hstep
    rw [show heldE e = held t from ht.symm] at hcase
    exact h.evict hg hinv hwhole hcase hzoned
  | @write id l r d hout =>
    obtain ⟨⟨r', bytes'⟩, hres, heq⟩ := Option.map_eq_some_iff.mp hout
    cases heq
    have hheld : held t = some (l, false) := ht
    have hwrote := h.transfer hg hinv hheld (hwhole fun hno => by cases hno) hres hzoned
    dsimp only at hwrote ⊢
    rw [hwrote, zoneCommands_none (fun _ hz => hz) (fun _ hz => hz)]
    by_cases hr0 : r' = 0
    · rw [if_pos hr0, if_neg (by simpa using hr0)]
      exact h.write hheld fun y hy => by cases hy; rfl
    · rw [if_neg hr0, if_pos hr0]
      have hself : Function.update held t (some (l, false)) = held := by
        rw [← hheld, Function.update_eq_self]
      show ZnCache.Pointed g s.zoneState wps (Function.update held t (some (l, false)))
      rw [hself]
      exact h
  | @commit id l data r z hr =>
    cases hzoned
    obtain ⟨hst, hoff, -⟩ := zsmReturnActiveZone_cases hr
    rw [zsmReturnActiveZone_spec hinv hok hst hoff] at hr
    cases hr
    exact h.commit hg.narrow hinv ht
  | @undoZoneGet id l z hr =>
    cases hzoned
    obtain ⟨-, -, rfl⟩ := zsmFailedToWrite_cases hr
    exact h.abandon ht

/-- **Step lemma.** -/
theorem Zoned.Pointed.step (hg : g.Zonable) (hpol : pol.Writes heldE target g) {s s' : Zoned P E Tid}
    {l : SysLabel Tid} (hinv : ZsmInv g s.sys.cache.zoneState) (h : s.Pointed heldE g)
    (hok : l.ZoneOk g) (hwhole : l.WholeChunks target g s)
    (hs : (zonedSystem Tid pol target g rb).step s l s') : s'.Pointed heldE g := by
  obtain ⟨hsys, wps, hzoned, hwps⟩ := hs
  obtain ⟨sys', wps'⟩ := s'
  dsimp only at hsys hwps
  subst hwps
  unfold Zoned.Pointed at h ⊢
  dsimp only
  -- a thread that moves and holds nothing
  have hidle : ∀ {t : Tid} {pc' : Pc E}, pc'.holds heldE = none → some s.wps = some wps →
      ZnCache.Pointed g s.sys.cache.zoneState
        (zoneCommands g s.sys.cache.zoneState s.sys.cache.zoneState wps)
        fun u => ((s.sys.goto t s.sys.cache pc').pool u).holds heldE := by
    intro t pc' hnone hwps
    cases hwps
    rw [Sys.goto_view (Pc.holds heldE), hnone]
    exact h.goto (fun _ => ⟨rfl, rfl⟩) fun y hy => by cases hy
  cases sysStep_cases hsys with
  | get => exact hidle rfl hzoned
  | fgEvict => exact hidle hpol.1 hzoned
  | taskSleeps =>
    cases hzoned
    rw [zoneCommands_none (fun _ hz => hz) (fun _ hz => hz)]
    exact h
  | taskEvicts => exact hidle hpol.1 hzoned
  | ret => exact hidle rfl hzoned
  | @evict t a e e' c ht hstep =>
    have hafter : (evictorPc e').holds heldE = e'.bind heldE := by cases e' <;> rfl
    rw [Sys.goto_view (Pc.holds heldE), hafter]
    simp only [zonedTransfer, SysLabel.WholeChunks, ht] at hzoned hwhole
    have hcase := hpol.2 a s.sys.cache e c e' hstep
    have hheld : heldE e = (s.sys.pool t).holds heldE := by rw [ht]; rfl
    rw [hheld] at hcase
    exact h.evict hg hinv hwhole hcase hzoned
  | @step t a pc pc' c ht hcase =>
    rw [Sys.goto_view (Pc.holds heldE)]
    simp only [zonedTransfer, SysLabel.WholeChunks, ht] at hzoned hwhole
    exact hcase.pointed hg hpol hinv h (by rw [ht]; rfl) hok hwhole hzoned

/-- The cache of a run on a zoned device is that of a run. -/
theorem Zoned.sys_reach {s : Zoned P E Tid}
    (hr : (zonedSystem Tid pol target g rb).Reach
      (fun s l => l.ZoneOk g ∧ l.WholeChunks target g s) s) :
    (cacheSystem Tid pol g rb).Reach (fun _ l => l.ZoneOk g) s.sys := by
  apply TransSys.Reach.simulate Zoned.sys _ _ hr
  · exact fun s hs => hs.1
  · exact fun s l s' _ _ hc hs => Or.inr ⟨l, hc.1, hs.1⟩

/-- **Run lemma**, for any policy whose evictors write in these ways. -/
theorem Zoned.Pointed.reach (hg : g.Zonable) (hpol : pol.Writes heldE target g)
    (hzsm : ∀ a s e s' e', DeviceOk g a.ret → ZsmInv g s.zoneState →
      pol.step g a s e = some (.ok (s', e')) → ZsmInv g s'.zoneState) {s : Zoned P E Tid}
    (hr : (zonedSystem Tid pol target g rb).Reach
      (fun s l => l.ZoneOk g ∧ l.WholeChunks target g s) s) :
    ZsmInv g s.sys.cache.zoneState ∧ s.Pointed heldE g := by
  have hinv : ∀ {s : Zoned P E Tid}, (zonedSystem Tid pol target g rb).Reach
      (fun s l => l.ZoneOk g ∧ l.WholeChunks target g s) s → ZsmInv g s.sys.cache.zoneState :=
    fun hr => zsm_inv_reach hg.max_pos hzsm (fun _ _ h => h) (Zoned.sys_reach hr)
  apply And.intro (hinv hr)
  apply TransSys.Reach.invariant (I := fun s => s.Pointed heldE g) _ _ hr
  · intro s hs
    obtain ⟨⟨bytes, hsys⟩, hwps⟩ := hs
    unfold Zoned.Pointed
    rw [hsys, hwps]
    constructor
    · exact fun _ _ => rfl
    · exact fun z hz => by cases hz
    · exact fun t x ht => by cases ht
    · exact fun t x ht => by cases ht
    · exact fun t u x y ht => by cases ht
  · intro s l s' hreach h hc hs
    exact h.step hg hpol (hinv hreach) hc.1 hc.2 hs

end Steps

/-! ## §4. The two policies. -/

/-- The evictors of the promotional policy do not write. -/
theorem promotional_writes (g : Geometry) :
    promotional.Writes (fun _ => none) (fun _ => none) g := by
  apply And.intro rfl
  intro a s e s' e' h
  have hnone : e'.bind (fun _ : FgEvict => (none : Option (ZnPair × Bool))) = none := by
    cases e' <;> rfl
  rw [hnone]
  cases fgEvictStep_cases h with
  | start | leave | pop | clear | wait | drained =>
    exact .quiet (fun _ => ⟨rfl, rfl⟩) fun _ hy => hy
  | reset hr =>
    obtain ⟨hst, -, -, rfl⟩ := zsmEvict_returns hr
    exact .resets hst

theorem promotional_zsm_inv (g : Geometry) (a : Answers) (s : CacheState ZnPolicyPromotional)
    (e : FgEvict) (s' : CacheState ZnPolicyPromotional) (e' : Option FgEvict)
    (ha : DeviceOk g a.ret) (h : ZsmInv g s.zoneState)
    (hs : promotional.step g a s e = some (.ok (s', e'))) : ZsmInv g s'.zoneState := by
  cases fgEvictStep_cases hs with
  | start | leave | pop | clear | wait | drained => exact h
  | reset hr => exact h.evict_ok ha hr

/-- What the collector holds: the location it has acquired and not written. -/
def ChunkEvict.holds : ChunkEvict → Option (ZnPair × Bool)
  | .gcRead _ _ l | .gcWrite _ _ l _ => some (l, false)
  | _ => none

/-- The location the collector writes to. -/
def ChunkEvict.target : ChunkEvict → Option ZnPair
  | .gcWrite _ _ l _ => some l
  | _ => none

/-- The collector writes to the zones it has acquired. -/
theorem chunk_writes (mem : Nat → EvictionPolicyChunkZone) (g : Geometry) :
    (chunk mem).Writes ChunkEvict.holds ChunkEvict.target g := by
  apply And.intro rfl
  intro a s e s' e' h
  cases chunkEvictStep_cases h with
  | refuse | enter | pop | popped | clear | gcSkip | gcStart | gcDone | gcPick | gcSkipChunk
  | gcScanned | gcInsert | gcClear | gcFree | unlock =>
    exact .quiet (fun _ => ⟨rfl, rfl⟩) fun _ hy => by cases hy
  | gcRead => exact .quiet (fun _ => ⟨rfl, rfl⟩) fun _ hy => hy
  | mark => exact .quiet (fun y => (zsmMarkChunkInvalid_same _ _ y).2) fun _ hy => by cases hy
  | gcAcquire _ hr => exact .takes (zsmGetActiveZone_cases hr)
  | gcWrite hr =>
    obtain ⟨res, hout, heq⟩ := Option.map_eq_some_iff.mp hr
    exact .writes hout (Prod.mk.inj heq).1
  | gcReset hr =>
    obtain ⟨hst, -, -, rfl⟩ := zsmEvict_returns hr
    exact .resets hst

/-- **The software and the device agree**: where an active zone stands is where
its write pointer is, and where the next chunk is written. -/
def Zoned.PointersAgree {P E : Type} (g : Geometry) (s : Zoned P E Tid) : Prop :=
  ∀ z, (s.sys.cache.zoneState.state z).state = .active →
    s.wps z = g.zoneSize * z + (s.sys.cache.zoneState.state z).chunkOffset * g.chunkSz
      ∧ g.wp z (s.sys.cache.zoneState.state z).chunkOffset = s.wps z

theorem Zoned.Pointed.agree {P E : Type} {heldE : E → Option (ZnPair × Bool)} {s : Zoned P E Tid}
    (hg : g.Zonable) (hinv : ZsmInv g s.sys.cache.zoneState) (h : s.Pointed heldE g) :
    s.PointersAgree g := by
  intro z hz
  have hptr := h.active z hz
  apply And.intro hptr
  rw [hptr]
  exact Geometry.wp_eq hg.addressable (hinv.lt_of_state (by simp [hz]))
    (hinv.open_offset z (Or.inl hz)).1

/-- **THE WRITE-POINTER THEOREM.**  Under either policy, in every run on a zoned
device that takes each chunk as a whole or refuses its first piece: the write
pointer of every active zone is where the manager says. -/
theorem write_pointers_agree [DecidableEq Tid] {rb : Buffer} {mem : Nat → EvictionPolicyChunkZone}
    (hg : g.Zonable) :
    (∀ s : Zoned ZnPolicyPromotional FgEvict Tid,
      (zonedSystem Tid promotional (fun _ => none) g rb).Reach
        (fun s l => l.ZoneOk g ∧ l.WholeChunks (fun _ => none) g s) s → s.PointersAgree g)
    ∧ ∀ s : Zoned ZnPolicyChunk ChunkEvict Tid,
      (zonedSystem Tid (chunk mem) ChunkEvict.target g rb).Reach
        (fun s l => l.ZoneOk g ∧ l.WholeChunks ChunkEvict.target g s) s → s.PointersAgree g := by
  constructor
  · intro s hr
    obtain ⟨hinv, h⟩ := Zoned.Pointed.reach hg (promotional_writes g) (promotional_zsm_inv g) hr
    exact h.agree hg hinv
  · intro s hr
    obtain ⟨hinv, h⟩ := Zoned.Pointed.reach hg (chunk_writes mem g) (chunk_zsm_inv hg.max_pos) hr
    exact h.agree hg hinv

/-! ## §5. A chunk of two pieces. -/

section Pieces

/-- One step that meets `C`, on a zoned device. -/
def zonedExec {P E : Type} [DecidableEq Tid] (pol : EvictPolicy P E) (target : E → Option ZnPair)
    (g : Geometry) (rb : Buffer) (C : Zoned P E Tid → SysLabel Tid → Prop)
    [∀ s l, Decidable (C s l)] (s : Zoned P E Tid) (l : SysLabel Tid) : Option (Zoned P E Tid) :=
  if C s l then
    (sysExec pol g rb (fun _ _ => True) s.sys l).bind fun sys =>
      (zonedTransfer target g s l).map fun wps =>
        ⟨sys, zoneCommands g s.sys.cache.zoneState sys.cache.zoneState wps⟩
  else none

theorem zonedExec_ok {P E : Type} [DecidableEq Tid] {pol : EvictPolicy P E}
    {target : E → Option ZnPair} {rb : Buffer} {C : Zoned P E Tid → SysLabel Tid → Prop}
    [∀ s l, Decidable (C s l)] (s : Zoned P E Tid) (l : SysLabel Tid) (s' : Zoned P E Tid)
    (h : zonedExec pol target g rb C s l = some s') :
    C s l ∧ (zonedSystem Tid pol target g rb).step s l s' := by
  unfold zonedExec at h
  split at h
  · rename_i hc
    obtain ⟨sys, hsys, hmap⟩ := Option.bind_eq_some_iff.mp h
    obtain ⟨wps, hwps, rfl⟩ := Option.map_eq_some_iff.mp hmap
    exact ⟨hc, (sysExec_ok s.sys l sys hsys).2, wps, hwps, rfl⟩
  · cases h

/-- One zone of two chunks of two pieces each. -/
abbrev twoPieces : Geometry := ⟨1, 1, 8192, 16384, 16384, .zns⟩

theorem twoPieces_zonable : twoPieces.Zonable where
  addressable := ⟨by decide, by decide⟩
  chunk_pos := by decide
  chunk_dvd := by decide
  chunk_fits := by decide
  narrow := by decide

/-- The zone commands succeed. -/
def answering (results : List PwriteResult) : Answers := ⟨0, results, 8192⟩

/-- Thread `t` asks for id 1, and the device answers `results` to the write of
its chunk; the zone is given back. -/
def writeOnce {Tid : Type u} (t : Tid) (results : List PwriteResult) : List (SysLabel Tid) :=
  [.get t 1, .step t (answering []), .step t (answering []), .step t (answering results),
    .step t (answering []), .step t (answering [])]

/-- Thread `t` fails to write the chunk of id 1 and returns, and thread `u` writes it. -/
def writeTwice {Tid : Type u} (t u : Tid) : List (SysLabel Tid) :=
  writeOnce t [⟨-1, 5⟩] ++ .ret t :: writeOnce u [⟨4096, 0⟩, ⟨4096, 0⟩]

/-- The first write is refused, the second taken, under either policy. -/
theorem write_pointers_agree_retried :
    (∃ s : Zoned ZnPolicyPromotional FgEvict (Fin 2),
      (s.sys.cache.zoneState.state 0).state = .active
        ∧ (s.sys.cache.zoneState.state 0).chunkOffset = 1 ∧ s.wps 0 = 8192 ∧ s.PointersAgree twoPieces)
    ∧ ∃ s : Zoned ZnPolicyChunk ChunkEvict (Fin 2),
      (s.sys.cache.zoneState.state 0).state = .active
        ∧ (s.sys.cache.zoneState.state 0).chunkOffset = 1 ∧ s.wps 0 = 8192
        ∧ s.PointersAgree twoPieces := by
  constructor
  · obtain ⟨s, hr, hs⟩ := TransSys.Reach.exists_of_exec
      (T := zonedSystem (Fin 2) promotional (fun _ => none) twoPieces fun _ => 0)
      (C := fun s l => l.ZoneOk twoPieces ∧ l.WholeChunks (fun _ => none) twoPieces s)
      zonedExec_ok (s := ⟨⟨initCache promotional twoPieces fun _ => 0, fun _ => .idle⟩,
        fun z => twoPieces.zoneSize * z⟩) ⟨⟨_, rfl⟩, rfl⟩
      (fun s => (s.sys.cache.zoneState.state 0).state = .active
        ∧ (s.sys.cache.zoneState.state 0).chunkOffset = 1 ∧ s.wps 0 = 8192) (writeTwice 0 1) (by decide)
    obtain ⟨hst, hoff, hwp⟩ := of_decide_eq_true hs
    exact ⟨s, hst, hoff, hwp,
      (@write_pointers_agree (Fin 2) twoPieces _ _ clearedPool twoPieces_zonable).1 s hr⟩
  · obtain ⟨s, hr, hs⟩ := TransSys.Reach.exists_of_exec
      (T := zonedSystem (Fin 2) (chunk clearedPool) ChunkEvict.target twoPieces fun _ => 0)
      (C := fun s l => l.ZoneOk twoPieces ∧ l.WholeChunks ChunkEvict.target twoPieces s)
      zonedExec_ok (s := ⟨⟨initCache (chunk clearedPool) twoPieces fun _ => 0, fun _ => .idle⟩,
        fun z => twoPieces.zoneSize * z⟩) ⟨⟨_, rfl⟩, rfl⟩
      (fun s => (s.sys.cache.zoneState.state 0).state = .active
        ∧ (s.sys.cache.zoneState.state 0).chunkOffset = 1 ∧ s.wps 0 = 8192) (writeTwice 0 1) (by decide)
    obtain ⟨hst, hoff, hwp⟩ := of_decide_eq_true hs
    exact ⟨s, hst, hoff, hwp, (write_pointers_agree twoPieces_zonable).2 s hr⟩

/-- **A POINTER AHEAD.**  The device takes the first piece of a chunk and refuses
the second: the zone is active again at chunk 0, its write pointer is after the
first piece, and it takes no first piece of chunk 0 any more. -/
theorem pointer_ahead :
    ∃ s, (zonedSystem (Fin 2) promotional (fun _ => none) twoPieces fun _ => 0).Reach
        (fun _ l => l.ZoneOk twoPieces) s
      ∧ (s.sys.cache.zoneState.state 0).state = .active
      ∧ (s.sys.cache.zoneState.state 0).chunkOffset = 0 ∧ s.wps 0 = 4096
      ∧ (zonedPwrite twoPieces s.wps (twoPieces.wp 0 0) ⟨4096, 0⟩).isNone = true
      ∧ ¬ s.PointersAgree twoPieces := by
  obtain ⟨s, hr, hs⟩ := TransSys.Reach.exists_of_exec
    (T := zonedSystem (Fin 2) promotional (fun _ => none) twoPieces fun _ => 0)
    (C := fun _ l => l.ZoneOk twoPieces) zonedExec_ok
    (s := ⟨⟨initCache promotional twoPieces fun _ => 0, fun _ => .idle⟩,
      fun z => twoPieces.zoneSize * z⟩) ⟨⟨_, rfl⟩, rfl⟩
    (fun s => (s.sys.cache.zoneState.state 0).state = .active
      ∧ (s.sys.cache.zoneState.state 0).chunkOffset = 0 ∧ s.wps 0 = 4096
      ∧ (zonedPwrite twoPieces s.wps (twoPieces.wp 0 0) ⟨4096, 0⟩).isNone = true)
    (writeOnce 0 [⟨4096, 0⟩, ⟨-1, 5⟩]) (by decide)
  obtain ⟨hst, hoff, hwp, hrefused⟩ := of_decide_eq_true hs
  refine ⟨s, hr, hst, hoff, hwp, hrefused, fun hagree => ?_⟩
  have hzero := (hagree 0 hst).1
  rw [hoff, hwp] at hzero
  cases hzero

end Pieces

end ZnCache
