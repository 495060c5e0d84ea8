/-
  ZnCache.Cache.Zones — the zone state manager inside the cache.

  `ZoneState.Run` runs the manager under callers that keep its rules.  In the
  cache nobody checks the rules but the manager's own assertions, and they are
  enough: a call that returns has kept them.

  Main results: `zsm_inv_reach`, for any policy whose eviction keeps the
  representation invariant, and `writes_exact`, for any whose eviction hands no
  zone out: `writes_occurring` counts the calls that have one.  `ZsmInv.queued`:
  where none has, no zone is lost.
-/
import ZnCache.Cache.Cases
import ZnCache.ZoneState.Cases

namespace ZnCache

open Lib Lib.ThreadPool

universe u

variable {P E : Type} {pol : EvictPolicy P E} {g : Geometry} {rb : Buffer}

/-! ## §1. Calls that return. -/

section Calls

variable {ret : Int} {s s' : ZoneStateManager}

theorem ZsmInv.acquire_ok (hpos : 1 ≤ g.maxZoneChunks) (hret : DeviceOk g ret) (h : ZsmInv g s)
    {r : ZsmGetActiveZone} (hr : zsmGetActiveZone g ret s = .ok (r, s')) : ZsmInv g s' := by
  obtain ⟨r', s'', heq, hcase⟩ := zsmGetActiveZone_spec h hret
  rw [hr] at heq
  cases heq
  exact hcase.inv hpos h

theorem ZsmInv.return_ok (hret : DeviceOk g ret) (h : ZsmInv g s) {pair : ZnPair} {r : Int}
    (hr : zsmReturnActiveZone g ret s pair = .ok (r, s')) : ZsmInv g s' := by
  obtain ⟨hst, hoff, -⟩ := zsmReturnActiveZone_cases hr
  rw [zsmReturnActiveZone_spec h hret hst hoff] at hr
  cases hr
  exact committed_inv h hst hoff

theorem ZsmInv.failed_ok (h : ZsmInv g s) {pair : ZnPair} (hr : zsmFailedToWrite g s pair = .ok s') :
    ZsmInv g s' := by
  obtain ⟨hst, hoff, rfl⟩ := zsmFailedToWrite_cases hr
  exact abandoned_inv h hst hoff

theorem ZsmInv.evict_ok (hret : DeviceOk g ret) (h : ZsmInv g s) {z : Nat} {r : Int}
    (hr : zsmEvict g ret s z = .ok (r, s')) : ZsmInv g s' := by
  have hst : (s.state z).state = .full := by
    unfold zsmEvict at hr
    exact (check_bind_ok hr).1
  rw [zsmEvict_spec hret hst] at hr
  cases hr
  exact evicted_inv h hst

/-- Marking a chunk invalid touches nothing the invariant speaks of. -/
theorem ZsmInv.mark (h : ZsmInv g s) (l : ZnPair) : ZsmInv g (zsmMarkChunkInvalid s l) := by
  have hsame := zsmMarkChunkInvalid_same s l
  constructor
  case free_nodup => exact h.free_nodup
  case active_nodup => exact h.active_nodup
  case room => exact h.room
  case mem_free =>
    intro z
    rw [(hsame z).2.1]
    exact h.mem_free z
  case mem_active =>
    intro z
    rw [(hsame z).2.1]
    exact h.mem_active z
  case writes =>
    have hcount : zonesIn g (zsmMarkChunkInvalid s l) .writeOccuring = zonesIn g s .writeOccuring :=
      ThreadPool.countOn_congr fun z _ => by rw [(hsame z).2.1]
    rw [hcount]
    exact h.writes
  case outside =>
    intro z hz
    rw [(hsame z).2.1]
    exact h.outside z hz
  case zone_id =>
    intro z
    rw [(hsame z).1]
    exact h.zone_id z
  case free_offset =>
    intro z
    rw [(hsame z).2.1, (hsame z).2.2]
    exact h.free_offset z
  case open_offset =>
    intro z
    rw [(hsame z).2.1, (hsame z).2.2]
    exact h.open_offset z

end Calls

/-! ## §2. Every run. -/

variable {Tid : Type u} [DecidableEq Tid]

/-- **The representation invariant holds in every run** whose zone commands
succeed. -/
theorem zsm_inv_reach (hpos : 1 ≤ g.maxZoneChunks)
    (hpol : ∀ a s e s' e', DeviceOk g a.ret → ZsmInv g s.zoneState →
      pol.step g a s e = some (.ok (s', e')) → ZsmInv g s'.zoneState)
    {C : Sys P E Tid → SysLabel Tid → Prop} (hC : ∀ s l, C s l → l.ZoneOk g) {s : Sys P E Tid}
    (hr : (cacheSystem Tid pol g rb).Reach C s) : ZsmInv g s.cache.zoneState := by
  refine TransSys.Reach.invariant (I := fun s => ZsmInv g s.cache.zoneState) ?_ ?_ hr
  · intro s hs
    obtain ⟨bytes, rfl⟩ := hs
    exact zsmInit_inv g
  · intro s l s' _ h hc hs
    have hok := hC s l hc
    cases sysStep_cases hs with
    | get | fgEvict | taskSleeps | taskEvicts | ret => exact h
    | evict _ hstep => exact hpol _ _ _ _ _ hok h hstep
    | step _ hcase =>
      cases hcase with
      | find | wake | read | readUpdate | readDone | hit | write | miss | writeUpdate | publish
      | undoMap => exact h
      | acquire hr => exact h.acquire_ok hpos hok hr
      | evict hstep => exact hpol _ _ _ _ _ hok h hstep
      | commit hr => exact h.return_ok hok hr
      | undoZoneGet hr => exact h.failed_ok hr

/-! ## §3. Zones that are being written. -/

/-- A call that was handed a zone and has not given it back. -/
def Pc.Holds : Pc E → Prop
  | .get (.write ..) | .get (.miss ..) | .get (.commit ..) | .get (.undoZoneGet ..) => True
  | .idle | .evictor _ | .get (.find _) | .get (.findWait ..) | .get (.read ..)
  | .get (.readUpdate ..) | .get (.readDone ..) | .get (.hit ..) | .get (.acquire _)
  | .get (.evict ..) | .get (.writeUpdate ..) | .get (.publish ..) | .get (.undoMap _)
  | .get (.done ..) => False

instance Pc.decHolds : DecidablePred (Pc.Holds (E := E))
  | .get (.write ..) | .get (.miss ..) | .get (.commit ..) | .get (.undoZoneGet ..) => isTrue trivial
  | .idle | .evictor _ | .get (.find _) | .get (.findWait ..) | .get (.read ..)
  | .get (.readUpdate ..) | .get (.readDone ..) | .get (.hit ..) | .get (.acquire _)
  | .get (.evict ..) | .get (.writeUpdate ..) | .get (.publish ..) | .get (.undoMap _)
  | .get (.done ..) => isFalse id

/-- `writes_occurring` counts the calls that hold a zone. -/
def WritesExact [Fintype Tid] (s : Sys P E Tid) : Prop :=
  s.cache.zoneState.writesOccurring = countOn Finset.univ Pc.Holds s.pool

/-- What a step must do to the counter when its thread moves to `pc'`. -/
def WritesMove (pc pc' : Pc E) (z z' : ZoneStateManager) : Prop :=
  z'.writesOccurring + (if pc.Holds then 1 else 0) = z.writesOccurring + (if pc'.Holds then 1 else 0)

omit [DecidableEq Tid] in
/-- A zone is handed out, and counted, or neither. -/
theorem AcquireCase.writesMove {z z' : ZoneStateManager} {r : ZsmGetActiveZone}
    (h : AcquireCase z r z') (id : Nat) :
    WritesMove (.get (.acquire id)) (.get (r.getPc pol id)) z z' := by
  cases h with
  | @unchanged r hr =>
    cases r with
    | success l => exact absurd rfl (hr l)
    | retry | error | evict => rfl
  | lost => rfl
  | reuse | opened => exact Int.add_zero _

omit [DecidableEq Tid] in
theorem GetCase.writesMove
    (hpol : ∀ a s e s' e', pol.step g a s e = some (.ok (s', e')) →
      s'.zoneState.writesOccurring = s.zoneState.writesOccurring)
    {a : Answers} {s s' : CacheState P} {pc pc' : GetPc E} (h : GetCase pol g rb a s pc s' pc') :
    WritesMove (.get pc) (.get pc') s.zoneState s'.zoneState := by
  cases h with
  | @find id r | @wake id c seen r => cases r <;> rfl
  | read | readUpdate | readDone | hit | miss | writeUpdate | publish | undoMap => rfl
  | acquire hr => exact (zsmGetActiveZone_cases hr).writesMove _
  | @evict id e s' e' hstep =>
    show _ + 0 = _ + _
    rw [hpol _ _ _ _ _ hstep]
    cases e' <;> rfl
  | @write id l r d =>
    by_cases hr : r = 0
    · rw [if_neg (by simpa using hr)]
      rfl
    · rw [if_pos hr]
      rfl
  | commit hr =>
    show _ + (1 : Int) = _ + 0
    cases (zsmReturnActiveZone_cases hr).2.2 with
    | closed | stuck | reopened =>
      show s.zoneState.writesOccurring - 1 + 1 = s.zoneState.writesOccurring + 0
      omega
  | undoZoneGet hr =>
    obtain ⟨-, -, rfl⟩ := zsmFailedToWrite_cases hr
    show s.zoneState.writesOccurring - 1 + (1 : Int) = s.zoneState.writesOccurring + 0
    omega

theorem WritesExact.goto [Fintype Tid] {s : Sys P E Tid} (h : WritesExact s) {t : Tid}
    {c : CacheState P} {pc pc' : Pc E} (ht : s.pool t = pc)
    (hmove : WritesMove pc pc' s.cache.zoneState c.zoneState) : WritesExact (s.goto t c pc') := by
  have hcount := countOn_update (D := Finset.univ) Pc.Holds s.pool (Finset.mem_univ t) pc'
  unfold WritesExact at h
  unfold WritesMove at hmove
  rw [ht] at hcount
  show c.zoneState.writesOccurring = (countOn Finset.univ Pc.Holds (Function.update s.pool t pc') : Int)
  split_ifs at hcount hmove <;> omega

/-- **`writes_occurring` is exact** in every run. -/
theorem writes_exact [Fintype Tid]
    (hpol : ∀ a s e s' e', pol.step g a s e = some (.ok (s', e')) →
      s'.zoneState.writesOccurring = s.zoneState.writesOccurring)
    {C : Sys P E Tid → SysLabel Tid → Prop} {s : Sys P E Tid}
    (hr : (cacheSystem Tid pol g rb).Reach C s) : WritesExact s := by
  refine hr.invariant ?_ fun s l s' _ h _ hs => ?_
  · intro s hs
    obtain ⟨bytes, rfl⟩ := hs
    unfold WritesExact
    rw [(countOn_eq_zero_iff _ _).mpr fun _ _ hz => hz]
    rfl
  · cases sysStep_cases hs with
    | get ht | fgEvict ht | taskEvicts ht | ret ht => exact h.goto ht rfl
    | taskSleeps => exact h
    | step ht hcase => exact h.goto ht (hcase.writesMove hpol)
    | @evict t a e e' c ht hstep =>
      refine h.goto ht ?_
      show _ + 0 = _ + _
      rw [hpol _ _ _ _ _ hstep]
      cases e' <;> rfl

/-! ## §4. No zone is lost. -/

/-- Where no zone is being written, each is in one of the queues of the manager,
or with whoever keeps the full ones. -/
theorem ZsmInv.queued {z : ZoneStateManager} (h : ZsmInv g z) (hwrites : z.writesOccurring = 0)
    {full : List Nat} (hnodup : full.Nodup)
    (hfull : ∀ y, y ∈ full ↔ (z.state y).state = .full) :
    (z.free ++ z.active ++ full).Perm (List.range g.nrZones) := by
  have hnone : zonesIn g z .writeOccuring = 0 := by
    have hcount := h.writes
    omega
  -- a zone is in a queue by its state, and has one
  have hapart : ∀ y, y ∈ z.free → y ∉ z.active ∧ y ∉ full := by
    intro y hy
    have hst := ((h.mem_free y).mp hy).2
    rw [h.mem_active, hfull, hst]
    exact ⟨fun hin => (by cases hin.2), fun hin => by cases hin⟩
  have hapart' : ∀ y, y ∈ z.active → y ∉ full := by
    intro y hy
    have hst := ((h.mem_active y).mp hy).2
    rw [hfull, hst]
    exact fun hin => by cases hin
  have hall : (z.free ++ z.active ++ full).Nodup := by
    rw [List.append_assoc]
    apply List.Nodup.append h.free_nodup (h.active_nodup.append hnodup fun y hy => hapart' y hy)
    intro y hy hin
    rcases List.mem_append.mp hin with hin | hin
    · exact (hapart y hy).1 hin
    · exact (hapart y hy).2 hin
  refine (List.perm_ext_iff_of_nodup hall List.nodup_range).mpr fun y => ?_
  rw [List.mem_append, List.mem_append, List.mem_range, h.mem_free, h.mem_active, hfull]
  constructor
  · rintro ((hy | hy) | hy)
    · exact hy.1
    · exact hy.1
    · exact h.lt_of_state (by rw [hy]; decide)
  · intro hy
    cases hst : (z.state y).state with
    | free => exact Or.inl (Or.inl ⟨hy, rfl⟩)
    | active => exact Or.inl (Or.inr ⟨hy, rfl⟩)
    | full => exact Or.inr rfl
    | writeOccuring => exact absurd hst ((countOn_eq_zero_iff _ _).mp hnone y (Finset.mem_range.mpr hy))

end ZnCache
