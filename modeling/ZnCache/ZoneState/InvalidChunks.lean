/-
  ZnCache.ZoneState.InvalidChunks — the invalid queues over evictions.

  `zsm_evict` is to empty the invalid queue of the zone it resets.  The test
  after the reset is the wrong way round: a successful reset returns before the
  queue is cleared, and a failed one goes on to the assertion that the zone is
  FREE.  So the marks of one life of a zone are still there in the next
  (`marks_survive`).

  Main result: `invalid_chunks_counted` — an eviction does what it should exactly
  when the device obeys and there is nothing to clear, and in the runs whose
  evictions are all of this kind the queues list the chunks marked.
-/
import ZnCache.ZoneState.History
import ZnCache.ZoneState.DeviceErrors

namespace ZnCache

open Lib

/-! ## §1. Runs with marks. -/

/-- A logged run, and the offsets marked in each zone since its last reset. -/
structure MarkRun where
  log : ZsmLog
  marked : Nat → List Nat

/-- The manager of a run. -/
abbrev MarkRun.zsm (r : MarkRun) : ZoneStateManager := r.log.run.zsm

def ZsmUse.events (g : Geometry) (r : ZsmRun) : ZsmUse → List ZsmEvent
  | .call op => op.events g r
  | .mark _ => []

/-- What the marks since the last reset become. -/
def ZsmUse.marks (marked : Nat → List Nat) : ZsmUse → Nat → List Nat
  | .call (.evict zone _) => Function.update marked zone []
  | .mark p => Function.update marked p.zone (marked p.zone ++ [p.chunkOffset])
  | _ => marked

/-- The runs from `zsm_init`, logged, with the marks. -/
def markSystem (g : Geometry) : TransSys MarkRun ZsmUse where
  init r := r = ⟨⟨⟨zsmInit g, []⟩, []⟩, fun _ => []⟩
  step r use r' := zsmUse g r.log.run use = .ok r'.log.run
    ∧ r'.log.log = use.events g r.log.run ++ r.log.log ∧ r'.marked = use.marks r.marked

/-- The callers' side: a chunk is marked after it was written, and once. -/
def ZsmUse.Proper (r : MarkRun) : ZsmUse → Prop
  | .call op => op.Called r.log.run
  | .mark p => p.chunkOffset ∈ committedOffsets p.zone r.log.log ∧ p.chunkOffset ∉ r.marked p.zone

/-- The device resets the zone, and nothing is marked in it. -/
def ZsmUse.NothingToClear (g : Geometry) (r : MarkRun) : ZsmUse → Prop
  | .call (.evict zone ret) => DeviceOk g ret ∧ (r.zsm.state zone).invalid = []
  | _ => True

/-- **What an eviction is to do**: free the zone, queue it once and empty its
invalid queue, or report the error and leave the manager alone. -/
def EvictsCleanly (g : Geometry) (ret : Int) (s : ZoneStateManager) (zone : Nat) : Prop :=
  (∃ s', zsmEvict g ret s zone = .ok (0, s') ∧ (s'.state zone).state = .free
    ∧ s'.free = s.free ++ [zone] ∧ s'.free.count zone = 1 ∧ (s'.state zone).invalid = [])
  ∨ ∃ e, zsmEvict g ret s zone = .ok (e, s) ∧ e ≠ 0

/-- No call touches an invalid queue, not even an eviction. -/
theorem zsmOp_invalid {g : Geometry} {r r' : ZsmRun} {op : ZsmOp} (hs : zsmOp g r op = .ok r')
    (z : Nat) : (r'.zsm.state z).invalid = (r.zsm.state z).invalid := by
  have hupdate : ∀ {y : Nat} {zn : ZnZone}, zn.invalid = (r.zsm.state y).invalid →
      (Function.update r.zsm.state y zn z).invalid = (r.zsm.state z).invalid := by
    intro y zn hzn
    by_cases hz : z = y
    · rw [hz, Function.update_self, hzn]
    · rw [Function.update_of_ne hz]
  cases zsmOp_cases hs with
  | nothing | lost => rfl
  | took hcase =>
    cases hcase with
    | unchanged hres => exact absurd rfl (hres _)
    | reuse | opened => exact hupdate rfl
  | gaveBack _ hcase =>
    cases hcase with
    | closed | stuck | reopened => exact hupdate rfl
  -- `zsm_evict` returns before it clears the queue
  | failed | evicted => exact hupdate rfl

/-! ## §2. One eviction. -/

/-- **An eviction is clean** exactly when the device obeys and there is nothing
to clear. -/
theorem evictsCleanly_iff {g : Geometry} {ret : Int} {s : ZoneStateManager} {z : Nat}
    (hfree : ∀ y ∈ s.free, (s.state y).state = .free) (hst : (s.state z).state = .full) :
    EvictsCleanly g ret s z ↔ DeviceOk g ret ∧ (s.state z).invalid = [] := by
  have hnot : z ∉ s.free := fun hin => by
    have hz := hfree z hin
    rw [hst] at hz
    cases hz
  constructor
  · intro h
    rcases h with ⟨s', hret, -, -, -, hinv⟩ | ⟨e, hret, he⟩
    · obtain ⟨-, -, hok, rfl⟩ := zsmEvict_returns hret
      refine ⟨?_, by simpa [evicted] using hinv⟩
      unfold DeviceOk
      cases hb : g.backend with
      | block => exact Or.inl rfl
      | zns => exact Or.inr (Classical.byContradiction fun hne => hok ⟨hb, hne⟩)
    · exact absurd (zsmEvict_returns hret).2.1 he
  · intro h
    obtain ⟨hok, hinv⟩ := h
    refine Or.inl ⟨evicted s z, zsmEvict_spec hok hst, ?_, rfl, ?_, ?_⟩
    · simp [evicted]
    · show (s.free ++ [z]).count z = 1
      rw [List.count_append, List.count_eq_zero_of_not_mem hnot, List.count_singleton_self]
    · simpa [evicted] using hinv

/-! ## §3. The offsets that can be marked. -/

/-- The offsets at which zones stand and locations are held are chunks. -/
structure OffsetsIn (g : Geometry) (r : ZsmLog) : Prop where
  active : ∀ z, (r.run.zsm.state z).state = .active →
    (r.run.zsm.state z).chunkOffset < g.maxZoneChunks
  handed : ∀ p ∈ r.run.handedOut, p.chunkOffset < g.maxZoneChunks
  committed : ∀ p, .commit p ∈ r.log → p.chunkOffset < g.maxZoneChunks

namespace OffsetsIn

variable {g : Geometry} {r : ZsmLog}

theorem active_update (h : OffsetsIn g r) {z : Nat} {zn : ZnZone}
    (hzn : zn.state = .active → zn.chunkOffset < g.maxZoneChunks) :
    ∀ y, (Function.update r.run.zsm.state z zn y).state = .active →
      (Function.update r.run.zsm.state z zn y).chunkOffset < g.maxZoneChunks := by
  intro y
  by_cases hy : y = z
  · rw [hy, Function.update_self]
    exact hzn
  · rw [Function.update_of_ne hy]
    exact h.active y

/-- **Step lemma.** -/
theorem step (hmax : 1 ≤ g.maxZoneChunks) (h : OffsetsIn g r) {op : ZsmOp} (hop : op.Called r.run)
    {run' : ZsmRun} (hs : zsmOp g r.run op = .ok run') :
    OffsetsIn g ⟨run', op.events g r.run ++ r.log⟩ := by
  -- only a location given back adds a commit to the log
  have hlogged : ∀ e : ZsmEvent, (∀ p, e = .commit p → p.chunkOffset < g.maxZoneChunks) →
      ∀ p, .commit p ∈ e :: r.log → p.chunkOffset < g.maxZoneChunks := by
    intro e he p hp
    rcases List.mem_cons.mp hp with heq | hp
    · exact he p heq.symm
    · exact h.committed p hp
  have herase : ∀ q, ∀ p ∈ r.run.handedOut.erase q, p.chunkOffset < g.maxZoneChunks :=
    fun q p hp => h.handed p (List.mem_of_mem_erase hp)
  cases zsmOp_cases hs with
  | @nothing ret res hres hget =>
    simp only [ZsmOp.events, hget]
    cases res with
    | success l => exact absurd rfl (hres l)
    | retry | error | evict => exact h
  | lost hf hget =>
    simp only [ZsmOp.events, hget]
    exact ⟨h.active, h.handed, h.committed⟩
  | took hcase hget =>
    simp only [ZsmOp.events, hget]
    cases hcase with
    | unchanged hres => exact absurd rfl (hres _)
    | @reuse z rest ha hst =>
      refine ⟨h.active_update (by simp), ?_, hlogged _ (by simp)⟩
      intro p hp
      rcases List.mem_cons.mp hp with rfl | hp
      · exact h.active z hst
      · exact h.handed p hp
    | opened =>
      refine ⟨h.active_update (by simp), ?_, hlogged _ (by simp)⟩
      intro p hp
      rcases List.mem_cons.mp hp with rfl | hp
      · exact hmax
      · exact h.handed p hp
  | @gaveBack q _ _ hst hcase =>
    have hcommitted := hlogged (.commit q) fun p heq => by
      cases heq
      exact h.handed q hop
    cases hcase with
    | closed => exact ⟨h.active_update (by simp [closedZone]), herase q, hcommitted⟩
    | stuck => exact ⟨h.active_update (by simp [hst]), herase q, hcommitted⟩
    | reopened hnot =>
      refine ⟨h.active_update fun _ => ?_, herase q, hcommitted⟩
      -- the next chunk is one of the zone: it was not the last
      have hq : q.chunkOffset < g.maxZoneChunks := h.handed q hop
      show (q.chunkOffset + 1) % 2 ^ 32 < g.maxZoneChunks
      omega
  | @failed q =>
    exact ⟨h.active_update fun _ => h.handed q hop, herase q, hlogged _ (by simp)⟩
  | evicted => exact ⟨h.active_update (by simp), h.handed, hlogged _ (by simp)⟩

end OffsetsIn

/-- An offset committed is that of a commit in the log. -/
theorem mem_committedOffsets {z c : Nat} {log : List ZsmEvent} (h : c ∈ committedOffsets z log) :
    ∃ p : ZnPair, .commit p ∈ log ∧ p.chunkOffset = c := by
  unfold committedOffsets zoneLife at h
  obtain ⟨x, hx, hxc⟩ := List.mem_filterMap.mp (List.mem_reverse.mp h)
  obtain ⟨e, he, hex⟩ := List.mem_filterMap.mp hx
  have hlog : e ∈ log := (List.takeWhile_sublist _).subset he
  unfold ZsmEvent.slot at hex
  split at hex
  · split at hex
    · cases hex
      cases hxc
    · cases hex
  · rename_i p
    split at hex
    · cases hex
      cases hxc
      exact ⟨p, hlog, rfl⟩
    · cases hex
  · split at hex
    · cases hex
      cases hxc
    · cases hex
  · cases hex

/-! ## §4. The whole run. -/

/-- What marks are, in any run: written chunks, each once. -/
structure MarkInv (g : Geometry) (r : MarkRun) : Prop where
  books : ZsmBooks g r.log.run
  offsets : 1 ≤ g.maxZoneChunks → OffsetsIn g r.log
  marked_lt : 1 ≤ g.maxZoneChunks → ∀ z, ∀ c ∈ r.marked z, c < g.maxZoneChunks
  marked_nodup : ∀ z, (r.marked z).Nodup

namespace MarkInv

variable {g : Geometry} {r : MarkRun}

/-- **Step lemma.** -/
theorem step (h : MarkInv g r) {use : ZsmUse} (huse : use.Proper r)
    {r' : MarkRun} (hs : (markSystem g).step r use r') : MarkInv g r' := by
  obtain ⟨hrun, hlog, hmarks⟩ := hs
  obtain ⟨⟨run', log'⟩, marked'⟩ := r'
  dsimp only at hrun hlog hmarks
  subst hlog hmarks
  cases use with
  | call op =>
    refine ⟨h.books.step huse hrun, fun hmax => (h.offsets hmax).step hmax huse hrun, ?_, ?_⟩
    · intro hmax z c hc
      cases op with
      | get | giveBack | fail => exact h.marked_lt hmax z c hc
      | evict y ret =>
        have hc' : c ∈ Function.update r.marked y [] z := hc
        by_cases hz : z = y
        · rw [hz, Function.update_self] at hc'
          cases hc'
        · rw [Function.update_of_ne hz] at hc'
          exact h.marked_lt hmax z c hc'
    · intro z
      cases op with
      | get | giveBack | fail => exact h.marked_nodup z
      | evict y ret =>
        show (Function.update r.marked y [] z).Nodup
        by_cases hz : z = y
        · rw [hz, Function.update_self]
          exact List.nodup_nil
        · rw [Function.update_of_ne hz]
          exact h.marked_nodup z
  | mark p =>
    obtain ⟨hwritten, hnew⟩ := huse
    cases hrun
    refine ⟨h.books.mark p, ?_, ?_, ?_⟩
    · intro hmax
      have hoffsets := h.offsets hmax
      constructor
      · apply hoffsets.active_update (z := p.zone)
        exact hoffsets.active p.zone
      · exact hoffsets.handed
      · exact hoffsets.committed
    · intro hmax z c hc
      have hc' : c ∈ Function.update r.marked p.zone (r.marked p.zone ++ [p.chunkOffset]) z := hc
      by_cases hz : z = p.zone
      · rw [hz, Function.update_self] at hc'
        rcases List.mem_append.mp hc' with hc' | hc'
        · exact h.marked_lt hmax p.zone c hc'
        · obtain ⟨q, hq, heq⟩ := mem_committedOffsets hwritten
          rw [List.mem_singleton.mp hc', ← heq]
          exact (h.offsets hmax).committed q hq
      · rw [Function.update_of_ne hz] at hc'
        exact h.marked_lt hmax z c hc'
    · intro z
      show (Function.update r.marked p.zone (r.marked p.zone ++ [p.chunkOffset]) z).Nodup
      by_cases hz : z = p.zone
      · rw [hz, Function.update_self]
        exact nodup_push (h.marked_nodup p.zone) hnew
      · rw [Function.update_of_ne hz]
        exact h.marked_nodup z

/-- **Run lemma**, whatever the device answers. -/
theorem reach (hr : (markSystem g).Reach (fun r use => use.Proper r) r) : MarkInv g r := by
  apply TransSys.Reach.invariant (I := MarkInv g) _ _ hr
  · intro r hinit
    obtain rfl : r = ⟨⟨⟨zsmInit g, []⟩, []⟩, fun _ => []⟩ := hinit
    refine ⟨ZsmBooks.reach (.start rfl), ?_, ?_, ?_⟩
    · intro _
      constructor
      · intro z hz
        cases hz
      · intro p hp
        cases hp
      · intro p hp
        cases hp
    · intro _ z c hc
      cases hc
    · intro z
      exact List.nodup_nil
  · intro r use r' _ h huse hs
    exact h.step huse hs

end MarkInv

/-- While nothing is left to clear, the queues and the marks agree. -/
theorem invalid_eq_marked {g : Geometry} {r : MarkRun}
    (hr : (markSystem g).Reach (fun r use => use.Proper r ∧ use.NothingToClear g r) r) :
    ∀ z, (r.zsm.state z).invalid = r.marked z := by
  apply TransSys.Reach.invariant (I := fun r => ∀ z, (r.zsm.state z).invalid = r.marked z) _ _ hr
  · intro r hinit z
    obtain rfl : r = ⟨⟨⟨zsmInit g, []⟩, []⟩, fun _ => []⟩ := hinit
    rfl
  · intro r use r' _ h huse hs z
    obtain ⟨hrun, -, hmarks⟩ := hs
    rw [hmarks]
    cases use with
    | call op =>
      rw [zsmOp_invalid hrun z, h z]
      cases op with
      | get | giveBack | fail => rfl
      | evict y ret =>
        have hempty : (r.zsm.state y).invalid = [] := huse.2.2
        rw [h y] at hempty
        show r.marked z = Function.update r.marked y [] z
        by_cases hz : z = y
        · rw [hz, Function.update_self, hempty]
        · rw [Function.update_of_ne hz]
    | mark p =>
      have hzsm : r'.zsm = zsmMarkChunkInvalid r.zsm p :=
        congrArg ZsmRun.zsm (Except.ok.inj hrun).symm
      rw [hzsm]
      show (Function.update r.zsm.state p.zone _ z).invalid
        = Function.update r.marked p.zone (r.marked p.zone ++ [p.chunkOffset]) z
      by_cases hz : z = p.zone
      · rw [hz, Function.update_self, Function.update_self]
        show (r.zsm.state p.zone).invalid ++ _ = _
        rw [h p.zone]
      · rw [Function.update_of_ne hz, Function.update_of_ne hz]
        exact h z

/-- **THE INVALID-CHUNK THEOREM.**  A full zone is evicted cleanly exactly when
the device obeys and nothing is marked in it; and in the runs all of whose
evictions are such, the invalid queue of a zone lists the chunks marked since
its last reset, each once, no more than a zone has that has any. -/
theorem invalid_chunks_counted (g : Geometry) :
    (∀ r, (markSystem g).Reach (fun r use => use.Proper r) r →
      ∀ z ret, (r.zsm.state z).state = .full →
        (EvictsCleanly g ret r.zsm z ↔ DeviceOk g ret ∧ (r.zsm.state z).invalid = []))
    ∧ ∀ r, (markSystem g).Reach (fun r use => use.Proper r ∧ use.NothingToClear g r) r →
      ∀ z, (r.zsm.state z).invalid = r.marked z ∧ (r.zsm.state z).invalid.Nodup
        ∧ (1 ≤ g.maxZoneChunks → zsmGetNumInvalidChunks r.zsm z ≤ g.maxZoneChunks) := by
  constructor
  · intro r hr z ret hst
    exact evictsCleanly_iff (MarkInv.reach hr).books.free_state hst
  · intro r hr z
    have hany : (markSystem g).Reach (fun r use => use.Proper r) r := hr.mono fun _ _ h => h.1
    have h := MarkInv.reach hany
    have heq := invalid_eq_marked hr z
    refine ⟨heq, heq ▸ h.marked_nodup z, fun hmax => ?_⟩
    have hsub : r.marked z ⊆ List.range g.maxZoneChunks :=
      fun c hc => List.mem_range.mpr (h.marked_lt hmax z c hc)
    unfold zsmGetNumInvalidChunks
    calc (r.zsm.state z).invalid.length = (r.marked z).length := by rw [heq]
      _ ≤ (List.range g.maxZoneChunks).length :=
        (List.subperm_of_subset (h.marked_nodup z) hsub).length_le
      _ = g.maxZoneChunks := List.length_range

instance ZsmUse.decProper (r : MarkRun) (use : ZsmUse) : Decidable (use.Proper r) :=
  match use with
  | .call op => inferInstanceAs (Decidable (op.Called r.log.run))
  | .mark p => inferInstanceAs (Decidable (p.chunkOffset ∈ committedOffsets p.zone r.log.log
      ∧ p.chunkOffset ∉ r.marked p.zone))

instance ZsmUse.decNothingToClear (g : Geometry) (r : MarkRun) (use : ZsmUse) :
    Decidable (use.NothingToClear g r) :=
  match use with
  | .call (.evict zone ret) =>
    inferInstanceAs (Decidable (DeviceOk g ret ∧ (r.zsm.state zone).invalid = []))
  | .call (.get _) | .call (.giveBack _ _) | .call (.fail _) | .mark _ => isTrue trivial

/-- Replay one use, if `ok` lets it pass. -/
def markReplay (g : Geometry) (ok : MarkRun → ZsmUse → Bool) (r : MarkRun) (use : ZsmUse) :
    Option MarkRun :=
  if ok r use then
    (zsmUse g r.log.run use).toOption.map fun run =>
      ⟨⟨run, use.events g r.log.run ++ r.log.log⟩, use.marks r.marked⟩
  else none

theorem markReplay_sound {g : Geometry} {ok : MarkRun → ZsmUse → Bool} (r : MarkRun) (use : ZsmUse)
    (r' : MarkRun) (h : markReplay g ok r use = some r') :
    ok r use = true ∧ (markSystem g).step r use r' := by
  unfold markReplay at h
  split at h
  · obtain ⟨run, hrun, rfl⟩ := Option.map_eq_some_iff.mp h
    exact ⟨‹_›, toOption_eq_some hrun, rfl, rfl⟩
  · cases h

/-- One zone of one chunk: filled, reset, filled again, and the chunk marked. -/
theorem invalid_chunks_counted_refilled :
    ∃ r : MarkRun, (r.zsm.state 0).invalid = [0]
      ∧ zsmGetNumInvalidChunks r.zsm 0 ≤ Geometry.maxZoneChunks ⟨1, 1, 1, 1, 1, .zns⟩ := by
  obtain ⟨r, hr, hp⟩ := TransSys.Reach.exists_of_exec
    (C := fun r use => use.Proper r ∧ use.NothingToClear ⟨1, 1, 1, 1, 1, .zns⟩ r)
    (f := markReplay ⟨1, 1, 1, 1, 1, .zns⟩
      fun r use => decide (use.Proper r ∧ use.NothingToClear ⟨1, 1, 1, 1, 1, .zns⟩ r))
    (fun r use r' h => by
      obtain ⟨hok, hs⟩ := markReplay_sound r use r' h
      exact ⟨of_decide_eq_true hok, hs⟩)
    (T := markSystem ⟨1, 1, 1, 1, 1, .zns⟩) rfl
    (fun r => (r.zsm.state 0).invalid = [0])
    [.call (.get 0), .call (.giveBack ⟨0, 0, 0, false⟩ 0), .call (.evict 0 0), .call (.get 0),
      .call (.giveBack ⟨0, 0, 0, false⟩ 0), .mark ⟨0, 0, 0, false⟩] (by decide)
  simp only [decide_eq_true_eq] at hp
  exact ⟨r, hp, ((invalid_chunks_counted _).2 r hr 0).2.2 (by decide)⟩

/-- **MARKS SURVIVE.**  The only chunk of a zone is marked and the zone evicted:
it is FREE, and its invalid queue is not empty.  Filled and marked once more,
the zone has two invalid chunks.  And when the reset fails, `zsm_evict` fails
its assertion. -/
theorem marks_survive :
    ∃ r : MarkRun, (markSystem ⟨1, 1, 1, 1, 1, .zns⟩).Reach (fun r use => use.Proper r) r
      ∧ (r.zsm.state 0).state = .full ∧ r.marked 0 = [0]
      ∧ (∃ s', zsmEvict ⟨1, 1, 1, 1, 1, .zns⟩ 0 r.zsm 0 = .ok (0, s')
        ∧ (s'.state 0).state = .free ∧ (s'.state 0).invalid = [0, 0])
      ∧ zsmGetNumInvalidChunks r.zsm 0 = 2
      ∧ zsmEvict ⟨1, 1, 1, 1, 1, .zns⟩ 5 r.zsm 0 = .error .assertion := by
  obtain ⟨r, hr, hp⟩ := TransSys.Reach.exists_of_exec
    (C := fun r use => use.Proper r)
    (f := markReplay ⟨1, 1, 1, 1, 1, .zns⟩ fun r use => decide (use.Proper r))
    (fun r use r' h => by
      obtain ⟨hok, hs⟩ := markReplay_sound r use r' h
      exact ⟨of_decide_eq_true hok, hs⟩)
    (T := markSystem ⟨1, 1, 1, 1, 1, .zns⟩) rfl
    (fun r => (r.zsm.state 0).state = .full ∧ r.marked 0 = [0] ∧ (r.zsm.state 0).invalid = [0, 0])
    [.call (.get 0), .call (.giveBack ⟨0, 0, 0, false⟩ 0), .mark ⟨0, 0, 0, false⟩,
      .call (.evict 0 0), .call (.get 0), .call (.giveBack ⟨0, 0, 0, false⟩ 0),
      .mark ⟨0, 0, 0, false⟩] (by decide)
  simp only [decide_eq_true_eq] at hp
  obtain ⟨hst, hmarked, hinv⟩ := hp
  refine ⟨r, hr, hst, hmarked, ⟨_, zsmEvict_spec (Or.inr rfl) hst, ?_, ?_⟩, ?_, ?_⟩
  · simp [evicted]
  · simpa [evicted] using hinv
  · rw [zsmGetNumInvalidChunks, hinv]
    rfl
  · simp [zsmEvict, resetZone, check, hst, bind, Except.bind]

end ZnCache
