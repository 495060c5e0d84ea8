/-
  ZnCache.Promotional.EvictBound — how many zones one call of `zn_fg_evict`
  evicts.

  The loop runs to `EVICT_LOW_THRESH_ZONES - free_zones`, a difference of
  `uint32_t` values, and the number of free zones was read before: by then
  other evictors may have freed more than `EVICT_LOW_THRESH_ZONES`, and the
  difference wraps.

  `EvictRun` adds to a run what each thread read in its latest call and how
  many zones it has reset since.

  Main results:
    * `evicts_at_most` — a call that read at most `EVICT_LOW_THRESH_ZONES` free
      zones keeps to the difference; a call that read more evicts while there
      is a zone to evict;
    * `late_evictor_empties` — such a call.
-/
import ZnCache.Promotional.Publication

namespace ZnCache

open Lib

universe u

variable {Tid : Type u} [DecidableEq Tid] {g : Geometry} {rb : Buffer}

/-! ## §1. What a call has done. -/

/-- A run, with the free zones read by each thread's latest call of
`zn_fg_evict` and the zones it has evicted. -/
structure EvictRun (Tid : Type u) where
  sys : Sys ZnPolicyPromotional FgEvict Tid
  read : Tid → Nat
  evicted : Tid → Nat

/-- What a step adds. -/
def EvictRun.next (r : EvictRun Tid) (sys : Sys ZnPolicyPromotional FgEvict Tid) :
    SysLabel Tid → EvictRun Tid
  | .step t _ =>
    match (r.sys.pool t).evicting with
    | some .start =>
      { sys := sys
        read := Function.update r.read t (zsmGetNumFreeZones r.sys.cache.zoneState)
        evicted := Function.update r.evicted t 0 }
    | some (.reset _ _ _) =>
      { sys := sys, read := r.read, evicted := Function.update r.evicted t (r.evicted t + 1) }
    | _ => { r with sys := sys }
  | _ => { r with sys := sys }

/-- The runs of the cache, with the calls of `zn_fg_evict`. -/
def evictRunSystem (Tid : Type u) [DecidableEq Tid] (g : Geometry) (rb : Buffer) :
    TransSys (EvictRun Tid) (SysLabel Tid) where
  init r := (cacheSystem Tid promotional g rb).init r.sys ∧ (∀ t, r.read t = 0 ∧ r.evicted t = 0)
  step r l r' := ∃ sys, (cacheSystem Tid promotional g rb).step r.sys l sys ∧ r' = r.next sys l

/-! ## §2. The bound. -/

/-- Where a call stands that has read `f` and evicted `n`: it counts its
evictions, against the difference in 32 bits. -/
def FgEvict.Counts (f n : Nat) : FgEvict → Prop
  | .start => True
  | .loop i bound => i = n ∧ bound = u32Sub evictLowThreshZones f
  | .clear i bound _ | .wait i bound _ | .reset i bound _ =>
      i = n ∧ bound = u32Sub evictLowThreshZones f ∧ n < bound

/-- **Every call keeps to its bound.** -/
structure EvictBound (r : EvictRun Tid) : Prop where
  counts : ∀ t e, (r.sys.pool t).evicting = some e → e.Counts (r.read t) (r.evicted t)
  le : ∀ t, r.evicted t ≤ u32Sub evictLowThreshZones (r.read t)

theorem u32Sub_lt (a b : Nat) : u32Sub a b < 2 ^ 32 := Nat.mod_lt _ (by decide)

/-- The start of a call sets the bound. -/
theorem FgEvict.counts_start {a : Answers} {s s' : CacheState ZnPolicyPromotional}
    {e' : Option FgEvict} (h : fgEvictStep g a s .start = some (.ok (s', e'))) :
    ∀ x, e' = some x → x.Counts (zsmGetNumFreeZones s.zoneState) 0 := by
  cases h
  rintro x ⟨⟩
  exact ⟨rfl, rfl⟩

/-- A reset zone is counted: the counter of the loop cannot wrap before it
reaches the bound. -/
theorem FgEvict.counts_reset {a : Answers} {s s' : CacheState ZnPolicyPromotional}
    {i bound zone f n : Nat} {e' : Option FgEvict}
    (h : fgEvictStep g a s (.reset i bound zone) = some (.ok (s', e')))
    (hc : (FgEvict.reset i bound zone).Counts f n) :
    (∀ x, e' = some x → x.Counts f (n + 1)) ∧ n + 1 ≤ u32Sub evictLowThreshZones f := by
  obtain ⟨hi, hb, hn⟩ := hc
  have hlt := u32Sub_lt evictLowThreshZones f
  simp only [fgEvictStep] at h
  obtain ⟨z, -, heq⟩ := map_eq_ok (Option.some.inj h)
  cases heq
  refine ⟨?_, by omega⟩
  rintro x ⟨⟩
  exact ⟨by omega, hb⟩

/-- Any other step of a call keeps its place. -/
theorem FgEvict.counts_within {a : Answers} {s s' : CacheState ZnPolicyPromotional} {e : FgEvict}
    {e' : Option FgEvict} {f n : Nat} (h : fgEvictStep g a s e = some (.ok (s', e')))
    (hc : e.Counts f n) (hstart : e ≠ .start) (hreset : ∀ i bound zone, e ≠ .reset i bound zone) :
    ∀ x, e' = some x → x.Counts f n := by
  cases e with
  | start => exact absurd rfl hstart
  | loop i bound =>
    obtain ⟨hi, hb⟩ := hc
    simp only [fgEvictStep] at h
    rintro x rfl
    split at h
    · rename_i hib
      split at h
      · cases h
      · cases h
        exact ⟨hi, hb, by omega⟩
    · cases h
  | clear i bound zone =>
    cases fgEvictStep_cases h
    rintro x ⟨⟩
    exact hc
  | wait i bound zone =>
    cases fgEvictStep_cases h with
    | wait | drained =>
      rintro x ⟨⟩
      exact hc
  | reset i bound zone => exact absurd rfl (hreset i bound zone)

/-- A thread enters `zn_fg_evict` at its start, and leaves the others where
they are. -/
theorem evicting_cases {P E : Type} {pol : EvictPolicy P E} {s s' : Sys P E Tid}
    {l : SysLabel Tid} (h : sysStep pol g rb s l = some (.ok s')) (u : Tid) :
    (s'.pool u).evicting = (s.pool u).evicting ∨ (s'.pool u).evicting = some pol.entry
      ∨ ∃ a e, l = .step u a ∧ (s.pool u).evicting = some e := by
  have hother : ∀ {t : Tid} {c : CacheState P} {pc : Pc E}, u ≠ t →
      ((s.goto t c pc).pool u).evicting = (s.pool u).evicting := by
    intro t c pc hut
    rw [Sys.goto_pool, Function.update_of_ne hut]
  cases sysStep_cases h with
  | taskSleeps => exact Or.inl rfl
  | @get t id ht | @ret t _ _ ht =>
    by_cases hut : u = t
    · subst hut
      rw [Sys.goto_pool, Function.update_self, ht]
      exact Or.inl rfl
    · exact Or.inl (hother hut)
  | @fgEvict t ht | @taskEvicts t ht =>
    by_cases hut : u = t
    · subst hut
      rw [Sys.goto_pool, Function.update_self]
      exact Or.inr (Or.inl rfl)
    · exact Or.inl (hother hut)
  | @evict t a e e' c ht =>
    by_cases hut : u = t
    · subst hut
      exact Or.inr (Or.inr ⟨a, e, rfl, by rw [ht]; rfl⟩)
    · exact Or.inl (hother hut)
  | @step t a pc pc' c ht hcase =>
    by_cases hut : u = t
    · subst hut
      rw [Sys.goto_pool, Function.update_self, ht]
      cases hcase with
      | @evict id e => exact Or.inr (Or.inr ⟨a, e, rfl, rfl⟩)
      | @acquire id res =>
        cases res with
        | evict => exact Or.inr (Or.inl rfl)
        | success | retry | error => exact Or.inl rfl
      | @find id res | @wake id c seen res => cases res <;> exact Or.inl rfl
      | @write id l res =>
        by_cases hres : res = 0 <;> simp [hres, Pc.evicting]
      | read | readUpdate | readDone | hit | miss | commit | writeUpdate | publish | undoZoneGet
      | undoMap => exact Or.inl rfl
    · exact Or.inl (hother hut)

/-- Outside `zn_fg_evict` and between its resets the ghosts stand. -/
theorem EvictRun.next_of_not (r : EvictRun Tid) (sys : Sys ZnPolicyPromotional FgEvict Tid)
    (l : SysLabel Tid) (t : Tid)
    (h : ∀ a e, l = .step t a → (r.sys.pool t).evicting = some e →
      e ≠ .start ∧ ∀ i bound zone, e ≠ .reset i bound zone) :
    (r.next sys l).read t = r.read t ∧ (r.next sys l).evicted t = r.evicted t := by
  unfold EvictRun.next
  split
  · rename_i u a
    by_cases hut : t = u
    · subst hut
      split
      · exact absurd rfl (h a _ rfl ‹_›).1
      · exact absurd rfl ((h a _ rfl ‹_›).2 _ _ _)
      · exact ⟨rfl, rfl⟩
    · split
      · exact ⟨Function.update_of_ne hut .., Function.update_of_ne hut ..⟩
      · exact ⟨rfl, Function.update_of_ne hut ..⟩
      · exact ⟨rfl, rfl⟩
  · exact ⟨rfl, rfl⟩

theorem EvictRun.next_sys (r : EvictRun Tid) (sys : Sys ZnPolicyPromotional FgEvict Tid)
    (l : SysLabel Tid) : (r.next sys l).sys = sys := by
  unfold EvictRun.next
  split
  · split <;> rfl
  · rfl

/-- A thread that makes no step in `zn_fg_evict` keeps its bound. -/
theorem EvictBound.other {r : EvictRun Tid} (h : EvictBound r)
    {sys : Sys ZnPolicyPromotional FgEvict Tid} {l : SysLabel Tid}
    (hs : sysStep promotional g rb r.sys l = some (.ok sys)) {t : Tid}
    (hno : ∀ a e, l = .step t a → (r.sys.pool t).evicting ≠ some e) :
    (∀ e, (sys.pool t).evicting = some e →
      e.Counts ((r.next sys l).read t) ((r.next sys l).evicted t))
    ∧ (r.next sys l).evicted t ≤ u32Sub evictLowThreshZones ((r.next sys l).read t) := by
  obtain ⟨hread, hevicted⟩ := r.next_of_not sys l t
    fun a e hl he => absurd he (hno a e hl)
  rw [hread, hevicted]
  refine ⟨fun e he => ?_, h.le t⟩
  rcases evicting_cases hs t with hsame | hentry | ⟨a, e₀, hl, he₀⟩
  · exact h.counts t e (hsame ▸ he)
  · rw [hentry] at he
    cases he
    exact trivial
  · exact absurd he₀ (hno a e₀ hl)

/-- **A step in `zn_fg_evict`.** -/
theorem EvictBound.evicting {r : EvictRun Tid} (h : EvictBound r)
    {sys : Sys ZnPolicyPromotional FgEvict Tid} {t : Tid} {a : Answers} {e : FgEvict}
    (hs : sysStep promotional g rb r.sys (.step t a) = some (.ok sys))
    (ht : (r.sys.pool t).evicting = some e) :
    (∀ x, (sys.pool t).evicting = some x →
      x.Counts ((r.next sys (.step t a)).read t) ((r.next sys (.step t a)).evicted t))
    ∧ (r.next sys (.step t a)).evicted t
      ≤ u32Sub evictLowThreshZones ((r.next sys (.step t a)).read t) := by
  obtain ⟨e', hpol, he'⟩ := evicting_step ht hs
  have hstep : fgEvictStep g a r.sys.cache e = some (.ok (sys.cache, e')) := hpol
  have hc := h.counts t e ht
  rw [he']
  cases e with
  | start =>
    have hnext : r.next sys (.step t a) = { sys := sys
                                            read := Function.update r.read t
                                              (zsmGetNumFreeZones r.sys.cache.zoneState)
                                            evicted := Function.update r.evicted t 0 } := by
      simp only [EvictRun.next, ht]
    rw [hnext]
    dsimp only
    rw [Function.update_self, Function.update_self]
    exact ⟨FgEvict.counts_start hstep, Nat.zero_le _⟩
  | reset i bound zone =>
    have hnext : r.next sys (.step t a) = { sys := sys
                                            read := r.read
                                            evicted := Function.update r.evicted t
                                              (r.evicted t + 1) } := by
      simp only [EvictRun.next, ht]
    rw [hnext]
    dsimp only
    rw [Function.update_self]
    exact FgEvict.counts_reset hstep hc
  | loop i bound | clear i bound zone | wait i bound zone =>
    obtain ⟨hread, hevicted⟩ := r.next_of_not sys (.step t a) t
      fun a' e₀ _ he₀ => by
        rw [ht] at he₀
        cases he₀
        simp
    rw [hread, hevicted]
    exact ⟨FgEvict.counts_within hstep hc (by simp) (by simp), h.le t⟩

/-- **Step lemma.** -/
theorem EvictBound.step {r r' : EvictRun Tid} {l : SysLabel Tid} (h : EvictBound r)
    (hs : (evictRunSystem Tid g rb).step r l r') : EvictBound r' := by
  obtain ⟨sys, hsys, rfl⟩ := hs
  have key : ∀ t, (∀ e, (sys.pool t).evicting = some e →
        e.Counts ((r.next sys l).read t) ((r.next sys l).evicted t))
      ∧ (r.next sys l).evicted t ≤ u32Sub evictLowThreshZones ((r.next sys l).read t) := by
    intro t
    by_cases hmoves : ∃ a e, l = .step t a ∧ (r.sys.pool t).evicting = some e
    · obtain ⟨a, e, rfl, ht⟩ := hmoves
      exact h.evicting hsys ht
    · exact h.other hsys fun a e hl he => hmoves ⟨a, e, hl, he⟩
  refine ⟨fun t e he => (key t).1 e ?_, fun t => (key t).2⟩
  rw [EvictRun.next_sys] at he
  exact he

theorem evict_bound {C : EvictRun Tid → SysLabel Tid → Prop} {r : EvictRun Tid}
    (hr : (evictRunSystem Tid g rb).Reach C r) : EvictBound r := by
  refine hr.invariant (fun r h0 => ?_) fun r l r' _ h _ hs => h.step hs
  obtain ⟨⟨bytes, hsys⟩, hzero⟩ := h0
  refine ⟨fun t e he => ?_, fun t => ?_⟩
  · rw [hsys] at he
    cases he
  · rw [(hzero t).2]
    exact Nat.zero_le _

/-! ## §3. What a call evicts. -/

/-- The call that starts reads at most `EVICT_LOW_THRESH_ZONES` free zones. -/
def ReadsFew (r : EvictRun Tid) : SysLabel Tid → Prop
  | .step t _ => (r.sys.pool t).evicting = some .start →
      zsmGetNumFreeZones r.sys.cache.zoneState ≤ evictLowThreshZones
  | _ => True

/-- In a run of such calls, no latest call has read more. -/
theorem reads_few {r : EvictRun Tid} (hr : (evictRunSystem Tid g rb).Reach ReadsFew r) (t : Tid) :
    r.read t ≤ evictLowThreshZones := by
  refine hr.invariant (I := fun r => r.read t ≤ evictLowThreshZones) (fun r h0 => ?_)
    fun r l r' _ h hc hs => ?_
  · rw [(h0.2 t).1]
    exact Nat.zero_le _
  · obtain ⟨sys, -, rfl⟩ := hs
    unfold EvictRun.next
    split
    · rename_i u a
      split
      · rename_i hstart
        by_cases htu : t = u
        · subst htu
          show Function.update r.read t _ t ≤ _
          rw [Function.update_self]
          exact hc hstart
        · show Function.update r.read u _ t ≤ _
          rw [Function.update_of_ne htu]
          exact h
      · exact h
      · exact h
    · exact h

/-- **BOUNDED EVICTION.**  A call that read `f ≤ EVICT_LOW_THRESH_ZONES` free
zones evicts at most `EVICT_LOW_THRESH_ZONES - f`, so in a run of such calls
every call does.  A call that read more, and fewer than `2^32`, is at its first
test already bound to evict whatever zone is queued. -/
theorem evicts_at_most (Tid : Type u) [DecidableEq Tid] (g : Geometry) (rb : Buffer) :
    (∀ r, (evictRunSystem Tid g rb).Reach TransSys.Any r → ∀ t,
      r.read t ≤ evictLowThreshZones → r.evicted t ≤ evictLowThreshZones - r.read t)
    ∧ (∀ r, (evictRunSystem Tid g rb).Reach ReadsFew r → ∀ t,
      r.evicted t ≤ evictLowThreshZones - r.read t)
    ∧ ∀ r, (evictRunSystem Tid g rb).Reach TransSys.Any r → ∀ t i bound a,
      (r.sys.pool t).evicting = some (.loop i bound) → evictLowThreshZones < r.read t →
      r.read t < 2 ^ 32 → r.evicted t = 0 →
      ((∃ s' zone, fgEvictStep g a r.sys.cache (.loop i bound)
          = some (.ok (s', some (.clear i bound zone))))
        ↔ (znPolicyPromotionalGetZoneToEvict r.sys.cache.policy).1 ≠ none) := by
  have hfew : ∀ {C : EvictRun Tid → SysLabel Tid → Prop} {r : EvictRun Tid},
      (evictRunSystem Tid g rb).Reach C r → ∀ t, r.read t ≤ evictLowThreshZones →
      r.evicted t ≤ evictLowThreshZones - r.read t := by
    intro C r hr t hread
    have hle := (evict_bound hr).le t
    rwa [u32Sub_of_le hread (by decide)] at hle
  refine ⟨fun r hr t => hfew hr t, fun r hr t => hfew hr t (reads_few hr t), ?_⟩
  intro r hr t i bound a ht hmany hlt hnone
  obtain ⟨hi, hb⟩ := (evict_bound hr).counts t _ ht
  have hib : i < bound := by
    unfold u32Sub at hb
    omega
  simp only [fgEvictStep, if_pos hib]
  cases hz : znPolicyPromotionalGetZoneToEvict r.sys.cache.policy with
  | mk z p =>
    cases z with
    | none => simp
    | some zone => simp

/-! ## §4. A late evictor. -/

/-- Nine zones of one chunk. -/
abbrev nineZones : Geometry := ⟨9, 1, 4096, 4096, 4096, .block⟩

/-- Thread `t` fills one zone with each id. -/
def fillZones {Tid : Type u} (t : Tid) (ids : List UInt32) : List (SysLabel Tid) :=
  ids.flatMap fun id => .get t id :: List.replicate 7 (.step t allWell) ++ [.ret t]

/-- A worker misses and is told to evict. -/
def toldToEvict {Tid : Type u} (t : Tid) (id : UInt32) : List (SysLabel Tid) :=
  .get t id :: List.replicate 2 (.step t allWell)

/-- All zones are full when `t`, `u` and `v` are told to evict.  Two of them
read that no zone is free and evict four zones each; then the third reads eight. -/
def thirdEvictor {Tid : Type u} (t u v : Tid) : List (SysLabel Tid) :=
  fillZones t [1, 2, 3, 4, 5, 6, 7, 8, 9] ++ toldToEvict t 10 ++ toldToEvict u 11
    ++ toldToEvict v 12 ++ [.step t allWell, .step u allWell]
    ++ List.replicate 16 (.step t allWell) ++ List.replicate 16 (.step u allWell)
    ++ List.replicate 5 (.step v allWell)

/-- Workers enter `zn_fg_evict` when they are told to, the background thread
after its test; all operations succeed. -/
def Entered {Tid : Type u} (g : Geometry) : SysLabel Tid → Prop
  | .fgEvict _ => False
  | l => l.SmallId ∧ l.ZoneOk g ∧ l.TransferOk g

instance {Tid : Type u} (g : Geometry) : (l : SysLabel Tid) → Decidable (Entered g l)
  | .fgEvict _ => inferInstanceAs (Decidable False)
  | .get _ _ | .evictTask _ | .step _ _ | .ret _ => inferInstanceAs (Decidable (_ ∧ _ ∧ _))

instance {Tid : Type u} (r : EvictRun Tid) : (l : SysLabel Tid) → Decidable (ReadsFew r l)
  | .step _ _ => inferInstanceAs (Decidable (_ → _))
  | .get _ _ | .fgEvict _ | .evictTask _ | .ret _ => isTrue trivial

/-- Replay one step that meets `C`. -/
def evictRunExec {Tid : Type u} [DecidableEq Tid] (g : Geometry) (rb : Buffer)
    (C : EvictRun Tid → SysLabel Tid → Prop) [∀ r l, Decidable (C r l)] (r : EvictRun Tid)
    (l : SysLabel Tid) : Option (EvictRun Tid) :=
  (sysExec promotional g rb (fun _ l => C r l) r.sys l).map fun sys => r.next sys l

theorem evictRunExec_ok {Tid : Type u} [DecidableEq Tid] {g : Geometry} {rb : Buffer}
    {C : EvictRun Tid → SysLabel Tid → Prop} [∀ r l, Decidable (C r l)] (r : EvictRun Tid)
    (l : SysLabel Tid) (r' : EvictRun Tid) (h : evictRunExec g rb C r l = some r') :
    C r l ∧ (evictRunSystem Tid g rb).step r l r' := by
  obtain ⟨sys, hsys, rfl⟩ := Option.map_eq_some_iff.mp h
  obtain ⟨hc, hs⟩ := sysExec_ok _ _ _ hsys
  exact ⟨hc, sys, hs, rfl⟩

/-- A replayed run that ends in a state passing a test. -/
theorem evictRun_replay {Tid : Type u} [DecidableEq Tid] {g : Geometry} {rb : Buffer}
    {C : EvictRun Tid → SysLabel Tid → Prop} [∀ r l, Decidable (C r l)] (p : EvictRun Tid → Bool)
    (ls : List (SysLabel Tid))
    (h : (TransSys.execAll (evictRunExec g rb C) ls
      ⟨⟨initCache promotional g fun _ => 0, fun _ => .idle⟩, fun _ => 0, fun _ => 0⟩).any p = true) :
    ∃ r, (evictRunSystem Tid g rb).Reach C r ∧ p r = true :=
  TransSys.Reach.exists_of_exec evictRunExec_ok ⟨⟨fun _ => 0, rfl⟩, fun _ => ⟨rfl, rfl⟩⟩ p ls h

/-- A worker that finds all nine zones full evicts four, which is what it may. -/
theorem evicts_at_most_four :
    ∃ r, (evictRunSystem (Fin 1) nineZones fun _ => 0).Reach
        (fun r l => Entered nineZones l ∧ ReadsFew r l) r
      ∧ r.read 0 = 0 ∧ r.evicted 0 = 4 ∧ r.evicted 0 ≤ evictLowThreshZones - r.read 0 := by
  obtain ⟨r, hr, hs⟩ := @evictRun_replay (Fin 1) _ nineZones (fun _ => 0)
    (fun r l => Entered nineZones l ∧ ReadsFew r l) _ (fun r => r.read 0 = 0 ∧ r.evicted 0 = 4)
    (fillZones 0 [1, 2, 3, 4, 5, 6, 7, 8, 9] ++ toldToEvict 0 10 ++ List.replicate 17 (.step 0 allWell))
    (by decide +kernel)
  obtain ⟨hread, hevicted⟩ := of_decide_eq_true hs
  have hfew := (evicts_at_most (Fin 1) nineZones fun _ => 0).2.1 r (hr.mono fun _ _ hc => hc.2) 0
  exact ⟨r, hr, hread, hevicted, hfew⟩

/-- **A late evictor empties the cache.**  The third of three evictors reads
eight free zones of nine, and evicts the ninth. -/
theorem late_evictor_empties :
    ∃ r, (evictRunSystem (Fin 3) nineZones fun _ => 0).Reach (fun _ l => Entered nineZones l) r
      ∧ r.read 2 = 8 ∧ r.evicted 2 = 1 ∧ zsmGetNumFreeZones r.sys.cache.zoneState = 9
      ∧ ¬ r.evicted 2 ≤ evictLowThreshZones - r.read 2 := by
  obtain ⟨r, hr, hs⟩ := @evictRun_replay (Fin 3) _ nineZones (fun _ => 0)
    (fun _ l => Entered nineZones l) _
    (fun r => r.read 2 = 8 ∧ r.evicted 2 = 1 ∧ zsmGetNumFreeZones r.sys.cache.zoneState = 9)
    (thirdEvictor 0 1 2) (by decide +kernel)
  obtain ⟨hread, hevicted, hfree⟩ := of_decide_eq_true hs
  refine ⟨r, hr, hread, hevicted, hfree, ?_⟩
  rw [hread, hevicted]
  decide

end ZnCache
