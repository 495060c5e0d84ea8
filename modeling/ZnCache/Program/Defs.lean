/-
  ZnCache.Program.Defs — `main`: the workers and the eviction thread, over the
  cache.

  `Workers` leaves open what a request comes to, and a run of the cache who asks
  for what.  In a `ProgramState` the request of a worker is its call of
  `zn_cache_get`, and a round of `evict_task` its call of `zn_fg_evict`; for the
  cache, the eviction thread is the thread `none`.

  Main results: a run of the program is a run of the cache (`cache_run`), and a
  run of the workers (`work_run`); and a worker waits for a request exactly
  while its call is in progress (`Aligned`).
-/
import ZnCache.Cache.Cases
import ZnCache.Workload

namespace ZnCache

open Lib Lib.ThreadPool

universe u

variable {P E : Type} {pol : EvictPolicy P E} {g : Geometry} {rb : Buffer} {Tid : Type u}

/-! ## §1. The program. -/

/-- What the threads of `main` share, and where they are. -/
structure ProgramState (P E : Type) (Tid : Type u) where
  cache : Sys P E (Option Tid)
  work : Workers Tid

/-- Who moves. -/
inductive ProgramLabel (Tid : Type u) where
  | take (t : Tid)
  | step (t : Option Tid) (a : Answers)
  | ret (t : Tid)
  | count (t : Tid)
  | evictTask
  | main

/-- `evict_task` is back in its loop, once `zn_fg_evict` has returned. -/
def Workers.backFrom (w : Workers Tid) (pc : Pc E) : Workers Tid :=
  if pc.isIdle then { w with evictTask := .test } else w

variable [DecidableEq Tid] [Fintype Tid]

/-- **One step of the program.**  A worker takes an index and calls
`zn_cache_get`, goes on in it, returns from it to its loop, or leaves the loop.
`evict_task` tests `done`, and then sleeps or calls `zn_fg_evict`. -/
def programStep (pol : EvictPolicy P E) (g : Geometry) (rb : Buffer) (s : ProgramState P E Tid) :
    ProgramLabel Tid → Stepped (ProgramState P E Tid)
  | .take t =>
    (workStep s.work (.take t)).bind fun w =>
      match w.pool t with
      | .get dataId =>
        (sysStep pol g rb s.cache (.get (some t) (UInt32.ofNat dataId))).map fun r =>
          r.map fun c => ⟨c, w⟩
      | _ => some (.ok ⟨s.cache, w⟩)
  | .step (some t) a =>
    (sysStep pol g rb s.cache (.step (some t) a)).map fun r => r.map fun c => ⟨c, s.work⟩
  | .step none a =>
    (sysStep pol g rb s.cache (.step none a)).map fun r =>
      r.map fun c => ⟨c, s.work.backFrom (c.pool none)⟩
  | .ret t =>
    match s.cache.pool (some t) with
    | .get (.done _ data) =>
      -- NULL ends the worker
      (workStep s.work (.got t data.isSome)).bind fun w =>
        (sysStep pol g rb s.cache (.ret (some t))).map fun r => r.map fun c => ⟨c, w⟩
    | _ => none
  | .count t => (workStep s.work (.count t)).map fun w => .ok ⟨s.cache, w⟩
  | .evictTask =>
    match s.work.evictTask with
    | .round =>
      (sysStep pol g rb s.cache (.evictTask none)).map fun r =>
        r.map fun c => ⟨c, s.work.backFrom (c.pool none)⟩
    | _ => (workStep s.work .evictTask).map fun w => .ok ⟨s.cache, w⟩
  | .main => (workStep s.work .main).map fun w => .ok ⟨s.cache, w⟩

/-- The program, started on a workload and a device with any contents. -/
def initProgram (pol : EvictPolicy P E) (g : Geometry) (bytes : Buffer) (buffer : Nat → Nat)
    (workloadMax : Nat) : ProgramState P E Tid :=
  ⟨⟨initCache pol g bytes, fun _ => .idle⟩, initWorkers Tid buffer workloadMax⟩

/-- The runs of the program. -/
def programSystem (Tid : Type u) [DecidableEq Tid] [Fintype Tid] (pol : EvictPolicy P E)
    (g : Geometry) (rb : Buffer) (buffer : Nat → Nat) (workloadMax : Nat) :
    TransSys (ProgramState P E Tid) (ProgramLabel Tid) where
  init s := ∃ bytes, s = initProgram pol g bytes buffer workloadMax
  step s l s' := programStep pol g rb s l = some (.ok s')

/-- **What one step can do.** -/
inductive ProgramCase (pol : EvictPolicy P E) (g : Geometry) (rb : Buffer) (s : ProgramState P E Tid) :
    ProgramLabel Tid → ProgramState P E Tid → Prop
  | leave {t : Tid} {w : Workers Tid} (hw : workStep s.work (.take t) = some w)
      (hno : ∀ dataId, w.pool t ≠ .get dataId) : ProgramCase pol g rb s (.take t) ⟨s.cache, w⟩
  | request {t : Tid} {w : Workers Tid} {dataId : Nat} {c : Sys P E (Option Tid)}
      (hw : workStep s.work (.take t) = some w) (hid : w.pool t = .get dataId)
      (hc : sysStep pol g rb s.cache (.get (some t) (UInt32.ofNat dataId)) = some (.ok c)) :
      ProgramCase pol g rb s (.take t) ⟨c, w⟩
  | step {t : Tid} {a : Answers} {c : Sys P E (Option Tid)}
      (hc : sysStep pol g rb s.cache (.step (some t) a) = some (.ok c)) :
      ProgramCase pol g rb s (.step (some t) a) ⟨c, s.work⟩
  | evict {a : Answers} {c : Sys P E (Option Tid)}
      (hc : sysStep pol g rb s.cache (.step none a) = some (.ok c)) :
      ProgramCase pol g rb s (.step none a) ⟨c, s.work.backFrom (c.pool none)⟩
  | ret {t : Tid} {id : Nat} {data : Option Buffer} {w : Workers Tid} {c : Sys P E (Option Tid)}
      (ht : s.cache.pool (some t) = .get (.done id data))
      (hw : workStep s.work (.got t data.isSome) = some w)
      (hc : sysStep pol g rb s.cache (.ret (some t)) = some (.ok c)) :
      ProgramCase pol g rb s (.ret t) ⟨c, w⟩
  | round {c : Sys P E (Option Tid)} (he : s.work.evictTask = .round)
      (hc : sysStep pol g rb s.cache (.evictTask none) = some (.ok c)) :
      ProgramCase pol g rb s .evictTask ⟨c, s.work.backFrom (c.pool none)⟩
  | test {w : Workers Tid} (he : s.work.evictTask ≠ .round)
      (hw : workStep s.work .evictTask = some w) : ProgramCase pol g rb s .evictTask ⟨s.cache, w⟩
  | count {t : Tid} {w : Workers Tid} (hw : workStep s.work (.count t) = some w) :
      ProgramCase pol g rb s (.count t) ⟨s.cache, w⟩
  | main {w : Workers Tid} (hw : workStep s.work .main = some w) :
      ProgramCase pol g rb s .main ⟨s.cache, w⟩

theorem programStep_cases {s s' : ProgramState P E Tid} {l : ProgramLabel Tid}
    (h : programStep pol g rb s l = some (.ok s')) : ProgramCase pol g rb s l s' := by
  -- a step of the workers alone
  have halone : ∀ {x : Option (Workers Tid)},
      x.map (fun w => (Except.ok ⟨s.cache, w⟩ : Except Fault (ProgramState P E Tid))) = some (.ok s') →
      ∃ w, x = some w ∧ s' = ⟨s.cache, w⟩ := by
    intro x hx
    obtain ⟨w, hw, heq⟩ := Option.map_eq_some_iff.mp hx
    cases heq
    exact ⟨w, hw, rfl⟩
  cases l with
  | take t =>
    unfold programStep at h
    obtain ⟨w, hw, h⟩ := Option.bind_eq_some_iff.mp h
    split at h
    · obtain ⟨c, hc, rfl⟩ := stepped_map_eq_ok h
      exact .request hw ‹_› hc
    · rename_i hno
      cases h
      exact .leave hw hno
  | step t a =>
    unfold programStep at h
    cases t with
    | none =>
      obtain ⟨c, hc, rfl⟩ := stepped_map_eq_ok h
      exact .evict hc
    | some t =>
      obtain ⟨c, hc, rfl⟩ := stepped_map_eq_ok h
      exact .step hc
  | ret t =>
    unfold programStep at h
    dsimp only at h
    split at h
    · obtain ⟨w, hw, h⟩ := Option.bind_eq_some_iff.mp h
      obtain ⟨c, hc, rfl⟩ := stepped_map_eq_ok h
      exact .ret ‹_› hw hc
    · cases h
  | count t =>
    obtain ⟨w, hw, rfl⟩ := halone h
    exact .count hw
  | evictTask =>
    unfold programStep at h
    dsimp only at h
    split at h
    · obtain ⟨c, hc, rfl⟩ := stepped_map_eq_ok h
      exact .round ‹_› hc
    · rename_i hno
      obtain ⟨w, hw, rfl⟩ := halone h
      exact .test hno hw
  | main =>
    obtain ⟨w, hw, rfl⟩ := halone h
    exact .main hw

/-! ## §2. As a run of the cache. -/

/-- The step of the cache that a step of the program is, if it is one. -/
def ProgramLabel.onCache (s : ProgramState P E Tid) : ProgramLabel Tid → Option (SysLabel (Option Tid))
  | .take t =>
    (workStep s.work (.take t)).bind fun w =>
      match w.pool t with
      | .get dataId => some (.get (some t) (UInt32.ofNat dataId))
      | _ => none
  | .step t a => some (.step t a)
  | .ret t => some (.ret (some t))
  | .evictTask => if s.work.evictTask = .round then some (.evictTask none) else none
  | .count _ | .main => none

theorem onCache_leave {s : ProgramState P E Tid} {t : Tid} {w : Workers Tid}
    (hw : workStep s.work (.take t) = some w) (hno : ∀ dataId, w.pool t ≠ .get dataId) :
    (ProgramLabel.take t).onCache s = none := by
  unfold ProgramLabel.onCache
  dsimp only
  rw [hw]
  dsimp only [Option.bind_some]
  split
  · rename_i hid
    exact absurd hid (hno _)
  · rfl

theorem onCache_request {s : ProgramState P E Tid} {t : Tid} {w : Workers Tid} {dataId : Nat}
    (hw : workStep s.work (.take t) = some w) (hid : w.pool t = .get dataId) :
    (ProgramLabel.take t).onCache s = some (.get (some t) (UInt32.ofNat dataId)) := by
  unfold ProgramLabel.onCache
  dsimp only
  rw [hw]
  dsimp only [Option.bind_some]
  rw [hid]

/-- A step of the program is a step of the cache, or the cache does not see it. -/
theorem ProgramCase.on_cache {s s' : ProgramState P E Tid} {l : ProgramLabel Tid}
    (h : ProgramCase pol g rb s l s') :
    (l.onCache s = none ∧ s'.cache = s.cache)
      ∨ ∃ k, l.onCache s = some k ∧ sysStep pol g rb s.cache k = some (.ok s'.cache) := by
  cases h with
  | leave hw hno => exact Or.inl ⟨onCache_leave hw hno, rfl⟩
  | request hw hid hc => exact Or.inr ⟨_, onCache_request hw hid, hc⟩
  | step hc | evict hc => exact Or.inr ⟨_, rfl, hc⟩
  | ret _ _ hc => exact Or.inr ⟨_, rfl, hc⟩
  | round he hc => exact Or.inr ⟨_, if_pos he, hc⟩
  | test he => exact Or.inl ⟨if_neg he, rfl⟩
  | count | main => exact Or.inl ⟨rfl, rfl⟩

/-- The steps that meet `C`, where they are steps of the cache. -/
def ProgramLabel.Meets (C : Sys P E (Option Tid) → SysLabel (Option Tid) → Prop)
    (s : ProgramState P E Tid) (l : ProgramLabel Tid) : Prop :=
  ∀ k ∈ l.onCache s, C s.cache k

instance ProgramLabel.decMeets (C : Sys P E (Option Tid) → SysLabel (Option Tid) → Prop)
    [∀ s k, Decidable (C s k)] (s : ProgramState P E Tid) (l : ProgramLabel Tid) :
    Decidable (l.Meets C s) :=
  match h : l.onCache s with
  | none => isTrue fun k hk => by rw [h] at hk; cases hk
  | some k =>
    decidable_of_iff (C s.cache k) (by
      unfold ProgramLabel.Meets
      rw [h]
      exact ⟨fun hc k' hk => (by cases hk; exact hc), fun hc => hc k rfl⟩)

variable {buffer : Nat → Nat} {workloadMax : Nat} {D : ProgramState P E Tid → ProgramLabel Tid → Prop}

/-- **A run of the program is a run of the cache.** -/
theorem cache_run {C : Sys P E (Option Tid) → SysLabel (Option Tid) → Prop}
    (hD : ∀ s l, (programSystem Tid pol g rb buffer workloadMax).Reach D s → D s l → l.Meets C s)
    {s : ProgramState P E Tid} (hr : (programSystem Tid pol g rb buffer workloadMax).Reach D s) :
    (cacheSystem (Option Tid) pol g rb).Reach C s.cache := by
  apply TransSys.Reach.simulate ProgramState.cache _ _ hr
  · intro s hs
    obtain ⟨bytes, rfl⟩ := hs
    exact ⟨bytes, rfl⟩
  · intro s l s' hreach _ hd hs
    rcases (programStep_cases hs).on_cache with ⟨-, hsame⟩ | ⟨k, hk, hstep⟩
    · exact Or.inl hsame
    · exact Or.inr ⟨k, hD s l hreach hd k hk, hstep⟩

/-! ## §3. Where the threads are. -/

/-- The id that a worker waits for. -/
def TaskPc.asked : TaskPc → Option Nat
  | .get dataId => some dataId
  | .loop | .count | .finished | .gaveUp => none

/-- The id that a call in progress is about. -/
def Pc.asked : Pc E → Option Nat
  | .get pc => some pc.id
  | .idle | .evictor _ => none

theorem Pc.eq_idle {pc : Pc E} (h : pc.isIdle = true) : pc = .idle := by
  cases pc with
  | idle => rfl
  | get | evictor => cases h

/-- **The two views of a thread agree.** -/
structure Aligned (buffer : Nat → Nat) (workloadMax : Nat) (s : ProgramState P E Tid) : Prop where
  /-- A worker waits while its call is in progress. -/
  asked : ∀ t, (s.cache.pool (some t)).asked = (s.work.pool t).asked
  worker : ∀ t e, s.cache.pool (some t) ≠ .evictor e
  evictor : ∀ pc, s.cache.pool none ≠ .get pc
  /-- The eviction thread evicts in its rounds. -/
  round : s.work.evictTask ≠ .round → s.cache.pool none = .idle
  buffer_eq : s.work.reader.workloadBuffer = buffer
  max_eq : s.work.reader.workloadMax = workloadMax

/-- A worker leaves its loop, or takes the next index. -/
theorem take_cases {w w' : Workers Tid} {t : Tid} (h : workStep w (.take t) = some w') :
    w.pool t = .loop ∧ w'.evictTask = w.evictTask
      ∧ w'.reader.workloadBuffer = w.reader.workloadBuffer
      ∧ w'.reader.workloadMax = w.reader.workloadMax
      ∧ (w'.pool = Function.update w.pool t .count ∧ w'.requested = w.requested
        ∨ w'.pool = Function.update w.pool t (.get (w.reader.workloadBuffer w.reader.workloadIndex))
          ∧ w'.requested = (t, w.reader.workloadIndex) :: w.requested) := by
  unfold workStep at h
  dsimp only at h
  split at h
  · rename_i ht
    unfold takeIndex at h
    by_cases hread : w.reader.workloadMax ≤ w.reader.workloadIndex
    · rw [if_pos hread] at h
      cases h
      exact ⟨ht, rfl, rfl, rfl, Or.inl ⟨rfl, rfl⟩⟩
    · rw [if_neg hread] at h
      cases h
      exact ⟨ht, rfl, rfl, rfl, Or.inr ⟨rfl, rfl⟩⟩
  · cases h

namespace Aligned

variable {s s' : ProgramState P E Tid}

omit [Fintype Tid] in
/-- One worker moves, in both views. -/
theorem goto (h : Aligned buffer workloadMax s) {t : Tid} {task : TaskPc} {w : Workers Tid}
    {c : Sys P E (Option Tid)} (hpool : w.pool = Function.update s.work.pool t task)
    (hother : ∀ u, u ≠ some t → c.pool u = s.cache.pool u)
    (hasked : (c.pool (some t)).asked = task.asked) (hworker : ∀ e, c.pool (some t) ≠ .evictor e)
    (hevict : w.evictTask = s.work.evictTask)
    (hbuffer : w.reader.workloadBuffer = s.work.reader.workloadBuffer)
    (hmax : w.reader.workloadMax = s.work.reader.workloadMax) :
    Aligned buffer workloadMax ⟨c, w⟩ := by
  have hnone : c.pool none = s.cache.pool none := hother none fun heq => by cases heq
  constructor
  case asked =>
    intro u
    show (c.pool (some u)).asked = (w.pool u).asked
    rw [hpool]
    by_cases hut : u = t
    · rw [hut, Function.update_self]
      exact hasked
    · rw [Function.update_of_ne hut, hother _ fun heq => hut (Option.some.inj heq)]
      exact h.asked u
  case worker =>
    intro u e
    by_cases hut : u = t
    · rw [hut]
      exact hworker e
    · show c.pool (some u) ≠ _
      rw [hother _ fun heq => hut (Option.some.inj heq)]
      exact h.worker u e
  case evictor =>
    intro pc
    show c.pool none ≠ _
    rw [hnone]
    exact h.evictor pc
  case round =>
    show w.evictTask ≠ _ → c.pool none = _
    rw [hevict, hnone]
    exact h.round
  case buffer_eq => exact hbuffer.trans h.buffer_eq
  case max_eq => exact hmax.trans h.max_eq

omit [DecidableEq Tid] [Fintype Tid] in
/-- The eviction thread goes on with its round, or is back from it. -/
theorem evicts (h : Aligned buffer workloadMax s) {c : Sys P E (Option Tid)}
    (hother : ∀ u, u ≠ none → c.pool u = s.cache.pool u) (hround : s.work.evictTask = .round)
    (hevictor : ∀ pc, c.pool none ≠ .get pc) :
    Aligned buffer workloadMax ⟨c, s.work.backFrom (c.pool none)⟩ := by
  have hsame : ∀ u, c.pool (some u) = s.cache.pool (some u) :=
    fun u => hother _ fun heq => by cases heq
  constructor
  case asked =>
    intro u
    have hpool : (s.work.backFrom (c.pool none)).pool = s.work.pool := by
      unfold Workers.backFrom
      split <;> rfl
    show (c.pool (some u)).asked = _
    rw [hsame, hpool]
    exact h.asked u
  case worker =>
    intro u e
    show c.pool (some u) ≠ _
    rw [hsame]
    exact h.worker u e
  case evictor => exact hevictor
  case round =>
    unfold Workers.backFrom
    intro hno
    dsimp only at hno ⊢
    split at hno
    · rename_i hidle
      exact Pc.eq_idle hidle
    · exact absurd hround hno
  case buffer_eq =>
    unfold Workers.backFrom
    split <;> exact h.buffer_eq
  case max_eq =>
    unfold Workers.backFrom
    split <;> exact h.max_eq

/-- **Step lemma.** -/
theorem step (h : Aligned buffer workloadMax s) (hids : ∀ i, buffer i < 2 ^ 32) {l : ProgramLabel Tid}
    (hs : ProgramCase pol g rb s l s') : Aligned buffer workloadMax s' := by
  cases hs with
  | @leave t w hw hno =>
    obtain ⟨ht, hevict, hbuffer, hmax, ⟨hpool, -⟩ | ⟨hpool, -⟩⟩ := take_cases hw
    · have hasked := h.asked t
      rw [ht] at hasked
      exact h.goto hpool (fun _ _ => rfl) hasked (h.worker t) hevict hbuffer hmax
    · exact absurd (by rw [hpool, Function.update_self]) (hno _)
  | @request t w dataId c hw hid hc =>
    obtain ⟨ht, hevict, hbuffer, hmax, ⟨hpool, -⟩ | ⟨hpool, -⟩⟩ := take_cases hw
    · rw [hpool, Function.update_self] at hid
      cases hid
    · rw [hpool, Function.update_self] at hid
      obtain rfl : s.work.reader.workloadBuffer s.work.reader.workloadIndex = dataId :=
        TaskPc.get.inj hid
      have hlt : s.work.reader.workloadBuffer s.work.reader.workloadIndex < 2 ^ 32 := by
        rw [h.buffer_eq]
        exact hids _
      cases sysStep_cases hc with
      | get =>
        apply h.goto hpool (fun u hu => Function.update_of_ne hu _ _) _ _ hevict hbuffer hmax
        · -- the call is about the id that was taken
          show (Function.update s.cache.pool _ _ _).asked = _
          rw [Function.update_self]
          show some (UInt32.ofNat _).toNat = some _
          rw [UInt32.toNat_ofNat', Nat.mod_eq_of_lt hlt]
        · intro e
          show Function.update s.cache.pool _ _ _ ≠ _
          rw [Function.update_self]
          exact fun heq => by cases heq
  | @step t a c hc =>
    have hpool : s.work.pool = Function.update s.work.pool t (s.work.pool t) :=
      (Function.update_eq_self ..).symm
    cases sysStep_cases hc with
    | @step _ _ pc pc' _ ht hcase =>
      apply h.goto hpool (fun u hu => Function.update_of_ne hu _ _) _ _ rfl rfl rfl
      · show (Function.update s.cache.pool _ _ _).asked = _
        rw [Function.update_self, ← h.asked t, ht]
        exact congrArg some hcase.id_eq
      · intro e
        show Function.update s.cache.pool _ _ _ ≠ _
        rw [Function.update_self]
        exact fun heq => by cases heq
    | evict ht => exact absurd ht (h.worker t _)
  | @evict a c hc =>
    cases sysStep_cases hc with
    | step ht => exact absurd ht (h.evictor _)
    | @evict _ _ e e' _ ht hstep =>
      apply h.evicts fun u hu => Function.update_of_ne hu _ _
      · by_contra hno
        rw [h.round hno] at ht
        cases ht
      · intro pc
        rw [Sys.goto_pool, Function.update_self]
        cases e' <;> exact fun heq => by cases heq
  | @ret t id data w c ht hw hc =>
    have hback : ∃ task : TaskPc, task.asked = none ∧ w.pool = Function.update s.work.pool t task
        ∧ w.evictTask = s.work.evictTask
        ∧ w.reader.workloadBuffer = s.work.reader.workloadBuffer
        ∧ w.reader.workloadMax = s.work.reader.workloadMax := by
      generalize data.isSome = b at hw
      cases workStep_cases hw with
      | got => exact ⟨.loop, rfl, rfl, rfl, rfl, rfl⟩
      | gotNull => exact ⟨.gaveUp, rfl, rfl, rfl, rfl, rfl⟩
    obtain ⟨task, htask, hpool, hevict, hbuffer, hmax⟩ := hback
    cases sysStep_cases hc with
    | ret =>
      apply h.goto hpool (fun u hu => Function.update_of_ne hu _ _) _ _ hevict hbuffer hmax
      · show (Function.update s.cache.pool _ _ _).asked = _
        rw [Function.update_self, htask]
        rfl
      · intro e
        show Function.update s.cache.pool _ _ _ ≠ _
        rw [Function.update_self]
        exact fun heq => by cases heq
  | round he hc =>
    cases sysStep_cases hc with
    | taskSleeps => exact h.evicts (fun _ _ => rfl) he h.evictor
    | taskEvicts =>
      apply h.evicts (fun u hu => Function.update_of_ne hu _ _) he
      intro pc
      rw [Sys.goto_pool, Function.update_self]
      exact fun heq => by cases heq
  | test he hw =>
    have hidle := h.round he
    cases workStep_cases hw with
    | evictTest | evictRound => exact ⟨h.asked, h.worker, h.evictor, fun _ => hidle, h.buffer_eq, h.max_eq⟩
  | @count t w hw =>
    cases workStep_cases hw with
    | count ht =>
      have hasked := h.asked t
      rw [ht] at hasked
      unfold countWorker
      dsimp only
      split <;> exact h.goto rfl (fun _ _ => rfl) hasked (h.worker t) rfl rfl rfl
  | main hw =>
    cases workStep_cases hw with
    | mainRuns | mainLeaves | mainEnds =>
      exact ⟨h.asked, h.worker, h.evictor, h.round, h.buffer_eq, h.max_eq⟩

/-- **Run lemma.** -/
theorem reach (hids : ∀ i, buffer i < 2 ^ 32)
    (hr : (programSystem Tid pol g rb buffer workloadMax).Reach D s) :
    Aligned buffer workloadMax s := by
  refine hr.invariant (fun s hs => ?_) fun s l s' _ h _ hs => h.step hids (programStep_cases hs)
  obtain ⟨bytes, rfl⟩ := hs
  exact ⟨fun _ => rfl, fun _ _ h => (by cases h), fun _ h => (by cases h), fun _ => rfl, rfl, rfl⟩

/-- The ids that are asked for are those of the workload. -/
theorem smallId (h : Aligned buffer workloadMax s) (hids : ∀ i, buffer i < 2 ^ 31)
    (l : ProgramLabel Tid) : l.Meets (fun _ k => k.SmallId) s := by
  intro k hk
  cases l with
  | take t =>
    unfold ProgramLabel.onCache at hk
    obtain ⟨w, hw, hk⟩ := Option.bind_eq_some_iff.mp hk
    split at hk
    · rename_i dataId hid
      cases hk
      obtain ⟨-, -, -, -, ⟨hpool, -⟩ | ⟨hpool, -⟩⟩ := take_cases hw
      · rw [hpool, Function.update_self] at hid
        cases hid
      · rw [hpool, Function.update_self, h.buffer_eq] at hid
        cases hid
        have hlt := hids s.work.reader.workloadIndex
        show (UInt32.ofNat _).toNat < 2 ^ 31
        rw [UInt32.toNat_ofNat', Nat.mod_eq_of_lt (by omega)]
        exact hlt
    · cases hk
  | step | ret | count | main =>
    cases hk <;> trivial
  | evictTask =>
    unfold ProgramLabel.onCache at hk
    dsimp only at hk
    split at hk
    · cases hk
      trivial
    · cases hk

end Aligned

/-! ## §4. As a run of the workers. -/

/-- **A run of the program is a run of the workers.** -/
theorem work_run (hids : ∀ i, buffer i < 2 ^ 32) {C : Workers Tid → WorkLabel Tid → Prop}
    (htake : ∀ w t, C w (.take t)) (hevict : ∀ w, C w .evictTask) (hmain : ∀ w, C w .main)
    (hgot : ∀ s t id data, (programSystem Tid pol g rb buffer workloadMax).Reach D s → D s (.ret t) →
      s.cache.pool (some t) = .get (.done id data) → C s.work (.got t data.isSome))
    (hcount : ∀ s t, D s (.count t) → C s.work (.count t))
    {s : ProgramState P E Tid} (hr : (programSystem Tid pol g rb buffer workloadMax).Reach D s) :
    (workSystem Tid buffer workloadMax).Reach C s.work := by
  apply TransSys.Reach.simulate ProgramState.work _ _ hr
  · intro s hs
    obtain ⟨bytes, rfl⟩ := hs
    rfl
  · intro s l s' hreach _ hd hs
    have hback : ∀ pc : Pc E, s.work.evictTask = .round → s.work.backFrom pc = s.work
        ∨ ∃ k, C s.work k ∧ (workSystem Tid buffer workloadMax).step s.work k (s.work.backFrom pc) := by
      intro pc he
      unfold Workers.backFrom
      split
      · refine Or.inr ⟨.evictTask, hevict _, ?_⟩
        show workStep s.work .evictTask = _
        unfold workStep
        rw [he]
      · exact Or.inl rfl
    cases programStep_cases hs with
    | leave hw | request hw => exact Or.inr ⟨_, htake _ _, hw⟩
    | step => exact Or.inl rfl
    | evict hc =>
      apply hback
      by_contra hno
      have hidle := (Aligned.reach hids hreach).round hno
      simp only [sysStep, hidle] at hc
      cases hc
    | ret ht hw => exact Or.inr ⟨_, hgot s _ _ _ hreach hd ht, hw⟩
    | round he => exact hback _ he
    | test _ hw => exact Or.inr ⟨_, hevict _, hw⟩
    | count hw => exact Or.inr ⟨_, hcount s _ hd, hw⟩
    | main hw => exact Or.inr ⟨_, hmain _, hw⟩

end ZnCache
