/-
  ZnCache.Program.Profiled — the program, with a metrics file.

  Between their own steps `zn_cache_get` and `task_function` give the metrics of
  the profiler values, and `main` has them reported while it is in
  `g_main_loop_run`.  A worker gives the values it owes one after the other, and
  then goes on; in between come other workers, and the report.  A throughput is
  updated with `chunk_sz`.  What the clock says, and what a metric that shows a
  state is set to, is left open.

  Main result: `throughputs_add_up` — in every interleaving in which the updates
  come in time, the lines of the three throughputs add up to the chunks that
  were hit, missed and returned; and once the workload has been served, to the
  chunks of the workload: but for what doubles and the six decimals of `%f` take
  of every line.
-/
import ZnCache.Program.Served
import ZnCache.ProfilerTotals

namespace ZnCache

open Lib Lib.ThreadPool

universe u

variable {P E : Type} {pol : EvictPolicy P E} {g : Geometry} {rb : Buffer} {Tid : Type u}

/-! ## §1. What is owed. -/

namespace ZnProfilerTag

abbrev getLatency : ZnProfilerTag := ⟨0, by decide⟩
abbrev cacheUsedMib : ZnProfilerTag := ⟨1, by decide⟩
abbrev cacheHitratio : ZnProfilerTag := ⟨2, by decide⟩
abbrev readLatency : ZnProfilerTag := ⟨3, by decide⟩
abbrev writeLatency : ZnProfilerTag := ⟨4, by decide⟩
abbrev cacheFreeZones : ZnProfilerTag := ⟨5, by decide⟩
abbrev hitLatency : ZnProfilerTag := ⟨6, by decide⟩
abbrev missLatency : ZnProfilerTag := ⟨7, by decide⟩
abbrev cacheThroughput : ZnProfilerTag := ⟨8, by decide⟩
abbrev cacheHitThroughput : ZnProfilerTag := ⟨9, by decide⟩
abbrev cacheMissThroughput : ZnProfilerTag := ⟨10, by decide⟩

end ZnProfilerTag

/-- The metrics that get a value after a step of `zn_cache_get`. -/
def Pc.metrics : Pc E → List ZnProfilerTag
  | .get (.read ..) => [.readLatency]
  | .get (.hit ..) => [.hitLatency, .cacheHitThroughput]
  | .get (.write ..) => [.writeLatency]
  | .get (.publish ..) => [.missLatency, .cacheMissThroughput]
  | .idle | .evictor _ | .get (.find _) | .get (.findWait ..) | .get (.readUpdate ..)
  | .get (.readDone ..) | .get (.acquire _) | .get (.evict ..) | .get (.miss ..) | .get (.commit ..)
  | .get (.writeUpdate ..) | .get (.undoZoneGet ..) | .get (.undoMap _) | .get (.done ..) => []

/-- The metrics that get a value after a result.  NULL leaves `task_function` at
once. -/
def resultMetrics : Option Buffer → List ZnProfilerTag
  | some _ => [.getLatency, .cacheThroughput, .cacheUsedMib, .cacheFreeZones, .cacheHitratio]
  | none => []

/-- The metrics that get a value after a step of the program. -/
def ProgramLabel.metrics (s : ProgramState P E Tid) : ProgramLabel Tid → List ZnProfilerTag
  | .step (some t) _ => (s.cache.pool (some t)).metrics
  | .ret t =>
    match (s.cache.pool (some t)).returned with
    | some (_, data) => resultMetrics data
    | none => []
  | .step none _ | .take _ | .count _ | .evictTask | .main => []

/-- The worker that moves. -/
def ProgramLabel.worker : ProgramLabel Tid → Option Tid
  | .take t | .step (some t) _ | .ret t | .count t => some t
  | .step none _ | .evictTask | .main => none

/-- The program with its profiler. -/
structure Profiled (P E : Type) (Tid : Type u) where
  program : ProgramState P E Tid
  profiler : ZnProfiler
  /-- The metrics that a worker is still to give a value. -/
  owed : Tid → List ZnProfilerTag

/-- Who moves: as in the program, a worker that gives a metric a value, or
`profiling_task`. -/
inductive ProfiledLabel (Tid : Type u) where
  | program (l : ProgramLabel Tid)
  | give (t : Tid) (value : ℚ)
  | report

/-- A worker goes on when it owes nothing, and `main` leaves its loop between
reports. -/
def ProgramLabel.Ready (x : Profiled P E Tid) : ProgramLabel Tid → Prop
  | .take t | .step (some t) _ | .ret t | .count t => x.owed t = []
  | .main => x.program.work.main = .inLoop → x.profiler.report = .idle
  | .step none _ | .evictTask => True

instance ProgramLabel.decReady (x : Profiled P E Tid) : (l : ProgramLabel Tid) → Decidable (l.Ready x)
  | .take t | .step (some t) _ | .ret t | .count t => inferInstanceAs (Decidable (x.owed t = []))
  | .main => inferInstanceAs (Decidable (_ → _))
  | .step none _ | .evictTask => isTrue trivial

/-- The value that a metric is given: `chunk_sz` becomes a double on the way. -/
def givenValue (g : Geometry) (i : ZnProfilerTag) (value : ℚ) : MetricLabel :=
  match metricType i with
  | .avg => .update i value
  | .overTime => .update i (MetricArith.double.round g.chunkSz)
  | .set => .set i value

variable [DecidableEq Tid] [Fintype Tid]

/-- A worker moves, and owes what comes after its step. -/
def ProgramLabel.owe (s : ProgramState P E Tid) (owed : Tid → List ZnProfilerTag)
    (l : ProgramLabel Tid) : Tid → List ZnProfilerTag :=
  match l.worker with
  | some t => Function.update owed t (l.metrics s)
  | none => owed

/-- **One step.** -/
def profiledStep (pol : EvictPolicy P E) (g : Geometry) (rb : Buffer) (intervalSec : Nat)
    (x : Profiled P E Tid) : ProfiledLabel Tid → Stepped (Profiled P E Tid)
  | .program l =>
    if l.Ready x then
      (programStep pol g rb x.program l).map fun r =>
        r.map fun s => ⟨s, x.profiler, l.owe x.program x.owed⟩
    else none
  | .give t value =>
    match x.owed t with
    | [] => none
    | i :: rest =>
      some (.ok ⟨x.program, metricStep .double intervalSec x.profiler (givenValue g i value),
        Function.update x.owed t rest⟩)
  | .report =>
    -- the timer is one of the main loop's
    if x.program.work.main = .inLoop then
      some (.ok ⟨x.program, metricStep .double intervalSec x.profiler .report, x.owed⟩)
    else none

/-- The runs of the program with its profiler. -/
def profiledSystem (Tid : Type u) [DecidableEq Tid] [Fintype Tid] (pol : EvictPolicy P E)
    (g : Geometry) (rb : Buffer) (intervalSec : Nat) (buffer : Nat → Nat) (workloadMax : Nat) :
    TransSys (Profiled P E Tid) (ProfiledLabel Tid) where
  init x := ∃ bytes, x = ⟨initProgram pol g bytes buffer workloadMax, znProfilerInit, fun _ => []⟩
  step x l x' := profiledStep pol g rb intervalSec x l = some (.ok x')

/-- **What one step can do.** -/
inductive ProfiledCase (pol : EvictPolicy P E) (g : Geometry) (rb : Buffer) (intervalSec : Nat)
    (x : Profiled P E Tid) : ProfiledLabel Tid → Profiled P E Tid → Prop
  | program {l : ProgramLabel Tid} {s : ProgramState P E Tid} (hready : l.Ready x)
      (hs : programStep pol g rb x.program l = some (.ok s)) :
      ProfiledCase pol g rb intervalSec x (.program l) ⟨s, x.profiler, l.owe x.program x.owed⟩
  | give {t : Tid} {value : ℚ} {i : ZnProfilerTag} {rest : List ZnProfilerTag}
      (ht : x.owed t = i :: rest) :
      ProfiledCase pol g rb intervalSec x (.give t value) ⟨x.program,
        metricStep .double intervalSec x.profiler (givenValue g i value), Function.update x.owed t rest⟩
  | report (hm : x.program.work.main = .inLoop) :
      ProfiledCase pol g rb intervalSec x .report
        ⟨x.program, metricStep .double intervalSec x.profiler .report, x.owed⟩

theorem profiledStep_cases {intervalSec : Nat} {x x' : Profiled P E Tid} {l : ProfiledLabel Tid}
    (h : profiledStep pol g rb intervalSec x l = some (.ok x')) :
    ProfiledCase pol g rb intervalSec x l x' := by
  cases l with
  | program l =>
    unfold profiledStep at h
    dsimp only at h
    split at h
    · obtain ⟨s, hs, rfl⟩ := stepped_map_eq_ok h
      exact .program ‹_› hs
    · cases h
  | give t value =>
    unfold profiledStep at h
    dsimp only at h
    split at h
    · cases h
    · cases h
      exact .give ‹_›
  | report =>
    unfold profiledStep at h
    dsimp only at h
    split at h
    · cases h
      exact .report ‹_›
    · cases h

/-! ## §2. As a run of the program. -/

variable {intervalSec : Nat} {buffer : Nat → Nat} {workloadMax : Nat}

/-- The log of the program is written in its steps. -/
def ProgramLog.noteProfiled (g : Geometry) (n : ProgramLog) (x : Profiled P E Tid)
    (l : ProfiledLabel Tid) (x' : Profiled P E Tid) : ProgramLog :=
  match l with
  | .program l => n.note g x.program l x'.program
  | .give .. | .report => n

/-- The runs of the program with its profiler, and their log. -/
def profiledLogSystem (Tid : Type u) [DecidableEq Tid] [Fintype Tid] (pol : EvictPolicy P E)
    (g : Geometry) (rb : Buffer) (intervalSec : Nat) (buffer : Nat → Nat) (workloadMax : Nat) :
    TransSys (Profiled P E Tid × ProgramLog) (ProfiledLabel Tid) :=
  (profiledSystem Tid pol g rb intervalSec buffer workloadMax).observed ⟨[], ⟨0, 0, 0⟩⟩
    (ProgramLog.noteProfiled g)

/-- The updates of the profiler come in time. -/
def ProfiledLabel.InTime (g : Geometry) (x : Profiled P E Tid) : ProfiledLabel Tid → Prop
  | .give t value => ∀ i ∈ (x.owed t).head?, TypedInTime x.profiler (givenValue g i value)
  | .program _ | .report => True

instance ProfiledLabel.decInTime (g : Geometry) (x : Profiled P E Tid) :
    (l : ProfiledLabel Tid) → Decidable (l.InTime g x)
  | .give t value =>
    inferInstanceAs (Decidable (∀ i ∈ (x.owed t).head?, TypedInTime x.profiler (givenValue g i value)))
  | .program _ | .report => isTrue trivial

/-- **A run with the profiler is a run of the program.** -/
theorem program_run {C : Profiled P E Tid → ProfiledLabel Tid → Prop}
    {D : ProgramState P E Tid → ProgramLabel Tid → Prop}
    (hD : ∀ y k, C y (.program k) → D y.program k) {x : Profiled P E Tid} {n : ProgramLog}
    (hr : (profiledLogSystem Tid pol g rb intervalSec buffer workloadMax).Reach (fun y l => C y.1 l) (x, n)) :
    (programLogSystem Tid pol g rb buffer workloadMax).Reach (fun y k => D y.1 k) (x.program, n) := by
  refine TransSys.Reach.simulate
    (fun y : Profiled P E Tid × ProgramLog => (y.1.program, y.2)) ?_ ?_ hr
  · intro y hy
    obtain ⟨⟨bytes, hx⟩, hn⟩ := hy
    rw [hx, hn]
    exact ⟨⟨bytes, rfl⟩, rfl⟩
  · rintro ⟨y, m⟩ l ⟨y', m'⟩ _ _ hc ⟨hs, hn⟩
    obtain rfl : m' = m.noteProfiled g y l y' := hn
    have hs : profiledStep pol g rb intervalSec y l = some (.ok y') := hs
    cases profiledStep_cases hs with
    | program _ hstep => exact Or.inr ⟨_, hD y _ hc, hstep, rfl⟩
    | give | report => exact Or.inl rfl

/-! ## §3. What the steps of the program owe. -/

/-- A call that has counted its miss, and is to publish it. -/
def Pc.finishingMiss : Pc E → Nat
  | .get (.commit ..) | .get (.writeUpdate ..) | .get (.publish ..) => 1
  | _ => 0

/-- What a step counts, and the metrics it is followed by. -/
structure Metered {T : Type u} [Fintype T] (s s' : Sys P E T) (used : List ZnProfilerTag) : Prop where
  hits : s'.cache.hits = s.cache.hits + used.count .cacheHitThroughput
  misses : s'.cache.misses + total Pc.finishingMiss s.pool
    = s.cache.misses + total Pc.finishingMiss s'.pool + used.count .cacheMissThroughput

omit [DecidableEq Tid] in
theorem Metered.refl (s : Sys P E Tid) : Metered s s [] := ⟨rfl, rfl⟩

/-- A thread moves. -/
theorem Metered.goto {s : Sys P E Tid} {t : Tid} {c : CacheState P} {pc : Pc E}
    {used : List ZnProfilerTag} (hhits : c.hits = s.cache.hits + used.count .cacheHitThroughput)
    (hmisses : c.misses + (s.pool t).finishingMiss
      = s.cache.misses + pc.finishingMiss + used.count .cacheMissThroughput) :
    Metered s (s.goto t c pc) used where
  hits := hhits
  misses := by
    have htotal := total_update Pc.finishingMiss s.pool t pc
    show c.misses + _ = _ + total Pc.finishingMiss (Function.update s.pool t pc) + _
    omega

/-- A step of `zn_cache_get`. -/
theorem GetCase.metered (hpol : pol.Recycles g) {a : Answers} {c c' : CacheState P}
    {pc pc' : GetPc E} (h : GetCase pol g rb a c pc c' pc') :
    c'.hits = c.hits + (Pc.get pc).metrics.count .cacheHitThroughput
      ∧ c'.misses + (Pc.get pc).finishingMiss
        = c.misses + (Pc.get pc').finishingMiss + (Pc.get pc).metrics.count .cacheMissThroughput := by
  cases h with
  | @find id r | @wake id cond seen r => cases r <;> exact ⟨rfl, rfl⟩
  | read | readUpdate | readDone | hit | miss | commit | writeUpdate | publish | undoZoneGet | undoMap =>
    exact ⟨rfl, rfl⟩
  | @acquire id r => cases r <;> exact ⟨rfl, rfl⟩
  | @evict id e c' e' hstep =>
    rw [(hpol.counters hstep).1, (hpol.counters hstep).2]
    cases e' <;> exact ⟨rfl, rfl⟩
  | @write id l r =>
    by_cases hr : r = 0
    · rw [if_neg (not_not.mpr hr)]
      exact ⟨rfl, rfl⟩
    · rw [if_pos hr]
      exact ⟨rfl, rfl⟩

/-- The metrics that get a value after a step of the cache. -/
def SysLabel.metrics {T : Type u} (s : Sys P E T) : SysLabel T → List ZnProfilerTag
  | .step t _ => (s.pool t).metrics
  | .get .. | .fgEvict _ | .evictTask _ | .ret _ => []

/-- A step of the cache. -/
theorem sys_metered (hpol : pol.Recycles g) {s s' : Sys P E Tid} {k : SysLabel Tid}
    (hs : sysStep pol g rb s k = some (.ok s')) :
    Metered s s' (k.metrics s) := by
  cases sysStep_cases hs with
  | get ht | fgEvict ht | taskEvicts ht | ret ht =>
    refine .goto rfl ?_
    rw [ht]
    rfl
  | taskSleeps => exact .refl s
  | @step t a pc pc' c ht hcase =>
    obtain ⟨hhits, hmisses⟩ := hcase.metered hpol
    rw [show (SysLabel.step t a).metrics s = (Pc.get pc).metrics from congrArg Pc.metrics ht]
    refine .goto hhits ?_
    rw [ht]
    exact hmisses
  | @evict t a e e' c ht hstep =>
    obtain ⟨hhits, hmisses⟩ := hpol.counters hstep
    rw [show (SysLabel.step t a).metrics s = (Pc.evictor e).metrics from congrArg Pc.metrics ht]
    refine .goto hhits ?_
    rw [ht, hmisses]
    cases e' <;> rfl

/-- **A step of the program.** -/
theorem ProgramCase.metered (hpol : pol.Recycles g) {s s' : ProgramState P E Tid} {l : ProgramLabel Tid}
    (hal : Aligned buffer workloadMax s) (h : ProgramCase pol g rb s l s') :
    Metered s.cache s'.cache (l.metrics s) := by
  cases h with
  | leave | test | count | main => exact .refl _
  | request _ _ hc => exact sys_metered hpol hc
  | step hc => exact sys_metered hpol hc
  | round _ hc => exact sys_metered hpol hc
  | evict hc =>
    -- the eviction thread makes no calls of `zn_cache_get`
    have hnone : (s.cache.pool none).metrics = [] := by
      cases hpc : s.cache.pool none with
      | idle | evictor => rfl
      | get pc => exact absurd hpc (hal.evictor pc)
    have hmetered := sys_metered hpol hc
    unfold SysLabel.metrics at hmetered
    dsimp only at hmetered
    rw [hnone] at hmetered
    exact hmetered
  | @ret t id data w c ht hw hc =>
    obtain ⟨hhits, hmisses⟩ := sys_metered hpol hc
    -- what `task_function` does then is neither a hit nor a miss
    have hother : (ProgramLabel.ret t).metrics s = resultMetrics data := by
      unfold ProgramLabel.metrics
      dsimp only
      rw [ht]
      rfl
    rw [hother]
    cases data with
    | none => exact ⟨hhits, hmisses⟩
    | some data => exact ⟨hhits, hmisses⟩

/-! ## §4. What was given. -/

/-- How often a metric was updated, and is still to be. -/
def Profiled.uses (x : Profiled P E Tid) (i : ZnProfilerTag) : Nat :=
  (x.profiler.ledger.updates i).length + total (List.count i) x.owed

/-- A worker that has left its loop. -/
def TaskPc.Past : TaskPc → Prop
  | .count | .finished | .gaveUp => True
  | .loop | .get _ => False

theorem TaskPc.Past.asked {task : TaskPc} (h : task.Past) : task.asked = none := by
  cases task with
  | loop | get => exact h.elim
  | count | finished | gaveUp => rfl

/-- **The account.** -/
structure MetricsAccount (g : Geometry) (intervalSec : Nat) (x : Profiled P E Tid) (n : ProgramLog) :
    Prop where
  totals : KeepsTotals intervalSec x.profiler
  hits : x.uses .cacheHitThroughput = x.program.cache.cache.hits
  misses : x.uses .cacheMissThroughput + total Pc.finishingMiss x.program.cache.pool
    = x.program.cache.cache.misses
  gets : x.uses .cacheThroughput = n.results.countP fun r => r.2.isSome
  /-- A throughput is updated with `chunk_sz`. -/
  sums : ∀ i, metricType i = .overTime → (x.profiler.ledger.updates i).sum
    = (g.chunkSz * (x.profiler.ledger.updates i).length : Nat)
  settled : ∀ t, (x.program.work.pool t).Past → x.owed t = []

namespace MetricsAccount

variable {x x' : Profiled P E Tid} {n : ProgramLog}

/-- A step of the program: what it owes is to be given. -/
theorem uses_program {l : ProgramLabel Tid} (hready : l.Ready x) (s : ProgramState P E Tid)
    (i : ZnProfilerTag) :
    (⟨s, x.profiler, l.owe x.program x.owed⟩ : Profiled P E Tid).uses i
      = x.uses i + (l.metrics x.program).count i := by
  -- a worker that moves owed nothing
  have howe : ∀ {t : Tid} (used : List ZnProfilerTag), x.owed t = [] →
      total (List.count i) (Function.update x.owed t used) = total (List.count i) x.owed + used.count i := by
    intro t used ht
    have htotal := total_update (List.count i) x.owed t used
    rw [ht, List.count_nil] at htotal
    omega
  have hworker : ∀ {t : Tid}, l.worker = some t → x.owed t = [] →
      (⟨s, x.profiler, l.owe x.program x.owed⟩ : Profiled P E Tid).uses i
        = x.uses i + (l.metrics x.program).count i := by
    intro t hl ht
    unfold Profiled.uses ProgramLabel.owe
    rw [hl]
    dsimp only
    rw [howe _ ht]
    omega
  cases l with
  | take t | ret t | count t => exact hworker rfl hready
  | step t a =>
    cases t with
    | some t => exact hworker rfl hready
    | none => rfl
  | evictTask | main => rfl

omit [DecidableEq Tid] [Fintype Tid] in
theorem updates_report (zp : ZnProfiler) :
    (metricStep .double intervalSec zp .report).ledger.updates = zp.ledger.updates := by
  unfold metricStep profilerStep
  cases hr : zp.report <;> rfl

omit [DecidableEq Tid] [Fintype Tid] in
/-- A `chunk_sz` of at most 53 digits is a double. -/
theorem round_chunkSz (hchunk : g.chunkSz < 2 ^ 53) :
    MetricArith.double.round g.chunkSz = (g.chunkSz : ℚ) := by
  have hlt : |(g.chunkSz : ℤ)| < 2 ^ 53 := by
    rw [Nat.abs_cast]
    exact_mod_cast hchunk
  exact roundFloat_intCast hlt

omit [DecidableEq Tid] [Fintype Tid] in
theorem givenValue_whole (hchunk : g.chunkSz < 2 ^ 53) (i : ZnProfilerTag) (value : ℚ) :
    GivesWhole (givenValue g i value) := by
  unfold givenValue
  cases ht : metricType i with
  | avg =>
    intro hover
    rw [ht] at hover
    cases hover
  | overTime => exact fun _ => ⟨g.chunkSz, round_chunkSz hchunk⟩
  | set => trivial

/-- The updates of a metric after a value was given. -/
theorem updates_give (hchunk : g.chunkSz < 2 ^ 53) (zp : ZnProfiler) (i j : ZnProfilerTag) (value : ℚ)
    (hj : metricType j = .overTime) :
    (metricStep .double intervalSec zp (givenValue g i value)).ledger.updates j
      = if j = i then (g.chunkSz : ℚ) :: zp.ledger.updates j else zp.ledger.updates j := by
  unfold givenValue
  by_cases hji : j = i
  · subst hji
    rw [hj, if_pos rfl, round_chunkSz hchunk]
    exact Function.update_self ..
  · rw [if_neg hji]
    cases metricType i with
    | avg | overTime => exact Function.update_of_ne hji ..
    | set => rfl

/-- A value is given: it is owed no longer. -/
theorem uses_give (hchunk : g.chunkSz < 2 ^ 53) {t : Tid} {i : ZnProfilerTag}
    {rest : List ZnProfilerTag} (ht : x.owed t = i :: rest) (value : ℚ) {j : ZnProfilerTag} (hj : metricType j = .overTime) :
    (⟨x.program, metricStep .double intervalSec x.profiler (givenValue g i value),
      Function.update x.owed t rest⟩ : Profiled P E Tid).uses j = x.uses j := by
  have htotal := total_update (List.count j) x.owed t rest
  rw [ht, List.count_cons] at htotal
  unfold Profiled.uses
  dsimp only
  rw [updates_give hchunk _ _ _ _ hj]
  by_cases hji : j = i
  · rw [if_pos hji, List.length_cons]
    rw [if_pos (by simp [hji])] at htotal
    omega
  · rw [if_neg hji]
    rw [if_neg (by simpa using fun heq => hji heq.symm)] at htotal
    omega

omit [DecidableEq Tid] [Fintype Tid] in
/-- The results that are buffers. -/
theorem result_metrics (s : ProgramState P E Tid) (l : ProgramLabel Tid) :
    (l.result s).toList.countP (fun r => r.2.isSome) = (l.metrics s).count .cacheThroughput := by
  have hget : ∀ pc : Pc E, pc.metrics.count .cacheThroughput = 0 := by
    intro pc
    cases pc with
    | idle | evictor => rfl
    | get pc => cases pc <;> rfl
  cases l with
  | take | count | evictTask | main => rfl
  | step t a =>
    cases t with
    | none => rfl
    | some t => exact (hget _).symm
  | ret t =>
    unfold ProgramLabel.result ProgramLabel.metrics
    dsimp only
    cases (s.cache.pool (some t)).returned with
    | none => rfl
    | some r =>
      obtain ⟨id, data⟩ := r
      cases data <;> rfl

/-- A worker that leaves its loop owes nothing. -/
theorem settled_program (h : MetricsAccount g intervalSec x n) (hal : Aligned buffer workloadMax x.program)
    {l : ProgramLabel Tid} {s : ProgramState P E Tid} (hready : l.Ready x)
    (hs : ProgramCase pol g rb x.program l s) (t : Tid) (ht : (s.work.pool t).Past) :
    l.owe x.program x.owed t = [] := by
  -- the worker that moves, and the others
  have hmoves : ∀ {u : Tid} {used : List ZnProfilerTag}, s.work.pool = Function.update x.program.work.pool u
      (s.work.pool u) → ((s.work.pool u).Past → used = []) → Function.update x.owed u used t = [] := by
    intro u used hpool hused
    by_cases htu : t = u
    · subst htu
      rw [Function.update_self]
      exact hused ht
    · rw [Function.update_of_ne htu]
      rw [hpool, Function.update_of_ne htu] at ht
      exact h.settled t ht
  have hupdated : ∀ {u : Tid} {task : TaskPc}, s.work.pool = Function.update x.program.work.pool u task →
      s.work.pool = Function.update x.program.work.pool u (s.work.pool u) := by
    intro u task hpool
    rw [hpool, Function.update_self]
  have hback : ∀ pc : Pc E, (x.program.work.backFrom pc).pool = x.program.work.pool := by
    intro pc
    unfold Workers.backFrom
    split <;> rfl
  cases hs with
  | leave hw | request hw =>
    obtain ⟨-, -, -, -, ⟨hpool, -⟩ | ⟨hpool, -⟩⟩ := take_cases hw
    · exact hmoves (hupdated hpool) fun _ => rfl
    · exact hmoves (hupdated hpool) fun _ => rfl
  | @step u a c hc =>
    refine hmoves (Function.update_eq_self ..).symm fun hpast => ?_
    -- it is in a call, so that it waits in its loop
    have hasked := hal.asked u
    rw [hpast.asked] at hasked
    cases sysStep_cases hc with
    | step hu =>
      rw [hu] at hasked
      cases hasked
    | evict hu => exact absurd hu (hal.worker u _)
  | evict | round =>
    rw [hback] at ht
    exact h.settled t ht
  | @ret u id data w c hu hw hc =>
    have hmetrics : (ProgramLabel.ret u).metrics x.program = resultMetrics data := by
      unfold ProgramLabel.metrics
      dsimp only
      rw [hu]
      rfl
    unfold ProgramLabel.owe
    rw [hmetrics]
    cases data with
    | none =>
      cases workStep_cases hw with
      | gotNull => exact hmoves (hupdated rfl) fun _ => rfl
    | some data =>
      cases workStep_cases hw with
      | got =>
        refine hmoves (hupdated rfl) fun hpast => ?_
        dsimp only at hpast
        rw [Function.update_self] at hpast
        exact hpast.elim
  | test _ hw =>
    cases workStep_cases hw with
    | evictTest | evictRound => exact h.settled t ht
  | @count u w hw =>
    cases workStep_cases hw with
    | count =>
      have hpool : (countWorker x.program.work u).pool
          = Function.update x.program.work.pool u .finished := by
        unfold countWorker
        dsimp only
        split <;> rfl
      exact hmoves (hupdated hpool) fun _ => rfl
  | main hw =>
    cases workStep_cases hw with
    | mainRuns | mainLeaves | mainEnds => exact h.settled t ht

/-- **Step lemma.** -/
theorem step (hpol : pol.Recycles g) (hchunk : g.chunkSz < 2 ^ 53) (hal : Aligned buffer workloadMax x.program)
    (h : MetricsAccount g intervalSec x n) {l : ProfiledLabel Tid} (htime : l.InTime g x)
    (hs : ProfiledCase pol g rb intervalSec x l x') :
    MetricsAccount g intervalSec x' (n.noteProfiled g x l x') := by
  cases hs with
  | @program l s hready hs =>
    have hcase := programStep_cases hs
    have hmetered := hcase.metered hpol hal
    constructor
    case totals => exact h.totals
    case hits =>
      rw [uses_program hready, h.hits]
      exact hmetered.hits.symm
    case misses =>
      have hmisses := h.misses
      have hmore := hmetered.misses
      rw [uses_program hready]
      dsimp only
      omega
    case gets =>
      rw [uses_program hready, h.gets]
      show _ = List.countP _ ((l.result x.program).toList ++ n.results)
      rw [List.countP_append, result_metrics]
      omega
    case sums => exact h.sums
    case settled => exact h.settled_program hal hready hcase
  | @give t value i rest ht =>
    constructor
    case totals =>
      refine h.totals.step (htime i ?_) (givenValue_whole hchunk i value)
      rw [ht]
      rfl
    case hits => exact (uses_give hchunk ht value rfl).trans h.hits
    case misses =>
      rw [uses_give hchunk ht value rfl]
      exact h.misses
    case gets => exact (uses_give hchunk ht value rfl).trans h.gets
    case sums =>
      intro j hj
      have hold := h.sums j hj
      dsimp only
      rw [updates_give hchunk _ _ _ _ hj]
      split
      · rw [List.sum_cons, List.length_cons, hold, Nat.mul_succ, Nat.cast_add, add_comm]
      · exact hold
    case settled =>
      intro u hu
      have hnone := h.settled u hu
      have hut : u ≠ t := by
        intro heq
        rw [heq, ht] at hnone
        cases hnone
      show Function.update x.owed t rest u = []
      rw [Function.update_of_ne hut]
      exact hnone
  | report hm =>
    have huses : ∀ i, (⟨x.program, metricStep .double intervalSec x.profiler .report, x.owed⟩ :
        Profiled P E Tid).uses i = x.uses i := by
      intro i
      unfold Profiled.uses
      dsimp only
      rw [updates_report]
    constructor
    case totals => exact h.totals.report
    case hits => exact (huses _).trans h.hits
    case misses =>
      rw [huses]
      exact h.misses
    case gets => exact (huses _).trans h.gets
    case sums =>
      dsimp only
      rw [updates_report]
      exact h.sums
    case settled => exact h.settled

omit [DecidableEq Tid] in
theorem init (bytes : Buffer) : MetricsAccount g intervalSec
    (⟨initProgram pol g bytes buffer workloadMax, znProfilerInit, fun _ => []⟩ : Profiled P E Tid)
    ⟨[], ⟨0, 0, 0⟩⟩ := by
  have huses : ∀ i, (⟨initProgram pol g bytes buffer workloadMax, znProfilerInit, fun _ => []⟩ :
      Profiled P E Tid).uses i = 0 := by
    intro i
    have hnone : total (List.count i) (fun _ : Tid => []) = 0 :=
      (total_eq_zero_iff _ _).mpr fun _ => rfl
    show 0 + total (List.count i) (fun _ : Tid => []) = 0
    rw [hnone]
  constructor
  case totals => exact .init
  case hits => exact huses _
  case misses =>
    have hnone : total Pc.finishingMiss (fun _ : Option Tid => (Pc.idle : Pc E)) = 0 :=
      (total_eq_zero_iff _ _).mpr fun _ => rfl
    rw [huses]
    show 0 + total Pc.finishingMiss (fun _ : Option Tid => (Pc.idle : Pc E)) = 0
    rw [hnone]
  case gets => exact huses _
  case sums => exact fun _ _ => rfl
  case settled => exact fun _ _ => rfl

/-- **Run lemma.** -/
theorem reach (hpol : pol.Recycles g) (hchunk : g.chunkSz < 2 ^ 53) (hids : ∀ i, buffer i < 2 ^ 32)
    {C : Profiled P E Tid → ProfiledLabel Tid → Prop} (hC : ∀ y l, C y l → l.InTime g y)
    (hr : (profiledLogSystem Tid pol g rb intervalSec buffer workloadMax).Reach
      (fun y l => C y.1 l) (x, n)) : MetricsAccount g intervalSec x n := by
  refine hr.invariant (I := fun y => MetricsAccount g intervalSec y.1 y.2) ?_ ?_
  · rintro ⟨y, m⟩ ⟨⟨bytes, hy⟩, hm⟩
    obtain rfl : y = _ := hy
    obtain rfl : m = _ := hm
    exact init bytes
  · rintro ⟨y, m⟩ l ⟨y', m'⟩ hreach h hc ⟨hs, hn⟩
    obtain rfl : m' = m.noteProfiled g y l y' := hn
    have hlog : (programLogSystem Tid pol g rb buffer workloadMax).Reach
        (fun z k => TransSys.Any z.1 k) (y.program, m) := program_run (fun _ _ _ => trivial) hreach
    have hrun : (programSystem Tid pol g rb buffer workloadMax).Reach TransSys.Any y.program :=
      TransSys.Reach.forget hlog
    exact h.step hpol hchunk (Aligned.reach hids hrun) (hC y l hc) (profiledStep_cases hs)

end MetricsAccount

/-! ## §5. What the lines add up to. -/

/-- The bytes that a throughput stands for: those in the lines, and those since
the last report. -/
def Profiled.bytes (x : Profiled P E Tid) (intervalSec : Nat) (i : ZnProfilerTag) : ℚ :=
  (intervalSec : ℚ) * x.profiler.reported i + (x.profiler.metrics i).value

/-- `bytes` is `chunks` chunks, up to what `k` lines are off by. -/
def IsChunks (g : Geometry) (intervalSec k : Nat) (bytes : ℚ) (chunks : Nat) : Prop :=
  |bytes - (g.chunkSz * chunks : Nat)| ≤ lineSlack intervalSec (g.chunkSz * chunks : Nat) k

/-- **The throughputs add up.** -/
structure AddsUp (g : Geometry) (intervalSec : Nat) (buffer : Nat → Nat) (workloadMax : Nat)
    (x : Profiled P E Tid) (n : ProgramLog) : Prop where
  /-- Every hit has been given, or is owed. -/
  hits : IsChunks g intervalSec (x.profiler.linesOf .cacheHitThroughput).length
    (x.bytes intervalSec .cacheHitThroughput
      + (g.chunkSz * total (List.count .cacheHitThroughput) x.owed : Nat))
    x.program.cache.cache.hits
  /-- Every miss has been given, or is owed, or its call goes on. -/
  misses : IsChunks g intervalSec (x.profiler.linesOf .cacheMissThroughput).length
    (x.bytes intervalSec .cacheMissThroughput
      + (g.chunkSz * (total (List.count .cacheMissThroughput) x.owed
        + total Pc.finishingMiss x.program.cache.pool) : Nat))
    x.program.cache.cache.misses
  /-- So has every buffer that came back. -/
  gets : IsChunks g intervalSec (x.profiler.linesOf .cacheThroughput).length
    (x.bytes intervalSec .cacheThroughput
      + (g.chunkSz * total (List.count .cacheThroughput) x.owed : Nat))
    (n.results.countP fun r => r.2.isSome)
  served : WorkloadServed buffer workloadMax x.program n →
    IsChunks g intervalSec (x.profiler.linesOf .cacheThroughput).length
        (x.bytes intervalSec .cacheThroughput) workloadMax
      ∧ IsChunks g intervalSec ((x.profiler.linesOf .cacheHitThroughput).length
          + (x.profiler.linesOf .cacheMissThroughput).length)
        (x.bytes intervalSec .cacheHitThroughput + x.bytes intervalSec .cacheMissThroughput) workloadMax

/-- What is owed counts in full. -/
theorem IsChunks.add {k : Nat} {bytes : ℚ} {chunks : Nat} (h : IsChunks g intervalSec k bytes chunks)
    (more : Nat) :
    IsChunks g intervalSec k (bytes + (g.chunkSz * more : Nat)) (chunks + more) := by
  have hsplit : ((g.chunkSz * (chunks + more) : Nat) : ℚ)
      = (g.chunkSz * chunks : Nat) + (g.chunkSz * more : Nat) := by
    rw [Nat.mul_add, Nat.cast_add]
  have hshare : (0 : ℚ) ≤ doubleUnit * (g.chunkSz * more : Nat) := by positivity
  unfold IsChunks at h ⊢
  rw [hsplit, add_sub_add_right_eq_sub]
  refine h.trans ?_
  unfold lineSlack
  linarith

/-- Two throughputs together. -/
theorem IsChunks.both {k k' : Nat} {bytes bytes' : ℚ} {chunks chunks' : Nat}
    (h : IsChunks g intervalSec k bytes chunks) (h' : IsChunks g intervalSec k' bytes' chunks') :
    IsChunks g intervalSec (k + k') (bytes + bytes') (chunks + chunks') := by
  have hsplit : ((g.chunkSz * (chunks + chunks') : Nat) : ℚ)
      = (g.chunkSz * chunks : Nat) + (g.chunkSz * chunks' : Nat) := by
    rw [Nat.mul_add, Nat.cast_add]
  unfold IsChunks at h h' ⊢
  rw [hsplit, add_sub_add_comm]
  refine (abs_add_le _ _).trans ((add_le_add h h').trans (le_of_eq ?_))
  unfold lineSlack
  push_cast
  ring

section AddsUp

variable {x : Profiled P E Tid} {n : ProgramLog}

omit [DecidableEq Tid] in
/-- The bytes of a throughput, and those that are owed, are those of its uses. -/
theorem MetricsAccount.bytes_add (h : MetricsAccount g intervalSec x n) (hpos : 0 < intervalSec)
    (hidle : x.profiler.report = .idle) {i : ZnProfilerTag} (hi : metricType i = .overTime) :
    IsChunks g intervalSec (x.profiler.linesOf i).length
      (x.bytes intervalSec i + (g.chunkSz * total (List.count i) x.owed : Nat)) (x.uses i) := by
  have htotal := h.totals.total hpos hidle hi
  rw [h.sums i hi] at htotal
  exact IsChunks.add htotal _

omit [DecidableEq Tid] in
/-- Once all workers have returned nothing is owed. -/
theorem MetricsAccount.owed_nothing (h : MetricsAccount g intervalSec x n)
    (hall : x.program.work.AllReturned) (i : ZnProfilerTag) : total (List.count i) x.owed = 0 := by
  rw [total_eq_zero_iff]
  intro t
  rw [h.settled t]
  · rfl
  · rcases hall t with ht | ht
    · rw [ht]
      trivial
    · rw [ht]
      trivial

omit [DecidableEq Tid] in
theorem MetricsAccount.adds_up (h : MetricsAccount g intervalSec x n) (hpos : 0 < intervalSec)
    (hidle : x.profiler.report = .idle) (hal : Aligned buffer workloadMax x.program)
    (hwork : WorkInv x.program.work) : AddsUp g intervalSec buffer workloadMax x n := by
  have hbytes : ∀ {i : ZnProfilerTag}, metricType i = .overTime →
      IsChunks g intervalSec (x.profiler.linesOf i).length
        (x.bytes intervalSec i + (g.chunkSz * total (List.count i) x.owed : Nat)) (x.uses i) :=
    fun hi => h.bytes_add hpos hidle hi
  constructor
  case hits =>
    rw [← h.hits]
    exact hbytes rfl
  case misses =>
    -- a call that goes on has counted its miss and owes nothing yet
    rw [← h.misses, Nat.mul_add, Nat.cast_add, ← add_assoc]
    exact (hbytes rfl).add _
  case gets =>
    rw [← h.gets]
    exact hbytes rfl
  case served =>
    intro hserved
    have hfinished := hwork.finished_of_told hserved.drained.told
    have hall : x.program.work.AllReturned := fun t => Or.inl (hfinished t)
    -- the bytes of a throughput are its uses, now that none is owed
    have hall_given : ∀ {i : ZnProfilerTag}, metricType i = .overTime →
        IsChunks g intervalSec (x.profiler.linesOf i).length (x.bytes intervalSec i) (x.uses i) := by
      intro i hi
      have hsum := hbytes hi
      rw [h.owed_nothing hall, Nat.mul_zero, Nat.cast_zero, add_zero] at hsum
      exact hsum
    have hbuffers : n.results.countP (fun r => r.2.isSome) = workloadMax := by
      rw [List.countP_eq_length.mpr fun r hr => Option.isSome_iff_ne_none.mpr (hserved.buffers r hr),
        ← List.length_map Prod.fst, hserved.answered.length_eq, List.length_map, List.length_range]
    have hover : total Pc.finishingMiss x.program.cache.pool = 0 := by
      rw [total_eq_zero_iff]
      intro u
      cases u with
      | some t => rw [hal.idle_of_returned (hall t)]; rfl
      | none =>
        cases hpc : x.program.cache.pool none with
        | idle | evictor => rfl
        | get pc => exact absurd hpc (hal.evictor pc)
    constructor
    · have hgets := hall_given (i := .cacheThroughput) rfl
      rw [h.gets, hbuffers] at hgets
      exact hgets
    · have hboth := (hall_given (i := .cacheHitThroughput) rfl).both
        (hall_given (i := .cacheMissThroughput) rfl)
      have hcounted := hserved.counted
      have hmisses := h.misses
      rw [hover, Nat.add_zero] at hmisses
      rw [h.hits, hmisses, hcounted] at hboth
      exact hboth

theorem adds_up_reach (hpol : pol.Recycles g) (hchunk : g.chunkSz < 2 ^ 53) (hcard : 1 ≤ Fintype.card Tid)
    (h32 : Fintype.card Tid < 2 ^ 32) (hwork : workloadMax < 2 ^ 64) (hids : ∀ i, buffer i < 2 ^ 32)
    (hpos : 0 < intervalSec)
    (hr : (profiledLogSystem Tid pol g rb intervalSec buffer workloadMax).Reach
      (fun y l => l.InTime g y.1) (x, n)) (hidle : x.profiler.report = .idle) :
    AddsUp g intervalSec buffer workloadMax x n := by
  have hlog : (programLogSystem Tid pol g rb buffer workloadMax).Reach
      (fun z k => TransSys.Any z.1 k) (x.program, n) :=
    program_run (C := fun y l => l.InTime g y) (fun _ _ _ => trivial) hr
  have hrun : (programSystem Tid pol g rb buffer workloadMax).Reach TransSys.Any x.program :=
    TransSys.Reach.forget hlog
  have hworkers : (workSystem Tid buffer workloadMax).Reach TransSys.Any x.program.work :=
    work_run hids (fun _ _ => trivial) (fun _ => trivial) (fun _ => trivial)
      (fun _ _ _ _ _ _ _ => trivial) (fun _ _ _ => trivial) hrun
  exact (MetricsAccount.reach hpol hchunk hids (fun _ _ h => h) hr).adds_up hpos hidle
    (Aligned.reach hids hrun) (WorkInv.reach hcard h32 hwork hworkers)

end AddsUp

/-- **THE THROUGHPUTS ADD UP**, up to the rounding of their lines, under either
policy, in every interleaving of the workers, the eviction thread and the reports
in which the updates come in time, whatever the device does. -/
theorem throughputs_add_up {mem : Nat → EvictionPolicyChunkZone} (hchunk : g.chunkSz < 2 ^ 53)
    (hcard : 1 ≤ Fintype.card Tid) (h32 : Fintype.card Tid < 2 ^ 32) (hwork : workloadMax < 2 ^ 64)
    (hmax : 1 ≤ g.maxZoneChunks) (hids : ∀ i, buffer i < 2 ^ 32) (hpos : 0 < intervalSec) :
    (∀ (x : Profiled ZnPolicyPromotional FgEvict Tid) (n : ProgramLog),
      (profiledLogSystem Tid promotional g rb intervalSec buffer workloadMax).Reach
        (fun y l => l.InTime g y.1) (x, n) →
      x.profiler.report = .idle → AddsUp g intervalSec buffer workloadMax x n)
    ∧ ∀ (x : Profiled ZnPolicyChunk ChunkEvict Tid) (n : ProgramLog),
      (profiledLogSystem Tid (chunk mem) g rb intervalSec buffer workloadMax).Reach
        (fun y l => l.InTime g y.1) (x, n) →
      x.profiler.report = .idle → AddsUp g intervalSec buffer workloadMax x n :=
  ⟨fun _ _ => adds_up_reach promotional_recycles hchunk hcard h32 hwork hids hpos,
    fun _ _ => adds_up_reach (chunk_recycles hmax) hchunk hcard h32 hwork hids hpos⟩

/-- One step that meets `C` and returns, with what is noted. -/
def profiledLogExec (pol : EvictPolicy P E) (g : Geometry) (rb : Buffer) (intervalSec : Nat)
    (C : Profiled P E Tid → ProfiledLabel Tid → Prop) [∀ x l, Decidable (C x l)]
    (y : Profiled P E Tid × ProgramLog) (l : ProfiledLabel Tid) : Option (Profiled P E Tid × ProgramLog) :=
  if C y.1 l then
    ((profiledStep pol g rb intervalSec y.1 l).bind Except.toOption).map fun x' =>
      (x', y.2.noteProfiled g y.1 l x')
  else none

theorem profiledLogExec_ok {C : Profiled P E Tid → ProfiledLabel Tid → Prop} [∀ x l, Decidable (C x l)]
    (y : Profiled P E Tid × ProgramLog) (l : ProfiledLabel Tid) (y' : Profiled P E Tid × ProgramLog)
    (h : profiledLogExec pol g rb intervalSec C y l = some y') :
    C y.1 l ∧ (profiledLogSystem Tid pol g rb intervalSec buffer workloadMax).step y l y' := by
  unfold profiledLogExec at h
  split at h
  · obtain ⟨x', hx, rfl⟩ := Option.map_eq_some_iff.mp h
    exact ⟨‹_›, bind_toOption_eq_some hx, rfl⟩
  · cases h

/-- A replayed run that ends in a state passing a test. -/
theorem profiled_replay {C : Profiled P E Tid → ProfiledLabel Tid → Prop} [∀ x l, Decidable (C x l)]
    (p : Profiled P E Tid × ProgramLog → Bool) (ls : List (ProfiledLabel Tid))
    (h : (TransSys.execAll (profiledLogExec pol g rb intervalSec C) ls
      (⟨initProgram pol g (fun _ => 0) buffer workloadMax, znProfilerInit, fun _ => []⟩,
        ⟨[], ⟨0, 0, 0⟩⟩)).any p = true) :
    ∃ y, (profiledLogSystem Tid pol g rb intervalSec buffer workloadMax).Reach (fun y l => C y.1 l) y
      ∧ p y = true :=
  TransSys.Reach.exists_of_exec profiledLogExec_ok ⟨⟨fun _ => 0, rfl⟩, rfl⟩ p ls h

/-- The updates come in time, and the device succeeds. -/
def ProfiledLabel.GoesWell (g : Geometry) (x : Profiled P E Tid) (l : ProfiledLabel Tid) : Prop :=
  l.InTime g x ∧
    match l with
    | .program k => k.Meets (fun _ k => k.ZoneOk g ∧ k.TransferOk g) x.program
    | .give .. | .report => True

instance ProfiledLabel.decGoesWell (g : Geometry) (x : Profiled P E Tid) :
    (l : ProfiledLabel Tid) → Decidable (l.GoesWell g x)
  | .program _ | .give .. | .report => inferInstanceAs (Decidable (_ ∧ _))

/-- Of the program alone it is a run in which the device succeeds. -/
theorem program_goes_well {x : Profiled P E Tid} {n : ProgramLog}
    (hr : (profiledLogSystem Tid pol g rb intervalSec buffer workloadMax).Reach
      (fun y l => l.GoesWell g y.1) (x, n)) :
    (programLogSystem Tid pol g rb buffer workloadMax).Reach
      (fun y k => k.Meets (fun _ k => k.ZoneOk g ∧ k.TransferOk g) y.1) (x.program, n) :=
  program_run (C := fun y l => l.GoesWell g y)
    (D := fun s k => k.Meets (fun _ k => k.ZoneOk g ∧ k.TransferOk g) s) (fun _ _ hc => hc.2) hr

/-- A miss, a report, and a hit. -/
def missReportHit (t : Tid) : List (ProfiledLabel Tid) :=
  let goOn (n : Nat) : List (ProfiledLabel Tid) := List.replicate n (.program (.step (some t) allWell))
  let give (n : Nat) : List (ProfiledLabel Tid) := List.replicate n (.give t 5)
  [.program .main, .program (.take t)] ++ goOn 3 ++ give 1 ++ goOn 4 ++ give 2 ++ .program (.ret t)
    :: give 5 ++ List.replicate 23 .report ++ .program (.take t) :: goOn 2 ++ give 1 ++ goOn 3 ++ give 2
    ++ .program (.ret t) :: give 5 ++ [.program (.take t), .program (.count t)]

/-- Under either policy that run serves both requests, and its one line of the
total throughput says 68.266667 bytes per second. -/
theorem missReportHit_served {pol : EvictPolicy P E} (hpol : pol.Recycles g)
    (hmax : 1 ≤ g.maxZoneChunks) (hlt : g.maxZoneChunks < 2 ^ 32) (hdvd : writeGranularity ∣ g.chunkSz)
    (h : (TransSys.execAll (profiledLogExec pol g rb 60 (fun x l => l.GoesWell g x))
      (missReportHit (0 : Fin 1))
      (⟨initProgram pol g (fun _ => 0) (fun _ => 7) 2, znProfilerInit, fun _ => []⟩,
        ⟨[], ⟨0, 0, 0⟩⟩)).any (fun y =>
          y.1.profiler.linesOf .cacheThroughput = [68266667 / 10 ^ 6]
            ∧ y.1.profiler.report = .idle ∧ y.1.program.work.AllReturned) = true) :
    ∃ (x : Profiled P E (Fin 1)) (n : ProgramLog),
      (profiledLogSystem (Fin 1) pol g rb 60 (fun _ => 7) 2).Reach (fun y l => l.InTime g y.1) (x, n)
        ∧ x.profiler.linesOf .cacheThroughput = [68266667 / 10 ^ 6] ∧ x.profiler.report = .idle
        ∧ WorkloadServed (fun _ => 7) 2 x.program n := by
  obtain ⟨⟨x, n⟩, hr, hs⟩ := profiled_replay _ _ h
  obtain ⟨hlines, hidle, hall⟩ := of_decide_eq_true hs
  exact ⟨x, n, hr.mono fun _ _ hc => hc.1, hlines, hidle,
    workload_served hpol (by decide) (by decide) (by decide) hmax hlt hdvd (fun _ => by decide)
      (program_goes_well hr) hall⟩

/-- Of two requests for one id the miss is in a line, and the hit is held: together
they are two chunks, up to what that line is off by. -/
theorem throughputs_add_up_two :
    (∃ (x : Profiled ZnPolicyPromotional FgEvict (Fin 1)) (n : ProgramLog),
      x.profiler.linesOf .cacheThroughput = [68266667 / 10 ^ 6]
        ∧ AddsUp oneChunk 60 (fun _ => 7) 2 x n
        ∧ IsChunks oneChunk 60 1 (x.bytes 60 .cacheThroughput) 2)
    ∧ ∃ (x : Profiled ZnPolicyChunk ChunkEvict (Fin 1)) (n : ProgramLog),
      x.profiler.linesOf .cacheThroughput = [68266667 / 10 ^ 6]
        ∧ AddsUp fiveZones 60 (fun _ => 7) 2 x n
        ∧ IsChunks fiveZones 60 1 (x.bytes 60 .cacheThroughput) 2 := by
  constructor
  · obtain ⟨x, n, hr, hlines, hidle, hserved⟩ := @missReportHit_served _ _ oneChunk (fun _ => 0)
      promotional promotional_recycles (by decide) (by decide) (by decide) (by decide +kernel)
    have hadds := @throughputs_add_up oneChunk (fun _ => 0) (Fin 1) _ _ 60 (fun _ => 7) 2 clearedPool
      (by decide) (by decide) (by decide) (by decide) (by decide) (fun _ => by decide) (by decide)
    have hx := hadds.1 x n hr hidle
    have hbytes := (hx.served hserved).1
    rw [hlines] at hbytes
    exact ⟨x, n, hlines, hx, hbytes⟩
  · obtain ⟨x, n, hr, hlines, hidle, hserved⟩ := @missReportHit_served _ _ fiveZones (fun _ => 0)
      (chunk clearedPool) (chunk_recycles (by decide)) (by decide) (by decide) (by decide)
      (by decide +kernel)
    have hadds := @throughputs_add_up fiveZones (fun _ => 0) (Fin 1) _ _ 60 (fun _ => 7) 2 clearedPool
      (by decide) (by decide) (by decide) (by decide) (by decide) (fun _ => by decide) (by decide)
    have hx := hadds.2 x n hr hidle
    have hbytes := (hx.served hserved).1
    rw [hlines] at hbytes
    exact ⟨x, n, hlines, hx, hbytes⟩

end ZnCache
