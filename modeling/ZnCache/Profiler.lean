/-
  ZnCache.Profiler — `znprofiler.c`: updates from any number of threads, and
  the periodic report.

  `zn_profiler_write_all_and_reset` reads a metric under `zp->lock`, gives the
  lock up to write a line, and takes it again to reset the metric.  One step is
  one stretch under the lock; the line goes with the read before it.  An update
  is one stretch, whoever makes it.

  Values are doubles, kept as the rational numbers they are.  `MetricArith` says
  what a sum or a quotient is rounded to, and what `%f` prints of it:
  `MetricArith.double` is the arithmetic of the code, `MetricArith.exact` loses
  nothing.  The exponent of a double is not bounded here: infinities and
  subnormal numbers are left out.  So is the timestamp of a line.  `count` is a
  `uint32_t`.

  Main results:
    * `profiler_conserves_iff` — in exact arithmetic nothing is missing of a
      metric between reports exactly when no update of it fell between its read
      and its reset, and its count never wrapped;
    * `profiler_conserves_doubles` — so it is in doubles, of integers below
      `2 ^ 53`;
    * `profiler_loses_update` — such an update is lost.
-/
import ZnCache.Backend
import ZnCache.Lib.Rounding
import ZnCache.Lib.Transition
import Mathlib.Algebra.BigOperators.Group.List.Basic

namespace ZnCache

open Lib

/-! ## §1. The metrics. -/

/-- `enum zn_profiler_type`. -/
inductive ZnProfilerType where
  | avg
  | set
  | overTime
  deriving DecidableEq, Repr

/-- `zn_profiler_metric_names`. -/
def znProfilerMetricNames : List String :=
  ["GETLATENCY", "CACHE_USED_MIB", "HITRATIO", "READLATENCY", "WRITELATENCY", "FREEZONES",
    "CACHEHITLATENCY", "CACHEMISSLATENCY", "CACHETHROUGHPUT", "CACHEHITTHROUGHPUT",
    "CACHEMISSTHROUGHPUT"]

/-- `zn_profiler_metric_types`. -/
def znProfilerMetricTypes : List ZnProfilerType :=
  [.avg, .set, .set, .avg, .avg, .set, .avg, .avg, .overTime, .overTime, .overTime]

/-- `PROFILING_METRICS`. -/
abbrev profilingMetrics : Nat := 11

/-- `enum zn_profiler_tag`: the places of the metrics in the tables. -/
abbrev ZnProfilerTag := Fin profilingMetrics

/-- The constant is kept in step with the tables. -/
example : znProfilerMetricNames.length = profilingMetrics
    ∧ znProfilerMetricTypes.length = profilingMetrics := by decide

/-- The arithmetic of the metrics: the double that the result of an operation is
rounded to, and the number that `%f` prints of a double. -/
structure MetricArith where
  round : ℚ → ℚ
  print : ℚ → ℚ

namespace MetricArith

/-- Nothing is rounded. -/
def exact : MetricArith := ⟨id, id⟩

/-- A double has 53 binary digits, and `%f` prints six decimals of it. -/
def double : MetricArith := ⟨roundFloat 53, roundTo (1 / 10 ^ 6)⟩

end MetricArith

/-- `struct zn_profiler_metrics`. -/
structure ZnProfilerMetrics where
  count : Nat
  value : ℚ
  type : ZnProfilerType
  deriving DecidableEq

/-- What a report prints for a metric; `intervalSec` is `PROFILING_INTERVAL_SEC`,
which is positive. -/
def reportedValue (A : MetricArith) (intervalSec : Nat) (metric : ZnProfilerMetrics) : ℚ :=
  A.print <|
    match metric.type with
    | .avg => if metric.count = 0 then 0 else A.round (metric.value / metric.count)
    | .overTime => A.round (metric.value / intervalSec)
    | .set => metric.value

/-! ## §2. The profiler. -/

/-- Where the report is: before the read of a metric, or before its reset. -/
inductive ReportPc where
  | idle
  | read (i : ZnProfilerTag)
  | reset (i : ZnProfilerTag)
  deriving DecidableEq, Repr

/-- What the reports and the updates come to: the totals read out of each metric,
the values it was updated with, those that came between its read and its
reset, and how often its count wrapped otherwise. -/
structure ProfilerLedger where
  readOut : ZnProfilerTag → List (ℚ × Nat)
  updates : ZnProfilerTag → List ℚ
  late : ZnProfilerTag → List ℚ
  wraps : ZnProfilerTag → Nat

/-- `struct zn_profiler`, with the lines written, newest first. -/
structure ZnProfiler where
  metrics : ZnProfilerTag → ZnProfilerMetrics
  lines : List (String × ℚ)
  report : ReportPc
  ledger : ProfilerLedger

namespace ZnProfiler

variable (zp : ZnProfiler)

/-- `zn_profiler_reset_metric`. -/
def resetMetric (i : ZnProfilerTag) : ZnProfiler :=
  { zp with metrics := Function.update zp.metrics i { zp.metrics i with count := 0, value := 0 } }

/-- `zn_profiler_update_metric`. -/
def updateMetric (A : MetricArith) (i : ZnProfilerTag) (value : ℚ) : ZnProfiler :=
  { zp with metrics := Function.update zp.metrics i { zp.metrics i with
      value := A.round ((zp.metrics i).value + value)
      count := ((zp.metrics i).count + 1) % 2 ^ 32 } }

/-- The read of a metric by the report, and the line written. -/
def readMetric (A : MetricArith) (intervalSec : Nat) (i : ZnProfilerTag) : ZnProfiler :=
  { zp with lines :=
      (znProfilerMetricNames.getD i.val "", reportedValue A intervalSec (zp.metrics i)) :: zp.lines }

end ZnProfiler

/-- The next metric of the loop, or its end. -/
def ReportPc.next (i : ZnProfilerTag) : ReportPc :=
  if h : i.val + 1 < profilingMetrics then .read ⟨i.val + 1, h⟩ else .idle

/-- Who moves: a thread that updates a metric, or the report, which begins when
it is idle. -/
inductive ProfilerLabel where
  | update (i : ZnProfilerTag) (value : ℚ)
  | report
  deriving DecidableEq

/-- One step. -/
def profilerStep (A : MetricArith) (intervalSec : Nat) (zp : ZnProfiler) : ProfilerLabel → ZnProfiler
  | .update i value =>
    { zp.updateMetric A i value with ledger := { zp.ledger with
        updates := Function.update zp.ledger.updates i (value :: zp.ledger.updates i)
        late := if zp.report = .reset i
          then Function.update zp.ledger.late i (value :: zp.ledger.late i) else zp.ledger.late
        wraps := if zp.report ≠ .reset i ∧ (zp.metrics i).count + 1 = 2 ^ 32
          then Function.update zp.ledger.wraps i (zp.ledger.wraps i + 1) else zp.ledger.wraps } }
  | .report =>
    match zp.report with
    | .idle => { zp with report := .read 0 }
    | .read i =>
      { zp.readMetric A intervalSec i with
        report := .reset i
        ledger := { zp.ledger with
          readOut := Function.update zp.ledger.readOut i
            (((zp.metrics i).value, (zp.metrics i).count) :: zp.ledger.readOut i) } }
    | .reset i => { zp.resetMetric i with report := .next i }

/-- `zn_profiler_init`. -/
def znProfilerInit : ZnProfiler where
  metrics := fun i => { count := 0, value := 0, type := znProfilerMetricTypes.getD i.val .avg }
  lines := []
  report := .idle
  ledger := { readOut := fun _ => [], updates := fun _ => [], late := fun _ => [],
              wraps := fun _ => 0 }

/-- The runs of the profiler. -/
def profilerSystem (A : MetricArith) (intervalSec : Nat) : TransSys ZnProfiler ProfilerLabel where
  init zp := zp = znProfilerInit
  step zp l zp' := zp' = profilerStep A intervalSec zp l

/-! ## §3. The ledger balances. -/

/-- What the metric holds of the updates that no report has read. -/
def ZnProfiler.unread (zp : ZnProfiler) (i : ZnProfilerTag) : ℚ × Nat :=
  -- after the read, what is there will be zeroed
  if zp.report = .reset i then (0, 0) else ((zp.metrics i).value, (zp.metrics i).count)

/-- **The balance** of one metric whose sums are not rounded: every update was
read out, is still to be read, or came late; and a wrap takes `2^32` off the
count. -/
structure Balanced (zp : ZnProfiler) (i : ZnProfilerTag) : Prop where
  values : ((zp.ledger.readOut i).map Prod.fst).sum + (zp.unread i).1 + (zp.ledger.late i).sum
    = (zp.ledger.updates i).sum
  counts : ((zp.ledger.readOut i).map Prod.snd).sum + (zp.unread i).2 + (zp.ledger.late i).length
    + 2 ^ 32 * zp.ledger.wraps i = (zp.ledger.updates i).length
  count_lt : (zp.metrics i).count < 2 ^ 32

theorem Balanced.init (i : ZnProfilerTag) : Balanced znProfilerInit i where
  values := by simp [znProfilerInit, ZnProfiler.unread]
  counts := rfl
  count_lt := by
    show 0 < 2 ^ 32
    decide

/-- A step that leaves the metric, its place in the report and its ledger alone. -/
theorem Balanced.congr {zp zp' : ZnProfiler} {i : ZnProfilerTag} (h : Balanced zp i)
    (hm : zp'.metrics i = zp.metrics i) (hr : zp'.report = .reset i ↔ zp.report = .reset i)
    (hread : zp'.ledger.readOut i = zp.ledger.readOut i)
    (hup : zp'.ledger.updates i = zp.ledger.updates i)
    (hlate : zp'.ledger.late i = zp.ledger.late i)
    (hwraps : zp'.ledger.wraps i = zp.ledger.wraps i) : Balanced zp' i := by
  have hunread : zp'.unread i = zp.unread i := by
    unfold ZnProfiler.unread
    simp only [hr, hm]
  refine ⟨?_, ?_, hm ▸ h.count_lt⟩
  · rw [hunread, hread, hup, hlate]
    exact h.values
  · rw [hunread, hread, hup, hlate, hwraps]
    exact h.counts

/-- The update of a metric is not rounded. -/
def ZnProfiler.AddsExactly (zp : ZnProfiler) (A : MetricArith) (i : ZnProfilerTag) (value : ℚ) : Prop :=
  A.round ((zp.metrics i).value + value) = (zp.metrics i).value + value

theorem ZnProfiler.addsExactly_exact (zp : ZnProfiler) (i : ZnProfilerTag) (value : ℚ) :
    zp.AddsExactly .exact i value := rfl

/-- Integers below `2 ^ 53` are added by doubles as they are. -/
theorem ZnProfiler.addsExactly_double {zp : ZnProfiler} {i : ZnProfilerTag} {m k : ℤ}
    (hm : (zp.metrics i).value = m) (hlt : |m + k| < 2 ^ 53) : zp.AddsExactly .double i k := by
  unfold AddsExactly
  rw [hm, ← Int.cast_add]
  exact roundFloat_intCast hlt

section Balance

variable {A : MetricArith} {intervalSec : Nat} {zp : ZnProfiler} {i : ZnProfilerTag}

/-- An update while the metric is between its read and its reset. -/
theorem Balanced.updateLate (h : Balanced zp i) (hr : zp.report = .reset i) (value : ℚ) :
    Balanced (profilerStep A intervalSec zp (.update i value)) i := by
  have hv := h.values
  have hc := h.counts
  unfold ZnProfiler.unread at hv hc
  rw [if_pos hr] at hv hc
  refine ⟨?_, ?_, ?_⟩
  · simp only [profilerStep, ZnProfiler.updateMetric, ZnProfiler.unread, hr, if_true,
      Function.update_self, List.sum_cons]
    linarith
  · simp only [profilerStep, ZnProfiler.updateMetric, ZnProfiler.unread, hr, if_true,
      Function.update_self, List.length_cons, ne_eq, not_true_eq_false, false_and, if_false]
    omega
  · simp only [profilerStep, ZnProfiler.updateMetric, Function.update_self]
    omega

/-- An update at any other time. -/
theorem Balanced.updateInTime (h : Balanced zp i) (hr : zp.report ≠ .reset i) {value : ℚ}
    (hadds : zp.AddsExactly A i value) :
    Balanced (profilerStep A intervalSec zp (.update i value)) i := by
  have hv := h.values
  have hc := h.counts
  have hlt := h.count_lt
  unfold ZnProfiler.unread at hv hc
  unfold ZnProfiler.AddsExactly at hadds
  rw [if_neg hr] at hv hc
  refine ⟨?_, ?_, ?_⟩
  · simp only [profilerStep, ZnProfiler.updateMetric, ZnProfiler.unread, if_neg hr,
      Function.update_self, List.sum_cons, hadds]
    linarith
  · by_cases hwrap : (zp.metrics i).count + 1 = 2 ^ 32
    · simp only [profilerStep, ZnProfiler.updateMetric, ZnProfiler.unread, if_neg hr,
        if_pos (And.intro hr hwrap), Function.update_self, List.length_cons]
      omega
    · have hno : ¬ (zp.report ≠ .reset i ∧ (zp.metrics i).count + 1 = 2 ^ 32) := fun h' => hwrap h'.2
      simp only [profilerStep, ZnProfiler.updateMetric, ZnProfiler.unread, if_neg hr, if_neg hno,
        Function.update_self, List.length_cons]
      omega
  · simp only [profilerStep, ZnProfiler.updateMetric, Function.update_self]
    omega

/-- **An update** of metric `j`. -/
theorem Balanced.update (h : Balanced zp i) {j : ZnProfilerTag} {value : ℚ}
    (hadds : i = j → zp.AddsExactly A j value) :
    Balanced (profilerStep A intervalSec zp (.update j value)) i := by
  by_cases hij : i = j
  · subst hij
    by_cases hr : zp.report = .reset i
    · exact h.updateLate hr value
    · exact h.updateInTime hr (hadds rfl)
  · refine h.congr ?_ Iff.rfl rfl ?_ ?_ ?_
    · exact Function.update_of_ne hij ..
    · exact Function.update_of_ne hij ..
    · simp only [profilerStep]
      split
      · exact Function.update_of_ne hij ..
      · rfl
    · simp only [profilerStep]
      split
      · exact Function.update_of_ne hij ..
      · rfl

theorem ReportPc.next_ne_reset (i j : ZnProfilerTag) : ReportPc.next i ≠ .reset j := by
  unfold ReportPc.next
  split <;> simp

/-- **A step of the report.** -/
theorem Balanced.report (h : Balanced zp i) : Balanced (profilerStep A intervalSec zp .report) i := by
  have hv := h.values
  have hc := h.counts
  unfold ZnProfiler.unread at hv hc
  cases hr : zp.report with
  | idle =>
    simp only [profilerStep, hr]
    exact h.congr rfl (by simp [hr]) rfl rfl rfl rfl
  | read j =>
    rw [hr, if_neg (by simp)] at hv hc
    simp only [profilerStep, hr, ZnProfiler.readMetric]
    by_cases hij : i = j
    · -- read out and no longer unread
      subst hij
      refine ⟨?_, ?_, h.count_lt⟩
      · simp only [ZnProfiler.unread, if_true, Function.update_self, List.map_cons, List.sum_cons]
        linarith
      · simp only [ZnProfiler.unread, if_true, Function.update_self, List.map_cons, List.sum_cons]
        omega
    · refine h.congr rfl ?_ (Function.update_of_ne hij ..) rfl rfl rfl
      simp [hr, Ne.symm hij]
  | reset j =>
    simp only [profilerStep, hr, ZnProfiler.resetMetric]
    by_cases hij : i = j
    · -- what is zeroed has been read out, or came late
      subst hij
      rw [hr, if_pos rfl] at hv hc
      refine ⟨?_, ?_, ?_⟩
      · simp only [ZnProfiler.unread, if_neg (ReportPc.next_ne_reset i i), Function.update_self]
        linarith
      · simp only [ZnProfiler.unread, if_neg (ReportPc.next_ne_reset i i), Function.update_self]
        omega
      · simp only [Function.update_self]
        decide
    · refine h.congr (Function.update_of_ne hij ..) ?_ rfl rfl rfl rfl
      rw [hr]
      exact iff_of_false (ReportPc.next_ne_reset j i) (by simp [Ne.symm hij])

end Balance

/-- **Run lemma**, for updates that are not rounded. -/
theorem balanced_reach {A : MetricArith} {intervalSec : Nat} {C : ZnProfiler → ProfilerLabel → Prop}
    (hadds : ∀ zp j value, C zp (.update j value) → zp.AddsExactly A j value) {zp : ZnProfiler}
    (hr : (profilerSystem A intervalSec).Reach C zp) (i : ZnProfilerTag) : Balanced zp i := by
  refine hr.invariant (I := fun zp => Balanced zp i) (fun zp h0 => ?_) fun zp l zp' _ h hc hs => ?_
  · obtain rfl : zp = znProfilerInit := h0
    exact Balanced.init i
  · obtain rfl : zp' = profilerStep A intervalSec zp l := hs
    cases l with
    | update j value => exact h.update fun _ => hadds zp j value hc
    | report => exact h.report

/-! ## §4. Nothing is lost. -/

/-- What was read out and what the metric holds is what it was updated with. -/
def Conserved (zp : ZnProfiler) (i : ZnProfilerTag) : Prop :=
  ((zp.ledger.readOut i).map Prod.fst).sum + (zp.metrics i).value = (zp.ledger.updates i).sum
  ∧ ((zp.ledger.readOut i).map Prod.snd).sum + (zp.metrics i).count = (zp.ledger.updates i).length

/-- An update comes in time: not between the read of its metric and the reset,
and the count has room. -/
def InTime (zp : ZnProfiler) : ProfilerLabel → Prop
  | .update i _ => zp.report ≠ .reset i ∧ (zp.metrics i).count + 1 < 2 ^ 32
  | .report => True

theorem inTime_reach {A : MetricArith} {intervalSec : Nat} {zp : ZnProfiler}
    (hr : (profilerSystem A intervalSec).Reach InTime zp) (i : ZnProfilerTag) :
    zp.ledger.late i = [] ∧ zp.ledger.wraps i = 0 := by
  refine hr.invariant (I := fun zp => zp.ledger.late i = [] ∧ zp.ledger.wraps i = 0)
    (fun zp h0 => ?_) fun zp l zp' _ h hc hs => ?_
  · obtain rfl : zp = znProfilerInit := h0
    exact ⟨rfl, rfl⟩
  · obtain rfl : zp' = profilerStep A intervalSec zp l := hs
    cases l with
    | update j value =>
      obtain ⟨hr, hroom⟩ := hc
      have hno : ¬ (zp.report ≠ .reset j ∧ (zp.metrics j).count + 1 = 2 ^ 32) := by
        rintro ⟨-, he⟩
        omega
      simp only [profilerStep, if_neg hr, if_neg hno]
      exact h
    | report =>
      unfold profilerStep
      dsimp only
      split <;> exact h

theorem conserved_iff {A : MetricArith} {intervalSec : Nat} {C : ZnProfiler → ProfilerLabel → Prop}
    (hadds : ∀ zp j value, C zp (.update j value) → zp.AddsExactly A j value) {zp : ZnProfiler}
    (hr : (profilerSystem A intervalSec).Reach C zp) (hidle : zp.report = .idle) (i : ZnProfilerTag) :
    Conserved zp i ↔ zp.ledger.late i = [] ∧ zp.ledger.wraps i = 0 := by
  have hv := (balanced_reach hadds hr i).values
  have hc := (balanced_reach hadds hr i).counts
  unfold ZnProfiler.unread at hv hc
  rw [hidle, if_neg (by simp)] at hv hc
  constructor
  · intro hcons
    have hcount := hcons.2
    -- counts only grow, so nothing cancels
    have hlen : (zp.ledger.late i).length = 0 := by omega
    exact ⟨List.length_eq_zero_iff.mp hlen, by omega⟩
  · intro h
    obtain ⟨hlate, hwraps⟩ := h
    rw [hlate] at hv hc
    rw [hwraps] at hc
    simp only [List.sum_nil, List.length_nil] at hv hc
    exact ⟨by linarith, by omega⟩

/-- **THE PROFILER CONSERVES A METRIC** between reports, with sums that are not
rounded, exactly when no update of it came between its read and its reset and
its count did not wrap; so it does in every run whose updates come in time. -/
theorem profiler_conserves_iff (intervalSec : Nat) :
    (∀ zp, (profilerSystem .exact intervalSec).Reach TransSys.Any zp → zp.report = .idle →
      ∀ i, Conserved zp i ↔ zp.ledger.late i = [] ∧ zp.ledger.wraps i = 0)
    ∧ ∀ zp, (profilerSystem .exact intervalSec).Reach InTime zp → zp.report = .idle →
      ∀ i, Conserved zp i :=
  ⟨fun _ hr hidle i => conserved_iff (fun zp i value _ => zp.addsExactly_exact i value) hr hidle i,
    fun _ hr hidle i =>
      (conserved_iff (fun zp i value _ => zp.addsExactly_exact i value) hr hidle i).mpr
        (inTime_reach hr i)⟩

instance decInTime (zp : ZnProfiler) : DecidablePred (InTime zp)
  | .update i _ => inferInstanceAs (Decidable (zp.report ≠ .reset i ∧ (zp.metrics i).count + 1 < 2 ^ 32))
  | .report => isTrue trivial

/-- One step that meets `C`. -/
def profilerExec (A : MetricArith) (intervalSec : Nat) (C : ZnProfiler → ProfilerLabel → Prop)
    [∀ zp l, Decidable (C zp l)] (zp : ZnProfiler) (l : ProfilerLabel) : Option ZnProfiler :=
  if C zp l then some (profilerStep A intervalSec zp l) else none

theorem profilerExec_ok {A : MetricArith} {intervalSec : Nat} {C : ZnProfiler → ProfilerLabel → Prop}
    [∀ zp l, Decidable (C zp l)] (zp : ZnProfiler) (l : ProfilerLabel) (zp' : ZnProfiler)
    (h : profilerExec A intervalSec C zp l = some zp') :
    C zp l ∧ (profilerSystem A intervalSec).step zp l zp' := by
  unfold profilerExec at h
  split at h
  · cases h
    exact ⟨‹_›, rfl⟩
  · cases h

/-- The get latency is updated with 5 before a report, and with 7 after it. -/
theorem profiler_conserves_iff_two :
    ∃ zp, (profilerSystem .exact 10).Reach InTime zp ∧ zp.report = .idle
      ∧ zp.ledger.readOut 0 = [(5, 1)] ∧ (zp.metrics 0).value = 7 ∧ Conserved zp 0 := by
  obtain ⟨zp, hr, hs⟩ := TransSys.Reach.exists_of_exec (T := profilerSystem .exact 10) (C := InTime)
    profilerExec_ok rfl
    (fun zp => zp.report = .idle ∧ zp.ledger.readOut 0 = [(5, 1)] ∧ (zp.metrics 0).value = 7)
    (.update 0 5 :: List.replicate 23 .report ++ [.update 0 7]) (by decide +kernel)
  obtain ⟨hidle, hread, hvalue⟩ := of_decide_eq_true hs
  exact ⟨zp, hr, hidle, hread, hvalue, (profiler_conserves_iff 10).2 zp hr hidle 0⟩

/-- An update adds integers, and to less than `2 ^ 53`. -/
def AddsIntegers (zp : ZnProfiler) : ProfilerLabel → Prop
  | .update i value => ∃ m k : ℤ, (zp.metrics i).value = m ∧ value = k ∧ |m + k| < 2 ^ 53
  | .report => True

/-- In doubles the same holds of integers. -/
theorem profiler_conserves_doubles {intervalSec : Nat} {zp : ZnProfiler}
    (hr : (profilerSystem .double intervalSec).Reach AddsIntegers zp) (hidle : zp.report = .idle)
    (i : ZnProfilerTag) : Conserved zp i ↔ zp.ledger.late i = [] ∧ zp.ledger.wraps i = 0 := by
  refine conserved_iff (fun zp j value hc => ?_) hr hidle i
  obtain ⟨m, k, hm, rfl, hlt⟩ := hc
  exact ZnProfiler.addsExactly_double hm hlt

/-- **AN UPDATE IS LOST.**  The get latency is updated with 5 after the report
has read it and before it is reset: when the report is over, neither the report
nor the metric has the 5. -/
theorem profiler_loses_update :
    ∃ zp, (profilerSystem .exact 10).Reach TransSys.Any zp ∧ zp.report = .idle
      ∧ (zp.metrics 0).type = .avg ∧ zp.ledger.updates 0 = [5]
      ∧ zp.ledger.readOut 0 = [(0, 0)] ∧ (zp.metrics 0).value = 0 ∧ ¬ Conserved zp 0 := by
  obtain ⟨zp, hr, hs⟩ := TransSys.Reach.exists_of_exec (T := profilerSystem .exact 10)
    (C := TransSys.Any) profilerExec_ok rfl
    (fun zp => zp.report = .idle ∧ (zp.metrics 0).type = .avg ∧ zp.ledger.updates 0 = [5]
      ∧ zp.ledger.readOut 0 = [(0, 0)] ∧ (zp.metrics 0).value = 0)
    (.report :: .report :: .update 0 5 :: List.replicate 21 .report) (by decide +kernel)
  obtain ⟨hidle, htype, hupdates, hread, hvalue⟩ := of_decide_eq_true hs
  refine ⟨zp, hr, hidle, htype, hupdates, hread, hvalue, fun h => ?_⟩
  have hsum := h.1
  rw [hread, hvalue, hupdates] at hsum
  revert hsum
  decide +kernel

end ZnCache
