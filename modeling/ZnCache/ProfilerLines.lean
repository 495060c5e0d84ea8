/-
  ZnCache.ProfilerLines — `znprofiler.c`: what the lines of a report say.

  `ZnCache.Profiler` follows totals.  Here every line is told apart: an observer
  notes the values that a metric was given since its last reset, and with each
  line what had been noted of its metric when it was written.  A metric that is
  an average or a throughput is updated, one that shows a state is set, from any
  number of threads at any time.

  Main result: `report_lines` — the lines come in the order of the table, round
  after round, and each says what its metric stands for, as far as doubles and
  `%f` can: the mean of the values noted, their sum per second, or the last of
  them.  The sum of integers below `2 ^ 53` is exact, and so is the line but for
  the quotient and the print; of other values, every sum takes its share.
-/
import ZnCache.Profiler
import ZnCache.Lib.Observed

namespace ZnCache

open Lib

/-! ## §1. The profiler, with `zn_profiler_set_metric`. -/

/-- `zn_profiler_set_metric`. -/
def ZnProfiler.setMetric (zp : ZnProfiler) (i : ZnProfilerTag) (value : ℚ) : ZnProfiler :=
  { zp with metrics := Function.update zp.metrics i { zp.metrics i with value := value } }

/-- Who moves: a thread that updates a metric or sets it, or the report. -/
inductive MetricLabel where
  | update (i : ZnProfilerTag) (value : ℚ)
  | set (i : ZnProfilerTag) (value : ℚ)
  | report
  deriving DecidableEq

/-- One step. -/
def metricStep (A : MetricArith) (intervalSec : Nat) (zp : ZnProfiler) : MetricLabel → ZnProfiler
  | .update i value => profilerStep A intervalSec zp (.update i value)
  | .set i value => zp.setMetric i value
  | .report => profilerStep A intervalSec zp .report

/-- The runs of the profiler, from `zn_profiler_init`. -/
def metricSystem (A : MetricArith) (intervalSec : Nat) : TransSys ZnProfiler MetricLabel where
  init zp := zp = znProfilerInit
  step zp l zp' := zp' = metricStep A intervalSec zp l

/-- The type of a metric. -/
def metricType (i : ZnProfilerTag) : ZnProfilerType := znProfilerMetricTypes.getD i.val .avg

/-- A metric is set where it shows a state and updated elsewhere, and its count
has room. -/
def AsTyped (zp : ZnProfiler) : MetricLabel → Prop
  | .update i _ => metricType i ≠ .set ∧ (zp.metrics i).count + 1 < 2 ^ 32
  | .set i _ => metricType i = .set
  | .report => True

instance decAsTyped (zp : ZnProfiler) : DecidablePred (AsTyped zp)
  | .update i _ => inferInstanceAs (Decidable (metricType i ≠ .set ∧ (zp.metrics i).count + 1 < 2 ^ 32))
  | .set i _ => inferInstanceAs (Decidable (metricType i = .set))
  | .report => isTrue trivial

/-! ## §2. What a line should say. -/

/-- What a metric stands for, of the values it was given, newest first. -/
def windowMeaning (intervalSec : Nat) (i : ZnProfilerTag) (values : List ℚ) : ℚ :=
  match metricType i with
  | .avg => if values = [] then 0 else values.sum / values.length
  | .overTime => values.sum / intervalSec
  | .set => values.headD 0

/-- The values added up one after the other. -/
def windowSum (A : MetricArith) (values : List ℚ) : ℚ :=
  values.foldr (fun value sum => A.round (sum + value)) 0

/-- What is printed of that. -/
def windowReport (A : MetricArith) (intervalSec : Nat) (i : ZnProfilerTag) (values : List ℚ) : ℚ :=
  A.print <|
    match metricType i with
    | .avg => if values = [] then 0 else A.round (windowSum A values / values.length)
    | .overTime => A.round (windowSum A values / intervalSec)
    | .set => values.headD 0

/-- What an observer notes: the values a metric was given since its last reset,
and of each line its metric and the values noted then.  Newest first. -/
structure Noted where
  window : ZnProfilerTag → List ℚ
  lines : List (ZnProfilerTag × List ℚ)

/-- What is noted of one step. -/
def Noted.note (n : Noted) (zp : ZnProfiler) : MetricLabel → ZnProfiler → Noted
  | .update i value, _ | .set i value, _ =>
    { n with window := Function.update n.window i (value :: n.window i) }
  | .report, _ =>
    match zp.report with
    | .idle => n
    | .read i => { n with lines := (i, n.window i) :: n.lines }
    | .reset i => { n with window := Function.update n.window i [] }

/-- The runs of the profiler, with what is noted. -/
def notedSystem (A : MetricArith) (intervalSec : Nat) : TransSys (ZnProfiler × Noted) MetricLabel :=
  (metricSystem A intervalSec).observed ⟨fun _ => [], []⟩ Noted.note

/-- The metric whose line comes next. -/
def ReportPc.due : ReportPc → Nat
  | .idle => 0
  | .read i => i.val
  | .reset i => (i.val + 1) % profilingMetrics

/-- A metric holds what its window comes to. -/
structure Sums (A : MetricArith) (metric : ZnProfilerMetrics) (type : ZnProfilerType)
    (window : List ℚ) : Prop where
  type_eq : metric.type = type
  shown : type = .set → metric.value = window.headD 0
  summed : type ≠ .set → metric.value = windowSum A window ∧ metric.count = window.length

/-- **The lines are right.** -/
structure LinesRight (A : MetricArith) (intervalSec : Nat) (zp : ZnProfiler) (n : Noted) : Prop where
  metrics : ∀ i, Sums A (zp.metrics i) (metricType i) (n.window i)
  lines : zp.lines = n.lines.map fun x =>
    (znProfilerMetricNames.getD x.1.val "", windowReport A intervalSec x.1 x.2)
  order : n.lines.reverse.map (fun x => x.1.val)
    = (List.range n.lines.length).map (· % profilingMetrics)
  due : n.lines.length % profilingMetrics = zp.report.due

/-! ## §3. Every run. -/

section Steps

variable {A : MetricArith} {intervalSec : Nat} {zp : ZnProfiler} {n : Noted}

/-- What is printed is what the window comes to. -/
theorem Sums.reported {metric : ZnProfilerMetrics} {i : ZnProfilerTag} {window : List ℚ}
    (h : Sums A metric (metricType i) window) :
    reportedValue A intervalSec metric = windowReport A intervalSec i window := by
  unfold reportedValue windowReport
  apply congrArg A.print
  rw [h.type_eq]
  cases ht : metricType i with
  | avg =>
    obtain ⟨hsum, hcount⟩ := h.summed (by rw [ht]; decide)
    show (if metric.count = 0 then (0 : ℚ) else _) = if window = [] then 0 else _
    rw [hsum, hcount]
    by_cases hw : window = []
    · rw [if_pos hw, if_pos (List.length_eq_zero_iff.mpr hw)]
    · rw [if_neg hw, if_neg fun hlen => hw (List.length_eq_zero_iff.mp hlen)]
  | overTime =>
    show A.round (metric.value / _) = _
    rw [(h.summed (by rw [ht]; decide)).1]
  | set =>
    show metric.value = _
    rw [h.shown ht]

/-- The metric that a step is about, apart from the others. -/
theorem sums_update {metrics : ZnProfilerTag → ZnProfilerMetrics} {window : ZnProfilerTag → List ℚ}
    (h : ∀ i, Sums A (metrics i) (metricType i) (window i)) {j : ZnProfilerTag}
    {metric : ZnProfilerMetrics} {values : List ℚ} (hj : Sums A metric (metricType j) values)
    (i : ZnProfilerTag) :
    Sums A (Function.update metrics j metric i) (metricType i) (Function.update window j values i) := by
  by_cases hij : i = j
  · subst hij
    rw [Function.update_self, Function.update_self]
    exact hj
  · rw [Function.update_of_ne hij, Function.update_of_ne hij]
    exact h i

/-- A metric is given a value. -/
theorem LinesRight.given (h : LinesRight A intervalSec zp n) {zp' : ZnProfiler} {i : ZnProfilerTag}
    {value : ℚ} (metric : ZnProfilerMetrics)
    (hmetrics : zp'.metrics = Function.update zp.metrics i metric) (hlines : zp'.lines = zp.lines)
    (hreport : zp'.report = zp.report) (hi : Sums A metric (metricType i) (value :: n.window i)) :
    LinesRight A intervalSec zp' { n with window := Function.update n.window i (value :: n.window i) } where
  metrics := by
    rw [hmetrics]
    exact sums_update h.metrics hi
  lines := hlines.trans h.lines
  order := h.order
  due := by
    rw [hreport]
    exact h.due

theorem LinesRight.update (h : LinesRight A intervalSec zp n) {i : ZnProfilerTag} (value : ℚ)
    (htype : metricType i ≠ .set) (hroom : (zp.metrics i).count + 1 < 2 ^ 32) :
    LinesRight A intervalSec (metricStep A intervalSec zp (.update i value))
      { n with window := Function.update n.window i (value :: n.window i) } := by
  refine h.given _ rfl rfl rfl ?_
  obtain ⟨hsum, hcount⟩ := (h.metrics i).summed htype
  refine ⟨(h.metrics i).type_eq, fun hset => absurd hset htype, fun _ => ⟨?_, ?_⟩⟩
  · show A.round ((zp.metrics i).value + value) = A.round (windowSum A (n.window i) + value)
    rw [hsum]
  · show ((zp.metrics i).count + 1) % 2 ^ 32 = (n.window i).length + 1
    rw [Nat.mod_eq_of_lt hroom, hcount]

theorem LinesRight.set (h : LinesRight A intervalSec zp n) {i : ZnProfilerTag} (value : ℚ)
    (htype : metricType i = .set) :
    LinesRight A intervalSec (metricStep A intervalSec zp (.set i value))
      { n with window := Function.update n.window i (value :: n.window i) } := by
  refine h.given _ rfl rfl rfl ?_
  exact ⟨(h.metrics i).type_eq, fun _ => rfl, fun hne => absurd htype hne⟩

theorem ReportPc.due_next (i : ZnProfilerTag) :
    (ReportPc.next i).due = (i.val + 1) % profilingMetrics := by
  unfold ReportPc.next
  split
  · rename_i hlt
    exact (Nat.mod_eq_of_lt hlt).symm
  · rename_i hlast
    have hi : i.val + 1 = profilingMetrics := by
      have hlt : i.val < profilingMetrics := i.isLt
      omega
    rw [hi]
    rfl

/-- A line is written. -/
theorem LinesRight.read (h : LinesRight A intervalSec zp n) {zp' : ZnProfiler} {i : ZnProfilerTag}
    (hr : zp.report = .read i) (hmetrics : zp'.metrics = zp.metrics)
    (hlines : zp'.lines = (zp.readMetric A intervalSec i).lines) (hreport : zp'.report = .reset i) :
    LinesRight A intervalSec zp' { n with lines := (i, n.window i) :: n.lines } := by
  have hdue := h.due
  rw [hr] at hdue
  constructor
  case metrics =>
    rw [hmetrics]
    exact h.metrics
  case lines =>
    rw [hlines]
    show (_, reportedValue A intervalSec (zp.metrics i)) :: zp.lines = _ :: List.map _ n.lines
    rw [h.lines, (h.metrics i).reported]
  case order =>
    -- the newest line is the last of the round so far
    rw [List.reverse_cons, List.map_append, h.order, List.length_cons, List.range_succ,
      List.map_append]
    show _ ++ [i.val] = _ ++ [n.lines.length % profilingMetrics]
    rw [hdue]
    rfl
  case due =>
    rw [hreport]
    show (n.lines.length + 1) % profilingMetrics = (i.val + 1) % profilingMetrics
    rw [Nat.add_mod, hdue]
    rfl

/-- A metric is reset. -/
theorem LinesRight.reset (h : LinesRight A intervalSec zp n) {zp' : ZnProfiler} {i : ZnProfilerTag}
    (hr : zp.report = .reset i) (hmetrics : zp'.metrics = (zp.resetMetric i).metrics)
    (hlines : zp'.lines = zp.lines) (hreport : zp'.report = .next i) :
    LinesRight A intervalSec zp' { n with window := Function.update n.window i [] } := by
  have hdue := h.due
  rw [hr] at hdue
  constructor
  case metrics =>
    rw [hmetrics]
    exact sums_update h.metrics ⟨(h.metrics i).type_eq, fun _ => rfl, fun _ => ⟨rfl, rfl⟩⟩
  case lines => exact hlines.trans h.lines
  case order => exact h.order
  case due =>
    rw [hreport]
    exact hdue.trans (ReportPc.due_next i).symm

end Steps

/-- **Step lemma.** -/
theorem LinesRight.step {A : MetricArith} {intervalSec : Nat} {zp : ZnProfiler} {n : Noted}
    (h : LinesRight A intervalSec zp n) {l : MetricLabel} (hc : AsTyped zp l) :
    LinesRight A intervalSec (metricStep A intervalSec zp l)
      (n.note zp l (metricStep A intervalSec zp l)) := by
  cases l with
  | update i value => exact h.update value hc.1 hc.2
  | set i value => exact h.set value hc
  | report =>
    unfold metricStep profilerStep Noted.note
    cases hr : zp.report with
    | read i => exact h.read hr rfl rfl rfl
    | reset i => exact h.reset hr rfl rfl rfl
    | idle =>
      have hdue := h.due
      rw [hr] at hdue
      exact ⟨h.metrics, h.lines, h.order, hdue⟩

/-- **Run lemma.** -/
theorem LinesRight.reach {A : MetricArith} {intervalSec : Nat} {zp : ZnProfiler} {n : Noted}
    (hr : (notedSystem A intervalSec).Reach (fun x l => AsTyped x.1 l) (zp, n)) :
    LinesRight A intervalSec zp n := by
  refine TransSys.Reach.observed_invariant (T := metricSystem A intervalSec) (C := AsTyped)
    (N := Noted) (fun zp h0 => ?_) (fun zp n l zp' _ h hc hs => ?_) hr
  · obtain rfl : zp = znProfilerInit := h0
    exact ⟨fun i => ⟨rfl, fun _ => rfl, fun _ => ⟨rfl, rfl⟩⟩, rfl, rfl, rfl⟩
  · obtain rfl : zp' = metricStep A intervalSec zp l := hs
    exact h.step hc

/-! ## §4. Doubles. -/

/-- One double is off by this share. -/
abbrev doubleUnit : ℚ := 1 / 2 ^ 53

/-- `%f` is off by half of the last decimal. -/
abbrev printUnit : ℚ := 1 / 10 ^ 6

section Doubles

variable {intervalSec : Nat} {i : ZnProfilerTag} {values : List ℚ}

theorem abs_print_sub_le {q m t : ℚ} (h : |q - m| ≤ t) :
    |MetricArith.double.print q - m| ≤ t + printUnit / 2 := by
  calc |MetricArith.double.print q - m| ≤ |MetricArith.double.print q - q| + |q - m| := abs_sub_le _ _ _
    _ ≤ printUnit / 2 + t := add_le_add (abs_roundTo_sub_le (by decide +kernel) q) h
    _ = t + printUnit / 2 := add_comm _ _

/-- A quotient of a sum is as close as the sum, but for its own rounding. -/
theorem abs_round_div_sub_le {sum : ℚ} {f : ℚ} (k : ℕ) (hsum : |sum - values.sum| ≤ (f - 1) * |values.sum|) :
    |MetricArith.double.round (sum / k) - values.sum / k|
      ≤ (f * (1 + doubleUnit) - 1) * |values.sum / k| := by
  refine abs_roundFloat_sub_le_of_close 53 le_rfl ?_
  rw [← sub_div, abs_div, abs_div, ← mul_div_assoc]
  exact div_le_div_of_nonneg_right hsum (abs_nonneg _)

/-- **A line is as close as its sum**, but for the quotient and the print. -/
theorem abs_windowReport_sub_le {f : ℚ} (hf : 1 ≤ f)
    (hsum : |windowSum .double values - values.sum| ≤ (f - 1) * |values.sum|) :
    |windowReport .double intervalSec i values - windowMeaning intervalSec i values|
      ≤ (f * (1 + doubleUnit) - 1) * |windowMeaning intervalSec i values| + printUnit / 2 := by
  have hfactor : 0 ≤ f * (1 + doubleUnit) - 1 := by
    have hshare : 0 ≤ f * doubleUnit := mul_nonneg (by linarith) (by positivity)
    linarith
  unfold windowReport windowMeaning
  apply abs_print_sub_le
  cases metricType i with
  | avg =>
    dsimp only
    split
    · simp
    · exact abs_round_div_sub_le _ hsum
  | overTime => exact abs_round_div_sub_le _ hsum
  | set =>
    dsimp only
    rw [sub_self, abs_zero]
    exact mul_nonneg hfactor (abs_nonneg _)

end Doubles

/-- **THE LINES OF A REPORT**, in every interleaving of updates and sets, from any
number of threads, with the reports.

Each line is what doubles make of the values that its metric was given since its
last reset; of values that are not negative, and of integers, that is what the
metric stands for, up to the shares lost on the way. -/
theorem report_lines (intervalSec : Nat) (zp : ZnProfiler) (n : Noted)
    (hr : (notedSystem .double intervalSec).Reach (fun x l => AsTyped x.1 l) (zp, n)) :
    zp.lines = n.lines.map (fun x =>
      (znProfilerMetricNames.getD x.1.val "", windowReport .double intervalSec x.1 x.2))
    ∧ n.lines.reverse.map (fun x => x.1.val)
        = (List.range n.lines.length).map (· % profilingMetrics)
    ∧ (∀ x ∈ n.lines, (∀ v ∈ x.2, 0 ≤ v) →
        |windowReport .double intervalSec x.1 x.2 - windowMeaning intervalSec x.1 x.2|
          ≤ ((1 + doubleUnit) ^ (x.2.length + 1) - 1) * |windowMeaning intervalSec x.1 x.2| + printUnit / 2)
    ∧ ∀ x ∈ n.lines, ∀ ks : List ℤ, x.2 = ks.map (↑) → (ks.map (|·|)).sum < 2 ^ 53 →
        |windowReport .double intervalSec x.1 x.2 - windowMeaning intervalSec x.1 x.2|
          ≤ doubleUnit * |windowMeaning intervalSec x.1 x.2| + printUnit / 2 := by
  have hright := LinesRight.reach hr
  refine ⟨hright.lines, hright.order, fun x _ hpos => ?_, fun x _ ks hks hlt => ?_⟩
  · -- what the shares are relative to is the sum itself
    have hmap : x.2.map (|·|) = x.2 := by
      rw [List.map_congr_left fun v hv => abs_of_nonneg (hpos v hv), List.map_id']
    have habs : (x.2.map (|·|)).sum = |x.2.sum| := by
      rw [hmap, abs_of_nonneg (List.sum_nonneg hpos)]
    have hone : (1 : ℚ) ≤ 1 + doubleUnit := by decide +kernel
    have hsum : |windowSum .double x.2 - x.2.sum| ≤ ((1 + doubleUnit) ^ x.2.length - 1) * |x.2.sum| :=
      habs ▸ abs_sumFloat_sub_le 53 x.2
    rw [pow_succ]
    exact abs_windowReport_sub_le (one_le_pow₀ hone) hsum
  · -- the sum is exact: only the quotient is rounded
    have hexact : windowSum .double x.2 = x.2.sum := by
      rw [hks]
      exact (sumFloat_intCast ks hlt).trans (map_list_sum (Int.castRingHom ℚ) ks)
    have hline := @abs_windowReport_sub_le intervalSec x.1 x.2 1 le_rfl
      (by rw [hexact, sub_self, sub_self, abs_zero, zero_mul])
    rwa [one_mul, add_sub_cancel_left] at hline

/-- One step that meets the condition, with what is noted. -/
def notedExec (A : MetricArith) (intervalSec : Nat) (x : ZnProfiler × Noted) (l : MetricLabel) :
    Option (ZnProfiler × Noted) :=
  if AsTyped x.1 l then
    some (metricStep A intervalSec x.1 l, x.2.note x.1 l (metricStep A intervalSec x.1 l))
  else none

theorem notedExec_ok {A : MetricArith} {intervalSec : Nat} (x : ZnProfiler × Noted) (l : MetricLabel)
    (x' : ZnProfiler × Noted) (h : notedExec A intervalSec x l = some x') :
    AsTyped x.1 l ∧ (notedSystem A intervalSec).step x l x' := by
  unfold notedExec at h
  split at h
  · cases h
    exact ⟨‹_›, rfl, rfl⟩
  · cases h

/-- Three latencies, whose mean is 4/3, and a hit ratio that is set to a half and
then to two thirds, in one report. -/
theorem report_lines_mean : ∃ (zp : ZnProfiler) (n : Noted), zp.lines.length = 11
    ∧ ("GETLATENCY", 1333333 / 10 ^ 6) ∈ zp.lines ∧ ("HITRATIO", 666667 / 10 ^ 6) ∈ zp.lines
    ∧ zp.lines = n.lines.map (fun x =>
        (znProfilerMetricNames.getD x.1.val "", windowReport .double 10 x.1 x.2))
    ∧ |windowReport .double 10 0 [2, 1, 1] - windowMeaning 10 0 [2, 1, 1]|
        ≤ doubleUnit * |windowMeaning 10 0 [2, 1, 1]| + printUnit / 2 := by
  obtain ⟨⟨zp, n⟩, hr, hs⟩ := TransSys.Reach.exists_of_exec (T := notedSystem .double 10)
    (C := fun x l => AsTyped x.1 l) (s := (znProfilerInit, ⟨fun _ => [], []⟩)) notedExec_ok ⟨rfl, rfl⟩
    (fun x => x.1.lines.length = 11 ∧ ("GETLATENCY", 1333333 / 10 ^ 6) ∈ x.1.lines
      ∧ ("HITRATIO", 666667 / 10 ^ 6) ∈ x.1.lines ∧ (0, [2, 1, 1]) ∈ x.2.lines)
    ([.update 0 1, .set 2 (1 / 2), .update 0 1, .update 0 2,
      .set 2 (MetricArith.double.round (2 / 3))] ++ List.replicate 23 .report) (by decide +kernel)
  obtain ⟨hlength, hmean, hratio, hnoted⟩ := of_decide_eq_true hs
  obtain ⟨hlines, -, -, hclose⟩ := report_lines 10 zp n hr
  exact ⟨zp, n, hlength, hmean, hratio, hlines, hclose (0, [2, 1, 1]) hnoted [2, 1, 1] rfl (by decide)⟩

end ZnCache
