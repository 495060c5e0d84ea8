/-
  ZnCache.ProfilerTotals — `znprofiler.c`: what the lines of a throughput add up
  to.

  A line of a throughput says what its metric was given since the last report,
  per second.  All lines of it together, and what the metric holds, are what it
  was ever given: as long as updates come in time, that is not between the read
  of a metric and its reset, and the counts do not wrap.  A throughput is given
  whole bytes, so that its sums are exact below `2 ^ 53`; the quotient and `%f`
  take their share of every line.

  Main result: `KeepsTotals.total`, for every state that `KeepsTotals`.
-/
import ZnCache.ProfilerLines
import Mathlib.Algebra.Order.Field.Rat

namespace ZnCache

open Lib

/-! ## §1. The lines of a metric. -/

/-- The name of a metric. -/
def metricName (i : ZnProfilerTag) : String := znProfilerMetricNames.getD i.val ""

theorem metricName_inj : ∀ i j : ZnProfilerTag, metricName i = metricName j → i = j := by decide

/-- What the lines of a metric say, newest first. -/
def ZnProfiler.linesOf (zp : ZnProfiler) (i : ZnProfilerTag) : List ℚ :=
  (zp.lines.filter fun line => line.1 = metricName i).map Prod.snd

/-- What they add up to. -/
def ZnProfiler.reported (zp : ZnProfiler) (i : ZnProfilerTag) : ℚ := (zp.linesOf i).sum

/-- A metric is given a value according to its type, an update comes in time, and
a throughput has room for it. -/
def TypedInTime (zp : ZnProfiler) : MetricLabel → Prop
  | .update i value => metricType i ≠ .set ∧ InTime zp (.update i value)
      ∧ (metricType i = .overTime → (zp.metrics i).value + value < 2 ^ 53)
  | .set i _ => metricType i = .set
  | .report => True

instance decTypedInTime (zp : ZnProfiler) : DecidablePred (TypedInTime zp)
  | .update _ _ => inferInstanceAs (Decidable (_ ∧ _ ∧ (_ → _)))
  | .set i _ => inferInstanceAs (Decidable (metricType i = .set))
  | .report => isTrue trivial

/-- A throughput is given whole numbers. -/
def GivesWhole : MetricLabel → Prop
  | .update i value => metricType i = .overTime → ∃ k : ℕ, value = k
  | .set .. | .report => True

/-- The line that a total comes to. -/
def totalLine (intervalSec : Nat) (total : ℚ) : ℚ :=
  MetricArith.double.print (MetricArith.double.round (total / intervalSec))

/-- What `k` lines and the quotients in them may be off by, of `total`. -/
def lineSlack (intervalSec : Nat) (total : ℚ) (k : Nat) : ℚ :=
  doubleUnit * total + intervalSec * k * (printUnit / 2)

/-- **The totals are kept.** -/
structure KeepsTotals (intervalSec : Nat) (zp : ZnProfiler) : Prop where
  types : ∀ i, (zp.metrics i).type = metricType i
  balanced : ∀ i, metricType i = .overTime → Balanced zp i
  none_late : ∀ i, zp.ledger.late i = [] ∧ zp.ledger.wraps i = 0
  whole : ∀ i, metricType i = .overTime → ∃ k : ℕ, (zp.metrics i).value = k
  read_nonneg : ∀ i, metricType i = .overTime → ∀ r ∈ zp.ledger.readOut i, 0 ≤ r.1
  lines : ∀ i, metricType i = .overTime →
    zp.linesOf i = (zp.ledger.readOut i).map fun r => totalLine intervalSec r.1

namespace KeepsTotals

variable {intervalSec : Nat} {zp zp' : ZnProfiler}

/-! ## §2. What one step keeps. -/

theorem init : KeepsTotals intervalSec znProfilerInit where
  types _ := rfl
  balanced i _ := Balanced.init i
  none_late _ := ⟨rfl, rfl⟩
  whole _ _ := ⟨0, rfl⟩
  read_nonneg _ _ _ hr := absurd hr List.not_mem_nil
  lines _ _ := rfl

/-- A metric is given a value: nothing is written. -/
theorem given (h : KeepsTotals intervalSec zp) (htypes : ∀ i, (zp'.metrics i).type = (zp.metrics i).type)
    (hbalanced : ∀ i, metricType i = .overTime → Balanced zp' i)
    (hwhole : ∀ i, metricType i = .overTime → ∃ k : ℕ, (zp'.metrics i).value = k)
    (hlate : zp'.ledger.late = zp.ledger.late) (hwraps : zp'.ledger.wraps = zp.ledger.wraps)
    (hlines : zp'.lines = zp.lines) (hread : zp'.ledger.readOut = zp.ledger.readOut) :
    KeepsTotals intervalSec zp' where
  types i := (htypes i).trans (h.types i)
  balanced := hbalanced
  none_late i := by
    rw [hlate, hwraps]
    exact h.none_late i
  whole := hwhole
  read_nonneg := by
    rw [hread]
    exact h.read_nonneg
  lines i hi := by
    unfold ZnProfiler.linesOf
    rw [hlines, hread]
    exact h.lines i hi

/-- An update of one metric leaves the types alone. -/
theorem type_update {metrics : ZnProfilerTag → ZnProfilerMetrics} {j : ZnProfilerTag}
    {metric : ZnProfilerMetrics} (hj : metric.type = (metrics j).type) (i : ZnProfilerTag) :
    (Function.update metrics j metric i).type = (metrics i).type := by
  by_cases hij : i = j
  · rw [hij, Function.update_self]
    exact hj
  · rw [Function.update_of_ne hij]

/-- And it leaves whole what was. -/
theorem whole_update (h : KeepsTotals intervalSec zp) {j : ZnProfilerTag} {metric : ZnProfilerMetrics}
    (hj : metricType j = .overTime → ∃ k : ℕ, metric.value = k) (i : ZnProfilerTag)
    (hi : metricType i = .overTime) : ∃ k : ℕ, (Function.update zp.metrics j metric i).value = k := by
  by_cases hij : i = j
  · subst hij
    rw [Function.update_self]
    exact hj hi
  · rw [Function.update_of_ne hij]
    exact h.whole i hi

/-- A whole number that fits is added as it is. -/
theorem round_add (h : KeepsTotals intervalSec zp) {j : ZnProfilerTag} {value : ℚ}
    (hj : metricType j = .overTime) (hvalue : ∃ k : ℕ, value = k)
    (hroom : (zp.metrics j).value + value < 2 ^ 53) :
    zp.AddsExactly .double j value ∧ ∃ k : ℕ, (zp.metrics j).value + value = k := by
  obtain ⟨m, hm⟩ := h.whole j hj
  obtain ⟨k, rfl⟩ := hvalue
  have hlt : |(m : ℤ) + k| < 2 ^ 53 := by
    rw [← Nat.cast_add, Nat.abs_cast]
    rw [hm] at hroom
    exact_mod_cast hroom
  exact ⟨ZnProfiler.addsExactly_double hm hlt, m + k, by rw [hm, Nat.cast_add]⟩

theorem update (h : KeepsTotals intervalSec zp) {j : ZnProfilerTag} {value : ℚ}
    (hl : TypedInTime zp (.update j value)) (hvalue : metricType j = .overTime → ∃ k : ℕ, value = k) :
    KeepsTotals intervalSec (metricStep .double intervalSec zp (.update j value)) := by
  obtain ⟨-, ⟨hr, hcount⟩, hroom⟩ := hl
  have hno : ¬ (zp.report ≠ .reset j ∧ (zp.metrics j).count + 1 = 2 ^ 32) := by
    rintro ⟨-, hwrap⟩
    omega
  have hbalanced : ∀ i, metricType i = .overTime →
      Balanced (profilerStep .double intervalSec zp (.update j value)) i := by
    intro i hi
    refine (h.balanced i hi).update fun hij => ?_
    subst hij
    exact (h.round_add hi (hvalue hi) (hroom hi)).1
  refine h.given ?_ hbalanced ?_ ?_ ?_ rfl rfl
  · exact type_update rfl
  · refine h.whole_update fun hj => ?_
    obtain ⟨hadds, k, hk⟩ := h.round_add hj (hvalue hj) (hroom hj)
    exact ⟨k, hadds.trans hk⟩
  · exact if_neg hr
  · exact if_neg hno

theorem set (h : KeepsTotals intervalSec zp) {j : ZnProfilerTag} {value : ℚ}
    (hj : metricType j = .set) :
    KeepsTotals intervalSec (metricStep .double intervalSec zp (.set j value)) := by
  refine h.given ?_ (fun i hi => ?_) ?_ rfl rfl rfl rfl
  · exact type_update rfl
  · -- only a metric that shows a state is set
    have hij : i ≠ j := by
      rintro rfl
      rw [hi] at hj
      cases hj
    exact (h.balanced i hi).congr (Function.update_of_ne hij ..) Iff.rfl rfl rfl rfl rfl
  · refine h.whole_update fun hover => ?_
    rw [hover] at hj
    cases hj

theorem linesOf_read {j : ZnProfilerTag} (hlines : zp'.lines = (zp.readMetric .double intervalSec j).lines)
    (i : ZnProfilerTag) :
    zp'.linesOf i = if i = j then reportedValue .double intervalSec (zp.metrics j) :: zp.linesOf i
      else zp.linesOf i := by
  unfold ZnProfiler.linesOf
  rw [hlines]
  show (List.filter _ ((metricName j, _) :: zp.lines)).map _ = _
  rw [List.filter_cons]
  by_cases hij : i = j
  · rw [if_pos hij, if_pos (by simp [hij])]
    rfl
  · rw [if_neg hij, if_neg]
    intro hname
    exact hij (metricName_inj i j (of_decide_eq_true hname).symm)

/-- **A line is written.** -/
theorem read (h : KeepsTotals intervalSec zp) {j : ZnProfilerTag} (hmetrics : zp'.metrics = zp.metrics)
    (hlines : zp'.lines = (zp.readMetric .double intervalSec j).lines)
    (hread : zp'.ledger.readOut = Function.update zp.ledger.readOut j
      (((zp.metrics j).value, (zp.metrics j).count) :: zp.ledger.readOut j))
    (hbalanced : ∀ i, metricType i = .overTime → Balanced zp' i)
    (hlate : zp'.ledger.late = zp.ledger.late) (hwraps : zp'.ledger.wraps = zp.ledger.wraps) :
    KeepsTotals intervalSec zp' where
  types i := by
    rw [hmetrics]
    exact h.types i
  balanced := hbalanced
  none_late i := by
    rw [hlate, hwraps]
    exact h.none_late i
  whole i hi := by
    rw [hmetrics]
    exact h.whole i hi
  read_nonneg i hi := by
    rw [hread]
    by_cases hij : i = j
    · subst hij
      rw [Function.update_self, List.forall_mem_cons]
      obtain ⟨k, hk⟩ := h.whole i hi
      exact ⟨by rw [hk]; positivity, h.read_nonneg i hi⟩
    · rw [Function.update_of_ne hij]
      exact h.read_nonneg i hi
  lines i hi := by
    rw [linesOf_read hlines i, hread]
    by_cases hij : i = j
    · subst hij
      have hvalue : reportedValue .double intervalSec (zp.metrics i)
          = totalLine intervalSec (zp.metrics i).value := by
        unfold reportedValue totalLine
        rw [h.types, hi]
      rw [if_pos rfl, Function.update_self, List.map_cons, h.lines i hi, hvalue]
    · rw [if_neg hij, Function.update_of_ne hij]
      exact h.lines i hi

theorem report (h : KeepsTotals intervalSec zp) :
    KeepsTotals intervalSec (metricStep .double intervalSec zp .report) := by
  have hbalanced : ∀ i, metricType i = .overTime →
      Balanced (profilerStep .double intervalSec zp .report) i := fun i hi => (h.balanced i hi).report
  show KeepsTotals intervalSec (profilerStep .double intervalSec zp .report)
  cases hr : zp.report with
  | idle =>
    simp only [profilerStep, hr] at hbalanced ⊢
    exact ⟨h.types, hbalanced, h.none_late, h.whole, h.read_nonneg, h.lines⟩
  | read j =>
    simp only [profilerStep, hr] at hbalanced ⊢
    exact h.read rfl rfl rfl hbalanced rfl rfl
  | reset j =>
    simp only [profilerStep, hr] at hbalanced ⊢
    exact h.given (type_update rfl) hbalanced (h.whole_update fun _ => ⟨0, rfl⟩) rfl rfl rfl rfl

/-- **Step lemma.** -/
theorem step (h : KeepsTotals intervalSec zp) {l : MetricLabel} (hl : TypedInTime zp l)
    (hwhole : GivesWhole l) : KeepsTotals intervalSec (metricStep .double intervalSec zp l) := by
  cases l with
  | update i value => exact h.update hl hwhole
  | set i value => exact h.set hl
  | report => exact h.report

/-! ## §3. What the lines add up to. -/

theorem abs_totalLine_sub_le (hpos : 0 < intervalSec) {total : ℚ} (htotal : 0 ≤ total) :
    |(intervalSec : ℚ) * totalLine intervalSec total - total| ≤ lineSlack intervalSec total 1 := by
  have hsec : (0 : ℚ) < intervalSec := by exact_mod_cast hpos
  have hround := abs_roundFloat_sub_le 53 (total / intervalSec)
  have hline : |totalLine intervalSec total - total / intervalSec|
      ≤ total / intervalSec / 2 ^ 53 + printUnit / 2 := by
    rw [abs_of_nonneg (div_nonneg htotal hsec.le)] at hround
    exact abs_print_sub_le hround
  have hfactor : (intervalSec : ℚ) * totalLine intervalSec total - total
      = intervalSec * (totalLine intervalSec total - total / intervalSec) := by
    rw [mul_sub, mul_div_cancel₀ _ hsec.ne']
  rw [hfactor, abs_mul, abs_of_pos hsec]
  calc (intervalSec : ℚ) * |totalLine intervalSec total - total / intervalSec|
      ≤ intervalSec * (total / intervalSec / 2 ^ 53 + printUnit / 2) :=
        mul_le_mul_of_nonneg_left hline hsec.le
    _ = lineSlack intervalSec total 1 := by
        unfold lineSlack
        field_simp
        push_cast
        ring

theorem abs_sum_lines_sub_le (hpos : 0 < intervalSec) (reads : List (ℚ × Nat))
    (hreads : ∀ r ∈ reads, 0 ≤ r.1) :
    |(intervalSec : ℚ) * (reads.map fun r => totalLine intervalSec r.1).sum - (reads.map Prod.fst).sum|
      ≤ lineSlack intervalSec (reads.map Prod.fst).sum reads.length := by
  induction reads with
  | nil => simp [lineSlack]
  | cons r reads ih =>
    rw [List.forall_mem_cons] at hreads
    have hfirst := abs_totalLine_sub_le hpos hreads.1
    have hrest := ih hreads.2
    simp only [List.map_cons, List.sum_cons, List.length_cons]
    rw [mul_add, add_sub_add_comm]
    refine (abs_add_le _ _).trans ((add_le_add hfirst hrest).trans (le_of_eq ?_))
    unfold lineSlack
    push_cast
    ring

/-- **What was reported and what is held is what was given**, up to the shares of
the lines. -/
theorem total (h : KeepsTotals intervalSec zp) (hpos : 0 < intervalSec) (hidle : zp.report = .idle)
    {i : ZnProfilerTag} (hi : metricType i = .overTime) :
    |(intervalSec : ℚ) * zp.reported i + (zp.metrics i).value - (zp.ledger.updates i).sum|
      ≤ lineSlack intervalSec (zp.ledger.updates i).sum (zp.linesOf i).length := by
  have hvalues := (h.balanced i hi).values
  unfold ZnProfiler.unread at hvalues
  rw [hidle, if_neg (by simp), (h.none_late i).1, List.sum_nil, add_zero] at hvalues
  have hlines := abs_sum_lines_sub_le hpos (zp.ledger.readOut i) (h.read_nonneg i hi)
  have hheld : 0 ≤ (zp.metrics i).value := by
    obtain ⟨k, hk⟩ := h.whole i hi
    rw [hk]
    positivity
  unfold ZnProfiler.reported
  rw [h.lines i hi, List.length_map, ← hvalues, add_sub_add_right_eq_sub]
  refine hlines.trans ?_
  -- what is held was not printed yet
  unfold lineSlack
  have hshare : 0 ≤ doubleUnit * (zp.metrics i).value := mul_nonneg (by positivity) hheld
  linarith

end KeepsTotals

end ZnCache
