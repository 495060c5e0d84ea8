/-
  ZnCache.Lib.Rounding — rounding rational numbers.

  `roundEven` goes to the nearest integer, in a tie to the even one, `roundTo`
  to the nearest multiple of a unit, and `roundFloat` to the nearest number of
  `p` significant binary digits, with an exponent that is not bounded.
  `sumFloat` rounds every sum on the way.  All of them compute.

  Main results:
    * `abs_roundTo_sub_le` — half a unit is lost at most,
    * `abs_roundFloat_sub_le` — and of a number of `p` digits a share of
      `1 / 2 ^ p`,
    * `roundFloat_intCast`, `sumFloat_intCast` — an integer of at most `p`
      digits stays, and so does a sum of such,
    * `abs_sumFloat_sub_le` — in a sum the shares compound.
-/
import Mathlib.Data.Rat.Floor
import Mathlib.Algebra.Order.Field.Power
import Mathlib.Algebra.Order.BigOperators.Group.List
import Mathlib.Tactic.Linarith
import Mathlib.Tactic.Positivity
import Mathlib.Tactic.FieldSimp

namespace ZnCache.Lib

/-! ## §1. To a unit. -/

/-- The nearest integer, and of two the even one. -/
def roundEven (x : ℚ) : ℤ :=
  if 2 * (x - ⌊x⌋) < 1 ∨ (2 * (x - ⌊x⌋) = 1 ∧ ⌊x⌋ % 2 = 0) then ⌊x⌋ else ⌊x⌋ + 1

@[simp] theorem roundEven_intCast (n : ℤ) : roundEven (n : ℚ) = n := by
  unfold roundEven
  rw [Int.floor_intCast, if_pos]
  exact Or.inl (by simp)

@[simp] theorem roundEven_zero : roundEven 0 = 0 := roundEven_intCast 0

theorem abs_roundEven_sub_le (x : ℚ) : |(roundEven x : ℚ) - x| ≤ 1 / 2 := by
  have hle := Int.floor_le x
  have hlt := Int.lt_floor_add_one x
  unfold roundEven
  split
  · rename_i hbelow
    have hhalf : 2 * (x - ⌊x⌋) ≤ 1 := by
      rcases hbelow with h | h
      · exact h.le
      · exact h.1.le
    rw [abs_le]
    constructor <;> linarith
  · rename_i habove
    have hhalf : 1 ≤ 2 * (x - ⌊x⌋) := not_lt.mp fun h => habove (Or.inl h)
    push_cast
    rw [abs_le]
    constructor <;> linarith

/-- The nearest multiple of a unit. -/
def roundTo (unit x : ℚ) : ℚ := roundEven (x / unit) * unit

theorem roundTo_mul {unit : ℚ} (hunit : 0 < unit) (n : ℤ) : roundTo unit (n * unit) = n * unit := by
  unfold roundTo
  rw [mul_div_cancel_right₀ _ hunit.ne', roundEven_intCast]

theorem abs_roundTo_sub_le {unit : ℚ} (hunit : 0 < unit) (x : ℚ) : |roundTo unit x - x| ≤ unit / 2 := by
  have hsplit : roundTo unit x - x = (roundEven (x / unit) - x / unit) * unit := by
    unfold roundTo
    rw [sub_mul, div_mul_cancel₀ _ hunit.ne']
  rw [hsplit, abs_mul, abs_of_pos hunit]
  calc |(roundEven (x / unit) : ℚ) - x / unit| * unit
      ≤ 1 / 2 * unit := mul_le_mul_of_nonneg_right (abs_roundEven_sub_le _) hunit.le
    _ = unit / 2 := by ring

/-! ## §2. To a number of digits. -/

/-- The exponent of a number: its digits begin at `2 ^ exponent x`. -/
def exponent (x : ℚ) : ℤ :=
  let e : ℤ := (x.num.natAbs.log2 : ℤ) - (x.den.log2 : ℤ)
  -- the quotient of numbers with these exponents may be one place lower
  if (2 : ℚ) ^ e ≤ |x| then e else e - 1

theorem abs_eq_num_div_den (x : ℚ) : |x| = (x.num.natAbs : ℚ) / (x.den : ℚ) := by
  nth_rewrite 1 [← Rat.num_div_den x]
  rw [abs_div, Nat.abs_cast, Nat.cast_natAbs, Int.cast_abs]

theorem exponent_spec {x : ℚ} (hx : x ≠ 0) :
    (2 : ℚ) ^ exponent x ≤ |x| ∧ |x| < (2 : ℚ) ^ (exponent x + 1) := by
  let n := x.num.natAbs
  let d := x.den
  let e : ℤ := (n.log2 : ℤ) - (d.log2 : ℤ)
  have hd : (0 : ℚ) < d := by exact_mod_cast x.den_pos
  have habs : |x| = (n : ℚ) / d := abs_eq_num_div_den x
  have hn0 : n ≠ 0 := Int.natAbs_ne_zero.mpr (Rat.num_ne_zero.mpr hx)
  have hdigits : ∀ {m : ℕ}, m ≠ 0 → (2 : ℚ) ^ (m.log2 : ℤ) ≤ m ∧ (m : ℚ) < 2 ^ ((m.log2 : ℤ) + 1) := by
    intro m hm
    constructor
    · rw [zpow_natCast]
      exact_mod_cast Nat.log2_self_le hm
    · rw [← Nat.cast_succ, zpow_natCast]
      exact_mod_cast Nat.lt_log2_self
  obtain ⟨hn, hn'⟩ := hdigits hn0
  obtain ⟨hdl, hdl'⟩ := hdigits x.den_ne_zero
  -- the least numerator over the largest denominator, and the other way round
  have hlow : (2 : ℚ) ^ (e - 1) ≤ |x| := by
    rw [habs, le_div_iff₀ hd]
    calc (2 : ℚ) ^ (e - 1) * d ≤ 2 ^ (e - 1) * 2 ^ ((d.log2 : ℤ) + 1) :=
          mul_le_mul_of_nonneg_left hdl'.le (by positivity)
      _ = 2 ^ (n.log2 : ℤ) := by
          rw [← zpow_add₀ two_ne_zero]
          congr 1
          omega
      _ ≤ n := hn
  have hhigh : |x| < (2 : ℚ) ^ (e + 1) := by
    rw [habs, div_lt_iff₀ hd]
    calc (n : ℚ) < 2 ^ ((n.log2 : ℤ) + 1) := hn'
      _ = 2 ^ (e + 1) * 2 ^ (d.log2 : ℤ) := by
          rw [← zpow_add₀ two_ne_zero]
          congr 1
          omega
      _ ≤ 2 ^ (e + 1) * d := mul_le_mul_of_nonneg_left hdl (by positivity)
  by_cases he : (2 : ℚ) ^ e ≤ |x|
  · have hexp : exponent x = e := if_pos he
    rw [hexp]
    exact ⟨he, hhigh⟩
  · have hexp : exponent x = e - 1 := if_neg he
    rw [hexp, sub_add_cancel]
    exact ⟨hlow, not_le.mp he⟩

/-- The nearest number of `p` binary digits. -/
def roundFloat (p : ℕ) (x : ℚ) : ℚ := roundTo (2 ^ (exponent x - (p - 1))) x

theorem abs_roundFloat_sub_le (p : ℕ) (x : ℚ) : |roundFloat p x - x| ≤ |x| / 2 ^ p := by
  by_cases hx : x = 0
  · subst hx
    simp [roundFloat, roundTo]
  · calc |roundFloat p x - x| ≤ 2 ^ (exponent x - (p - 1)) / 2 := abs_roundTo_sub_le (by positivity) x
      _ = 2 ^ exponent x / 2 ^ p := by
          rw [← zpow_natCast, ← zpow_sub₀ two_ne_zero, div_eq_iff two_ne_zero, ← zpow_add_one₀ two_ne_zero]
          congr 1
          ring
      _ ≤ |x| / 2 ^ p := div_le_div_of_nonneg_right (exponent_spec hx).1 (by positivity)

/-- An integer of at most `p` digits is a multiple of its unit. -/
theorem roundFloat_intCast {p : ℕ} {n : ℤ} (hn : |n| < 2 ^ p) : roundFloat p n = n := by
  by_cases h0 : n = 0
  · subst h0
    simp [roundFloat, roundTo]
  · have hexp : exponent n < p := by
      have hle := (exponent_spec (Int.cast_ne_zero.mpr h0)).1
      have hlt : |(n : ℚ)| < 2 ^ (p : ℤ) := by
        rw [zpow_natCast]
        exact_mod_cast hn
      exact (zpow_lt_zpow_iff_right₀ one_lt_two).mp (lt_of_le_of_lt hle hlt)
    obtain ⟨k, hk⟩ := Int.eq_ofNat_of_zero_le (show 0 ≤ (p : ℤ) - 1 - exponent n by omega)
    -- the unit is `2 ^ (-k)`
    have hmul : (n : ℚ) = (n * 2 ^ k : ℤ) * 2 ^ (exponent n - (p - 1)) := by
      push_cast
      rw [mul_assoc, ← zpow_natCast, ← zpow_add₀ two_ne_zero, ← hk]
      ring_nf
      simp
    unfold roundFloat
    nth_rewrite 2 [hmul]
    rw [roundTo_mul (by positivity), ← hmul]

/-- Rounding takes a number that is close to `m` away by one more share. -/
theorem abs_roundFloat_sub_le_of_close {q m t f : ℚ} (p : ℕ) (hm : |m| ≤ t) (hq : |q - m| ≤ (f - 1) * t) :
    |roundFloat p q - m| ≤ (f * (1 + 1 / 2 ^ p) - 1) * t := by
  have habs : |q| ≤ f * t := by
    calc |q| = |m + (q - m)| := by rw [add_sub_cancel]
      _ ≤ |m| + |q - m| := abs_add_le _ _
      _ ≤ t + (f - 1) * t := add_le_add hm hq
      _ = f * t := by ring
  have hshare : |q| / 2 ^ p ≤ f * t / 2 ^ p := div_le_div_of_nonneg_right habs (by positivity)
  calc |roundFloat p q - m| ≤ |roundFloat p q - q| + |q - m| := abs_sub_le _ _ _
    _ ≤ f * t / 2 ^ p + (f - 1) * t := add_le_add ((abs_roundFloat_sub_le p q).trans hshare) hq
    _ = (f * (1 + 1 / 2 ^ p) - 1) * t := by ring

/-! ## §3. Sums. -/

/-- The numbers added up from the last to the first. -/
def sumFloat (p : ℕ) (xs : List ℚ) : ℚ := xs.foldr (fun x sum => roundFloat p (sum + x)) 0

theorem sumFloat_cons (p : ℕ) (x : ℚ) (xs : List ℚ) :
    sumFloat p (x :: xs) = roundFloat p (sumFloat p xs + x) := rfl

theorem abs_sum_le_sum_abs {α : Type*} [AddCommGroup α] [LinearOrder α] [IsOrderedAddMonoid α]
    (xs : List α) : |xs.sum| ≤ (xs.map (|·|)).sum := by
  have h := @Multiset.abs_sum_le_sum_abs α _ _ _ (xs : Multiset α)
  rwa [Multiset.sum_coe, Multiset.map_coe, Multiset.sum_coe] at h

/-- A sum of integers is exact as long as `p` digits hold their absolute values. -/
theorem sumFloat_intCast {p : ℕ} (ks : List ℤ) (h : (ks.map (|·|)).sum < 2 ^ p) :
    sumFloat p (ks.map (↑)) = (ks.sum : ℤ) := by
  induction ks with
  | nil => rfl
  | cons k ks ih =>
    have hk : |(k :: ks).sum| < 2 ^ p := lt_of_le_of_lt (abs_sum_le_sum_abs _) h
    have hks : (ks.map (|·|)).sum < 2 ^ p := by
      rw [List.map_cons, List.sum_cons] at h
      linarith [abs_nonneg k]
    have hsum : ((ks.sum : ℤ) : ℚ) + k = ((k :: ks).sum : ℤ) := by
      rw [List.sum_cons, Int.cast_add, add_comm]
    rw [List.map_cons, sumFloat_cons, ih hks, hsum, roundFloat_intCast hk]

/-- Each sum adds its share. -/
theorem abs_sumFloat_sub_le (p : ℕ) (xs : List ℚ) :
    |sumFloat p xs - xs.sum| ≤ ((1 + 1 / 2 ^ p) ^ xs.length - 1) * (xs.map (|·|)).sum := by
  induction xs with
  | nil => simp [sumFloat]
  | cons x xs ih =>
    have hgrows : 0 ≤ (1 + 1 / 2 ^ p : ℚ) ^ xs.length - 1 := by
      have hone : (1 : ℚ) ≤ 1 + 1 / 2 ^ p := by
        have hpos : (0 : ℚ) ≤ 1 / 2 ^ p := by positivity
        linarith
      linarith [one_le_pow₀ hone (n := xs.length)]
    -- before it is rounded the sum is as far off as the one before
    have hrest : |sumFloat p xs + x - (x :: xs).sum|
        ≤ ((1 + 1 / 2 ^ p) ^ xs.length - 1) * ((x :: xs).map (|·|)).sum := by
      rw [List.sum_cons, add_comm x, add_sub_add_right_eq_sub, List.map_cons, List.sum_cons]
      exact ih.trans (mul_le_mul_of_nonneg_left (by linarith [abs_nonneg x]) hgrows)
    rw [sumFloat_cons, List.length_cons, pow_succ]
    exact abs_roundFloat_sub_le_of_close p (abs_sum_le_sum_abs _) hrest

end ZnCache.Lib
