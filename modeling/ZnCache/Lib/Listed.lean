/-
  ZnCache.Lib.Listed — the values of a table in the order of its indices.

  `listed f n` lists what `f` has at the indices below `n`, skipping those
  where it has nothing.  A table that is filled from the front (`FilledTo`) is
  listed as what it was with each new value appended.
-/
import Mathlib.Data.List.Basic
import Mathlib.Logic.Function.Basic

namespace ZnCache.Lib

universe u

variable {α : Type u} {f : Nat → Option α} {n p : Nat}

/-- The values at the indices below `n`. -/
def listed (f : Nat → Option α) (n : Nat) : List α := (List.range n).filterMap f

/-- `f` has a value exactly below `p`. -/
def FilledTo (f : Nat → Option α) (p : Nat) : Prop := ∀ c, (f c).isSome = true ↔ c < p

theorem mem_listed {a : α} : a ∈ listed f n ↔ ∃ c, c < n ∧ f c = some a := by
  simp [listed]

theorem listed_succ (f : Nat → Option α) (n : Nat) :
    listed f (n + 1) = listed f n ++ (f n).toList := by
  rw [listed, List.range_succ, List.filterMap_append]
  cases hn : f n with
  | none => simp [listed, hn]
  | some a => simp [listed, hn]

theorem listed_congr {f' : Nat → Option α} (h : ∀ c, c < n → f' c = f c) :
    listed f' n = listed f n :=
  List.filterMap_congr fun c hc => h c (List.mem_range.mp hc)

/-- Nothing is listed past the last value. -/
theorem listed_of_filledTo (h : FilledTo f p) (hle : p ≤ n) : listed f n = listed f p := by
  induction hle with
  | refl => rfl
  | @step n hle ih =>
    have hnone : f n = none := by
      rw [← Option.not_isSome_iff_eq_none, h n]
      exact Nat.not_lt.mpr hle
    rw [listed_succ, hnone, ih]
    simp

theorem length_listed (h : ∀ c, c < p → (f c).isSome = true) : (listed f p).length = p := by
  induction p with
  | zero => rfl
  | succ p ih =>
    obtain ⟨a, ha⟩ := Option.isSome_iff_exists.mp (h p (Nat.lt_succ_self p))
    rw [listed_succ, ha, List.length_append, ih fun c hc => h c (by omega)]
    rfl

theorem FilledTo.length_listed (h : FilledTo f p) (hle : p ≤ n) : (listed f n).length = p := by
  rw [listed_of_filledTo h hle]
  exact Lib.length_listed fun c hc => (h c).mpr hc

/-- **The next value** is appended. -/
theorem FilledTo.listed_update (h : FilledTo f p) (hlt : p < n) (a : α) :
    FilledTo (Function.update f p (some a)) (p + 1)
      ∧ listed (Function.update f p (some a)) n = listed f n ++ [a] := by
  have hfilled : FilledTo (Function.update f p (some a)) (p + 1) := by
    intro c
    by_cases hc : c = p
    · subst hc
      simp
    · rw [Function.update_of_ne hc, h c]
      omega
  have hsame : listed (Function.update f p (some a)) p = listed f p :=
    listed_congr fun c hc => Function.update_of_ne (Nat.ne_of_lt hc) _ _
  refine ⟨hfilled, ?_⟩
  rw [listed_of_filledTo hfilled hlt, listed_succ, Function.update_self, hsame,
    listed_of_filledTo h (Nat.le_of_lt hlt)]
  rfl

end ZnCache.Lib
