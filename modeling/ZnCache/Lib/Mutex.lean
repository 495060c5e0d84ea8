/-
  ZnCache.Lib.Mutex — a mutex, and how far its holder is.

  A pool of threads uses one mutex; `hold t` is where thread `t` is while it
  has it, and `none` while it has not.  `Held hold locked e` says that the flag
  `locked` and the threads agree: nobody has the mutex, or one thread has it
  and is at `e`.  What is protected by the mutex can then be stated about `e`
  alone.
-/
import Mathlib.Logic.Function.Basic

namespace ZnCache.Lib

universe u v

variable {Tid : Type u} {E : Type v}

/-- **Nobody has the mutex, or one thread has it.** -/
inductive Held (hold : Tid → Option E) : Bool → Option E → Prop
  | free (h : ∀ t, hold t = none) : Held hold false none
  | held {t : Tid} {e : E} (ht : hold t = some e) (h : ∀ u, u ≠ t → hold u = none) :
      Held hold true (some e)

namespace Held

variable {hold : Tid → Option E} {locked : Bool} {e : Option E}

/-- A thread that has the mutex is its holder. -/
theorem holder (h : Held hold locked e) {t : Tid} {e₁ : E} (ht : hold t = some e₁) :
    locked = true ∧ e = some e₁ ∧ ∀ u, u ≠ t → hold u = none := by
  cases h with
  | free h =>
    rw [h t] at ht
    cases ht
  | @held t' e' ht' h =>
    have htt : t = t' := by
      by_contra hne
      rw [h t hne] at ht
      cases ht
    subst htt
    rw [ht'] at ht
    cases ht
    exact ⟨rfl, rfl, h⟩

/-- While the flag is down nobody has the mutex. -/
theorem nobody (h : Held hold locked e) (hfree : locked = false) : e = none ∧ ∀ t, hold t = none := by
  cases h with
  | free h => exact ⟨rfl, h⟩
  | held => cases hfree

/-- No thread has the mutex, so it has no holder. -/
theorem unheld (h : Held hold locked e) (hnone : ∀ t, hold t = none) : e = none := by
  cases h with
  | free => rfl
  | @held t e ht =>
    rw [hnone t] at ht
    cases ht

/-- Then the flag is down. -/
theorem flag_down (h : Held hold locked e) (hnone : ∀ t, hold t = none) : locked = false := by
  cases h with
  | free => rfl
  | @held t e ht =>
    rw [hnone t] at ht
    cases ht

variable [DecidableEq Tid]

/-- A thread that finds the mutex free takes it. -/
theorem enter (h : Held hold locked e) (hfree : locked = false) (t : Tid) (e₁ : E) :
    Held (Function.update hold t (some e₁)) true (some e₁) := by
  apply Held.held (t := t) (Function.update_self ..)
  intro u hu
  rw [Function.update_of_ne hu]
  exact (h.nobody hfree).2 u

/-- Its holder goes on. -/
theorem move (h : Held hold locked e) {t : Tid} {e₁ : E} (ht : hold t = some e₁) (e₂ : E) :
    Held (Function.update hold t (some e₂)) true (some e₂) := by
  apply Held.held (t := t) (Function.update_self ..)
  intro u hu
  rw [Function.update_of_ne hu]
  exact (h.holder ht).2.2 u hu

/-- Its holder gives it back. -/
theorem leave (h : Held hold locked e) {t : Tid} {e₁ : E} (ht : hold t = some e₁) :
    Held (Function.update hold t none) false none := by
  apply Held.free
  intro u
  by_cases hu : u = t
  · rw [hu, Function.update_self]
  · rw [Function.update_of_ne hu]
    exact (h.holder ht).2.2 u hu

end Held

end ZnCache.Lib
