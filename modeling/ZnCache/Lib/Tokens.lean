/-
  ZnCache.Lib.Tokens — tokens that are queued or held, in one place at a time.

  Several queues and a pool of threads share a set of tokens.  `Tokens` says
  that no token is in two places: the queues, taken together, list no token
  twice, no thread holds a queued one, and no two threads hold the same.

  What a step does to the queues matters up to permutation only, so one lemma
  for each direction covers all of them:

    * `take` — a token leaves the queues and a thread holds it,
    * `give` — a thread gives its token to the queues,
    * `perm` — the queues are rearranged,
    * `lose`, `gain` — a token disappears, a new one appears.
-/
import Mathlib.Data.List.Perm.Basic
import Mathlib.Logic.Function.Basic

namespace ZnCache.Lib

universe u v

variable {Tid : Type u} {α : Type v}

/-- No token is in two places. -/
structure Tokens (queued : List α) (held : Tid → Option α) : Prop where
  nodup : queued.Nodup
  apart : ∀ t z, held t = some z → z ∉ queued
  distinct : ∀ t u z, held t = some z → held u = some z → t = u

namespace Tokens

variable {queued queued' : List α} {held : Tid → Option α}

/-- The queues may be rearranged. -/
theorem perm (h : Tokens queued held) (hp : queued'.Perm queued) : Tokens queued' held where
  nodup := hp.nodup_iff.mpr h.nodup
  apart t z ht hz := h.apart t z ht (hp.mem_iff.mp hz)
  distinct := h.distinct

/-- A token may disappear from the queues. -/
theorem lose (h : Tokens queued held) {z : α} (hp : queued.Perm (z :: queued')) :
    Tokens queued' held where
  nodup := (List.nodup_cons.mp (hp.nodup_iff.mp h.nodup)).2
  apart t y ht hy := h.apart t y ht (hp.mem_iff.mpr (List.mem_cons_of_mem z hy))
  distinct := h.distinct

/-- A new token may appear in the queues. -/
theorem gain (h : Tokens queued held) {z : α} (hz : z ∉ queued) (hheld : ∀ t, held t ≠ some z) :
    Tokens (z :: queued) held where
  nodup := List.nodup_cons.mpr ⟨hz, h.nodup⟩
  apart t y ht hy := by
    rcases List.mem_cons.mp hy with rfl | hy
    · exact hheld t ht
    · exact h.apart t y ht hy
  distinct := h.distinct

variable [DecidableEq Tid] {t : Tid}

/-- A thread may take a token from the queues. -/
theorem take (h : Tokens queued held) {z : α} (hp : queued.Perm (z :: queued')) :
    Tokens queued' (Function.update held t (some z)) := by
  have hz : z ∉ queued' := (List.nodup_cons.mp (hp.nodup_iff.mp h.nodup)).1
  -- no other thread holds a token that was queued
  have hother : ∀ u, held u ≠ some z := fun u hu =>
    h.apart u z hu (hp.mem_iff.mpr (List.mem_cons_self ..))
  refine ⟨(h.lose hp).nodup, ?_, ?_⟩
  · intro u y hu
    by_cases hut : u = t
    · subst hut
      rw [Function.update_self] at hu
      exact Option.some.inj hu ▸ hz
    · rw [Function.update_of_ne hut] at hu
      exact (h.lose hp).apart u y hu
  · intro u v y hu hv
    by_cases hut : u = t <;> by_cases hvt : v = t
    · rw [hut, hvt]
    · subst hut
      rw [Function.update_self] at hu
      rw [Function.update_of_ne hvt] at hv
      exact absurd (hv.trans hu.symm) (hother v)
    · subst hvt
      rw [Function.update_self] at hv
      rw [Function.update_of_ne hut] at hu
      exact absurd (hu.trans hv.symm) (hother u)
    · rw [Function.update_of_ne hut] at hu
      rw [Function.update_of_ne hvt] at hv
      exact h.distinct u v y hu hv

/-- A thread may hold nothing any more. -/
theorem release (h : Tokens queued held) (t : Tid) :
    Tokens queued (Function.update held t none) := by
  have hold : ∀ {u y}, Function.update held t none u = some y → held u = some y := by
    intro u y hu
    by_cases hut : u = t
    · subst hut
      rw [Function.update_self] at hu
      cases hu
    · rwa [Function.update_of_ne hut] at hu
  exact ⟨h.nodup, fun u y hu => h.apart u y (hold hu),
    fun u v y hu hv => h.distinct u v y (hold hu) (hold hv)⟩

/-- A thread may give its token to the queues. -/
theorem give (h : Tokens queued held) {z : α} (ht : held t = some z)
    (hp : queued'.Perm (z :: queued)) : Tokens queued' (Function.update held t none) := by
  refine ⟨?_, ?_, (h.release t).distinct⟩
  · rw [hp.nodup_iff, List.nodup_cons]
    exact ⟨h.apart t z ht, h.nodup⟩
  · intro u y hu hy
    have hut : u ≠ t := by
      rintro rfl
      rw [Function.update_self] at hu
      cases hu
    rw [Function.update_of_ne hut] at hu
    rcases List.mem_cons.mp (hp.mem_iff.mp hy) with rfl | hy
    · exact hut (h.distinct u t y hu ht)
    · exact h.apart u y hu hy

end Tokens

end ZnCache.Lib
