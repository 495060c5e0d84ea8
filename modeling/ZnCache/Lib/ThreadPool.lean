/-
  ZnCache.Lib.ThreadPool — local states of a pool of threads, one of which
  moves at a time.

  A pool is a function from thread names to local states; a step of thread `t`
  replaces `pool t`.  The lemmas say what such a step does to the three forms
  an interleaving invariant takes:

    * a pairwise assertion (`pairwise_update`),
    * a coverage assertion "someone owns it" (`covered_update_self`,
      `covered_update_of_not`),
    * a count "so many threads are at such a point" (`countOn_update`),
    * a weight of each local state, summed up (`weightOn_update`, and
      `total_update` over all threads).

  The one-thread form is `Function.forall_update_iff` of Mathlib.
-/
import Mathlib.Algebra.BigOperators.Group.Finset.Piecewise
import Mathlib.Data.Fintype.Card

namespace ZnCache.Lib.ThreadPool

universe u v

variable {Tid : Type u} {L : Type v} [DecidableEq Tid]

/-! ## §1. Pairwise and coverage assertions. -/

/-- Two different threads are never in conflicting local states. -/
def Pairwise (P : L → L → Prop) (pool : Tid → L) : Prop :=
  ∀ t u, t ≠ u → P (pool t) (pool u)

/-- A symmetric pairwise assertion survives a step of `t` if the new local
state agrees with every other thread's. -/
theorem pairwise_update {P : L → L → Prop} (hsymm : ∀ a b, P a b → P b a)
    {pool : Tid → L} (h : Pairwise P pool) (t : Tid) (l : L)
    (hl : ∀ u, u ≠ t → P l (pool u)) : Pairwise P (Function.update pool t l) := by
  intro a b hab
  by_cases ha : a = t
  · subst ha
    rw [Function.update_self, Function.update_of_ne (Ne.symm hab)]
    exact hl b (Ne.symm hab)
  · by_cases hb : b = t
    · subst hb
      rw [Function.update_self, Function.update_of_ne ha]
      exact hsymm _ _ (hl a ha)
    · rw [Function.update_of_ne ha, Function.update_of_ne hb]
      exact h a b hab

/-- Someone is in a local state that satisfies `P`. -/
def Covered (P : L → Prop) (pool : Tid → L) : Prop := ∃ t, P (pool t)

/-- Coverage survives a step of a thread that was not the one providing it. -/
theorem covered_update_of_not {P : L → Prop} {pool : Tid → L} (h : Covered P pool)
    (t : Tid) (l : L) (ht : ¬ P (pool t)) : Covered P (Function.update pool t l) := by
  obtain ⟨u, hu⟩ := h
  have hut : u ≠ t := fun h => ht (h ▸ hu)
  exact ⟨u, by rwa [Function.update_of_ne hut]⟩

/-- The thread that moves provides coverage by its new local state. -/
theorem covered_update_self {P : L → Prop} (pool : Tid → L) (t : Tid) {l : L}
    (hl : P l) : Covered P (Function.update pool t l) :=
  ⟨t, by rwa [Function.update_self]⟩

/-! ## §2. Counting. -/

/-- How many indices of `D` satisfy `P` under `f`. -/
def countOn (D : Finset Tid) (P : L → Prop) [DecidablePred P] (f : Tid → L) : Nat :=
  (D.filter fun t => P (f t)).card

/-- **Counting step.**  Replacing the value at one index of `D` changes the
count by exactly what that index gains and loses. -/
theorem countOn_update {D : Finset Tid} (P : L → Prop) [DecidablePred P] (f : Tid → L)
    {t : Tid} (ht : t ∈ D) (l : L) :
    countOn D P (Function.update f t l) + (if P (f t) then 1 else 0)
      = countOn D P f + (if P l then 1 else 0) := by
  have hsplit : ∀ g : Tid → L,
      countOn D P g = countOn (D.erase t) P g + (if P (g t) then 1 else 0) := by
    intro g
    unfold countOn
    rw [← Finset.insert_erase ht, Finset.filter_insert]
    by_cases hg : P (g t)
    · rw [if_pos hg, if_pos hg, Finset.card_insert_of_notMem (by simp), Finset.erase_insert (by simp)]
    · rw [if_neg hg, if_neg hg, Finset.erase_insert (by simp), Nat.add_zero]
  have hrest : countOn (D.erase t) P (Function.update f t l) = countOn (D.erase t) P f := by
    unfold countOn
    congr 1
    apply Finset.filter_congr
    intro u hu
    rw [Function.update_of_ne (Finset.ne_of_mem_erase hu)]
  rw [hsplit (Function.update f t l), hsplit f, hrest, Function.update_self]
  omega

omit [DecidableEq Tid] in
theorem countOn_eq_zero_iff {D : Finset Tid} (P : L → Prop) [DecidablePred P] (f : Tid → L) :
    countOn D P f = 0 ↔ ∀ t ∈ D, ¬ P (f t) := by
  unfold countOn
  rw [Finset.card_eq_zero, Finset.filter_eq_empty_iff]

omit [DecidableEq Tid] in
theorem countOn_congr {D : Finset Tid} {P : L → Prop} [DecidablePred P] {f g : Tid → L}
    (h : ∀ t ∈ D, (P (f t) ↔ P (g t))) : countOn D P f = countOn D P g := by
  unfold countOn
  congr 1
  exact Finset.filter_congr h

/-- A step that leaves `P` of the moving index as it was leaves the count. -/
theorem countOn_update_same {D : Finset Tid} (P : L → Prop) [DecidablePred P] (f : Tid → L)
    (t : Tid) (l : L) (h : P l ↔ P (f t)) : countOn D P (Function.update f t l) = countOn D P f := by
  apply countOn_congr
  intro u _
  by_cases hu : u = t
  · subst hu; rw [Function.update_self]; exact h
  · rw [Function.update_of_ne hu]

/-! ## §3. Weights. -/

/-- The weight of the values `f` takes on `D`, together. -/
def weightOn (D : Finset Tid) (w : L → Nat) (f : Tid → L) : Nat := ∑ t ∈ D, w (f t)

/-- **Weighing step.**  The weight changes by what the index of `D` whose value
is replaced gains and loses. -/
theorem weightOn_update {D : Finset Tid} (w : L → Nat) (f : Tid → L) {t : Tid} (ht : t ∈ D)
    (l : L) : weightOn D w (Function.update f t l) + w (f t) = weightOn D w f + w l := by
  have hnew : weightOn D w (Function.update f t l) = w l + ∑ u ∈ D \ {t}, w (f u) := by
    unfold weightOn
    have hcomp : (fun u => w (Function.update f t l u))
        = Function.update (fun u => w (f u)) t (w l) := by
      rw [← Function.comp_def w, Function.comp_update]
      rfl
    rw [hcomp, Finset.sum_update_of_mem ht]
  have hold : weightOn D w f = w (f t) + ∑ u ∈ D \ {t}, w (f u) := by
    unfold weightOn
    exact Finset.sum_eq_add_sum_sdiff_singleton_of_mem ht _
  omega

variable [Fintype Tid]

/-- The weight of all threads together. -/
def total (w : L → Nat) (pool : Tid → L) : Nat := weightOn Finset.univ w pool

theorem total_update (w : L → Nat) (pool : Tid → L) (t : Tid) (l : L) :
    total w (Function.update pool t l) + w (pool t) = total w pool + w l :=
  weightOn_update w pool (Finset.mem_univ t) l

/-- A thread that moves to a lighter state makes the total lighter. -/
theorem total_update_lt {w : L → Nat} {pool : Tid → L} {t : Tid} {l : L} (h : w l < w (pool t)) :
    total w (Function.update pool t l) < total w pool := by
  have hstep := total_update w pool t l
  omega

omit [DecidableEq Tid] in
theorem total_eq_zero_iff (w : L → Nat) (pool : Tid → L) :
    total w pool = 0 ↔ ∀ t, w (pool t) = 0 := by
  unfold total weightOn
  rw [Finset.sum_eq_zero_iff]
  simp

end ZnCache.Lib.ThreadPool
