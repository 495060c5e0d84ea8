/-
  ZnCache.Lib.PartialBijection — growing and shrinking a partial bijection.

  A table with a reverse index is right when the two are mutually inverse, that
  is, when together they are a partial bijection (`PEquiv` of Mathlib).  Two
  operations cover what such a table goes through:

    * `insertPair` — a new pair, both ends unused,
    * `eraseOn`    — drop every pair whose right end satisfies `P`.

  Both are `PEquiv`s by construction, so an update of the table that computes
  them needs no further argument.

  A list of right ends, none twice and all used, goes with the list of their
  left ends (`leftEnds`): a queue of places is a queue of what is there.
-/
import Mathlib.Data.List.Nodup
import Mathlib.Data.PEquiv
import Mathlib.Logic.Function.Basic

namespace ZnCache.Lib.PartialBijection

universe u v

variable {α : Type u} {β : Type v}

/-- A right end belongs to one left end. -/
theorem left_unique (e : PEquiv α β) {a a' : α} {b : β} (h : e a = some b) (h' : e a' = some b) :
    a = a' :=
  Option.some.inj ((e.eq_some_iff.mpr h).symm.trans (e.eq_some_iff.mpr h'))

/-- A right end that is used has a left end. -/
theorem exists_apply_iff (e : PEquiv α β) {b : β} : (∃ a, e a = some b) ↔ e.symm b ≠ none := by
  rw [Option.ne_none_iff_exists']
  simp only [e.eq_some_iff]

/-! ## §1. A new pair. -/

variable [DecidableEq α] [DecidableEq β]

/-- Add the pair `(a, b)`; neither end is used yet. -/
def insertPair (e : PEquiv α β) (a : α) (b : β) (ha : e a = none) (hb : e.symm b = none) :
    PEquiv α β where
  toFun := Function.update e a (some b)
  invFun := Function.update e.symm b (some a)
  inv x y := by
    by_cases hx : x = a
    · subst hx
      rw [Function.update_self]
      by_cases hy : y = b
      · subst hy; simp
      · rw [Function.update_of_ne hy, e.eq_some_iff, ha]
        simp [Ne.symm hy]
    · rw [Function.update_of_ne hx]
      by_cases hy : y = b
      · subst hy
        rw [Function.update_self, ← e.eq_some_iff, hb]
        simp [Ne.symm hx]
      · rw [Function.update_of_ne hy, e.eq_some_iff]

theorem insertPair_apply (e : PEquiv α β) {a : α} {b : β} (ha : e a = none)
    (hb : e.symm b = none) (x : α) :
    insertPair e a b ha hb x = Function.update e a (some b) x := rfl

theorem insertPair_symm_apply (e : PEquiv α β) {a : α} {b : β} (ha : e a = none)
    (hb : e.symm b = none) (y : β) :
    (insertPair e a b ha hb).symm y = Function.update e.symm b (some a) y := rfl

/-- One more right end is used. -/
theorem exists_insertPair (e : PEquiv α β) {a : α} {b : β} (ha : e a = none)
    (hb : e.symm b = none) {y : β} :
    (∃ x, insertPair e a b ha hb x = some y) ↔ (∃ x, e x = some y) ∨ y = b := by
  rw [exists_apply_iff, exists_apply_iff, insertPair_symm_apply]
  by_cases hy : y = b
  · rw [hy, Function.update_self]
    simp
  · rw [Function.update_of_ne hy]
    simp [hy]

/-! ## §2. Dropping pairs. -/

omit [DecidableEq α] [DecidableEq β]

/-- Drop the pairs whose right end satisfies `P`. -/
def eraseOn (e : PEquiv α β) (P : β → Prop) [DecidablePred P] : PEquiv α β where
  toFun x := (e x).filter fun y => ¬ P y
  invFun y := if P y then none else e.symm y
  inv x y := by
    rw [Option.filter_eq_some_iff]
    by_cases hy : P y
    · simp [hy]
    · rw [if_neg hy, e.eq_some_iff]
      simp [hy]

theorem eraseOn_apply_eq_some (e : PEquiv α β) (P : β → Prop) [DecidablePred P] (x : α) (y : β) :
    eraseOn e P x = some y ↔ e x = some y ∧ ¬ P y := by
  show (e x).filter _ = some y ↔ _
  rw [Option.filter_eq_some_iff]
  simp

theorem eraseOn_apply_of_none (e : PEquiv α β) (P : β → Prop) [DecidablePred P] {x : α}
    (h : e x = none) : eraseOn e P x = none := by
  rw [Option.eq_none_iff_forall_ne_some]
  intro y hy
  rw [eraseOn_apply_eq_some, h] at hy
  cases hy.1

/-- A pair that is dropped. -/
theorem eraseOn_apply_of_pos (e : PEquiv α β) (P : β → Prop) [DecidablePred P] {x : α} {y : β}
    (h : e x = some y) (hy : P y) : eraseOn e P x = none := by
  rw [Option.eq_none_iff_forall_ne_some]
  intro y' hy'
  rw [eraseOn_apply_eq_some, h] at hy'
  exact hy'.2 (Option.some.inj hy'.1 ▸ hy)

/-- A pair that stays. -/
theorem eraseOn_apply_of_neg (e : PEquiv α β) (P : β → Prop) [DecidablePred P] {x : α} {y : β}
    (h : e x = some y) (hy : ¬ P y) : eraseOn e P x = some y :=
  (eraseOn_apply_eq_some e P x y).mpr ⟨h, hy⟩

theorem eraseOn_symm_apply (e : PEquiv α β) (P : β → Prop) [DecidablePred P] (y : β) :
    (eraseOn e P).symm y = if P y then none else e.symm y := rfl

/-- The right ends that satisfy `P` are used no more. -/
theorem exists_eraseOn (e : PEquiv α β) (P : β → Prop) [DecidablePred P] {y : β} :
    (∃ x, eraseOn e P x = some y) ↔ (∃ x, e x = some y) ∧ ¬ P y := by
  rw [exists_apply_iff, exists_apply_iff, eraseOn_symm_apply]
  by_cases hy : P y
  · rw [if_pos hy]
    simp [hy]
  · rw [if_neg hy]
    simp [hy]

/-! ## §3. A list of right ends. -/

/-- The left ends of the right ends in a list. -/
def leftEnds (e : PEquiv α β) (l : List β) : List α := l.filterMap e.symm

theorem mem_leftEnds {e : PEquiv α β} {l : List β} {a : α} :
    a ∈ leftEnds e l ↔ ∃ b ∈ l, e a = some b := by
  unfold leftEnds
  rw [List.mem_filterMap]
  simp only [e.eq_some_iff]

/-- If they are all used, the left ends are theirs, in order. -/
theorem map_leftEnds {e : PEquiv α β} {l : List β} (h : ∀ b ∈ l, ∃ a, e a = some b) :
    (leftEnds e l).map e = l.map some := by
  induction l with
  | nil => rfl
  | cons b l ih =>
    obtain ⟨a, ha⟩ := h b (List.mem_cons_self ..)
    have hsymm : e.symm b = some a := e.eq_some_iff.mpr ha
    have hrest := ih fun b' hb' => h b' (List.mem_cons_of_mem b hb')
    show ((b :: l).filterMap e.symm).map e = _
    rw [List.filterMap_cons_some hsymm, List.map_cons, List.map_cons, ha]
    exact congrArg _ hrest

theorem nodup_leftEnds {e : PEquiv α β} {l : List β} (h : ∀ b ∈ l, ∃ a, e a = some b)
    (hl : l.Nodup) : (leftEnds e l).Nodup := by
  apply List.Nodup.of_map e
  rw [map_leftEnds h]
  exact hl.map (Option.some_injective β)

end ZnCache.Lib.PartialBijection
