/-
  ZnCache.Lib.CellTable — a table of pointers to heap cells it owns.

  A hash table whose values are pointers is two maps: from keys to addresses,
  and from addresses to what is there.  A `CellTable` owns its cells: every
  pointer is to an allocated cell, and no two keys share one.  Freed addresses
  may be allocated again.

  What a key leads to is `view`; each operation says what it does to the view,
  and to a cell that somebody else still has a pointer to:

    * `alloc`   — a new cell under a key,
    * `store`   — overwrite the cell of a key,
    * `free`    — give the cell of a key back, and forget the key,
    * `freeAll` — the same for a list of keys.
-/
import Mathlib.Logic.Function.Basic

namespace ZnCache.Lib

universe u

/-- Pointers to cells.  The two proof fields say that the table owns them. -/
structure CellTable (α : Type u) where
  ptr : Nat → Option Nat
  cell : Nat → Option α
  live : ∀ k p, ptr k = some p → cell p ≠ none
  inj : ∀ k k' p, ptr k = some p → ptr k' = some p → k = k'

namespace CellTable

variable {α : Type u}

/-- What a key leads to. -/
def view (t : CellTable α) (k : Nat) : Option α := (t.ptr k).bind t.cell

theorem view_of_ptr {t : CellTable α} {k p : Nat} (h : t.ptr k = some p) : t.view k = t.cell p := by
  rw [view, h, Option.bind_some]

/-- A key that leads somewhere has a pointer. -/
theorem ptr_of_view {t : CellTable α} {k : Nat} {a : α} (h : t.view k = some a) :
    ∃ p, t.ptr k = some p ∧ t.cell p = some a := by
  obtain ⟨p, hp, ha⟩ := Option.bind_eq_some_iff.mp h
  exact ⟨p, hp, ha⟩

/-! ## §1. The operations. -/

def empty : CellTable α where
  ptr := fun _ => none
  cell := fun _ => none
  live := fun _ _ h => by cases h
  inj := fun _ _ _ h => by cases h

/-- Put `a` into the free cell at `p`, and `p` under `k`. -/
def alloc (t : CellTable α) (k p : Nat) (a : α) : CellTable α :=
  if hp : t.cell p = none then
    { ptr := Function.update t.ptr k (some p)
      cell := Function.update t.cell p (some a)
      live := by
        intro k' q hq
        by_cases hqp : q = p
        · rw [hqp, Function.update_self]
          simp
        · rw [Function.update_of_ne hqp]
          by_cases hk : k' = k
          · rw [hk, Function.update_self] at hq
            exact absurd (Option.some.inj hq).symm hqp
          · rw [Function.update_of_ne hk] at hq
            exact t.live k' q hq
      inj := by
        have hold : ∀ {k'}, k' ≠ k → ∀ {q}, Function.update t.ptr k (some p) k' = some q →
            t.ptr k' = some q ∧ q ≠ p := by
          intro k' hk q hq
          rw [Function.update_of_ne hk] at hq
          exact ⟨hq, fun heq => t.live k' q hq (heq ▸ hp)⟩
        intro k₁ k₂ q h₁ h₂
        by_cases hk₁ : k₁ = k
        · by_cases hk₂ : k₂ = k
          · rw [hk₁, hk₂]
          · rw [hk₁, Function.update_self] at h₁
            exact absurd (Option.some.inj h₁).symm (hold hk₂ h₂).2
        · by_cases hk₂ : k₂ = k
          · rw [hk₂, Function.update_self] at h₂
            exact absurd (Option.some.inj h₂).symm (hold hk₁ h₁).2
          · exact t.inj k₁ k₂ q (hold hk₁ h₁).1 (hold hk₂ h₂).1 }
  else t

/-- Overwrite the cell of `k`, if it has one. -/
def store (t : CellTable α) (k : Nat) (a : α) : CellTable α where
  ptr := t.ptr
  cell := fun q => if t.ptr k = some q then some a else t.cell q
  live := by
    intro k' q hq
    by_cases hk : t.ptr k = some q
    · rw [if_pos hk]
      simp
    · rw [if_neg hk]
      exact t.live k' q hq
  inj := t.inj

/-- Free the cell of `k`, and forget `k`. -/
def free (t : CellTable α) (k : Nat) : CellTable α where
  ptr := Function.update t.ptr k none
  cell := fun q => if t.ptr k = some q then none else t.cell q
  live := by
    intro k' q hq
    by_cases hk : k' = k
    · rw [hk, Function.update_self] at hq
      cases hq
    · rw [Function.update_of_ne hk] at hq
      rw [if_neg fun h => hk (t.inj k' k q hq h)]
      exact t.live k' q hq
  inj := by
    intro k₁ k₂ q h₁ h₂
    by_cases hk₁ : k₁ = k
    · rw [hk₁, Function.update_self] at h₁
      cases h₁
    · by_cases hk₂ : k₂ = k
      · rw [hk₂, Function.update_self] at h₂
        cases h₂
      · rw [Function.update_of_ne hk₁] at h₁
        rw [Function.update_of_ne hk₂] at h₂
        exact t.inj k₁ k₂ q h₁ h₂

/-- Free the cells of several keys. -/
def freeAll (t : CellTable α) (ks : List Nat) : CellTable α := ks.foldl free t

/-! ## §2. What a key leads to. -/

variable {t : CellTable α}

theorem view_alloc {p : Nat} (hp : t.cell p = none) (k : Nat) (a : α) :
    (t.alloc k p a).view = Function.update t.view k (some a) := by
  funext k'
  unfold alloc view
  rw [dif_pos hp]
  dsimp only
  by_cases hk : k' = k
  · rw [hk, Function.update_self, Function.update_self, Option.bind_some, Function.update_self]
  · rw [Function.update_of_ne hk, Function.update_of_ne hk]
    cases hq : t.ptr k' with
    | none => rfl
    | some q =>
      have hne : q ≠ p := fun heq => t.live k' q hq (heq ▸ hp)
      rw [Option.bind_some, Option.bind_some, Function.update_of_ne hne]

theorem view_store {k : Nat} (hk : t.view k ≠ none) (a : α) :
    (t.store k a).view = Function.update t.view k (some a) := by
  funext k'
  unfold store view
  dsimp only
  by_cases hkk : k' = k
  · rw [hkk, Function.update_self]
    cases hp : t.ptr k with
    | none => exact absurd (by rw [view, hp]; rfl) hk
    | some p => rw [Option.bind_some, if_pos rfl]
  · rw [Function.update_of_ne hkk]
    cases hq : t.ptr k' with
    | none => rfl
    | some q =>
      rw [Option.bind_some, Option.bind_some, if_neg fun h => hkk (t.inj k' k q hq h)]

theorem view_free (k : Nat) : (t.free k).view = Function.update t.view k none := by
  funext k'
  unfold free view
  dsimp only
  by_cases hkk : k' = k
  · rw [hkk, Function.update_self, Function.update_self, Option.bind_none]
  · rw [Function.update_of_ne hkk, Function.update_of_ne hkk]
    cases hq : t.ptr k' with
    | none => rfl
    | some q =>
      rw [Option.bind_some, Option.bind_some, if_neg fun h => hkk (t.inj k' k q hq h)]

theorem view_freeAll (ks : List Nat) (t : CellTable α) :
    (t.freeAll ks).view = fun k => if k ∈ ks then none else t.view k := by
  induction ks generalizing t with
  | nil => simp [freeAll]
  | cons k ks ih =>
    funext k'
    show ((t.free k).freeAll ks).view k' = _
    rw [ih (t.free k), view_free]
    by_cases hk : k' = k
    · subst hk
      simp
    · simp [hk]

/-! ## §3. A cell somebody else points to. -/

theorem cell_alloc {k p q : Nat} {a b : α} (hq : t.cell q = some b) :
    (t.alloc k p a).cell q = some b := by
  unfold alloc
  by_cases hp : t.cell p = none
  · have hne : q ≠ p := by
      intro heq
      rw [heq, hp] at hq
      cases hq
    rw [dif_pos hp]
    exact (Function.update_of_ne hne ..).trans hq
  · rw [dif_neg hp]
    exact hq

theorem cell_store {k q : Nat} {a : α} (hk : t.ptr k ≠ some q) : (t.store k a).cell q = t.cell q :=
  if_neg hk

theorem cell_freeAll_of_ne {q : Nat} (ks : List Nat) (t : CellTable α)
    (h : ∀ k ∈ ks, t.ptr k ≠ some q) : (t.freeAll ks).cell q = t.cell q := by
  induction ks generalizing t with
  | nil => rfl
  | cons k ks ih =>
    show ((t.free k).freeAll ks).cell q = _
    rw [ih (t.free k)]
    · exact if_neg (h k (List.mem_cons_self ..))
    · intro k' hk' hq
      by_cases hkk : k' = k
      · rw [hkk] at hq
        exact absurd ((Function.update_self ..).symm.trans hq) (by simp)
      · exact h k' (List.mem_cons_of_mem k hk') ((Function.update_of_ne hkk ..).symm.trans hq)

/-- A freed cell stays free while only cells are freed. -/
theorem cell_freeAll_none {q : Nat} (ks : List Nat) (t : CellTable α) (h : t.cell q = none) :
    (t.freeAll ks).cell q = none := by
  induction ks generalizing t with
  | nil => exact h
  | cons k ks ih =>
    apply ih
    show (if _ then none else t.cell q) = none
    rw [h, ite_self]

theorem cell_freeAll_of_mem {q k : Nat} (ks : List Nat) (t : CellTable α) (hk : k ∈ ks)
    (hq : t.ptr k = some q) : (t.freeAll ks).cell q = none := by
  induction ks generalizing t with
  | nil => cases hk
  | cons k' ks ih =>
    show ((t.free k').freeAll ks).cell q = none
    by_cases hkk : k = k'
    · apply cell_freeAll_none
      exact if_pos (hkk ▸ hq)
    · rcases List.mem_cons.mp hk with heq | hk
      · exact absurd heq hkk
      · exact ih (t.free k') hk ((Function.update_of_ne hkk ..).trans hq)

end CellTable

end ZnCache.Lib
