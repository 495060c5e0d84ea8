/-
  ZnCache.Lib.SiftHeap — the order of a binary heap laid out in an array, and
  the two sifts that restore it.

  Only the KEYS of the positions matter, so everything is about a function
  `k : Nat → α` into a linear order and a size `n`; exchanging two array cells
  is `k ∘ Equiv.swap i j`.

    * `UpOk k n i`   — in order but for the pair (parent of `i`, `i`),
    * `DownOk k n i` — in order but for the pairs (`i`, child of `i`).

  Each has a `swap` lemma (one round of the loop) and a `done` lemma (the exit
  of the loop), and the `IsHeap` lemmas say which operation establishes which.
-/
import Mathlib.Logic.Equiv.Basic
import Mathlib.Order.Lattice

namespace ZnCache.Lib.SiftHeap

universe u

variable {α : Type u} [LinearOrder α] {k : Nat → α} {n i : Nat}

/-- The parent position. -/
def parent (i : Nat) : Nat := (i - 1) / 2

theorem parent_lt (h : 0 < i) : parent i < i := by
  unfold parent; omega

theorem parent_eq_iff {c p : Nat} (hc : 0 < c) : parent c = p ↔ c = 2 * p + 1 ∨ c = 2 * p + 2 := by
  unfold parent; omega

/-- No key is below its parent's. -/
def IsHeap (k : Nat → α) (n : Nat) : Prop := ∀ j, 0 < j → j < n → k (parent j) ≤ k j

/-- In order but for `i` against its parent; the children of `i` are at or
above that parent. -/
structure UpOk (k : Nat → α) (n i : Nat) : Prop where
  other : ∀ j, 0 < j → j < n → j ≠ i → k (parent j) ≤ k j
  grand : 0 < i → ∀ j, 0 < j → j < n → parent j = i → k (parent i) ≤ k j

/-- In order but for `i` against its children, which are at or above the
parent of `i`. -/
structure DownOk (k : Nat → α) (n i : Nat) : Prop where
  other : ∀ j, 0 < j → j < n → parent j ≠ i → k (parent j) ≤ k j
  grand : 0 < i → ∀ j, 0 < j → j < n → parent j = i → k (parent i) ≤ k j

/-! ## §1. Sifting up. -/

/-- Leaving the loop: at the root, or in order with the parent. -/
theorem UpOk.done (h : UpOk k n i) (hstop : 0 < i → k (parent i) ≤ k i) : IsHeap k n := by
  intro j hj hjn
  by_cases hji : j = i
  · subst hji; exact hstop hj
  · exact h.other j hj hjn hji

/-- One round: exchange `i` with its parent. -/
theorem UpOk.swap (h : UpOk k n i) (hi : 0 < i) (hin : i < n) (hlt : k i < k (parent i)) :
    UpOk (k ∘ Equiv.swap i (parent i)) n (parent i) := by
  have hpi : parent i < i := parent_lt hi
  have hk_i : (k ∘ Equiv.swap i (parent i)) i = k (parent i) := by simp
  have hk_p : (k ∘ Equiv.swap i (parent i)) (parent i) = k i := by simp
  have hk_o : ∀ j, j ≠ i → j ≠ parent i → (k ∘ Equiv.swap i (parent i)) j = k j := by
    intro j h1 h2
    simp [Equiv.swap_apply_of_ne_of_ne h1 h2]
  constructor
  · intro j hj hjn hjp
    by_cases hji : j = i
    · subst hji
      rw [hk_i, hk_p]
      exact hlt.le
    · rw [hk_o j hji hjp]
      by_cases hpj : parent j = i
      · rw [hpj, hk_i]
        exact h.grand hi j hj hjn hpj
      · by_cases hpp : parent j = parent i
        · rw [hpp, hk_p]
          exact hlt.le.trans (hpp ▸ h.other j hj hjn hji)
        · rw [hk_o _ hpj hpp]
          exact h.other j hj hjn hji
  · intro hp0 j hj hjn hjp
    have hpp : parent (parent i) < parent i := parent_lt hp0
    rw [hk_o _ (by omega) (by omega)]
    have hup : k (parent (parent i)) ≤ k (parent i) :=
      h.other (parent i) hp0 (by omega) (by omega)
    by_cases hji : j = i
    · subst hji; rw [hk_i]; exact hup
    · have hlt' := parent_lt hj
      rw [hk_o j hji (by omega)]
      exact hup.trans (hjp ▸ h.other j hj hjn hji)

/-! ## §2. Sifting down. -/

/-- Leaving the loop: in order with every child. -/
theorem DownOk.done (h : DownOk k n i)
    (hstop : ∀ j, 0 < j → j < n → parent j = i → k i ≤ k j) : IsHeap k n := by
  intro j hj hjn
  by_cases hji : parent j = i
  · rw [hji]; exact hstop j hj hjn hji
  · exact h.other j hj hjn hji

/-- One round: exchange `i` with its least child `c`. -/
theorem DownOk.swap (h : DownOk k n i) {c : Nat} (hc : 0 < c) (hcn : c < n)
    (hci : parent c = i) (hlt : k c < k i)
    (hmin : ∀ j, 0 < j → j < n → parent j = i → k c ≤ k j) :
    DownOk (k ∘ Equiv.swap i c) n c := by
  have hic : i < c := hci ▸ parent_lt hc
  have hk_i : (k ∘ Equiv.swap i c) i = k c := by simp
  have hk_c : (k ∘ Equiv.swap i c) c = k i := by simp
  have hk_o : ∀ j, j ≠ i → j ≠ c → (k ∘ Equiv.swap i c) j = k j := by
    intro j h1 h2
    simp [Equiv.swap_apply_of_ne_of_ne h1 h2]
  constructor
  · intro j hj hjn hjc
    have hpj := parent_lt hj
    by_cases hji : j = i
    · -- `i` itself now holds the key of `c`, which is at or above its parent
      subst hji
      rw [hk_i, hk_o _ (by omega) (by omega)]
      exact h.grand hj c hc hcn hci
    · by_cases hjc' : j = c
      · subst hjc'
        rw [hci, hk_i, hk_c]
        exact hlt.le
      · rw [hk_o j hji hjc']
        by_cases hpi : parent j = i
        · rw [hpi, hk_i]
          exact hmin j hj hjn hpi
        · rw [hk_o _ hpi hjc]
          exact h.other j hj hjn hpi
  · intro _ j hj hjn hjc
    have hpj := parent_lt hj
    rw [hci, hk_i, hk_o j (by omega) (by omega)]
    exact hjc ▸ h.other j hj hjn (by omega)

/-! ## §3. Entering a loop from a heap. -/

/-- The root holds a least key. -/
theorem IsHeap.root_le (h : IsHeap k n) : ∀ j, j < n → k 0 ≤ k j := by
  intro j
  induction j using Nat.strongRecOn with
  | ind j ih =>
    intro hjn
    rcases Nat.eq_zero_or_pos j with rfl | hj
    · exact le_refl _
    · have hp := parent_lt hj
      exact (ih (parent j) hp (by omega)).trans (h j hj hjn)

/-- A new last position is out of order with its parent at most. -/
theorem IsHeap.push (h : IsHeap k n) (a : α) : UpOk (Function.update k n a) (n + 1) n := by
  constructor
  · intro j hj hjn hne
    have hp := parent_lt hj
    rw [Function.update_of_ne (by omega), Function.update_of_ne hne]
    exact h j hj (by omega)
  · intro _ j hj hjn hjp
    have hp := parent_lt hj
    omega

/-- A lowered key is out of order with its parent at most. -/
theorem IsHeap.lower (h : IsHeap k n) {a : α} (ha : a ≤ k i) :
    UpOk (Function.update k i a) n i := by
  constructor
  · intro j hj hjn hne
    rw [Function.update_of_ne hne]
    by_cases hp : parent j = i
    · rw [hp, Function.update_self]
      exact ha.trans (hp ▸ h j hj hjn)
    · rw [Function.update_of_ne hp]
      exact h j hj hjn
  · intro hi j hj hjn hjp
    have hpi := parent_lt hi
    have hpj := parent_lt hj
    rw [Function.update_of_ne (by omega), Function.update_of_ne (by omega)]
    exact (h i hi (by omega)).trans (hjp ▸ h j hj hjn)

/-- A raised key is out of order with its children at most. -/
theorem IsHeap.raise (h : IsHeap k n) {a : α} (ha : k i ≤ a) :
    DownOk (Function.update k i a) n i := by
  constructor
  · intro j hj hjn hne
    rw [Function.update_of_ne hne]
    by_cases hji : j = i
    · subst hji
      rw [Function.update_self]
      exact (h j hj hjn).trans ha
    · rw [Function.update_of_ne hji]
      exact h j hj hjn
  · intro hi j hj hjn hjp
    have hpi := parent_lt hi
    have hpj := parent_lt hj
    rw [Function.update_of_ne (by omega), Function.update_of_ne (by omega)]
    exact (h i hi (by omega)).trans (hjp ▸ h j hj hjn)

/-- A new root is out of order with its children at most, whatever its key. -/
theorem IsHeap.replaceRoot (h : IsHeap k n) (a : α) : DownOk (Function.update k 0 a) n 0 := by
  constructor
  · intro j hj hjn hne
    rw [Function.update_of_ne hne, Function.update_of_ne (by omega)]
    exact h j hj hjn
  · intro h0
    exact absurd h0 (Nat.lt_irrefl 0)

/-- A shorter prefix of a heap is a heap. -/
theorem IsHeap.mono {m : Nat} (h : IsHeap k n) (hmn : m ≤ n) : IsHeap k m :=
  fun j hj hjm => h j hj (Nat.lt_of_lt_of_le hjm hmn)

/-- The order reads the keys of the first `n` positions only. -/
theorem IsHeap.congr {k' : Nat → α} (h : IsHeap k n) (hk : ∀ j, j < n → k' j = k j) :
    IsHeap k' n := by
  intro j hj hjn
  have hp := parent_lt hj
  rw [hk j hjn, hk _ (by omega)]
  exact h j hj hjn

end ZnCache.Lib.SiftHeap
