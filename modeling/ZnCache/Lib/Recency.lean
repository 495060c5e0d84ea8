/-
  ZnCache.Lib.Recency — least-recently-used order.

  A log of touches, NEWEST FIRST, says when an element was touched last.  A
  queue is in recency order when the elements further back were touched later.
  The order is only about the log: nothing here says how a queue is kept.

    * `ByRecency.touch` — touch an element and move it to the back,
    * `ByRecency.sublist` — remove elements from anywhere,
    * `ByRecency.head_oldest` — the head was touched longest ago.
-/
import Mathlib.Data.List.Nodup

namespace ZnCache.Lib

universe u

variable {α : Type u} [DecidableEq α]

/-! ## §1. The latest touch. -/

/-- When `a` was touched last, counted in touches from the start; 0 if never. -/
def lastTouch : List α → α → Nat
  | [], _ => 0
  | b :: log, a => if a = b then log.length + 1 else lastTouch log a

@[simp] theorem lastTouch_self (log : List α) (a : α) :
    lastTouch (a :: log) a = log.length + 1 := if_pos rfl

theorem lastTouch_ne (log : List α) {a b : α} (h : a ≠ b) :
    lastTouch (b :: log) a = lastTouch log a := if_neg h

theorem lastTouch_le (log : List α) (a : α) : lastTouch log a ≤ log.length := by
  induction log with
  | nil => exact Nat.le_refl 0
  | cons b log ih =>
    unfold lastTouch
    split
    · exact Nat.le_refl _
    · show lastTouch log a ≤ log.length + 1
      omega

/-- An element is older than the one just touched. -/
theorem lastTouch_lt_self (log : List α) {a b : α} (h : a ≠ b) :
    lastTouch (b :: log) a < lastTouch (b :: log) b := by
  have hle := lastTouch_le log a
  rw [lastTouch_ne log h, lastTouch_self]
  omega

/-! ## §2. Recency order. -/

/-- The elements of `q` stand in the order of their latest touch. -/
def ByRecency (log q : List α) : Prop :=
  q.Pairwise (fun a b => lastTouch log a < lastTouch log b)

namespace ByRecency

variable {log q : List α}

theorem nil (log : List α) : ByRecency log [] := List.Pairwise.nil

theorem sublist (h : ByRecency log q) {r : List α} (hr : r.Sublist q) : ByRecency log r :=
  List.Pairwise.sublist hr h

/-- An element stands once: it is not older than itself. -/
theorem nodup (h : ByRecency log q) : q.Nodup :=
  List.Pairwise.imp (fun hlt heq => absurd hlt (by rw [heq]; exact Nat.lt_irrefl _)) h

/-- A touch of something that is not queued leaves the order. -/
theorem other (h : ByRecency log q) {a : α} (ha : a ∉ q) : ByRecency (a :: log) q := by
  refine List.Pairwise.imp_of_mem ?_ h
  intro x y hx hy hlt
  have hxa : x ≠ a := fun he => ha (he ▸ hx)
  have hya : y ≠ a := fun he => ha (he ▸ hy)
  rw [lastTouch_ne log hxa, lastTouch_ne log hya]
  exact hlt

/-- **Touch.**  Whether it was queued or not, the element goes to the back. -/
theorem touch (h : ByRecency log q) (a : α) : ByRecency (a :: log) (q.erase a ++ [a]) := by
  have hnot : a ∉ q.erase a := h.nodup.not_mem_erase
  refine List.pairwise_append.mpr ⟨?_, List.pairwise_singleton _ _, ?_⟩
  · exact (h.sublist List.erase_sublist).other hnot
  · intro x hx y hy
    obtain rfl : y = a := List.mem_singleton.mp hy
    exact lastTouch_lt_self log fun he => hnot (he ▸ hx)

/-- An element that is touched and not queued joins at the back. -/
theorem push (h : ByRecency log q) {a : α} (ha : a ∉ q) : ByRecency (a :: log) (q ++ [a]) := by
  have htouch := h.touch a
  rwa [List.erase_of_not_mem ha] at htouch

/-- The head was touched longest ago. -/
theorem head_oldest {a : α} {rest : List α} (h : ByRecency log (a :: rest)) {b : α}
    (hb : b ∈ a :: rest) (hne : b ≠ a) : lastTouch log a < lastTouch log b := by
  rcases List.mem_cons.mp hb with he | hin
  · exact absurd he hne
  · exact (List.pairwise_cons.mp h).1 b hin

/-- What stands in front was touched before what stands behind. -/
theorem front_before_back {front back : List α} (h : ByRecency log (front ++ back)) {a b : α}
    (ha : a ∈ front) (hb : b ∈ back) : lastTouch log a < lastTouch log b :=
  (List.pairwise_append.mp h).2.2 a ha b hb

end ByRecency

end ZnCache.Lib
