/-
  ZnCache.Lib.SlotLog — the log of a resource that is filled slot by slot.

  A resource hands its next slot to one taker at a time.  The taker commits it,
  and the resource goes on to the next slot, or gives it up, and the same slot
  is handed out again.  `SlotLife n held log` says that `log`, latest event
  first, is such a life, that `n` slots are committed, and whether the next one
  is out.

  Main results:
    * `SlotLife.commits` — the slots committed are `0, 1, …, n - 1`, in order;
    * `SlotLife.retaken` — a slot is taken again only after it was given up.
-/
import Mathlib.Data.List.Basic

namespace ZnCache.Lib

/-- What happens to a slot. -/
inductive SlotEvent where
  | take (slot : Nat)
  | commit (slot : Nat)
  | giveUp (slot : Nat)
  deriving DecidableEq, Repr

/-- The slot an event commits. -/
def SlotEvent.committed : SlotEvent → Option Nat
  | .commit k => some k
  | _ => none

/-- **A life**, latest event first. -/
inductive SlotLife : Nat → Bool → List SlotEvent → Prop
  | fresh : SlotLife 0 false []
  | take {n : Nat} {log : List SlotEvent} (h : SlotLife n false log) :
      SlotLife n true (.take n :: log)
  | commit {n : Nat} {log : List SlotEvent} (h : SlotLife n true log) :
      SlotLife (n + 1) false (.commit n :: log)
  | giveUp {n : Nat} {log : List SlotEvent} (h : SlotLife n true log) :
      SlotLife n false (.giveUp n :: log)

namespace SlotLife

variable {n : Nat} {held : Bool} {log : List SlotEvent}

/-- **The slots committed**, in order. -/
theorem commits (h : SlotLife n held log) :
    (log.filterMap SlotEvent.committed).reverse = List.range n := by
  induction h with
  | fresh => rfl
  | take _ ih => exact ih
  | @commit n log _ ih =>
    show (n :: log.filterMap SlotEvent.committed).reverse = List.range (n + 1)
    rw [List.reverse_cons, ih, List.range_succ]
  | giveUp _ ih => exact ih

/-- No slot beyond the next one was ever taken. -/
theorem take_le (h : SlotLife n held log) {k : Nat} (hk : .take k ∈ log) : k ≤ n := by
  induction h with
  | fresh => cases hk
  | take _ ih =>
    rcases List.mem_cons.mp hk with heq | hk
    · cases heq
      exact Nat.le_refl _
    · exact ih hk
  | commit _ ih =>
    rcases List.mem_cons.mp hk with heq | hk
    · cases heq
    · exact Nat.le_succ_of_le (ih hk)
  | giveUp _ ih =>
    rcases List.mem_cons.mp hk with heq | hk
    · cases heq
    · exact ih hk

/-- Once the next slot is free again, it was given up after each time it was taken. -/
theorem given_up (h : SlotLife n held log) (hfree : held = false)
    {newer older : List SlotEvent} (hlog : log = newer ++ .take n :: older) :
    .giveUp n ∈ newer := by
  induction h generalizing newer with
  | fresh => simp at hlog
  | take => cases hfree
  | @commit n log h ih =>
    -- the next slot is one that nobody has taken yet
    have hin : SlotEvent.take (n + 1) ∈ SlotEvent.commit n :: log := by simp [hlog]
    rcases List.mem_cons.mp hin with heq | hin
    · cases heq
    · have := h.take_le hin
      omega
  | @giveUp n log h ih =>
    cases newer with
    | nil => simp at hlog
    | cons e newer =>
      obtain ⟨rfl, -⟩ := List.cons.inj hlog
      exact List.mem_cons_self ..

/-- **A slot is taken again** only after it was given up. -/
theorem retaken (h : SlotLife n held log) {k : Nat} {newer between older : List SlotEvent}
    (hlog : log = newer ++ .take k :: (between ++ .take k :: older)) : .giveUp k ∈ between := by
  induction h generalizing newer with
  | fresh => simp at hlog
  | @take n log h ih =>
    cases newer with
    | nil =>
      obtain ⟨heq, hrest⟩ := List.cons.inj hlog
      cases heq
      exact h.given_up rfl hrest
    | cons e newer => exact ih (List.cons.inj hlog).2
  | commit h ih =>
    cases newer with
    | nil => simp at hlog
    | cons e newer => exact ih (List.cons.inj hlog).2
  | giveUp h ih =>
    cases newer with
    | nil => simp at hlog
    | cons e newer => exact ih (List.cons.inj hlog).2

end SlotLife

end ZnCache.Lib
