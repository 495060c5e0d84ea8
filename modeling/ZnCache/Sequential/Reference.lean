/-
  ZnCache.Sequential.Reference — what the promotional cache is for, with one
  caller.

  A cache of zones: the full zones in recency order, at most one open zone, and
  a number of free ones.  A zone is the list of what was put into it.  A hit
  makes the zone the most recent one if it is full; a miss appends to the open
  zone, opening a free one first if there is none, and evicting the least
  recent zones if none is free.
-/
import Mathlib.Data.List.Basic
import Mathlib.Data.List.Nodup

namespace ZnCache

universe u v

/-- A cache of zones; the least recent full zone comes first. -/
structure ZoneLru (α : Type u) where
  full : List (List α)
  current : Option (List α)
  free : Nat
  deriving DecidableEq, Repr

namespace ZoneLru

variable {α : Type u} [DecidableEq α]

/-- Some zone holds `id`. -/
def Holds (r : ZoneLru α) (id : α) : Prop :=
  (∃ zone ∈ r.full, id ∈ zone) ∨ ∃ zone ∈ r.current, id ∈ zone

instance decHolds (r : ZoneLru α) (id : α) : Decidable (r.Holds id) := by
  unfold Holds
  infer_instance

/-- The full zone that holds `id`, if there is one, becomes the most recent. -/
def touch (r : ZoneLru α) (id : α) : ZoneLru α :=
  { r with full := r.full.filter (id ∉ ·) ++ r.full.filter (id ∈ ·) }

/-- The `k` least recent zones become free. -/
def evict (r : ZoneLru α) (k : Nat) : ZoneLru α :=
  { r with full := r.full.drop k, free := r.free + k }

/-- Open a free zone if no zone is open; if none is free, evict `k` first. -/
def openZone (r : ZoneLru α) (k : Nat) : ZoneLru α :=
  match r.current with
  | some _ => r
  | none =>
    let r' := if r.free = 0 then r.evict k else r
    { r' with current := some [], free := r'.free - 1 }

/-- Append to the open zone, which is full with `size` ids. -/
def append (r : ZoneLru α) (size : Nat) (id : α) : ZoneLru α :=
  match r.current with
  | none => r
  | some zone =>
    if zone.length + 1 = size then { r with full := r.full ++ [zone ++ [id]], current := none }
    else { r with current := some (zone ++ [id]) }

/-- **A request**: whether it is a hit, and the cache after it. -/
def get (r : ZoneLru α) (k size : Nat) (id : α) : Bool × ZoneLru α :=
  if r.Holds id then (true, r.touch id) else (false, (r.openZone k).append size id)

/-- The hits and misses of a sequence of requests. -/
def serve (k size : Nat) : ZoneLru α → List α → List Bool
  | _, [] => []
  | r, id :: rest => (r.get k size id).1 :: serve k size (r.get k size id).2 rest

omit [DecidableEq α] in
theorem evict_evict (r : ZoneLru α) (j k : Nat) : (r.evict j).evict k = r.evict (j + k) := by
  unfold evict
  simp only [List.drop_drop]
  congr 1
  omega

omit [DecidableEq α] in
/-- Evicting before a zone is opened is what opening one does. -/
theorem openZone_evict {r : ZoneLru α} (hcurrent : r.current = none) (hfree : r.free = 0) {j k : Nat}
    (hk : 0 < k) : (r.evict k).openZone j = r.openZone k := by
  have hne : r.free + k ≠ 0 := by omega
  simp only [openZone, evict, hcurrent, if_pos hfree, if_neg hne]

/-- On a queue of zone numbers with a table of contents, a touch is the move of
one number to the tail. -/
theorem touch_map {ι : Type v} [DecidableEq ι] {zones : List ι} {f : ι → List α} {id : α} {z : ι}
    (hnd : zones.Nodup) (h : ∀ y ∈ zones, id ∈ f y ↔ y = z) (current : Option (List α)) (free : Nat) :
    touch ⟨zones.map f, current, free⟩ id
      = ⟨(if z ∈ zones then zones.erase z ++ [z] else zones).map f, current, free⟩ := by
  have hin : (zones.map f).filter (id ∈ ·) = (zones.filter (· = z)).map f := by
    rw [List.filter_map]
    congr 1
    exact List.filter_congr fun y hy => by simp [h y hy]
  have hout : (zones.map f).filter (id ∉ ·) = (zones.erase z).map f := by
    rw [hnd.erase_eq_filter, List.filter_map]
    congr 1
    refine List.filter_congr fun y hy => ?_
    by_cases hyz : y = z
    · subst hyz
      simp [(h y hy).mpr rfl]
    · simp [mt (h y hy).mp hyz, hyz]
  rw [touch, hin, hout]
  congr 1
  by_cases hz : z ∈ zones
  · have hone : zones.filter (· = z) = [z] := by
      rw [List.filter_eq, List.count_eq_one_of_mem hnd hz]
      rfl
    rw [hone, if_pos hz, List.map_append]
  · have hnone : zones.filter (· = z) = [] :=
      List.filter_eq_nil_iff.mpr fun y hy => by
        rw [decide_eq_true_eq]
        exact fun hyz => hz (hyz ▸ hy)
    rw [hnone, if_neg hz, List.erase_of_not_mem hz, List.map_nil, List.append_nil]

/-- Three zones of two ids: the fourth zone's worth evicts all of them, and the
first id is a miss again. -/
example : serve 4 2 (⟨[], none, 3⟩ : ZoneLru Nat) [1, 2, 3, 1, 4, 5, 6, 7, 1]
    = [false, false, false, true, false, false, false, false, false] := by decide

end ZoneLru

end ZnCache
