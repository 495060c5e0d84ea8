/-
  ZnCache.MinHeap.Defs — `minheap.c`, function by function.

  The heap is an array of POINTERS to entries, and each entry stores the array
  position it is at; `entry` is the memory the pointers point into, `next` the
  next address `malloc` returns (addresses are not reused).  The array has
  `capacity` cells; a store past them is a fault.  Every body runs under the
  heap's mutex.

  The two loops are recursions on a fuel that bounds their rounds;
  `MinHeap.Sift` shows that the loop is left before the fuel is.
-/
import ZnCache.Backend
import Mathlib.Logic.Equiv.Basic

namespace ZnCache

/-- `struct zn_minheap_entry`; `data` is a pointer, kept as its address. -/
structure ZnMinheapEntry where
  data : Nat
  priority : Nat
  index : Nat
  deriving DecidableEq, Repr

/-- `struct zn_minheap`, with the memory behind its pointers. -/
structure ZnMinheap where
  arr : Nat → Nat
  size : Nat
  capacity : Nat
  entry : Nat → ZnMinheapEntry
  next : Nat

namespace ZnMinheap

/-- The priority of the entry at position `i`. -/
def key (h : ZnMinheap) (i : Nat) : Nat := (h.entry (h.arr i)).priority

/-- `heap->arr[i]->index = i`. -/
def setIndex (h : ZnMinheap) (i : Nat) : ZnMinheap :=
  { h with entry := Function.update h.entry (h.arr i) { h.entry (h.arr i) with index := i } }

/-- `entry->priority = p`. -/
def setPriority (h : ZnMinheap) (e p : Nat) : ZnMinheap :=
  { h with entry := Function.update h.entry e { h.entry e with priority := p } }

/-- Exchange the pointers of two positions, then update both entries' `index`. -/
def swap (h : ZnMinheap) (i j : Nat) : ZnMinheap :=
  (({ h with arr := h.arr ∘ Equiv.swap i j } : ZnMinheap).setIndex i).setIndex j

end ZnMinheap

/-- `realloc` of the array, successful except that no bytes are answered with
NULL. -/
def reallocArr (arr : Nat → Nat) (bytes : Nat) : Option (Nat → Nat) :=
  if bytes = 0 then none else some arr

/-- `minheap_realloc`: the capacity is a `uint32_t`, and the product with the
size of a pointer is a `size_t`. -/
def minheapRealloc (h : ZnMinheap) : Except Fault ZnMinheap :=
  let capacity := h.capacity * 2 % 2 ^ 32
  match reallocArr h.arr (8 * capacity) with
  | some arr => .ok { h with arr := arr, capacity := capacity }
  | none => .error .assertion

/-- `bubble_up`, for at most `fuel` rounds. -/
def bubbleUpLoop : Nat → ZnMinheap → Nat → ZnMinheap
  | 0, h, _ => h
  | fuel + 1, h, index =>
    if 0 < index then
      let parent := (index - 1) / 2
      if h.key index < h.key parent then bubbleUpLoop fuel (h.swap index parent) parent else h
    else h

/-- `bubble_up`: each round at least halves the index. -/
def bubbleUp (h : ZnMinheap) (index : Nat) : ZnMinheap := bubbleUpLoop index h index

/-- The position `bubble_down` exchanges with: the least of `index` and its
children inside the heap. -/
def smallestOf (h : ZnMinheap) (index : Nat) : Nat :=
  let left := (2 * index + 1) % 2 ^ 32
  let right := (2 * index + 2) % 2 ^ 32
  let smallest := if left < h.size ∧ h.key left < h.key index then left else index
  if right < h.size ∧ h.key right < h.key smallest then right else smallest

/-- `bubble_down`, for at most `fuel` rounds. -/
def bubbleDownLoop : Nat → ZnMinheap → Nat → ZnMinheap
  | 0, h, _ => h
  | fuel + 1, h, index =>
    let smallest := smallestOf h index
    if smallest ≠ index then bubbleDownLoop fuel (h.swap index smallest) smallest else h

/-- `bubble_down`: each round moves to a larger index inside the heap. -/
def bubbleDown (h : ZnMinheap) (index : Nat) : ZnMinheap := bubbleDownLoop h.size h index

/-- `zn_minheap_init`, with its two allocations successful. -/
def znMinheapInit (capacity : Nat) : ZnMinheap where
  arr := fun _ => 0
  size := 0
  capacity := capacity
  entry := fun _ => { data := 0, priority := 0, index := 0 }
  next := 0

/-- `zn_minheap_insert`, with `malloc` successful: the pointer to the new
entry, and the heap. -/
def znMinheapInsert (h : ZnMinheap) (data priority : Nat) : Except Fault (Nat × ZnMinheap) := do
  let h ← if h.size = h.capacity then minheapRealloc h else .ok h
  if h.size < h.capacity then
    let newEntry := h.next
    let h' : ZnMinheap :=
      { arr := Function.update h.arr h.size newEntry
        size := (h.size + 1) % 2 ^ 32
        capacity := h.capacity
        entry := Function.update h.entry newEntry
          { data := data, priority := priority, index := h.size }
        next := h.next + 1 }
    .ok (newEntry, bubbleUp h' h.size)
  -- twice the capacity is a `uint32_t`, and may be less than it
  else .error .outOfBounds

/-- `zn_minheap_extract_min`: `none` is the NULL answer of an empty heap. -/
def znMinheapExtractMin (h : ZnMinheap) : Option Nat × ZnMinheap :=
  if h.size = 0 then (none, h)
  else
    let minEntry := h.arr 0
    let h' := { h with size := h.size - 1 }
    -- the entry that is taken out keeps its index
    if 0 < h'.size then
      let h'' := { h' with arr := Function.update h'.arr 0 (h'.arr h'.size) }
      (some minEntry, bubbleDown (h''.setIndex 0) 0)
    else (some minEntry, h')

/-- `zn_minheap_update_by_entry`: the return code and the heap. -/
def znMinheapUpdateByEntry (h : ZnMinheap) (entry : Option Nat) (newPriority : Nat) :
    Int × ZnMinheap :=
  match entry with
  | none => (-1, h)
  | some e =>
    if h.size ≤ (h.entry e).index then (-1, h)
    else
      let oldPriority := (h.entry e).priority
      let h' := h.setPriority e newPriority
      if newPriority < oldPriority then (0, bubbleUp h' (h'.entry e).index)
      else if oldPriority < newPriority then (0, bubbleDown h' (h'.entry e).index)
      else (0, h')

end ZnCache
