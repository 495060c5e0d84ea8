/-
  ZnCache.MinHeap.Contract — the heap is a priority queue with handles.

  The specification is `PQueue`: a partial map from handles to (data, priority)
  with three operations (`PQueue.Step`).  A run of the heap from
  `zn_minheap_init` carries the queue its callers believe in: what they
  inserted and did not yet get back, with the last priority they set.

  Main results:
    * `HeapRunInv.step` — one operation, by cases;
    * `minheap_contract` — in every reachable state the array holds exactly the
      queued entries, once each, with right back-pointers, in heap order, with
      their data and last priority; and every operation is a step of `PQueue`.
-/
import ZnCache.MinHeap.Sift
import ZnCache.Lib.Transition

namespace ZnCache

open Lib ZnMinheap

/-! ## §1. The specification. -/

/-- A priority queue: what each live handle holds, `(data, priority)`. -/
abbrev PQueue := Nat → Option (Nat × Nat)

/-- One call. -/
inductive HeapOp where
  | insert (data priority : Nat)
  | extractMin
  | update (entry priority : Nat)

/-- What a call answers. -/
inductive HeapRet where
  | entry (p : Nat)
  | null
  | code (c : Int)
  deriving DecidableEq, Repr

/-- **The priority queue with change of priority.** -/
inductive PQueue.Step : PQueue → HeapOp → HeapRet → PQueue → Prop
  | insert {q : PQueue} {p d pr : Nat} (hp : q p = none) :
      Step q (.insert d pr) (.entry p) (Function.update q p (some (d, pr)))
  | extractNull {q : PQueue} (hq : ∀ p, q p = none) : Step q .extractMin .null q
  | extract {q : PQueue} {p d pr : Nat} (hp : q p = some (d, pr))
      (hmin : ∀ p' d' pr', q p' = some (d', pr') → pr ≤ pr') :
      Step q .extractMin (.entry p) (Function.update q p none)
  | update {q : PQueue} {p d pr pr' : Nat} (hp : q p = some (d, pr)) :
      Step q (.update p pr') (.code 0) (Function.update q p (some (d, pr')))

/-! ## §2. Runs of the heap. -/

/-- The heap, and the queue its callers keep the books of. -/
structure HeapRun where
  heap : ZnMinheap
  queue : PQueue

/-- The callers' side: fewer than `2^31` entries, 32-bit priorities, and only
entries in the heap are updated. -/
def HeapOp.Allowed (r : HeapRun) : HeapOp → Prop
  | .insert _ pr => r.heap.size + 1 < 2 ^ 31 ∧ pr < 2 ^ 32
  | .extractMin => True
  | .update e pr => r.queue e ≠ none ∧ pr < 2 ^ 32

/-- One call on the heap: its answer and the heap. -/
def heapCall (h : ZnMinheap) : HeapOp → Except Fault (HeapRet × ZnMinheap)
  | .insert d pr => do
    let (p, h') ← znMinheapInsert h d pr
    return (.entry p, h')
  | .extractMin =>
    match znMinheapExtractMin h with
    | (some p, h') => .ok (.entry p, h')
    | (none, h') => .ok (.null, h')
  | .update e pr =>
    let (c, h') := znMinheapUpdateByEntry h (some e) pr
    .ok (.code c, h')

/-- The books after a call: an inserted entry is in, an extracted one is out,
and an update that succeeded counts. -/
def book (q : PQueue) : HeapOp → HeapRet → PQueue
  | .insert d pr, .entry p => Function.update q p (some (d, pr))
  | .extractMin, .entry p => Function.update q p none
  | .update e pr, .code 0 => Function.update q e ((q e).map fun dp => (dp.1, pr))
  | _, _ => q

/-- One call on a run. -/
def heapOp (r : HeapRun) (op : HeapOp) : Except Fault (HeapRet × HeapRun) := do
  let (ret, h) ← heapCall r.heap op
  return (ret, ⟨h, book r.queue op ret⟩)

/-- The runs from `zn_minheap_init capacity`. -/
def heapSystem (capacity : Nat) : TransSys HeapRun HeapOp where
  init r := r = ⟨znMinheapInit capacity, fun _ => none⟩
  step r op r' := ∃ ret, heapOp r op = .ok (ret, r')

/-! ## §3. The invariant. -/

/-- **The heap invariant.** -/
structure HeapRunInv (r : HeapRun) : Prop where
  slots : r.heap.Slots
  order : SiftHeap.IsHeap r.heap.key r.heap.size
  /-- The array holds exactly the queued handles. -/
  has_iff : ∀ p, r.heap.Has p ↔ r.queue p ≠ none
  /-- Every entry keeps its data and its last set priority. -/
  holds : ∀ p d pr, r.queue p = some (d, pr) →
    (r.heap.entry p).data = d ∧ (r.heap.entry p).priority = pr
  fresh : ∀ p, r.heap.Has p → p < r.heap.next
  small : r.heap.size < 2 ^ 31
  room : r.heap.size ≤ r.heap.capacity
  capacity_pos : 1 ≤ r.heap.capacity
  capacity_lt : r.heap.capacity < 2 ^ 32

/-- **The books describe the heap**, however large it is. -/
structure HeapBooks (h : ZnMinheap) (q : PQueue) : Prop where
  slots : h.Slots
  order : SiftHeap.IsHeap h.key h.size
  has_iff : ∀ p, h.Has p ↔ q p ≠ none
  holds : ∀ p d pr, q p = some (d, pr) → (h.entry p).data = d ∧ (h.entry p).priority = pr
  fresh : ∀ p, h.Has p → p < h.next

/-- The heap with a new entry at its end, before the sift. -/
def ZnMinheap.pushed (h : ZnMinheap) (d pr c : Nat) : ZnMinheap where
  arr := Function.update h.arr h.size h.next
  size := h.size + 1
  capacity := c
  entry := Function.update h.entry h.next { data := d, priority := pr, index := h.size }
  next := h.next + 1

/-- A new address is at the end of the array only. -/
theorem ZnMinheap.pushed_entry {h : ZnMinheap} (hfresh : ∀ p, h.Has p → p < h.next)
    (d pr c : Nat) {i : Nat} (hi : i < h.size) :
    (h.pushed d pr c).entry ((h.pushed d pr c).arr i) = h.entry (h.arr i) := by
  have hne : h.arr i ≠ h.next := Nat.ne_of_lt (hfresh _ ⟨i, hi, rfl⟩)
  show Function.update _ _ _ (Function.update _ _ _ i) = _
  rw [Function.update_of_ne (Nat.ne_of_lt hi), Function.update_of_ne hne]

theorem ZnMinheap.pushed_last (h : ZnMinheap) (d pr c : Nat) :
    (h.pushed d pr c).entry ((h.pushed d pr c).arr h.size) = ⟨d, pr, h.size⟩ := by
  show Function.update _ _ _ (Function.update _ _ _ h.size) = _
  rw [Function.update_self, Function.update_self]

theorem ZnMinheap.pushed_slots {h : ZnMinheap} (hs : h.Slots) (hfresh : ∀ p, h.Has p → p < h.next)
    (d pr c : Nat) : (h.pushed d pr c).Slots := by
  intro i hi
  rcases Nat.lt_succ_iff_lt_or_eq.mp hi with hi | rfl
  · rw [pushed_entry hfresh d pr c hi]
    exact hs i hi
  · rw [pushed_last]

/-- The new address comes in, and no other goes out. -/
theorem ZnMinheap.pushed_has (h : ZnMinheap) (d pr c p : Nat) :
    (h.pushed d pr c).Has p ↔ p = h.next ∨ h.Has p := by
  constructor
  · rintro ⟨i, hi, rfl⟩
    rcases Nat.lt_succ_iff_lt_or_eq.mp hi with hi | rfl
    · exact Or.inr ⟨i, hi, (Function.update_of_ne (Nat.ne_of_lt hi) ..).symm⟩
    · exact Or.inl (Function.update_self ..)
  · rintro (rfl | ⟨i, hi, rfl⟩)
    · exact ⟨h.size, Nat.lt_succ_self _, Function.update_self ..⟩
    · exact ⟨i, Nat.lt_succ_of_lt hi, Function.update_of_ne (Nat.ne_of_lt hi) ..⟩

/-! ### What a call answers -/

/-- The capacity after the test of `zn_minheap_insert`. -/
def ZnMinheap.grownCapacity (h : ZnMinheap) : Nat :=
  if h.size = h.capacity then h.capacity * 2 % 2 ^ 32 else h.capacity

/-- The heap with a new entry at its end, and its size as a `uint32_t`. -/
def ZnMinheap.pushedWrapped (h : ZnMinheap) (d pr c : Nat) : ZnMinheap :=
  { h.pushed d pr c with size := (h.size + 1) % 2 ^ 32 }

theorem ZnMinheap.pushedWrapped_eq {h : ZnMinheap} (hlt : h.size + 1 < 2 ^ 32) (d pr c : Nat) :
    h.pushedWrapped d pr c = h.pushed d pr c := by
  unfold pushedWrapped
  rw [Nat.mod_eq_of_lt hlt]
  rfl

/-- The array is doubled by `minheap_realloc`, unless that leaves it no cells. -/
theorem minheapRealloc_eq (h : ZnMinheap) : minheapRealloc h =
    if h.capacity * 2 % 2 ^ 32 = 0 then .error .assertion
    else .ok { h with capacity := h.capacity * 2 % 2 ^ 32 } := by
  unfold minheapRealloc reallocArr
  by_cases hnone : h.capacity * 2 % 2 ^ 32 = 0
  · simp only [hnone, if_true]
  · have hbytes : 8 * (h.capacity * 2 % 2 ^ 32) ≠ 0 := by omega
    simp only [hnone, hbytes, if_false]

/-- **What `zn_minheap_insert` does**: a full array whose capacity comes out 0
fails the assertion of `minheap_realloc`; else the entry is stored at the end,
within the array or not. -/
theorem znMinheapInsert_eq (h : ZnMinheap) (d pr : Nat) : znMinheapInsert h d pr =
    if h.size = h.capacity ∧ h.grownCapacity = 0 then .error .assertion
    else if h.size < h.grownCapacity then
      .ok (h.next, bubbleUp (h.pushedWrapped d pr h.grownCapacity) h.size)
    else .error .outOfBounds := by
  unfold znMinheapInsert grownCapacity
  by_cases hfull : h.size = h.capacity
  · simp only [if_pos hfull, minheapRealloc_eq]
    by_cases hnone : h.capacity * 2 % 2 ^ 32 = 0
    · rw [if_pos hnone, if_pos ⟨hfull, hnone⟩]
      rfl
    · rw [if_neg hnone, if_neg fun hboth => hnone hboth.2]
      rfl
  · simp only [if_neg hfull]
    rw [if_neg fun hboth => hfull hboth.1]
    rfl

theorem insert_inv {h h' : ZnMinheap} {d pr e : Nat} (hins : znMinheapInsert h d pr = .ok (e, h')) :
    e = h.next ∧ h.size < h.grownCapacity
      ∧ h' = bubbleUp (h.pushedWrapped d pr h.grownCapacity) h.size := by
  rw [znMinheapInsert_eq] at hins
  split at hins
  · cases hins
  · split at hins
    · rename_i hroom
      obtain ⟨rfl, rfl⟩ := Prod.mk.inj (Except.ok.inj hins)
      exact ⟨rfl, hroom, rfl⟩
    · cases hins

theorem insert_of_room {h : ZnMinheap} (hroom : h.size < h.grownCapacity) (d pr : Nat) :
    znMinheapInsert h d pr
      = .ok (h.next, bubbleUp (h.pushedWrapped d pr h.grownCapacity) h.size) := by
  rw [znMinheapInsert_eq, if_neg (by omega), if_pos hroom]

/-- The size of the heap is a `uint32_t`. -/
theorem insert_size {h h' : ZnMinheap} {d pr e : Nat} (hins : znMinheapInsert h d pr = .ok (e, h')) :
    h'.size = (h.size + 1) % 2 ^ 32 := by
  obtain ⟨-, -, rfl⟩ := insert_inv hins
  exact (bubbleUpLoop_exchanged ..).size

/-- What `zn_minheap_extract_min` answers, when it is not NULL. -/
theorem extract_ok {h h' : ZnMinheap} {e : Nat} (hout : znMinheapExtractMin h = (some e, h')) :
    h.size ≠ 0 ∧ e = h.arr 0 ∧ ∀ p, (h'.entry p).data = (h.entry p).data := by
  unfold znMinheapExtractMin at hout
  split at hout
  · cases hout
  · rename_i h0
    dsimp only at hout
    split at hout
    · cases hout
      refine ⟨h0, rfl, ?_⟩
      intro p
      unfold bubbleDown
      rw [(bubbleDownLoop_exchanged ..).data, setIndex_data]
    · cases hout
      exact ⟨h0, rfl, fun _ => rfl⟩

namespace HeapBooks

variable {h : ZnMinheap} {q : PQueue}

theorem init (capacity : Nat) : HeapBooks (znMinheapInit capacity) fun _ => none where
  slots i hi := absurd hi (Nat.not_lt_zero i)
  order j _ hj := absurd hj (Nat.not_lt_zero j)
  has_iff _ := ⟨fun ⟨i, hi, _⟩ => absurd hi (Nat.not_lt_zero i), fun hp => absurd rfl hp⟩
  holds _ _ _ hp := (Option.some_ne_none _ hp.symm).elim
  fresh _ := fun ⟨i, hi, _⟩ => absurd hi (Nat.not_lt_zero i)

/-- What a sift of an intermediate heap `h` gives back, once the books describe
`h`. -/
theorem of_sifted {h' : ZnMinheap} (hsift : Sifted h h') (hslots : h'.Slots)
    (horder : SiftHeap.IsHeap h'.key h.size) (hhas : ∀ p, h.Has p ↔ q p ≠ none)
    (hholds : ∀ p d pr, q p = some (d, pr) → (h.entry p).data = d ∧ (h.entry p).priority = pr)
    (hfresh : ∀ p, h.Has p → p < h.next) : HeapBooks h' q where
  slots := hslots
  order := by
    rw [hsift.size]
    exact horder
  has_iff p := (hsift.has p).trans (hhas p)
  holds p d pr hp := by
    rw [hsift.data, hsift.priority]
    exact hholds p d pr hp
  fresh p hp := by
    rw [hsift.next]
    exact hfresh p ((hsift.has p).mp hp)

/-- The least priority is at the root. -/
theorem root (hb : HeapBooks h q) (h0 : h.size ≠ 0) :
    ∃ d pr, q (h.arr 0) = some (d, pr) ∧ ∀ p' d' pr', q p' = some (d', pr') → pr ≤ pr' := by
  have hroot : h.Has (h.arr 0) := ⟨0, Nat.pos_of_ne_zero h0, rfl⟩
  obtain ⟨⟨d, pr⟩, hd⟩ := Option.ne_none_iff_exists'.mp ((hb.has_iff _).mp hroot)
  refine ⟨d, pr, hd, ?_⟩
  intro p' d' pr' hp'
  obtain ⟨i, hi, rfl⟩ := (hb.has_iff p').mpr (by rw [hp']; simp)
  rw [← (hb.holds _ d pr hd).2, ← (hb.holds _ d' pr' hp').2]
  exact hb.order.root_le i hi

/-- **A new entry** is booked under its address, which was free. -/
theorem push (hb : HeapBooks h q) (d pr c : Nat) :
    HeapBooks (bubbleUp (h.pushed d pr c) h.size) (Function.update q h.next (some (d, pr)))
      ∧ Sifted (h.pushed d pr c) (bubbleUp (h.pushed d pr c) h.size) ∧ q h.next = none := by
  have hlast := h.pushed_last d pr c
  have hslots := pushed_slots hb.slots hb.fresh d pr c
  have hup : SiftHeap.UpOk (h.pushed d pr c).key (h.size + 1) h.size := by
    have hkey : (h.pushed d pr c).key
        = Function.update (fun i => (h.pushed d pr c).key i) h.size pr := by
      funext i
      by_cases hi : i = h.size
      · subst hi; rw [Function.update_self]; unfold key; rw [hlast]
      · rw [Function.update_of_ne hi]
    rw [hkey]
    refine SiftHeap.IsHeap.push (hb.order.congr ?_) pr
    intro i hi
    unfold key
    rw [pushed_entry hb.fresh d pr c hi]
  have hhas : ∀ p, (h.pushed d pr c).Has p ↔ Function.update q h.next (some (d, pr)) p ≠ none := by
    intro p
    rw [h.pushed_has d pr c p]
    by_cases hp : p = h.next
    · simp [hp]
    · rw [Function.update_of_ne hp, ← hb.has_iff p]
      simp [hp]
  have hnone : q h.next = none := by
    by_contra hsome
    exact absurd (hb.fresh _ ((hb.has_iff _).mpr hsome)) (Nat.lt_irrefl _)
  have hsift := bubbleUp_spec (h := h.pushed d pr c) (Nat.lt_succ_self h.size) hslots hup
  refine ⟨of_sifted hsift.1 hsift.2.1 hsift.2.2 hhas ?_ ?_, hsift.1, hnone⟩
  · intro p d' pr' hp
    by_cases hpn : p = h.next
    · subst hpn
      rw [Function.update_self] at hp
      obtain ⟨rfl, rfl⟩ := Prod.mk.inj (Option.some.inj hp)
      have he : (h.pushed d pr c).entry h.next = ⟨d, pr, h.size⟩ := Function.update_self ..
      rw [he]
      exact ⟨rfl, rfl⟩
    · rw [Function.update_of_ne hpn] at hp
      have hh := hb.holds p d' pr' hp
      rwa [show (h.pushed d pr c).entry p = h.entry p from Function.update_of_ne hpn ..]
  · intro p hp
    show p < h.next + 1
    by_cases hpn : p = h.next
    · omega
    · have hq := (hhas p).mp hp
      rw [Function.update_of_ne hpn] at hq
      exact Nat.lt_succ_of_lt (hb.fresh p ((hb.has_iff p).mpr hq))

/-- What `zn_minheap_insert` answers, when it returns. -/
theorem insert_ok (hb : HeapBooks h q) {d pr e : Nat} {h' : ZnMinheap}
    (hins : znMinheapInsert h d pr = .ok (e, h')) (hlt : h.size + 1 < 2 ^ 32) :
    e = h.next ∧ HeapBooks h' (Function.update q h.next (some (d, pr))) ∧ q h.next = none := by
  obtain ⟨rfl, -, rfl⟩ := insert_inv hins
  rw [pushedWrapped_eq hlt]
  obtain ⟨hbooks, -, hnone⟩ := hb.push d pr h.grownCapacity
  exact ⟨rfl, hbooks, hnone⟩

/-! ### Change of priority -/

/-- `setPriority` at position `i`, seen by the positions in use. -/
theorem setPriority_key {h : ZnMinheap} (hs : h.Slots) {i : Nat} (hi : i < h.size) (p : Nat) :
    ∀ j, j < h.size → (h.setPriority (h.arr i) p).key j = if j = i then p else h.key j := by
  intro j hj
  show (Function.update h.entry (h.arr i) _ (h.arr j)).priority = _
  by_cases hji : j = i
  · subst hji; rw [Function.update_self, if_pos rfl]
  · have hne : h.arr j ≠ h.arr i := fun heq => hji (hs.inj hj hi heq)
    rw [Function.update_of_ne hne, if_neg hji]
    rfl

theorem setPriority_index (h : ZnMinheap) (e p x : Nat) :
    ((h.setPriority e p).entry x).index = (h.entry x).index := by
  unfold setPriority
  by_cases hx : x = e
  · subst hx; simp
  · simp [Function.update_of_ne hx]

/-- The heap order with the key of position `i` put back, whatever it was set to. -/
theorem order_before (hb : HeapBooks h q) {i : Nat} (hi : i < h.size) (p : Nat) :
    SiftHeap.IsHeap (Function.update (h.setPriority (h.arr i) p).key i (h.key i)) h.size := by
  refine hb.order.congr fun j hj => ?_
  by_cases hji : j = i
  · subst hji; rw [Function.update_self]
  · rw [Function.update_of_ne hji, setPriority_key hb.slots hi p j hj, if_neg hji]

/-- **Change of priority** of a booked entry answers 0 and books the new one;
where it goes up, the heap must be small enough for `bubble_down`. -/
theorem update (hb : HeapBooks h q) {e d pr : Nat} (he : q e = some (d, pr)) (p : Nat)
    (hsmall : pr < p → h.size < 2 ^ 31) :
    ∃ h', znMinheapUpdateByEntry h (some e) p = (0, h')
      ∧ HeapBooks h' (Function.update q e (some (d, p))) ∧ Sifted (h.setPriority e p) h' := by
  obtain ⟨i, hi, rfl⟩ := (hb.has_iff e).mpr (by rw [he]; simp)
  have hpr : h.key i = pr := (hb.holds _ d pr he).2
  let h₁ := h.setPriority (h.arr i) p
  have hidx : (h.entry (h.arr i)).index = i := hb.slots i hi
  have hidx' : (h₁.entry (h.arr i)).index = i := (setPriority_index ..).trans hidx
  have hslots : h₁.Slots := fun j hj => (setPriority_index ..).trans (hb.slots j hj)
  have hkey : Function.update (Function.update h₁.key i (h.key i)) i p = h₁.key := by
    have hki : h₁.key i = p := by rw [setPriority_key hb.slots hi p i hi, if_pos rfl]
    rw [Function.update_idem, ← hki, Function.update_eq_self]
  have hhas : ∀ x, h₁.Has x ↔ Function.update q (h.arr i) (some (d, p)) x ≠ none := by
    intro x
    refine (hb.has_iff x).trans ?_
    by_cases hx : x = h.arr i
    · subst hx; simp [he]
    · rw [Function.update_of_ne hx]
  have hholds : ∀ x d' pr', Function.update q (h.arr i) (some (d, p)) x = some (d', pr') →
      (h₁.entry x).data = d' ∧ (h₁.entry x).priority = pr' := by
    intro x d' pr' hx
    by_cases hxe : x = h.arr i
    · subst hxe
      rw [Function.update_self] at hx
      obtain ⟨rfl, rfl⟩ := Prod.mk.inj (Option.some.inj hx)
      have hset : h₁.entry (h.arr i) = { h.entry (h.arr i) with priority := p } :=
        Function.update_self ..
      rw [hset]
      exact ⟨(hb.holds _ d pr he).1, rfl⟩
    · rw [Function.update_of_ne hxe] at hx
      rw [show h₁.entry x = h.entry x from Function.update_of_ne hxe ..]
      exact hb.holds x d' pr' hx
  -- whichever way the entry is sifted, the books come from the sift alone
  have hfin : ∀ h', Sifted h₁ h' → h'.Slots → SiftHeap.IsHeap h'.key h₁.size →
      HeapBooks h' (Function.update q (h.arr i) (some (d, p))) ∧ Sifted h₁ h' :=
    fun h' h1 h2 h3 => ⟨of_sifted h1 h2 h3 hhas hholds hb.fresh, h1⟩
  have hunfold : znMinheapUpdateByEntry h (some (h.arr i)) p
      = if p < h.key i then (0, bubbleUp h₁ i)
        else if h.key i < p then (0, bubbleDown h₁ i) else (0, h₁) := by
    rw [znMinheapUpdateByEntry]
    simp only
    rw [hidx, if_neg (by omega), show (h.setPriority (h.arr i) p) = h₁ from rfl, hidx']
    rfl
  rw [hunfold]
  by_cases hlt : p < h.key i
  · rw [if_pos hlt]
    have hup : SiftHeap.UpOk h₁.key h₁.size i := by
      rw [← hkey]
      exact (hb.order_before hi p).lower (by rw [Function.update_self]; omega)
    obtain ⟨h1, h2, h3⟩ := bubbleUp_spec (h := h₁) hi hslots hup
    exact ⟨_, rfl, hfin _ h1 h2 h3⟩
  · rw [if_neg hlt]
    by_cases hgt : h.key i < p
    · rw [if_pos hgt]
      have hdown : SiftHeap.DownOk h₁.key h₁.size i := by
        rw [← hkey]
        exact (hb.order_before hi p).raise (by rw [Function.update_self]; omega)
      obtain ⟨h1, h2, h3⟩ := bubbleDown_spec (h := h₁) hi (hsmall (hpr ▸ hgt)) hslots hdown
      exact ⟨_, rfl, hfin _ h1 h2 h3⟩
    · rw [if_neg hgt]
      refine ⟨_, rfl, hfin _ (.refl h₁) hslots ?_⟩
      obtain rfl : p = h.key i := by omega
      have hback := hb.order_before hi (h.key i)
      rwa [← hkey, Function.update_idem]

end HeapBooks

namespace HeapRunInv

variable {r : HeapRun}

theorem books (hinv : HeapRunInv r) : HeapBooks r.heap r.queue :=
  ⟨hinv.slots, hinv.order, hinv.has_iff, hinv.holds, hinv.fresh⟩

/-- What a sift of an intermediate heap `h` gives back: the invariant, once the
books describe the result. -/
theorem of_sifted {h h' : ZnMinheap} {q : PQueue} (hbooks : HeapBooks h' q) (hsift : Sifted h h')
    (hsmall : h.size < 2 ^ 31) (hroom : h.size ≤ h.capacity) (hcap : 1 ≤ h.capacity)
    (hcap' : h.capacity < 2 ^ 32) : HeapRunInv ⟨h', q⟩ where
  slots := hbooks.slots
  order := hbooks.order
  has_iff := hbooks.has_iff
  holds := hbooks.holds
  fresh := hbooks.fresh
  small := by rw [hsift.size]; exact hsmall
  room := by rw [hsift.size, hsift.capacity]; exact hroom
  capacity_pos := by rw [hsift.capacity]; exact hcap
  capacity_lt := by rw [hsift.capacity]; exact hcap'

/-! ### Insert -/

/-- The capacity test of `zn_minheap_insert` leaves room for one more. -/
theorem grow (hinv : HeapRunInv r) (hlt : r.heap.size + 1 < 2 ^ 31) :
    r.heap.size < r.heap.grownCapacity ∧ r.heap.grownCapacity < 2 ^ 32 := by
  have hroom := hinv.room
  have hpos := hinv.capacity_pos
  have hcap := hinv.capacity_lt
  unfold grownCapacity
  split <;> omega

theorem insert (hinv : HeapRunInv r) (d pr : Nat) (hlt : r.heap.size + 1 < 2 ^ 31) :
    ∃ h', znMinheapInsert r.heap d pr = .ok (r.heap.next, h')
      ∧ HeapRunInv ⟨h', Function.update r.queue r.heap.next (some (d, pr))⟩
      ∧ r.queue r.heap.next = none := by
  obtain ⟨hsc, hc⟩ := hinv.grow hlt
  obtain ⟨hbooks, hsift, hnone⟩ := hinv.books.push d pr r.heap.grownCapacity
  refine ⟨bubbleUp (r.heap.pushed d pr r.heap.grownCapacity) r.heap.size, ?_,
    of_sifted hbooks hsift hlt ?_ ?_ hc, hnone⟩
  · rw [insert_of_room hsc, pushedWrapped_eq (by omega)]
  · show r.heap.size + 1 ≤ r.heap.grownCapacity
    omega
  · show 1 ≤ r.heap.grownCapacity
    omega

/-! ### Extract -/

/-- The heap with its last entry moved to the root, as `zn_minheap_extract_min`
hands it to `bubble_down`. -/
def rootReplaced (h : ZnMinheap) : ZnMinheap :=
  ({ h with size := h.size - 1, arr := Function.update h.arr 0 (h.arr (h.size - 1)) } :
    ZnMinheap).setIndex 0

theorem rootReplaced_arr {h : ZnMinheap} {i : Nat} (hi : i ≠ 0) :
    (rootReplaced h).arr i = h.arr i := Function.update_of_ne hi ..

theorem rootReplaced_root (h : ZnMinheap) : (rootReplaced h).arr 0 = h.arr (h.size - 1) := by
  show Function.update h.arr 0 (h.arr (h.size - 1)) 0 = _
  rw [Function.update_self]

theorem rootReplaced_key (h : ZnMinheap) :
    (rootReplaced h).key = Function.update h.key 0 (h.key (h.size - 1)) := by
  funext i
  unfold key rootReplaced
  rw [setIndex_priority]
  show (h.entry (Function.update h.arr 0 (h.arr (h.size - 1)) i)).priority = _
  by_cases hi : i = 0
  · subst hi; rw [Function.update_self, Function.update_self]
  · rw [Function.update_of_ne hi, Function.update_of_ne hi]

theorem rootReplaced_slots {h : ZnMinheap} (hs : h.Slots) (hn : 1 < h.size) :
    (rootReplaced h).Slots := by
  intro i hi
  have hi' : i < h.size - 1 := hi
  by_cases hi0 : i = 0
  · subst hi0
    exact (setIndex_index ..).trans (if_pos rfl)
  · have hne : h.arr i ≠ h.arr (h.size - 1) := fun heq =>
      absurd (hs.inj (by omega) (by omega) heq) (by omega)
    rw [rootReplaced_arr hi0]
    refine (setIndex_index ..).trans ?_
    rw [if_neg (by show ¬ h.arr i = Function.update h.arr 0 _ 0; rwa [Function.update_self])]
    exact hs i (by omega)

/-- Moving the last entry to the root loses exactly the old root. -/
theorem rootReplaced_has {h : ZnMinheap} (hs : h.Slots) (hn : 1 < h.size) (p : Nat) :
    (rootReplaced h).Has p ↔ h.Has p ∧ p ≠ h.arr 0 := by
  constructor
  · rintro ⟨i, hi, rfl⟩
    have hi' : i < h.size - 1 := hi
    by_cases hi0 : i = 0
    · subst hi0
      rw [rootReplaced_root]
      refine ⟨⟨h.size - 1, by omega, rfl⟩, fun heq => ?_⟩
      exact absurd (hs.inj (by omega) (by omega) heq) (by omega)
    · rw [rootReplaced_arr hi0]
      exact ⟨⟨i, by omega, rfl⟩, fun heq => hi0 (hs.inj (by omega) (by omega) heq)⟩
  · rintro ⟨⟨i, hi, rfl⟩, hne⟩
    have hi0 : i ≠ 0 := fun h0 => hne (by rw [h0])
    by_cases hlast : i = h.size - 1
    · subst hlast
      exact ⟨0, by show 0 < h.size - 1; omega, rootReplaced_root h⟩
    · exact ⟨i, by show i < h.size - 1; omega, rootReplaced_arr hi0⟩

end HeapRunInv

namespace HeapBooks

variable {h : ZnMinheap} {q : PQueue}

/-- An empty heap answers NULL, and nothing is queued. -/
theorem extract_empty (hb : HeapBooks h q) (h0 : h.size = 0) :
    znMinheapExtractMin h = (none, h) ∧ ∀ p, q p = none := by
  refine ⟨by rw [znMinheapExtractMin, if_pos h0], fun p => ?_⟩
  by_contra hp
  obtain ⟨i, hi, -⟩ := (hb.has_iff p).mpr hp
  omega

/-- **Extraction** answers a booked entry of least priority and drops it. -/
theorem extract (hb : HeapBooks h q) (h0 : h.size ≠ 0) (hsmall : h.size < 2 ^ 31) :
    ∃ h' d pr, znMinheapExtractMin h = (some (h.arr 0), h') ∧ q (h.arr 0) = some (d, pr)
      ∧ (∀ p' d' pr', q p' = some (d', pr') → pr ≤ pr')
      ∧ HeapBooks h' (Function.update q (h.arr 0) none)
      ∧ h'.size = h.size - 1 ∧ h'.capacity = h.capacity := by
  obtain ⟨d, pr, hd, hmin⟩ := hb.root h0
  -- the books after the call, entry by entry
  have hbook : ∀ p, Function.update q (h.arr 0) none p ≠ none ↔ q p ≠ none ∧ p ≠ h.arr 0 := by
    intro p
    by_cases hp : p = h.arr 0
    · subst hp; simp
    · simp [hp]
  have hsome : ∀ {p x}, Function.update q (h.arr 0) none p = some x → q p = some x := by
    intro p x hx
    have hp := ((hbook p).mp (by rw [hx]; simp)).2
    rwa [Function.update_of_ne hp] at hx
  by_cases h1 : h.size = 1
  · -- the last entry: nothing is left to sift
    refine ⟨{ h with size := 0 }, d, pr, ?_, hd, hmin, ?_, ?_, rfl⟩
    · simp [znMinheapExtractMin, h1]
    · refine ⟨fun i hi => absurd hi (Nat.not_lt_zero i), fun j _ hj => absurd hj (Nat.not_lt_zero j),
        fun p => ⟨fun ⟨i, hi, _⟩ => absurd hi (Nat.not_lt_zero i), fun hp => ?_⟩,
        fun p d' pr' hp => hb.holds p d' pr' (hsome hp),
        fun p ⟨i, hi, _⟩ => absurd hi (Nat.not_lt_zero i)⟩
      obtain ⟨hq, hne⟩ := (hbook p).mp hp
      obtain ⟨i, hi, rfl⟩ := (hb.has_iff p).mpr hq
      obtain rfl : i = 0 := by omega
      exact absurd rfl hne
    · show 0 = h.size - 1
      omega
  · have hn : 1 < h.size := by omega
    have hdown : SiftHeap.DownOk (HeapRunInv.rootReplaced h).key (h.size - 1) 0 := by
      rw [HeapRunInv.rootReplaced_key]
      exact (hb.order.mono (Nat.sub_le _ 1)).replaceRoot _
    have hsift := bubbleDown_spec (h := HeapRunInv.rootReplaced h) (i := 0)
      (by show 0 < h.size - 1; omega) (by show h.size - 1 < 2 ^ 31; omega)
      (HeapRunInv.rootReplaced_slots hb.slots hn) hdown
    refine ⟨bubbleDown (HeapRunInv.rootReplaced h) 0, d, pr, ?_, hd, hmin,
      .of_sifted hsift.1 hsift.2.1 hsift.2.2 ?_ ?_ ?_, hsift.1.size, hsift.1.capacity⟩
    · rw [znMinheapExtractMin, if_neg h0]
      simp only
      rw [if_pos (by omega)]
      rfl
    · intro p
      rw [HeapRunInv.rootReplaced_has hb.slots hn, hbook p, hb.has_iff p]
    · intro p d' pr' hp
      unfold HeapRunInv.rootReplaced
      rw [setIndex_data, setIndex_priority]
      exact hb.holds p d' pr' (hsome hp)
    · intro p hp
      exact hb.fresh p ((HeapRunInv.rootReplaced_has hb.slots hn p).mp hp).1

/-- The positions in use do not see the priority of an entry that is not booked. -/
theorem unbooked_entry (hb : HeapBooks h q) {e : Nat} (he : q e = none) (p : Nat) {i : Nat}
    (hi : i < h.size) :
    (h.setPriority e p).entry ((h.setPriority e p).arr i) = h.entry (h.arr i) := by
  have hne : h.arr i ≠ e := by
    rintro rfl
    exact (hb.has_iff _).mp ⟨i, hi, rfl⟩ he
  show Function.update h.entry e _ (h.arr i) = _
  exact Function.update_of_ne hne ..

theorem unbooked_order (hb : HeapBooks h q) {e : Nat} (he : q e = none) (p : Nat) :
    SiftHeap.IsHeap (h.setPriority e p).key h.size := by
  apply hb.order.congr
  intro i hi
  show ((h.setPriority e p).entry ((h.setPriority e p).arr i)).priority = _
  rw [hb.unbooked_entry he p hi]
  rfl

/-- **An entry that is not booked** can be updated, and the books stay: the
position it remembers is somebody else's, and in order. -/
theorem update_unbooked (hb : HeapBooks h q) {e : Nat} (he : q e = none) (hsmall : h.size < 2 ^ 31)
    (p : Nat) : HeapBooks (znMinheapUpdateByEntry h (some e) p).2 q := by
  have hslots : (h.setPriority e p).Slots := by
    intro i hi
    rw [hb.unbooked_entry he p hi]
    exact hb.slots i hi
  have horder := hb.unbooked_order he p
  have hholds : ∀ x d pr, q x = some (d, pr) →
      ((h.setPriority e p).entry x).data = d ∧ ((h.setPriority e p).entry x).priority = pr := by
    intro x d pr hx
    have hne : x ≠ e := by
      rintro rfl
      rw [he] at hx
      cases hx
    rw [show (h.setPriority e p).entry x = h.entry x from Function.update_of_ne hne ..]
    exact hb.holds x d pr hx
  have hfin : ∀ h', Sifted (h.setPriority e p) h' → h'.Slots → SiftHeap.IsHeap h'.key h.size →
      HeapBooks h' q := fun _ h1 h2 h3 => of_sifted h1 h2 h3 hb.has_iff hholds hb.fresh
  -- a heap in order is one that is to be sifted nowhere
  have hkey : ∀ i, Function.update (h.setPriority e p).key i ((h.setPriority e p).key i)
      = (h.setPriority e p).key := fun i => Function.update_eq_self i _
  unfold znMinheapUpdateByEntry
  dsimp only
  split
  · exact hb
  · rename_i hidx
    have hi : ((h.setPriority e p).entry e).index < (h.setPriority e p).size := by
      rw [setPriority_index]
      show _ < h.size
      omega
    split
    · obtain ⟨h1, h2, h3⟩ := bubbleUp_spec hi hslots (hkey _ ▸ horder.lower (Nat.le_refl _))
      exact hfin _ h1 h2 h3
    · split
      · obtain ⟨h1, h2, h3⟩ := bubbleDown_spec hi hsmall hslots (hkey _ ▸ horder.raise (Nat.le_refl _))
        exact hfin _ h1 h2 h3
      · exact hfin _ (.refl _) hslots horder

end HeapBooks

namespace HeapRunInv

variable {r : HeapRun}

/-- An empty heap answers NULL, and nothing is queued. -/
theorem extract_empty (hinv : HeapRunInv r) (h0 : r.heap.size = 0) :
    znMinheapExtractMin r.heap = (none, r.heap) ∧ ∀ p, r.queue p = none :=
  hinv.books.extract_empty h0

/-- **Extraction** answers a queued entry of least priority and drops it. -/
theorem extract (hinv : HeapRunInv r) (h0 : r.heap.size ≠ 0) :
    ∃ h' d pr, znMinheapExtractMin r.heap = (some (r.heap.arr 0), h')
      ∧ r.queue (r.heap.arr 0) = some (d, pr)
      ∧ (∀ p' d' pr', r.queue p' = some (d', pr') → pr ≤ pr')
      ∧ HeapRunInv ⟨h', Function.update r.queue (r.heap.arr 0) none⟩ := by
  obtain ⟨h', d, pr, heq, hd, hmin, hb, hsize, hcap⟩ := hinv.books.extract h0 hinv.small
  have hsmall := hinv.small
  have hroom := hinv.room
  refine ⟨h', d, pr, heq, hd, hmin, hb.slots, hb.order, hb.has_iff, hb.holds, hb.fresh, ?_, ?_, ?_, ?_⟩
  · show h'.size < 2 ^ 31
    omega
  · show h'.size ≤ h'.capacity
    omega
  · show 1 ≤ h'.capacity
    rw [hcap]
    exact hinv.capacity_pos
  · show h'.capacity < 2 ^ 32
    rw [hcap]
    exact hinv.capacity_lt

/-! ### Change of priority -/

theorem update (hinv : HeapRunInv r) {e d pr : Nat} (he : r.queue e = some (d, pr)) (p : Nat) :
    ∃ h', znMinheapUpdateByEntry r.heap (some e) p = (0, h')
      ∧ HeapRunInv ⟨h', Function.update r.queue e (some (d, p))⟩ := by
  obtain ⟨h', heq, hbooks, hsift⟩ := hinv.books.update he p fun _ => hinv.small
  exact ⟨h', heq, of_sifted hbooks hsift hinv.small hinv.room hinv.capacity_pos hinv.capacity_lt⟩

/-! ## §4. One step, and the whole run. -/

/-- **Step lemma.**  An allowed call returns, keeps the invariant, and is a
step of the priority queue. -/
theorem step (hinv : HeapRunInv r) {op : HeapOp} (hop : op.Allowed r) :
    ∃ ret r', heapOp r op = .ok (ret, r') ∧ HeapRunInv r' ∧ r.queue.Step op ret r'.queue := by
  cases op with
  | insert d pr =>
    obtain ⟨h', heq, hinv', hnone⟩ := hinv.insert d pr hop.1
    refine ⟨.entry r.heap.next, ⟨h', _⟩, ?_, hinv', .insert hnone⟩
    simp [heapOp, heapCall, heq, book, bind, Except.bind, pure, Except.pure]
  | extractMin =>
    by_cases h0 : r.heap.size = 0
    · obtain ⟨heq, hnone⟩ := hinv.extract_empty h0
      refine ⟨.null, r, ?_, hinv, .extractNull hnone⟩
      simp [heapOp, heapCall, heq, book, bind, Except.bind, pure, Except.pure]
    · obtain ⟨h', d, pr, heq, hd, hmin, hinv'⟩ := hinv.extract h0
      refine ⟨.entry (r.heap.arr 0), ⟨h', _⟩, ?_, hinv', .extract hd hmin⟩
      simp [heapOp, heapCall, heq, book, bind, Except.bind, pure, Except.pure]
  | update e pr =>
    obtain ⟨⟨d, pr₀⟩, he⟩ := Option.ne_none_iff_exists'.mp hop.1
    obtain ⟨h', heq, hinv'⟩ := hinv.update he pr
    refine ⟨.code 0, ⟨h', _⟩, ?_, hinv', .update he⟩
    simp [heapOp, heapCall, heq, book, he, bind, Except.bind, pure, Except.pure]

end HeapRunInv

/-- **Run lemma.** -/
theorem heapRun_inv {capacity : Nat} (hpos : 1 ≤ capacity) (hcap : capacity < 2 ^ 32) {r : HeapRun}
    (hr : (heapSystem capacity).Reach (fun r op => op.Allowed r) r) : HeapRunInv r := by
  refine TransSys.Reach.invariant (I := HeapRunInv) ?_ ?_ hr
  · intro r hr
    obtain rfl : r = ⟨znMinheapInit capacity, fun _ => none⟩ := hr
    have hb := HeapBooks.init capacity
    exact ⟨hb.slots, hb.order, hb.has_iff, hb.holds, hb.fresh, Nat.two_pow_pos 31, Nat.zero_le _, hpos,
      hcap⟩
  · rintro r op r' _ hinv hop ⟨ret, hstep⟩
    obtain ⟨ret', r'', heq, hinv', -⟩ := hinv.step hop
    obtain ⟨-, rfl⟩ := Prod.mk.inj (Except.ok.inj (heq.symm.trans hstep))
    exact hinv'

/-- **THE MIN-HEAP CONTRACT.**  After any calls, the array holds exactly the
entries inserted and not yet extracted, each once, with right back-pointers, in
heap order, with their data and last priority.  Every further call returns and
is a step of the priority queue; extraction answers NULL just when nothing is
queued. -/
theorem minheap_contract (capacity : Nat) (hpos : 1 ≤ capacity) (hcap : capacity < 2 ^ 32)
    (r : HeapRun) (hr : (heapSystem capacity).Reach (fun r op => op.Allowed r) r) :
    (∀ p, (∃ i, i < r.heap.size ∧ r.heap.arr i = p) ↔ r.queue p ≠ none)
    ∧ (∀ i j, i < r.heap.size → j < r.heap.size → r.heap.arr i = r.heap.arr j → i = j)
    ∧ (∀ i, i < r.heap.size → (r.heap.entry (r.heap.arr i)).index = i)
    ∧ (∀ i, 0 < i → i < r.heap.size →
        (r.heap.entry (r.heap.arr ((i - 1) / 2))).priority ≤ (r.heap.entry (r.heap.arr i)).priority)
    ∧ (∀ p d pr, r.queue p = some (d, pr) →
        (r.heap.entry p).data = d ∧ (r.heap.entry p).priority = pr)
    ∧ ((znMinheapExtractMin r.heap).1 = none ↔ ∀ p, r.queue p = none)
    ∧ ∀ op : HeapOp, op.Allowed r →
        ∃ ret r', heapOp r op = .ok (ret, r') ∧ r.queue.Step op ret r'.queue := by
  have hinv := heapRun_inv hpos hcap hr
  refine ⟨hinv.has_iff, fun i j hi hj => hinv.slots.inj hi hj, hinv.slots, hinv.order,
    hinv.holds, ?_, ?_⟩
  · by_cases h0 : r.heap.size = 0
    · obtain ⟨heq, hnone⟩ := hinv.extract_empty h0
      exact ⟨fun _ => hnone, fun _ => by rw [heq]⟩
    · obtain ⟨h', d, pr, heq, hd, -⟩ := hinv.extract h0
      rw [heq]
      refine ⟨fun hno => (Option.some_ne_none _ hno).elim, fun hall => ?_⟩
      rw [hall] at hd
      cases hd
  · intro op hop
    obtain ⟨ret, r', heq, -, hstep⟩ := hinv.step hop
    exact ⟨ret, r', heq, hstep⟩

instance HeapOp.decAllowed (r : HeapRun) (op : HeapOp) : Decidable (op.Allowed r) := by
  cases op <;> unfold HeapOp.Allowed <;> infer_instance

/-- Replay one call that meets a condition. -/
def heapReplayIf (C : HeapRun → HeapOp → Prop) [∀ r op, Decidable (C r op)] (r : HeapRun)
    (op : HeapOp) : Option HeapRun :=
  if C r op then ((heapOp r op).toOption).map Prod.snd else none

theorem heapReplayIf_sound {C : HeapRun → HeapOp → Prop} [∀ r op, Decidable (C r op)]
    (capacity : Nat) (r : HeapRun) (op : HeapOp) (r' : HeapRun)
    (h : heapReplayIf C r op = some r') : C r op ∧ (heapSystem capacity).step r op r' := by
  unfold heapReplayIf at h
  split at h
  · obtain ⟨⟨ret, r''⟩, hx, rfl⟩ := Option.map_eq_some_iff.mp h
    exact ⟨‹_›, ret, toOption_eq_some hx⟩
  · cases h

/-- Replay one allowed call. -/
def heapReplay (r : HeapRun) (op : HeapOp) : Option HeapRun :=
  if op.Allowed r then ((heapOp r op).toOption).map Prod.snd else none

theorem heapReplay_sound (capacity : Nat) (r : HeapRun) (op : HeapOp) (r' : HeapRun)
    (h : heapReplay r op = some r') : op.Allowed r ∧ (heapSystem capacity).step r op r' :=
  heapReplayIf_sound (C := fun r op => op.Allowed r) capacity r op r' h

/-- Three entries, with the array grown twice, and the root's priority raised. -/
theorem minheap_contract_three :
    ∃ r : HeapRun, r.queue 0 = some (70, 9) ∧ r.queue 1 = some (80, 4) ∧ r.queue 2 = some (90, 3)
      ∧ (∀ p d pr, r.queue p = some (d, pr) →
          (r.heap.entry p).data = d ∧ (r.heap.entry p).priority = pr) := by
  obtain ⟨r, hr, hp⟩ := TransSys.Reach.exists_of_exec (heapReplay_sound 1) rfl
    (fun r => r.queue 0 = some (70, 9) ∧ r.queue 1 = some (80, 4) ∧ r.queue 2 = some (90, 3))
    [.insert 70 1, .insert 80 4, .insert 90 3, .update 0 9] (by decide)
  simp only [decide_eq_true_eq] at hp
  exact ⟨r, hp.1, hp.2.1, hp.2.2, (minheap_contract 1 (by decide) (by decide) r hr).2.2.2.2.1⟩

end ZnCache
