/-
  ZnCache.MinHeap.Growth — how the array grows.

  A full array is doubled, and the product is a `uint32_t`.  From no cells, and
  from `2 ^ 31`, it comes out 0, and `realloc` answers NULL to the assertion.
  From more it comes out smaller than the heap, and the entry is stored past it.

  Main results:
    * `heap_growth_in_bounds` — where no insert finds a full array of more than
      `2 ^ 31` cells, the heap stays within its array; and any other insert
      stores past it,
    * `initial_capacity_iff` — the initial capacities from which no run does,
    * `every_capacity_is_exhausted` — from every initial capacity some run
      comes to an insert that does not return.
-/
import ZnCache.MinHeap.Contract
import Mathlib.Data.Nat.Find
import Mathlib.Data.Nat.Prime.Basic

namespace ZnCache

open Lib ZnMinheap

/-! ## §1. One call. -/

/-- `zn_minheap_insert` returns, if the array is large enough then. -/
theorem insert_returns_iff (h : ZnMinheap) (d pr : Nat) :
    (∃ x, znMinheapInsert h d pr = .ok x) ↔ h.size < h.grownCapacity := by
  constructor
  · rintro ⟨⟨e, h'⟩, hins⟩
    exact (insert_inv hins).2.1
  · exact fun hroom => ⟨_, insert_of_room hroom d pr⟩

/-- An insert stores past the array if it is too small and has cells, old ones
or new ones. -/
theorem insert_outOfBounds_iff (h : ZnMinheap) (d pr : Nat) :
    znMinheapInsert h d pr = .error .outOfBounds
      ↔ h.grownCapacity ≤ h.size ∧ (h.size = h.capacity → h.grownCapacity ≠ 0) := by
  rw [znMinheapInsert_eq]
  by_cases hnone : h.size = h.capacity ∧ h.grownCapacity = 0
  · rw [if_pos hnone]
    exact iff_of_false (by simp) fun hpast => hpast.2 hnone.1 hnone.2
  · rw [if_neg hnone]
    by_cases hroom : h.size < h.grownCapacity
    · rw [if_pos hroom]
      exact iff_of_false (by simp) fun hpast => absurd hroom (not_lt.mpr hpast.1)
    · rw [if_neg hroom]
      exact iff_of_true rfl ⟨not_lt.mp hroom, fun hfull h0 => hnone ⟨hfull, h0⟩⟩

theorem insert_capacity {h h' : ZnMinheap} {d pr e : Nat}
    (hins : znMinheapInsert h d pr = .ok (e, h')) : h'.capacity = h.grownCapacity := by
  obtain ⟨-, -, rfl⟩ := insert_inv hins
  exact (bubbleUpLoop_exchanged ..).capacity

theorem extract_frame (h : ZnMinheap) : (znMinheapExtractMin h).2.size = h.size - 1
    ∧ (znMinheapExtractMin h).2.capacity = h.capacity := by
  unfold znMinheapExtractMin
  split
  · rename_i h0
    dsimp only
    omega
  · dsimp only
    split
    · have hex := bubbleDownLoop_exchanged
      exact ⟨(hex ..).size, (hex ..).capacity⟩
    · exact ⟨rfl, rfl⟩

theorem update_frame (h : ZnMinheap) (entry : Option Nat) (p : Nat) :
    (znMinheapUpdateByEntry h entry p).2.size = h.size
      ∧ (znMinheapUpdateByEntry h entry p).2.capacity = h.capacity := by
  unfold znMinheapUpdateByEntry
  split
  · exact ⟨rfl, rfl⟩
  · split
    · exact ⟨rfl, rfl⟩
    · dsimp only
      split
      · exact ⟨(bubbleUpLoop_exchanged ..).size, (bubbleUpLoop_exchanged ..).capacity⟩
      · split
        · exact ⟨(bubbleDownLoop_exchanged ..).size, (bubbleDownLoop_exchanged ..).capacity⟩
        · exact ⟨rfl, rfl⟩

/-! ## §2. Every run. -/

/-- The heap is within its array. -/
structure WithinArray (h : ZnMinheap) : Prop where
  size_le : h.size ≤ h.capacity
  capacity_lt : h.capacity < 2 ^ 32

theorem WithinArray.room_iff {h : ZnMinheap} (hw : WithinArray h) : h.size < h.grownCapacity
    ↔ (h.size = h.capacity → 1 ≤ h.capacity ∧ h.capacity < 2 ^ 31) := by
  have hle := hw.size_le
  have hlt := hw.capacity_lt
  unfold grownCapacity
  by_cases hfull : h.size = h.capacity
  · rw [if_pos hfull]
    omega
  · rw [if_neg hfull]
    omega

/-- **Where an insert stores past the array**: twice the capacity, as a
`uint32_t`, is less than the size and not 0. -/
theorem WithinArray.past_iff {h : ZnMinheap} (hw : WithinArray h) (d pr : Nat) :
    znMinheapInsert h d pr = .error .outOfBounds ↔ h.size = h.capacity ∧ 2 ^ 31 < h.capacity := by
  have hle := hw.size_le
  have hlt := hw.capacity_lt
  rw [insert_outOfBounds_iff]
  unfold grownCapacity
  by_cases hfull : h.size = h.capacity
  · rw [if_pos hfull]
    omega
  · rw [if_neg hfull]
    omega

theorem WithinArray.grown_lt {h : ZnMinheap} (hw : WithinArray h) : h.grownCapacity < 2 ^ 32 := by
  unfold grownCapacity
  split
  · exact Nat.mod_lt _ (Nat.two_pow_pos 32)
  · exact hw.capacity_lt

/-- What is stored at the end of the array does not wrap the size around. -/
theorem WithinArray.insert_eq {h : ZnMinheap} (hw : WithinArray h)
    (hroom : h.size < h.grownCapacity) (d pr : Nat) :
    znMinheapInsert h d pr = .ok (h.next, bubbleUp (h.pushed d pr h.grownCapacity) h.size) := by
  have hlt := hw.grown_lt
  rw [insert_of_room hroom, pushedWrapped_eq (by omega)]

/-- What a call does to the size and the capacity: it is an insert, or it leaves
the array as it is and adds no entry. -/
theorem heapOp_cases {r r' : HeapRun} {op : HeapOp} {ret : HeapRet}
    (h : heapOp r op = .ok (ret, r')) :
    (∃ d pr e, op = .insert d pr ∧ znMinheapInsert r.heap d pr = .ok (e, r'.heap))
    ∨ (r'.heap.size ≤ r.heap.size ∧ r'.heap.capacity = r.heap.capacity) := by
  obtain ⟨⟨ret', h'⟩, hcall, heq⟩ := bind_eq_ok h
  cases heq
  cases op with
  | insert d pr =>
    obtain ⟨⟨e, g⟩, hins, heq⟩ := bind_eq_ok hcall
    cases heq
    exact Or.inl ⟨d, pr, e, rfl, hins⟩
  | extractMin =>
    obtain ⟨hsize, hcap⟩ := extract_frame r.heap
    have hsame : h' = (znMinheapExtractMin r.heap).2 := by
      simp only [heapCall] at hcall
      split at hcall
      · rename_i hout
        cases hcall
        rw [hout]
      · rename_i hout
        cases hcall
        rw [hout]
    rw [hsame]
    exact Or.inr ⟨le_of_eq_of_le hsize (Nat.sub_le _ 1), hcap⟩
  | update e pr =>
    obtain ⟨hsize, hcap⟩ := update_frame r.heap (some e) pr
    have hsame : h' = (znMinheapUpdateByEntry r.heap (some e) pr).2 := by
      cases hcall
      rfl
    rw [hsame]
    exact Or.inr ⟨le_of_eq hsize, hcap⟩

/-- **Every call that returns keeps the heap within its array.** -/
theorem WithinArray.step {r r' : HeapRun} (hw : WithinArray r.heap) {op : HeapOp} {ret : HeapRet}
    (h : heapOp r op = .ok (ret, r')) : WithinArray r'.heap := by
  have hle := hw.size_le
  have hlt := hw.capacity_lt
  rcases heapOp_cases h with ⟨d, pr, e, -, hins⟩ | ⟨hsize, hcap⟩
  · have hroom := (insert_inv hins).2.1
    have hsize := insert_size hins
    have hcap := insert_capacity hins
    have hgrown := hw.grown_lt
    exact ⟨by omega, by omega⟩
  · exact ⟨by omega, by omega⟩

theorem WithinArray.reach {capacity : Nat} (hcap : capacity < 2 ^ 32) {C : HeapRun → HeapOp → Prop}
    {r : HeapRun} (hr : (heapSystem capacity).Reach C r) : WithinArray r.heap := by
  apply TransSys.Reach.invariant (I := fun r => WithinArray r.heap) _ _ hr
  · intro r hr
    obtain rfl : r = ⟨znMinheapInit capacity, fun _ => none⟩ := hr
    exact ⟨Nat.zero_le _, hcap⟩
  · intro r op r' _ hw _ hs
    obtain ⟨ret, h⟩ := hs
    exact hw.step h

/-- No full array has more than `2 ^ 31` cells when an entry is inserted. -/
def HeapOp.FindsRoom (r : HeapRun) : HeapOp → Prop
  | .insert _ _ => r.heap.size = r.heap.capacity → r.heap.capacity ≤ 2 ^ 31
  | .extractMin | .update _ _ => True

/-- An insert stores within the array, if it comes to its store, and leaves the
heap within it. -/
def StoresInBounds (h : ZnMinheap) (d pr : Nat) : Prop :=
  znMinheapInsert h d pr ≠ .error .outOfBounds
    ∧ ∀ e h', znMinheapInsert h d pr = .ok (e, h') → h.size < h'.capacity ∧ h'.size ≤ h'.capacity

/-- **THE GROWTH THEOREM.**  From every initial capacity, in every run whose
inserts find no full array of more than `2 ^ 31` cells: the heap is within its
array, and an insert stores within the array, and leaves the heap within it, if
and only if it finds no such array. -/
theorem heap_growth_in_bounds {capacity : Nat} (hcap : capacity < 2 ^ 32) {r : HeapRun}
    (hr : (heapSystem capacity).Reach (fun r op => op.FindsRoom r) r) :
    r.heap.size ≤ r.heap.capacity
    ∧ ∀ d pr, StoresInBounds r.heap d pr ↔ (HeapOp.insert d pr).FindsRoom r := by
  have hw := WithinArray.reach hcap hr
  refine ⟨hw.size_le, fun d pr => ?_⟩
  constructor
  · rintro ⟨hstore, -⟩ hfull
    by_contra hlarge
    exact hstore ((hw.past_iff d pr).mpr ⟨hfull, not_le.mp hlarge⟩)
  · intro hroom
    constructor
    · intro hpast
      obtain ⟨hfull, hlarge⟩ := (hw.past_iff d pr).mp hpast
      exact absurd (hroom hfull) (not_le.mpr hlarge)
    · intro e h' hins
      have hlt := (insert_inv hins).2.1
      have hsize := insert_size hins
      rw [insert_capacity hins]
      exact ⟨hlt, by omega⟩

instance HeapOp.decFindsRoom (r : HeapRun) : (op : HeapOp) → Decidable (op.FindsRoom r)
  | .insert _ _ => inferInstanceAs (Decidable
      (r.heap.size = r.heap.capacity → r.heap.capacity ≤ 2 ^ 31))
  | .extractMin | .update _ _ => isTrue trivial

/-- From two cells: the third entry comes when the array is full. -/
theorem heap_growth_in_bounds_third :
    ∃ r, (heapSystem 2).Reach (fun r op => op.FindsRoom r) r
      ∧ r.heap.size = 2 ∧ r.heap.capacity = 2 ∧ StoresInBounds r.heap 90 3 := by
  obtain ⟨r, hr, hp⟩ := TransSys.Reach.exists_of_exec
    (heapReplayIf_sound (C := fun r op => op.FindsRoom r) 2) rfl
    (fun r => r.heap.size = 2 ∧ r.heap.capacity = 2) [.insert 70 1, .insert 80 4] (by decide)
  simp only [decide_eq_true_eq] at hp
  refine ⟨r, hr, hp.1, hp.2, ((heap_growth_in_bounds (by decide) hr).2 90 3).mpr ?_⟩
  intro _
  rw [hp.2]
  decide

/-! ## §3. Filling the array. -/

/-- The runs whose inserts find no full array of more than `2 ^ 31` cells. -/
abbrev Grows (capacity : Nat) : HeapRun → Prop :=
  (heapSystem capacity).Reach fun r op => op.FindsRoom r

/-- Where there is room, one more entry can be inserted. -/
theorem Grows.insert {capacity : Nat} (hcap : capacity < 2 ^ 32) {r : HeapRun}
    (hr : Grows capacity r) (hroom : r.heap.size < r.heap.grownCapacity) :
    ∃ r', Grows capacity r' ∧ r'.heap.size = r.heap.size + 1
      ∧ r'.heap.capacity = r.heap.grownCapacity := by
  have hw := WithinArray.reach hcap hr
  have hlt := hw.grown_lt
  obtain ⟨⟨e, h'⟩, hins⟩ := (insert_returns_iff r.heap 0 0).mpr hroom
  have hstep : (heapSystem capacity).step r (.insert 0 0)
      ⟨h', book r.queue (.insert 0 0) (.entry e)⟩ := by
    refine ⟨.entry e, ?_⟩
    simp [heapOp, heapCall, hins, bind, Except.bind, pure, Except.pure]
  have hfinds : (HeapOp.insert 0 0).FindsRoom r := fun hfull =>
    Nat.le_of_lt (hw.room_iff.mp hroom hfull).2
  refine ⟨_, .next hr (l := .insert 0 0) hfinds hstep, ?_, insert_capacity hins⟩
  show h'.size = r.heap.size + 1
  rw [insert_size hins, Nat.mod_eq_of_lt (by omega)]

/-- The array is filled without being grown. -/
theorem Grows.fill {capacity : Nat} (hcap : capacity < 2 ^ 32) (n : Nat) : ∀ {r : HeapRun},
    Grows capacity r → r.heap.capacity = r.heap.size + n →
    ∃ r', Grows capacity r' ∧ r'.heap.size = r.heap.capacity ∧ r'.heap.capacity = r.heap.capacity := by
  induction n with
  | zero => exact fun {r} hr hfull => ⟨r, hr, hfull.symm, rfl⟩
  | succ n ih =>
    intro r hr hleft
    have hkept : r.heap.grownCapacity = r.heap.capacity := if_neg (by omega)
    obtain ⟨r₁, hr₁, hsize, hcap₁⟩ := hr.insert hcap (by omega)
    obtain ⟨r₂, hr₂, hsize₂, hcap₂⟩ := ih hr₁ (by omega)
    exact ⟨r₂, hr₂, by omega, by omega⟩

/-- **The array is full, and doubled, again and again**: from `capacity` cells to
every `capacity * 2 ^ k` that is a `uint32_t`. -/
theorem Grows.full {capacity : Nat} (hpos : 1 ≤ capacity) (k : Nat) (hk : capacity * 2 ^ k < 2 ^ 32) :
    ∃ r, Grows capacity r ∧ r.heap.size = capacity * 2 ^ k ∧ r.heap.capacity = capacity * 2 ^ k := by
  have hcap : capacity < 2 ^ 32 := lt_of_le_of_lt (Nat.le_mul_of_pos_right _ (Nat.two_pow_pos k)) hk
  induction k with
  | zero =>
    obtain ⟨r, hr, hsize, hcap'⟩ := Grows.fill hcap capacity (.start rfl)
      (show capacity = 0 + capacity by omega)
    rw [Nat.pow_zero, Nat.mul_one]
    exact ⟨r, hr, hsize, hcap'⟩
  | succ k ih =>
    rw [Nat.pow_succ, ← Nat.mul_assoc] at hk ⊢
    have hcells : 1 ≤ capacity * 2 ^ k := Nat.mul_pos hpos (Nat.two_pow_pos k)
    -- one insert doubles the full array, and then it is filled
    obtain ⟨r, hr, hsize, hfull⟩ := ih (by omega)
    have hgrown : r.heap.grownCapacity = capacity * 2 ^ k * 2 := by
      unfold grownCapacity
      rw [if_pos (by omega), hfull, Nat.mod_eq_of_lt hk]
    obtain ⟨r₁, hr₁, hsize₁, hcap₁⟩ := hr.insert hcap (by omega)
    obtain ⟨r₂, hr₂, hsize₂, hcap₂⟩ := hr₁.fill hcap (capacity * 2 ^ k - 1) (by omega)
    exact ⟨r₂, hr₂, by omega, by omega⟩

/-- **Three cells, doubled thirty times**: a full array of `3 * 2 ^ 30` cells is
cut to `2 ^ 31`, and the next entry is stored past it. -/
theorem three_cells_outgrown :
    ∃ r, (heapSystem 3).Reach TransSys.Any r
      ∧ r.heap.size = 3 * 2 ^ 30 ∧ r.heap.capacity = 3 * 2 ^ 30
      ∧ znMinheapInsert r.heap 70 1 = .error .outOfBounds := by
  obtain ⟨r, hr, hsize, hfull⟩ := @Grows.full 3 (by omega) 30 (by omega)
  refine ⟨r, hr.mono fun _ _ _ => trivial, hsize, hfull, ?_⟩
  exact ((WithinArray.reach (by omega) hr).past_iff 70 1).mpr ⟨by omega, by omega⟩

/-! ## §4. The initial capacity. -/

/-- The array can be filled until it is too large to be doubled. -/
theorem Grows.last {capacity : Nat} (hpos : 1 ≤ capacity) (hcap : capacity < 2 ^ 32) :
    ∃ r k, Grows capacity r ∧ r.heap.size = capacity * 2 ^ k ∧ r.heap.capacity = capacity * 2 ^ k
      ∧ 2 ^ 31 ≤ capacity * 2 ^ k := by
  -- the last doubling that stays below `2 ^ 32`
  have htop : ∃ k, 2 ^ 32 ≤ capacity * 2 ^ k := ⟨32, Nat.le_mul_of_pos_left _ hpos⟩
  obtain ⟨k, hk⟩ : ∃ k, Nat.find htop = k + 1 := by
    refine Nat.exists_eq_succ_of_ne_zero fun h0 => ?_
    have hle := Nat.find_spec htop
    rw [h0] at hle
    omega
  have hfits : capacity * 2 ^ k < 2 ^ 32 := not_le.mp (Nat.find_min htop (by omega))
  have hover : 2 ^ 32 ≤ capacity * 2 ^ (k + 1) := hk ▸ Nat.find_spec htop
  have hdouble : capacity * 2 ^ (k + 1) = capacity * 2 ^ k * 2 := by
    rw [Nat.pow_succ, Nat.mul_assoc]
  obtain ⟨r, hr, hsize, hfull⟩ := Grows.full hpos k hfits
  exact ⟨r, k, hr, hsize, hfull, by omega⟩

/-- **From every initial capacity some run comes to an insert that does not
return.** -/
theorem every_capacity_is_exhausted {capacity : Nat} (hcap : capacity < 2 ^ 32) :
    ∃ r, Grows capacity r ∧ ∀ d pr x, znMinheapInsert r.heap d pr ≠ .ok x := by
  by_cases hpos : 1 ≤ capacity
  · obtain ⟨r, k, hr, hsize, hfull, hlarge⟩ := Grows.last hpos hcap
    refine ⟨r, hr, fun d pr x hins => ?_⟩
    have hroom := (insert_returns_iff r.heap d pr).mp ⟨x, hins⟩
    have hsmall := ((WithinArray.reach hcap hr).room_iff.mp hroom (by omega)).2
    omega
  · obtain rfl : capacity = 0 := by omega
    refine ⟨_, .start rfl, fun d pr x hins => ?_⟩
    exact absurd ((insert_returns_iff _ d pr).mp ⟨x, hins⟩) (Nat.not_lt_zero 0)

/-- The capacities that a doubling as `uint32_t` does not cut, short of losing
the array: none, and the powers of two. -/
def NoneOrPow (c : Nat) : Prop := c = 0 ∨ ∃ j, j ≤ 31 ∧ c = 2 ^ j

namespace NoneOrPow

theorem le {c : Nat} (hc : NoneOrPow c) : c ≤ 2 ^ 31 := by
  rcases hc with rfl | ⟨j, hj, rfl⟩
  · exact Nat.zero_le _
  · exact Nat.pow_le_pow_right (by omega) hj

/-- Twice `2 ^ 31` is 0, and leaves no room. -/
theorem grown {h : ZnMinheap} (hc : NoneOrPow h.capacity) (hroom : h.size < h.grownCapacity) :
    NoneOrPow h.grownCapacity := by
  unfold grownCapacity at hroom ⊢
  by_cases hfull : h.size = h.capacity
  · rw [if_pos hfull] at hroom ⊢
    rcases hc with h0 | ⟨j, hj, hpow⟩
    · rw [h0] at hroom
      omega
    · rcases Nat.lt_or_eq_of_le hj with hlt | rfl
      · refine Or.inr ⟨j + 1, hlt, ?_⟩
        have hle : 2 ^ (j + 1) ≤ 2 ^ 31 := Nat.pow_le_pow_right (by omega) hlt
        rw [hpow, ← Nat.pow_succ, Nat.mod_eq_of_lt (by omega)]
      · rw [hpow] at hroom
        omega
  · rw [if_neg hfull]
    exact hc

theorem reach {capacity : Nat} (hc : NoneOrPow capacity) {r : HeapRun}
    (hr : (heapSystem capacity).Reach TransSys.Any r) : NoneOrPow r.heap.capacity := by
  apply TransSys.Reach.invariant (I := fun r => NoneOrPow r.heap.capacity) _ _ hr
  · intro r hr
    obtain rfl : r = ⟨znMinheapInit capacity, fun _ => none⟩ := hr
    exact hc
  · intro r op r' _ hc _ hs
    obtain ⟨ret, h⟩ := hs
    rcases heapOp_cases h with ⟨d, pr, e, -, hins⟩ | ⟨-, hcap⟩
    · rw [insert_capacity hins]
      exact hc.grown (insert_inv hins).2.1
    · rwa [hcap]

end NoneOrPow

/-- **THE INITIAL CAPACITIES.**  Every insert of every run stores within the
array if and only if the run starts with no cells or a power of two of them. -/
theorem initial_capacity_iff {capacity : Nat} (hcap : capacity < 2 ^ 32) :
    (∀ r, (heapSystem capacity).Reach TransSys.Any r → ∀ d pr, StoresInBounds r.heap d pr)
      ↔ NoneOrPow capacity := by
  constructor
  · intro hall
    by_cases hpos : 1 ≤ capacity
    · obtain ⟨r, k, hr, hsize, hfull, hlarge⟩ := Grows.last hpos hcap
      have hw := WithinArray.reach hcap hr
      have heq : capacity * 2 ^ k = 2 ^ 31 := by
        by_contra hne
        have hpast := (hw.past_iff 0 0).mpr ⟨by omega, by omega⟩
        exact (hall r (hr.mono fun _ _ _ => trivial) 0 0).1 hpast
      exact Or.inr ((Nat.dvd_prime_pow Nat.prime_two).mp ⟨_, heq.symm⟩)
    · exact Or.inl (by omega)
  · intro hc r hr d pr
    have hw := WithinArray.reach hcap hr
    have hle := (hc.reach hr).le
    constructor
    · intro hpast
      exact absurd ((hw.past_iff d pr).mp hpast).2 (not_lt.mpr hle)
    · intro e h' hins
      have hroom := (insert_inv hins).2.1
      have hsize := insert_size hins
      rw [insert_capacity hins]
      exact ⟨hroom, by omega⟩

end ZnCache
