/-
  ZnCache.MinHeap.Sift — what `bubble_up` and `bubble_down` do.

  `Slots` says that the back-pointers are right: the entry at position `i`
  stores `index = i`.  A pointer then sits at one position only.  `Sifted`
  says what a sift leaves alone: it permutes the pointers of the heap, writes
  nothing but the `index` of entries in the heap, and touches no other memory.
  The order comes from `Lib.SiftHeap`, applied to the keys of the positions.

  The loops only exchange: `bubbleUpLoop_rule` and `bubbleDownLoop_rule` say
  that what an exchange keeps, they keep.
-/
import ZnCache.MinHeap.Defs
import ZnCache.Lib.SiftHeap

namespace ZnCache

open Lib

namespace ZnMinheap

/-- `arr[i]->index == i` for every position in use. -/
def Slots (h : ZnMinheap) : Prop := ∀ i, i < h.size → (h.entry (h.arr i)).index = i

/-- The pointer `p` is in the heap. -/
def Has (h : ZnMinheap) (p : Nat) : Prop := ∃ i, i < h.size ∧ h.arr i = p

theorem Slots.inj {h : ZnMinheap} (hs : h.Slots) {i j : Nat} (hi : i < h.size) (hj : j < h.size)
    (hij : h.arr i = h.arr j) : i = j := by
  rw [← hs i hi, hij, hs j hj]

/-- What a sift leaves alone. -/
structure Sifted (h h' : ZnMinheap) : Prop where
  size : h'.size = h.size
  capacity : h'.capacity = h.capacity
  next : h'.next = h.next
  data : ∀ p, (h'.entry p).data = (h.entry p).data
  priority : ∀ p, (h'.entry p).priority = (h.entry p).priority
  has : ∀ p, h'.Has p ↔ h.Has p
  frame : ∀ p, ¬ h.Has p → h'.entry p = h.entry p

theorem Sifted.refl (h : ZnMinheap) : Sifted h h :=
  ⟨rfl, rfl, rfl, fun _ => rfl, fun _ => rfl, fun _ => Iff.rfl, fun _ _ => rfl⟩

theorem Sifted.trans {a b c : ZnMinheap} (hab : Sifted a b) (hbc : Sifted b c) : Sifted a c where
  size := hbc.size.trans hab.size
  capacity := hbc.capacity.trans hab.capacity
  next := hbc.next.trans hab.next
  data p := (hbc.data p).trans (hab.data p)
  priority p := (hbc.priority p).trans (hab.priority p)
  has p := (hbc.has p).trans (hab.has p)
  frame p hp := (hbc.frame p (mt (hab.has p).mp hp)).trans (hab.frame p hp)

/-! ## §1. Writing back-pointers. -/

variable {h : ZnMinheap}

theorem setIndex_data (i p : Nat) : ((h.setIndex i).entry p).data = (h.entry p).data := by
  unfold setIndex
  by_cases hp : p = h.arr i
  · subst hp; simp
  · simp [Function.update_of_ne hp]

theorem setIndex_priority (i p : Nat) :
    ((h.setIndex i).entry p).priority = (h.entry p).priority := by
  unfold setIndex
  by_cases hp : p = h.arr i
  · subst hp; simp
  · simp [Function.update_of_ne hp]

theorem setIndex_index (i p : Nat) :
    ((h.setIndex i).entry p).index = if p = h.arr i then i else (h.entry p).index := by
  unfold setIndex
  by_cases hp : p = h.arr i
  · subst hp; simp
  · simp [hp]

theorem setIndex_frame {i p : Nat} (hp : p ≠ h.arr i) : (h.setIndex i).entry p = h.entry p := by
  unfold setIndex
  simp [Function.update_of_ne hp]

/-! ## §2. One exchange. -/

theorem swap_arr (i j : Nat) : (h.swap i j).arr = h.arr ∘ Equiv.swap i j := rfl

theorem swap_size (i j : Nat) : (h.swap i j).size = h.size := rfl

theorem swap_priority (i j p : Nat) :
    ((h.swap i j).entry p).priority = (h.entry p).priority := by
  unfold swap
  rw [setIndex_priority, setIndex_priority]

theorem swap_key (i j : Nat) : (h.swap i j).key = h.key ∘ Equiv.swap i j := by
  funext l
  unfold key
  rw [swap_priority, swap_arr]
  rfl

/-- A position stays in use when two positions in use are exchanged. -/
theorem swap_lt {i j l n : Nat} (hi : i < n) (hj : j < n) (hl : l < n) : Equiv.swap i j l < n := by
  rw [Equiv.swap_apply_def]
  split_ifs <;> assumption

/-- **Exchange lemma.** -/
theorem swap_sifted {i j : Nat} (hi : i < h.size) (hj : j < h.size) : Sifted h (h.swap i j) where
  size := rfl
  capacity := rfl
  next := rfl
  data p := by
    unfold swap
    rw [setIndex_data, setIndex_data]
  priority := swap_priority i j
  has p := by
    constructor
    · rintro ⟨l, hl, hp⟩
      exact ⟨Equiv.swap i j l, swap_lt hi hj hl, hp⟩
    · rintro ⟨l, hl, hp⟩
      refine ⟨Equiv.swap i j l, swap_lt hi hj hl, ?_⟩
      rw [swap_arr, Function.comp_apply, Equiv.swap_apply_self]
      exact hp
  frame p hp := by
    have hne : ∀ l, l < h.size → p ≠ h.arr l := fun l hl heq => hp ⟨l, hl, heq.symm⟩
    unfold swap
    rw [setIndex_frame, setIndex_frame]
    · simpa using hne j hj
    · simpa [setIndex] using hne i hi

theorem swap_slots (hs : h.Slots) {i j : Nat} (hi : i < h.size) (hj : j < h.size)
    (hij : i ≠ j) : (h.swap i j).Slots := by
  intro l hl
  rw [swap_arr, Function.comp_apply]
  unfold swap
  rw [setIndex_index, setIndex_index]
  have hl' := swap_lt hi hj (show l < h.size from hl)
  have hinj : ∀ m, m < h.size → (h.arr (Equiv.swap i j l) = h.arr m ↔ Equiv.swap i j l = m) :=
    fun m hm => ⟨fun heq => hs.inj hl' hm heq, fun heq => by rw [heq]⟩
  simp only [setIndex, Function.comp_apply, Equiv.swap_apply_left, Equiv.swap_apply_right,
    hinj i hi, hinj j hj]
  rw [Equiv.swap_apply_def]
  by_cases hli : l = i
  · subst hli
    simp [Ne.symm hij]
  · by_cases hlj : l = j
    · subst hlj
      simp [hli]
    · simp [hli, hlj, hs l hl]

/-! ## §3. The loops. -/

/-- **The rule of `bubble_up`.**  `P` is of the heap and of the position reached. -/
theorem bubbleUpLoop_rule {P : ZnMinheap → Nat → Prop}
    (hswap : ∀ h i, 0 < i → P h i → P (h.swap i ((i - 1) / 2)) ((i - 1) / 2)) (fuel : Nat)
    {h : ZnMinheap} {i : Nat} (hP : P h i) : ∃ j, P (bubbleUpLoop fuel h i) j := by
  induction fuel generalizing h i with
  | zero => exact ⟨i, hP⟩
  | succ fuel ih =>
    unfold bubbleUpLoop
    dsimp only
    split
    · rename_i hpos
      split
      · exact ih (hswap h i hpos hP)
      · exact ⟨i, hP⟩
    · exact ⟨i, hP⟩

/-- **The rule of `bubble_down`.** -/
theorem bubbleDownLoop_rule {P : ZnMinheap → Nat → Prop}
    (hswap : ∀ h i, smallestOf h i ≠ i → P h i → P (h.swap i (smallestOf h i)) (smallestOf h i))
    (fuel : Nat) {h : ZnMinheap} {i : Nat} (hP : P h i) : ∃ j, P (bubbleDownLoop fuel h i) j := by
  induction fuel generalizing h i with
  | zero => exact ⟨i, hP⟩
  | succ fuel ih =>
    unfold bubbleDownLoop
    dsimp only
    split
    · rename_i hne
      exact ih (hswap h i hne hP)
    · exact ⟨i, hP⟩

/-- What exchanges leave, also where the array has no entries. -/
structure Exchanged (h h' : ZnMinheap) : Prop where
  size : h'.size = h.size
  capacity : h'.capacity = h.capacity
  next : h'.next = h.next
  data : ∀ p, (h'.entry p).data = (h.entry p).data

theorem Exchanged.refl (h : ZnMinheap) : Exchanged h h := ⟨rfl, rfl, rfl, fun _ => rfl⟩

theorem Exchanged.swap {h₀ h : ZnMinheap} (hex : Exchanged h₀ h) (i j : Nat) :
    Exchanged h₀ (h.swap i j) where
  size := hex.size
  capacity := hex.capacity
  next := hex.next
  data p := by
    unfold ZnMinheap.swap
    rw [setIndex_data, setIndex_data]
    exact hex.data p

theorem bubbleUpLoop_exchanged (fuel : Nat) (h : ZnMinheap) (i : Nat) :
    Exchanged h (bubbleUpLoop fuel h i) :=
  (bubbleUpLoop_rule (P := fun g _ => Exchanged h g) (fun _ _ _ hex => hex.swap ..) fuel
    (.refl h)).choose_spec

theorem bubbleDownLoop_exchanged (fuel : Nat) (h : ZnMinheap) (i : Nat) :
    Exchanged h (bubbleDownLoop fuel h i) :=
  (bubbleDownLoop_rule (P := fun g _ => Exchanged h g) (fun _ _ _ hex => hex.swap ..) fuel
    (.refl h)).choose_spec

/-- `bubble_down` stays inside the heap. -/
theorem smallestOf_lt {i : Nat} (hi : i < h.size) : smallestOf h i < h.size := by
  have hleft : (if (2 * i + 1) % 2 ^ 32 < h.size ∧ h.key ((2 * i + 1) % 2 ^ 32) < h.key i then
      (2 * i + 1) % 2 ^ 32 else i) < h.size := by
    split
    · rename_i hl
      exact hl.1
    · exact hi
  unfold smallestOf
  dsimp only
  generalize (if (2 * i + 1) % 2 ^ 32 < h.size ∧ h.key ((2 * i + 1) % 2 ^ 32) < h.key i then
      (2 * i + 1) % 2 ^ 32 else i) = smallest at hleft ⊢
  split
  · rename_i hr
    exact hr.1
  · exact hleft

/-- The position reached is in the heap, and the heap so far is a sift of `h₀`
with right back-pointers. -/
def SiftedAt (h₀ h : ZnMinheap) (i : Nat) : Prop := i < h.size ∧ h.Slots ∧ Sifted h₀ h

theorem SiftedAt.swap {h₀ h : ZnMinheap} {i j : Nat} (hat : SiftedAt h₀ h i) (hj : j < h.size)
    (hij : i ≠ j) : SiftedAt h₀ (h.swap i j) j := by
  obtain ⟨hi, hs, hsift⟩ := hat
  exact ⟨hj, swap_slots hs hi hj hij, hsift.trans (swap_sifted hi hj)⟩

/-- In any order, `bubble_up` sifts. -/
theorem bubbleUpLoop_sifted (fuel : Nat) {i : Nat} (hi : i < h.size) (hs : h.Slots) :
    Sifted h (bubbleUpLoop fuel h i) ∧ (bubbleUpLoop fuel h i).Slots := by
  obtain ⟨j, -, hslots, hsift⟩ := bubbleUpLoop_rule (P := SiftedAt h)
    (fun g i hpos hat => hat.swap (by have := hat.1; omega) (by omega)) fuel ⟨hi, hs, .refl h⟩
  exact ⟨hsift, hslots⟩

/-- In any order, `bubble_down` sifts. -/
theorem bubbleDownLoop_sifted (fuel : Nat) {i : Nat} (hi : i < h.size) (hs : h.Slots) :
    Sifted h (bubbleDownLoop fuel h i) ∧ (bubbleDownLoop fuel h i).Slots := by
  obtain ⟨j, -, hslots, hsift⟩ := bubbleDownLoop_rule (P := SiftedAt h)
    (fun g i hne hat => hat.swap (smallestOf_lt hat.1) (Ne.symm hne)) fuel ⟨hi, hs, .refl h⟩
  exact ⟨hsift, hslots⟩

/-- **`bubble_up`** restores the order above a position, and leaves the rest. -/
theorem bubbleUpLoop_spec : ∀ (fuel : Nat) (h : ZnMinheap) (i : Nat), i ≤ fuel → i < h.size →
    h.Slots → SiftHeap.UpOk h.key h.size i →
    Sifted h (bubbleUpLoop fuel h i) ∧ (bubbleUpLoop fuel h i).Slots
      ∧ SiftHeap.IsHeap (bubbleUpLoop fuel h i).key h.size
  | 0, h, i, hf, hi, hs, hup => by
      have hi0 : i = 0 := Nat.le_zero.mp hf
      exact ⟨.refl h, hs, hup.done (fun hpos => by omega)⟩
  | fuel + 1, h, i, hf, hi, hs, hup => by
      rw [bubbleUpLoop]
      by_cases hpos : 0 < i
      · rw [if_pos hpos]
        have hpi := SiftHeap.parent_lt hpos
        by_cases hlt : h.key i < h.key (SiftHeap.parent i)
        · rw [if_pos (show h.key i < h.key ((i - 1) / 2) from hlt)]
          have hsw := hup.swap hpos hi hlt
          rw [← swap_key] at hsw
          have hswap := swap_sifted (h := h) hi (Nat.lt_trans hpi hi)
          obtain ⟨h1, h2, h3⟩ := bubbleUpLoop_spec fuel (h.swap i (SiftHeap.parent i))
            (SiftHeap.parent i) (by omega) (by rw [swap_size]; omega)
            (swap_slots hs hi (Nat.lt_trans hpi hi) (by omega)) hsw
          exact ⟨hswap.trans h1, h2, h3⟩
        · rw [if_neg (show ¬ h.key i < h.key ((i - 1) / 2) from hlt)]
          exact ⟨.refl h, hs, hup.done (fun _ => not_lt.mp hlt)⟩
      · rw [if_neg hpos]
        exact ⟨.refl h, hs, hup.done (fun h0 => absurd h0 hpos)⟩

theorem bubbleUp_spec {i : Nat} (hi : i < h.size) (hs : h.Slots)
    (hup : SiftHeap.UpOk h.key h.size i) :
    Sifted h (bubbleUp h i) ∧ (bubbleUp h i).Slots ∧ SiftHeap.IsHeap (bubbleUp h i).key h.size :=
  bubbleUpLoop_spec i h i (Nat.le_refl i) hi hs hup

/-- The position `bubble_down` picks: `index` when no child is below it, else a
least child. -/
theorem smallestOf_spec {i : Nat} (hi : i < h.size) (hn : h.size < 2 ^ 31) :
    (smallestOf h i = i ∧ ∀ j, 0 < j → j < h.size → SiftHeap.parent j = i → h.key i ≤ h.key j)
    ∨ (i < smallestOf h i ∧ smallestOf h i < h.size ∧ SiftHeap.parent (smallestOf h i) = i
        ∧ h.key (smallestOf h i) < h.key i
        ∧ ∀ j, 0 < j → j < h.size → SiftHeap.parent j = i → h.key (smallestOf h i) ≤ h.key j) := by
  have hl : (2 * i + 1) % 2 ^ 32 = 2 * i + 1 := Nat.mod_eq_of_lt (by omega)
  have hr : (2 * i + 2) % 2 ^ 32 = 2 * i + 2 := Nat.mod_eq_of_lt (by omega)
  have hchild : ∀ j, 0 < j → SiftHeap.parent j = i → j = 2 * i + 1 ∨ j = 2 * i + 2 :=
    fun j hj hp => (SiftHeap.parent_eq_iff hj).mp hp
  have hp1 : SiftHeap.parent (2 * i + 1) = i := (SiftHeap.parent_eq_iff (by omega)).mpr (Or.inl rfl)
  have hp2 : SiftHeap.parent (2 * i + 2) = i := (SiftHeap.parent_eq_iff (by omega)).mpr (Or.inr rfl)
  unfold smallestOf
  simp only [hl, hr]
  by_cases hleft : 2 * i + 1 < h.size ∧ h.key (2 * i + 1) < h.key i
  · rw [if_pos hleft]
    right
    by_cases hright : 2 * i + 2 < h.size ∧ h.key (2 * i + 2) < h.key (2 * i + 1)
    · rw [if_pos hright]
      refine ⟨by omega, hright.1, hp2, by omega, ?_⟩
      intro j hj hjn hp
      rcases hchild j hj hp with rfl | rfl <;> omega
    · rw [if_neg hright]
      refine ⟨by omega, hleft.1, hp1, hleft.2, ?_⟩
      intro j hj hjn hp
      rcases hchild j hj hp with rfl | rfl <;> omega
  · rw [if_neg hleft]
    by_cases hright : 2 * i + 2 < h.size ∧ h.key (2 * i + 2) < h.key i
    · rw [if_pos hright]
      right
      refine ⟨by omega, hright.1, hp2, hright.2, ?_⟩
      intro j hj hjn hp
      rcases hchild j hj hp with rfl | rfl <;> omega
    · rw [if_neg hright]
      left
      refine ⟨rfl, ?_⟩
      intro j hj hjn hp
      rcases hchild j hj hp with rfl | rfl <;> omega

/-- **`bubble_down`** restores the order below a position, and leaves the rest. -/
theorem bubbleDownLoop_spec : ∀ (fuel : Nat) (h : ZnMinheap) (i : Nat), h.size ≤ fuel + i →
    i < h.size → h.size < 2 ^ 31 → h.Slots → SiftHeap.DownOk h.key h.size i →
    Sifted h (bubbleDownLoop fuel h i) ∧ (bubbleDownLoop fuel h i).Slots
      ∧ SiftHeap.IsHeap (bubbleDownLoop fuel h i).key h.size
  | 0, h, i, hf, hi, _, _, _ => by omega
  | fuel + 1, h, i, hf, hi, hn, hs, hdown => by
      rw [bubbleDownLoop]
      rcases smallestOf_spec hi hn with ⟨heq, hmin⟩ | ⟨hgt, hlt, hpar, hkey, hmin⟩
      · rw [if_neg (by rw [heq]; simp)]
        exact ⟨.refl h, hs, hdown.done hmin⟩
      · rw [if_pos (by omega)]
        generalize smallestOf h i = c at hgt hlt hpar hkey hmin ⊢
        have hsw := hdown.swap (by omega) hlt hpar hkey hmin
        rw [← swap_key] at hsw
        obtain ⟨h1, h2, h3⟩ := bubbleDownLoop_spec fuel (h.swap i c) c (by rw [swap_size]; omega)
          hlt hn (swap_slots hs hi hlt (by omega)) hsw
        exact ⟨(swap_sifted hi hlt).trans h1, h2, h3⟩

theorem bubbleDown_spec {i : Nat} (hi : i < h.size) (hn : h.size < 2 ^ 31) (hs : h.Slots)
    (hdown : SiftHeap.DownOk h.key h.size i) :
    Sifted h (bubbleDown h i) ∧ (bubbleDown h i).Slots
      ∧ SiftHeap.IsHeap (bubbleDown h i).key h.size :=
  bubbleDownLoop_spec h.size h i (by omega) hi hn hs hdown

end ZnMinheap

end ZnCache
