/-
  ZnCache.MinHeap.Entries — what the entries of the heap are about.

  `AllData P h` says that every pointer of the array was handed out, and leads
  to data with the property `P`.  It is kept by every call, also by an update of
  an entry that is no longer in the heap: the sifts move pointers, and never
  write `data`.
-/
import ZnCache.MinHeap.Contract

namespace ZnCache

open ZnMinheap

/-- Every entry of the array was handed out, and its data has the property. -/
structure AllData (P : Nat → Prop) (h : ZnMinheap) : Prop where
  entries : ∀ i, i < h.size → h.arr i < h.next ∧ P (h.entry (h.arr i)).data
  size_lt : h.size < 2 ^ 32

namespace AllData

variable {P : Nat → Prop} {h h' : ZnMinheap}

theorem init (capacity : Nat) : AllData P (znMinheapInit capacity) where
  entries i hi := absurd hi (Nat.not_lt_zero i)
  size_lt := Nat.two_pow_pos 32

theorem mono {Q : Nat → Prop} (hP : AllData P h) (hPQ : ∀ z, P z → Q z) : AllData Q h where
  entries i hi := ⟨(hP.entries i hi).1, hPQ _ (hP.entries i hi).2⟩
  size_lt := hP.size_lt

theorem setIndex (hP : AllData P h) (i : Nat) : AllData P (h.setIndex i) where
  entries j hj := by
    rw [setIndex_data]
    exact hP.entries j hj
  size_lt := hP.size_lt

theorem swap (hP : AllData P h) {i j : Nat} (hi : i < h.size) (hj : j < h.size) :
    AllData P (h.swap i j) := by
  unfold ZnMinheap.swap
  apply AllData.setIndex
  apply AllData.setIndex
  constructor
  · exact fun l hl => hP.entries _ (swap_lt hi hj hl)
  · exact hP.size_lt

theorem bubbleUpLoop (fuel : Nat) (hP : AllData P h) {i : Nat} (hi : i < h.size) :
    AllData P (bubbleUpLoop fuel h i) := by
  obtain ⟨j, -, hP'⟩ := bubbleUpLoop_rule (P := fun g i => i < g.size ∧ AllData P g)
    (fun g i _ hat => by
      have hparent : (i - 1) / 2 < g.size := by have := hat.1; omega
      exact ⟨hparent, hat.2.swap hat.1 hparent⟩) fuel ⟨hi, hP⟩
  exact hP'

theorem bubbleDownLoop (fuel : Nat) (hP : AllData P h) {i : Nat} (hi : i < h.size) :
    AllData P (bubbleDownLoop fuel h i) := by
  obtain ⟨j, -, hP'⟩ := bubbleDownLoop_rule (P := fun g i => i < g.size ∧ AllData P g)
    (fun g i _ hat => ⟨smallestOf_lt hat.1, hat.2.swap hat.1 (smallestOf_lt hat.1)⟩) fuel ⟨hi, hP⟩
  exact hP'

/-- The new entry has the property, and the others keep it. -/
theorem insert (hP : AllData P h) {d pr e : Nat} (hd : P d)
    (hins : znMinheapInsert h d pr = .ok (e, h')) : AllData P h' := by
  have hsize := insert_size hins
  by_cases hlt : h.size + 1 < 2 ^ 32
  · obtain ⟨-, -, rfl⟩ := insert_inv hins
    rw [pushedWrapped_eq hlt]
    have hpushed : AllData P (h.pushed d pr h.grownCapacity) := by
      refine ⟨?_, hlt⟩
      intro i hi
      show Function.update h.arr h.size h.next i < h.next + 1
        ∧ P (Function.update h.entry h.next _ (Function.update h.arr h.size h.next i)).data
      by_cases hin : i = h.size
      · rw [hin, Function.update_self, Function.update_self]
        exact ⟨Nat.lt_succ_self _, hd⟩
      · have hi' : i < h.size := by
          have hle : i < h.size + 1 := hi
          omega
        obtain ⟨hold, hPi⟩ := hP.entries i hi'
        rw [Function.update_of_ne hin, Function.update_of_ne (Nat.ne_of_lt hold)]
        exact ⟨Nat.lt_succ_of_lt hold, hPi⟩
    exact hpushed.bubbleUpLoop _ (Nat.lt_succ_self h.size)
  · -- the size wraps to zero, and the array has no entries
    have hlt' := hP.size_lt
    have hwrap : h'.size = 0 := by omega
    constructor
    · intro i hi
      omega
    · omega

/-- What is left after an entry is taken out, which has the property. -/
theorem extract (hP : AllData P h) {e : Nat} (hout : znMinheapExtractMin h = (some e, h')) :
    AllData P h' ∧ P (h'.entry e).data := by
  obtain ⟨h0, rfl, hdata⟩ := extract_ok hout
  rw [hdata]
  have hlt := hP.size_lt
  refine ⟨?_, (hP.entries 0 (Nat.pos_of_ne_zero h0)).2⟩
  unfold znMinheapExtractMin at hout
  rw [if_neg h0] at hout
  dsimp only at hout
  split at hout
  · rename_i hpos
    cases hout
    apply AllData.bubbleDownLoop _ _ hpos
    apply AllData.setIndex
    refine ⟨?_, show h.size - 1 < 2 ^ 32 by omega⟩
    intro i hi
    have hi' : i < h.size - 1 := hi
    show Function.update h.arr 0 (h.arr (h.size - 1)) i < h.next
      ∧ P (h.entry (Function.update h.arr 0 (h.arr (h.size - 1)) i)).data
    by_cases hi0 : i = 0
    · rw [hi0, Function.update_self]
      exact hP.entries _ (by omega)
    · rw [Function.update_of_ne hi0]
      exact hP.entries i (by omega)
  · cases hout
    refine ⟨?_, show h.size - 1 < 2 ^ 32 by omega⟩
    intro i hi
    have hi' : i < h.size - 1 := hi
    exact hP.entries i (by omega)

/-- Changing a priority changes no data, whatever the entry. -/
theorem update (hP : AllData P h) (entry : Option Nat) (p : Nat) :
    AllData P (znMinheapUpdateByEntry h entry p).2 := by
  cases entry with
  | none => exact hP
  | some e =>
    have hset : AllData P (h.setPriority e p) := by
      refine ⟨?_, hP.size_lt⟩
      intro i hi
      obtain ⟨hlt, hPi⟩ := hP.entries i hi
      refine ⟨hlt, ?_⟩
      show P (Function.update h.entry e _ (h.arr i)).data
      by_cases hie : h.arr i = e
      · rw [hie, Function.update_self]
        rw [hie] at hPi
        exact hPi
      · rw [Function.update_of_ne hie]
        exact hPi
    unfold znMinheapUpdateByEntry
    dsimp only
    split
    · exact hP
    · rename_i hlt
      have hi : ((h.setPriority e p).entry e).index < (h.setPriority e p).size := by
        rw [HeapBooks.setPriority_index]
        exact not_le.mp hlt
      split
      · exact hset.bubbleUpLoop _ hi
      · split
        · exact hset.bubbleDownLoop _ hi
        · exact hset

end AllData

/-! ## The next address. -/

variable {h h' : ZnMinheap}

/-- Addresses are handed out one after the other. -/
theorem insert_next {d pr e : Nat} (hins : znMinheapInsert h d pr = .ok (e, h')) :
    e = h.next ∧ h'.next = h.next + 1 := by
  obtain ⟨rfl, -, rfl⟩ := insert_inv hins
  exact ⟨rfl, (bubbleUpLoop_exchanged ..).next⟩

theorem extract_next (h : ZnMinheap) : (znMinheapExtractMin h).2.next = h.next := by
  unfold znMinheapExtractMin
  split
  · rfl
  · dsimp only
    split
    · exact (bubbleDownLoop_exchanged ..).next
    · rfl

theorem update_next (h : ZnMinheap) (entry : Option Nat) (p : Nat) :
    (znMinheapUpdateByEntry h entry p).2.next = h.next := by
  unfold znMinheapUpdateByEntry
  split
  · rfl
  · split
    · rfl
    · dsimp only
      split
      · exact (bubbleUpLoop_exchanged ..).next
      · split
        · exact (bubbleDownLoop_exchanged ..).next
        · rfl

end ZnCache
