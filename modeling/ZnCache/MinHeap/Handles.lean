/-
  ZnCache.MinHeap.Handles — entries that are no longer in the heap.

  An entry that `zn_minheap_extract_min` returned keeps the index it had at the
  root, 0, for good: the sifts write the entries of the array only.  An update
  through it compares this index with the size.

  Main results:
    * `dead_update_rejected_iff` — the update is rejected without effect if and
      only if the heap is empty,
    * `dead_update_harmless` — it answers 0 otherwise, and writes the priority
      of the dead entry and nothing else.
-/
import ZnCache.MinHeap.Growth

namespace ZnCache

open Lib ZnMinheap

/-! ## §1. What a dead entry keeps. -/

/-- Any entry that was inserted may be updated. -/
def HeapOp.Given (r : HeapRun) : HeapOp → Prop
  | .insert _ _ | .extractMin => True
  | .update e _ => e < r.heap.next

/-- The entry was inserted and is in the heap no longer. -/
def HeapRun.Dead (r : HeapRun) (e : Nat) : Prop := e < r.heap.next ∧ r.queue e = none

/-- **The array holds the queued entries, and the dead ones were at the root.**
Nothing is said of the order: in a heap of `2 ^ 31` entries it may be lost. -/
structure HandleInv (h : ZnMinheap) (q : PQueue) : Prop where
  slots : h.Slots
  has_iff : ∀ p, h.Has p ↔ q p ≠ none
  fresh : ∀ p, h.Has p → p < h.next
  dead : ∀ p, p < h.next → q p = none → (h.entry p).index = 0

namespace HandleInv

variable {h : ZnMinheap} {q : PQueue}

theorem init (capacity : Nat) : HandleInv (znMinheapInit capacity) fun _ => none where
  slots i hi := absurd hi (Nat.not_lt_zero i)
  has_iff _ := ⟨fun ⟨i, hi, _⟩ => absurd hi (Nat.not_lt_zero i), fun hp => absurd rfl hp⟩
  fresh _ := fun ⟨i, hi, _⟩ => absurd hi (Nat.not_lt_zero i)
  dead p hp := absurd hp (Nat.not_lt_zero p)

/-- What a sift of `h` gives back, if the dead entries were at the root. -/
theorem of_sifted {h' : ZnMinheap} (hsift : Sifted h h') (hslots : h'.Slots)
    (hhas : ∀ p, h.Has p ↔ q p ≠ none) (hfresh : ∀ p, h.Has p → p < h.next)
    (hdead : ∀ p, p < h.next → q p = none → (h.entry p).index = 0) : HandleInv h' q where
  slots := hslots
  has_iff p := (hsift.has p).trans (hhas p)
  fresh p hp := by
    rw [hsift.next]
    exact hfresh p ((hsift.has p).mp hp)
  dead p hp hq := by
    rw [hsift.next] at hp
    rw [hsift.frame p fun hin => (hhas p).mp hin hq]
    exact hdead p hp hq

theorem insert (hi : HandleInv h q) (hw : WithinArray h) {d pr e : Nat} {h' : ZnMinheap}
    (hins : znMinheapInsert h d pr = .ok (e, h')) :
    HandleInv h' (Function.update q e (some (d, pr))) := by
  have hroom := (insert_returns_iff h d pr).mp ⟨_, hins⟩
  rw [hw.insert_eq hroom] at hins
  obtain ⟨rfl, rfl⟩ := Prod.mk.inj (Except.ok.inj hins)
  have hslots := pushed_slots hi.slots hi.fresh d pr h.grownCapacity
  obtain ⟨hsift, hslots'⟩ := bubbleUpLoop_sifted h.size (i := h.size) (Nat.lt_succ_self h.size) hslots
  refine of_sifted hsift hslots' ?_ ?_ ?_
  · intro p
    rw [pushed_has]
    by_cases hp : p = h.next
    · simp [hp]
    · rw [Function.update_of_ne hp, ← hi.has_iff p]
      simp [hp]
  · intro p hp
    show p < h.next + 1
    rcases (pushed_has ..).mp hp with rfl | hin
    · exact Nat.lt_succ_self _
    · exact Nat.lt_succ_of_lt (hi.fresh p hin)
  · intro p hp hq
    have hne : p ≠ h.next := by
      rintro rfl
      rw [Function.update_self] at hq
      cases hq
    rw [Function.update_of_ne hne] at hq
    have hold : p < h.next := by
      have hp' : p < h.next + 1 := hp
      omega
    show (Function.update h.entry h.next _ p).index = 0
    rw [Function.update_of_ne hne]
    exact hi.dead p hold hq

theorem extract (hi : HandleInv h q) {e : Nat} {h' : ZnMinheap}
    (hout : znMinheapExtractMin h = (some e, h')) : HandleInv h' (Function.update q e none) := by
  obtain ⟨h0, rfl, -⟩ := extract_ok hout
  -- the entry at the root knows that it is there
  have hroot : (h.entry (h.arr 0)).index = 0 := hi.slots 0 (Nat.pos_of_ne_zero h0)
  have hdead : ∀ p, p < h.next → Function.update q (h.arr 0) none p = none →
      (h.entry p).index = 0 := by
    intro p hp hq
    by_cases hpr : p = h.arr 0
    · rw [hpr]
      exact hroot
    · rw [Function.update_of_ne hpr] at hq
      exact hi.dead p hp hq
  have hbook : ∀ p, Function.update q (h.arr 0) none p ≠ none ↔ h.Has p ∧ p ≠ h.arr 0 := by
    intro p
    by_cases hp : p = h.arr 0
    · simp [hp]
    · rw [Function.update_of_ne hp, ← hi.has_iff p]
      simp [hp]
  unfold znMinheapExtractMin at hout
  rw [if_neg h0] at hout
  dsimp only at hout
  split at hout
  -- the last entry takes the place of the root, and sinks
  · rename_i hpos
    cases hout
    have hn : 1 < h.size := by omega
    obtain ⟨hsift, hslots⟩ := bubbleDownLoop_sifted (h := HeapRunInv.rootReplaced h) (h.size - 1)
      (i := 0) hpos (HeapRunInv.rootReplaced_slots hi.slots hn)
    have hhas := HeapRunInv.rootReplaced_has hi.slots hn
    refine of_sifted (h := HeapRunInv.rootReplaced h) hsift hslots ?_ ?_ ?_
    · exact fun p => (hhas p).trans (hbook p).symm
    · exact fun p hp => hi.fresh p ((hhas p).mp hp).1
    · intro p hp hq
      have hout : ¬ (HeapRunInv.rootReplaced h).Has p := fun hin => (hbook p).mpr ((hhas p).mp hin) hq
      have hne : p ≠ (HeapRunInv.rootReplaced h).arr 0 := fun heq => hout ⟨0, hpos, heq.symm⟩
      have hframe : (HeapRunInv.rootReplaced h).entry p = h.entry p := setIndex_frame hne
      rw [hframe]
      exact hdead p hp hq
  -- the root was the only entry
  · rename_i hone
    cases hout
    have hlast : h.size = 1 := by omega
    constructor
    · intro i hi'
      exact absurd hi' (by show ¬ i < h.size - 1; omega)
    · intro p
      refine iff_of_false ?_ ?_
      · rintro ⟨i, hi', -⟩
        exact absurd hi' (by show ¬ i < h.size - 1; omega)
      · rw [hbook p]
        rintro ⟨⟨i, hi', rfl⟩, hne⟩
        obtain rfl : i = 0 := by omega
        exact hne rfl
    · rintro p ⟨i, hi', -⟩
      exact absurd hi' (by show ¬ i < h.size - 1; omega)
    · exact hdead

theorem update (hi : HandleInv h q) (e p : Nat) :
    HandleInv (znMinheapUpdateByEntry h (some e) p).2 q := by
  have hfin : ∀ h', Sifted (h.setPriority e p) h' → h'.Slots → HandleInv h' q := by
    intro h' hsift hslots
    refine of_sifted hsift hslots hi.has_iff hi.fresh ?_
    intro x hx hq
    rw [HeapBooks.setPriority_index]
    exact hi.dead x hx hq
  have hslots : (h.setPriority e p).Slots := fun i hi' =>
    (HeapBooks.setPriority_index ..).trans (hi.slots i hi')
  unfold znMinheapUpdateByEntry
  dsimp only
  split
  · exact hi
  · rename_i hidx
    have hin : ((h.setPriority e p).entry e).index < (h.setPriority e p).size := by
      rw [HeapBooks.setPriority_index]
      show _ < h.size
      omega
    split
    · obtain ⟨h1, h2⟩ := bubbleUpLoop_sifted ((h.setPriority e p).entry e).index hin hslots
      exact hfin _ h1 h2
    · split
      · obtain ⟨h1, h2⟩ := bubbleDownLoop_sifted (h.setPriority e p).size hin hslots
        exact hfin _ h1 h2
      · exact hfin _ (.refl _) hslots

end HandleInv

/-! ## §2. Every run. -/

/-- An update that answers 0 counts. -/
theorem book_update (q : PQueue) (e pr : Nat) (c : Int) : book q (.update e pr) (.code c)
    = if c = 0 then Function.update q e ((q e).map fun dp => (dp.1, pr)) else q := by
  cases c with
  | ofNat n =>
    cases n with
    | zero => rfl
    | succ n => exact (if_neg (show ¬ ((n + 1 : Nat) : Int) = 0 by omega)).symm
  | negSucc n => exact (if_neg (Int.negSucc_ne_zero n)).symm

/-- An update books no entry, and unbooks none. -/
theorem book_update_eq_none {q : PQueue} {e pr p : Nat} {c : Int} :
    book q (.update e pr) (.code c) p = none ↔ q p = none := by
  rw [book_update]
  split
  · by_cases hp : p = e
    · simp [hp]
    · rw [Function.update_of_ne hp]
  · exact Iff.rfl

/-- **Step lemma.** -/
theorem HandleInv.step {r r' : HeapRun} (hi : HandleInv r.heap r.queue) (hw : WithinArray r.heap)
    {op : HeapOp} {ret : HeapRet} (h : heapOp r op = .ok (ret, r')) :
    HandleInv r'.heap r'.queue := by
  obtain ⟨⟨ret', h'⟩, hcall, heq⟩ := bind_eq_ok h
  cases heq
  show HandleInv h' (book r.queue op ret)
  cases op with
  | insert d pr =>
    obtain ⟨⟨e, g⟩, hins, heq⟩ := bind_eq_ok hcall
    cases heq
    exact hi.insert hw hins
  | extractMin =>
    simp only [heapCall] at hcall
    split at hcall
    · rename_i hout
      cases hcall
      exact hi.extract hout
    · rename_i hout
      cases hcall
      -- NULL comes from an empty heap, which stays as it is
      unfold znMinheapExtractMin at hout
      split at hout
      · cases hout
        exact hi
      · dsimp only at hout
        split at hout
        · cases hout
        · cases hout
  | update e pr =>
    have hupd := hi.update e pr
    generalize hout : znMinheapUpdateByEntry r.heap (some e) pr = out at hupd
    obtain ⟨c, g⟩ := out
    simp only [heapCall, hout] at hcall
    cases hcall
    have hbook : ∀ p, book r.queue (.update e pr) (.code c) p = none ↔ r.queue p = none :=
      fun _ => book_update_eq_none
    exact ⟨hupd.slots, fun p => (hupd.has_iff p).trans (not_congr (hbook p).symm), hupd.fresh,
      fun p hp hq => hupd.dead p hp ((hbook p).mp hq)⟩

/-- **Run lemma.** -/
theorem HandleInv.reach {capacity : Nat} (hcap : capacity < 2 ^ 32) {C : HeapRun → HeapOp → Prop}
    {r : HeapRun} (hr : (heapSystem capacity).Reach C r) : HandleInv r.heap r.queue := by
  apply TransSys.Reach.invariant (I := fun r => HandleInv r.heap r.queue) _ _ hr
  · intro r hr
    obtain rfl : r = ⟨znMinheapInit capacity, fun _ => none⟩ := hr
    exact .init capacity
  · intro r op r' hr hi _ hs
    obtain ⟨ret, h⟩ := hs
    exact hi.step (.reach hcap hr) h

/-- The update answers -1, and leaves the array and the entries in the heap. -/
structure RejectedWithoutEffect (r : HeapRun) (e p : Nat) : Prop where
  code : (znMinheapUpdateByEntry r.heap (some e) p).1 = -1
  arr : (znMinheapUpdateByEntry r.heap (some e) p).2.arr = r.heap.arr
  size : (znMinheapUpdateByEntry r.heap (some e) p).2.size = r.heap.size
  entry : ∀ x, r.queue x ≠ none →
    (znMinheapUpdateByEntry r.heap (some e) p).2.entry x = r.heap.entry x

/-- An index below the size is not rejected. -/
theorem update_code {h : ZnMinheap} {e : Nat} (hin : (h.entry e).index < h.size) (p : Nat) :
    (znMinheapUpdateByEntry h (some e) p).1 = 0 := by
  unfold znMinheapUpdateByEntry
  dsimp only
  rw [if_neg (Nat.not_le.mpr hin)]
  split
  · rfl
  · split
    · rfl
    · rfl

/-- **An update through a dead entry is rejected without effect if and only if
the heap is empty.** -/
theorem dead_update_rejected_iff {capacity : Nat} (hcap : capacity < 2 ^ 32) {r : HeapRun}
    (hr : (heapSystem capacity).Reach (fun r op => op.Given r) r) {e : Nat} (he : r.Dead e)
    (p : Nat) : RejectedWithoutEffect r e p ↔ r.heap.size = 0 := by
  have hidx := (HandleInv.reach hcap hr).dead e he.1 he.2
  constructor
  · intro hrej
    by_contra h0
    have hzero := update_code (h := r.heap) (e := e) (by omega) p
    rw [hrej.code] at hzero
    cases hzero
  · intro h0
    have hsame : znMinheapUpdateByEntry r.heap (some e) p = (-1, r.heap) := by
      unfold znMinheapUpdateByEntry
      dsimp only
      rw [if_pos (by omega)]
    constructor
    · rw [hsame]
    · rw [hsame]
    · rw [hsame]
    · intro x _
      rw [hsame]

instance HeapOp.decGiven (r : HeapRun) : (op : HeapOp) → Decidable (op.Given r)
  | .insert _ _ | .extractMin => isTrue trivial
  | .update e _ => inferInstanceAs (Decidable (e < r.heap.next))

/-- The only entry is taken out: an update through it is rejected. -/
theorem dead_update_rejected_last :
    ∃ r, (heapSystem 4).Reach (fun r op => op.Given r) r ∧ r.Dead 0
      ∧ RejectedWithoutEffect r 0 9 := by
  obtain ⟨r, hr, hp⟩ := TransSys.Reach.exists_of_exec
    (heapReplayIf_sound (C := fun r op => op.Given r) 4) rfl
    (fun r => r.heap.next = 1 ∧ r.queue 0 = none ∧ r.heap.size = 0) [.insert 70 1, .extractMin]
    (by decide)
  simp only [decide_eq_true_eq] at hp
  obtain ⟨hnext, hnone, h0⟩ := hp
  have hdead : r.Dead 0 := ⟨by omega, hnone⟩
  exact ⟨r, hr, hdead, (dead_update_rejected_iff (by decide) hr hdead 9).mpr h0⟩

/-- **A dead entry that is not rejected**: of two entries the first is taken
out, and an update through it answers 0. -/
theorem dead_update_accepted :
    ∃ r, (heapSystem 4).Reach (fun r op => op.Given r) r ∧ r.Dead 0
      ∧ (znMinheapUpdateByEntry r.heap (some 0) 9).1 = 0 ∧ ¬ RejectedWithoutEffect r 0 9 := by
  obtain ⟨r, hr, hp⟩ := TransSys.Reach.exists_of_exec
    (heapReplayIf_sound (C := fun r op => op.Given r) 4) rfl
    (fun r => r.heap.next = 2 ∧ r.queue 0 = none
      ∧ (znMinheapUpdateByEntry r.heap (some 0) 9).1 = 0)
    [.insert 70 1, .insert 80 4, .extractMin] (by decide)
  simp only [decide_eq_true_eq] at hp
  obtain ⟨hnext, hnone, hcode⟩ := hp
  refine ⟨r, hr, ⟨by omega, hnone⟩, hcode, fun hrej => ?_⟩
  rw [hrej.code] at hcode
  cases hcode

/-! ## §3. What an update through a dead entry does. -/

/-- An update of an entry that is not booked leaves the books. -/
theorem book_update_of_none {q : PQueue} {e pr : Nat} {c : Int} (he : q e = none) :
    book q (.update e pr) (.code c) = q := by
  rw [book_update, he, Option.map_none, ← he, Function.update_eq_self, ite_self]

/-- Entries that were inserted are updated, and the heap stays below `2 ^ 31`. -/
def HeapOp.SmallGiven (r : HeapRun) (op : HeapOp) : Prop :=
  op.Given r ∧ ∀ d pr, op = .insert d pr → r.heap.size + 1 < 2 ^ 31

/-- The books of a small heap, dead entries among those that are updated. -/
theorem heapBooks_given {capacity : Nat} {r : HeapRun}
    (hr : (heapSystem capacity).Reach (fun r op => op.SmallGiven r) r) :
    HeapBooks r.heap r.queue ∧ r.heap.size < 2 ^ 31 := by
  apply TransSys.Reach.invariant (I := fun r => HeapBooks r.heap r.queue ∧ r.heap.size < 2 ^ 31) _ _ hr
  · intro r hr
    obtain rfl : r = ⟨znMinheapInit capacity, fun _ => none⟩ := hr
    exact ⟨.init capacity, Nat.two_pow_pos 31⟩
  · intro r op r' _ hinv hop hs
    obtain ⟨hb, hsmall⟩ := hinv
    obtain ⟨ret, h⟩ := hs
    obtain ⟨⟨ret', h'⟩, hcall, heq⟩ := bind_eq_ok h
    cases heq
    show HeapBooks h' (book r.queue op ret) ∧ h'.size < 2 ^ 31
    cases op with
    | insert d pr =>
      have hlt := hop.2 d pr rfl
      obtain ⟨⟨e, g⟩, hins, heq⟩ := bind_eq_ok hcall
      cases heq
      obtain ⟨rfl, hb', -⟩ := hb.insert_ok hins (by omega)
      have hsize := insert_size hins
      exact ⟨hb', by omega⟩
    | extractMin =>
      by_cases h0 : r.heap.size = 0
      · have hout := (hb.extract_empty h0).1
        simp only [heapCall, hout] at hcall
        cases hcall
        exact ⟨hb, hsmall⟩
      · obtain ⟨g, d, pr, hout, -, -, hb', hsize, -⟩ := hb.extract h0 hsmall
        simp only [heapCall, hout] at hcall
        cases hcall
        exact ⟨hb', by omega⟩
    | update e pr =>
      have hsize := (update_frame r.heap (some e) pr).1
      cases he : r.queue e with
      | none =>
        have hb' := hb.update_unbooked he hsmall pr
        generalize hout : znMinheapUpdateByEntry r.heap (some e) pr = out at hb' hsize
        obtain ⟨c, g⟩ := out
        simp only [heapCall, hout] at hcall
        cases hcall
        rw [book_update_of_none he]
        exact ⟨hb', Nat.lt_of_le_of_lt (Nat.le_of_eq hsize) hsmall⟩
      | some dp =>
        obtain ⟨g, hout, hb', -⟩ := hb.update he pr fun _ => hsmall
        rw [hout] at hsize
        simp only [heapCall, hout] at hcall
        cases hcall
        refine ⟨?_, Nat.lt_of_le_of_lt (Nat.le_of_eq hsize) hsmall⟩
        show HeapBooks h' (Function.update r.queue e ((r.queue e).map fun dp => (dp.1, pr)))
        rw [he]
        exact hb'

/-- **What happens instead**: in a heap with entries, the update answers 0, and
writes the priority of the dead entry. -/
theorem dead_update_harmless {capacity : Nat} (hcap : capacity < 2 ^ 32) {r : HeapRun}
    (hr : (heapSystem capacity).Reach (fun r op => op.SmallGiven r) r) {e : Nat} (he : r.Dead e)
    (h0 : r.heap.size ≠ 0) (p : Nat) :
    znMinheapUpdateByEntry r.heap (some e) p = (0, r.heap.setPriority e p) := by
  obtain ⟨hb, hsmall⟩ := heapBooks_given hr
  have hidx := (HandleInv.reach hcap hr).dead e he.1 he.2
  have hidx' : ((r.heap.setPriority e p).entry e).index = 0 :=
    (HeapBooks.setPriority_index ..).trans hidx
  have horder := hb.unbooked_order he.2 p
  -- the root is in order, so neither sift moves it
  have hroot : smallestOf (r.heap.setPriority e p) 0 = 0 := by
    have hpos : 0 < (r.heap.setPriority e p).size := Nat.pos_of_ne_zero h0
    rcases smallestOf_spec hpos hsmall with ⟨heq, -⟩ | ⟨-, hin, -, hlt, -⟩
    · exact heq
    · exact absurd hlt (Nat.not_lt.mpr (horder.root_le _ hin))
  have hdown : bubbleDown (r.heap.setPriority e p) 0 = r.heap.setPriority e p := by
    obtain ⟨n, hn⟩ := Nat.exists_eq_succ_of_ne_zero h0
    unfold bubbleDown
    rw [show (r.heap.setPriority e p).size = n + 1 from hn, bubbleDownLoop, hroot]
    rfl
  unfold znMinheapUpdateByEntry
  dsimp only
  rw [if_neg (by omega), hidx', hdown]
  split
  · rfl
  · split
    · rfl
    · rfl

end ZnCache
