/-
  ZnCache.MinHeap.Emptied — taking everything out of the heap.

  `zn_policy_chunk_gc` takes zones out of `invalid_pqueue` one after the other.
  What the calls answer, taken together, is what a priority queue is for: every
  entry once, in order of priority, and NULL after the last.  The heap is any
  that calls lead to, updates through entries that were taken out among them.

  Main result: `extractions_sorted`.
-/
import ZnCache.MinHeap.Handles

namespace ZnCache

open Lib ZnMinheap

/-- At most `n` calls of `zn_minheap_extract_min`, up to the first NULL: the
entries they answer, and the heap. -/
def extractions : Nat → ZnMinheap → List Nat × ZnMinheap
  | 0, h => ([], h)
  | n + 1, h =>
    match znMinheapExtractMin h with
    | (none, h') => ([], h')
    | (some e, h') => (e :: (extractions n h').1, (extractions n h').2)

/-- `e` comes before `f`, by the books. -/
def PQueue.Before (q : PQueue) (e f : Nat) : Prop :=
  ∀ d pr d' pr', q e = some (d, pr) → q f = some (d', pr') → pr ≤ pr'

/-- **All entries, in order**, from a heap that the books describe. -/
theorem HeapBooks.extractions_spec (n : Nat) : ∀ {h : ZnMinheap} {q : PQueue}, HeapBooks h q →
    h.size = n → n < 2 ^ 31 →
    (extractions n h).1.Nodup ∧ (∀ e, e ∈ (extractions n h).1 ↔ q e ≠ none)
      ∧ (extractions n h).1.Pairwise q.Before ∧ (extractions n h).2.size = 0
      ∧ ∀ p, ((extractions n h).2.entry p).data = (h.entry p).data := by
  induction n with
  | zero =>
    intro h q hb h0 _
    obtain ⟨-, hnone⟩ := hb.extract_empty h0
    unfold extractions
    refine ⟨List.nodup_nil, fun e => ?_, List.Pairwise.nil, h0, fun _ => rfl⟩
    simp [hnone]
  | succ n ih =>
    intro h q hb hsize hsmall
    obtain ⟨h', d, pr, hout, hd, hmin, hb', hsize', -⟩ := hb.extract (by omega) (by omega)
    obtain ⟨-, -, hdata⟩ := extract_ok hout
    obtain ⟨hnodup, hmem, hsorted, hempty, hkeep⟩ := ih hb' (by omega) (by omega)
    -- what is left is booked, and is not the root
    have hrest : ∀ f, f ∈ (extractions n h').1 ↔ q f ≠ none ∧ f ≠ h.arr 0 := by
      intro f
      rw [hmem f]
      by_cases hf : f = h.arr 0
      · simp [hf]
      · simp [hf]
    have hsame : ∀ f, f ∈ (extractions n h').1 → Function.update q (h.arr 0) none f = q f :=
      fun f hf => Function.update_of_ne ((hrest f).mp hf).2 _ _
    rw [extractions, hout]
    refine ⟨List.nodup_cons.mpr ⟨fun hin => ((hrest _).mp hin).2 rfl, hnodup⟩, fun e => ?_,
      List.pairwise_cons.mpr ⟨fun f hf => ?_, ?_⟩, hempty, fun p => (hkeep p).trans (hdata p)⟩
    · rw [List.mem_cons, hrest e]
      by_cases he : e = h.arr 0
      · simp [he, hd]
      · simp [he]
    · -- the root is no later than any other
      intro d₁ pr₁ d₂ pr₂ hroot hf'
      rw [hd] at hroot
      cases hroot
      exact hmin _ _ _ hf'
    · refine hsorted.imp_of_mem fun {e f} he hf hbefore => ?_
      intro d₁ pr₁ d₂ pr₂ he' hf'
      exact hbefore d₁ pr₁ d₂ pr₂ (by rw [hsame e he, he']) (by rw [hsame f hf, hf'])

/-- **EMPTYING THE HEAP SORTS IT.**  After any calls, as many extractions as the
heap has entries answer each entry once, by rising priority as it was last set,
with the data it was inserted with; and the next answers NULL. -/
theorem extractions_sorted {capacity : Nat} {r : HeapRun}
    (hr : (heapSystem capacity).Reach (fun r op => op.SmallGiven r) r) :
    ∃ es h, extractions r.heap.size r.heap = (es, h)
      ∧ es.Nodup ∧ (∀ e, e ∈ es ↔ r.queue e ≠ none) ∧ es.Pairwise r.queue.Before
      ∧ (∀ e d pr, r.queue e = some (d, pr) → (h.entry e).data = d)
      ∧ znMinheapExtractMin h = (none, h) := by
  obtain ⟨hb, hsmall⟩ := heapBooks_given hr
  obtain ⟨hnodup, hmem, hsorted, hempty, hdata⟩ := hb.extractions_spec r.heap.size rfl hsmall
  refine ⟨_, _, rfl, hnodup, hmem, hsorted, fun e d pr he => ?_, ?_⟩
  · rw [hdata e]
    exact (hb.holds e d pr he).1
  · unfold znMinheapExtractMin
    rw [if_pos hempty]

instance HeapOp.decSmallGiven (r : HeapRun) : (op : HeapOp) → Decidable (op.SmallGiven r)
  | .insert d pr => decidable_of_iff (r.heap.size + 1 < 2 ^ 31)
      ⟨fun h => ⟨trivial, fun _ _ _ => h⟩, fun h => h.2 d pr rfl⟩
  | .extractMin => isTrue ⟨trivial, fun _ _ h => by cases h⟩
  | .update e _ => decidable_of_iff (e < r.heap.next)
      ⟨fun h => ⟨h, fun _ _ h => by cases h⟩, fun h => h.1⟩

/-- Of three entries the last is taken out, and updated all the same; then the
first is raised. -/
theorem extractions_sorted_three : ∃ r : HeapRun, (extractions r.heap.size r.heap).1 = [1, 0]
    ∧ (extractions r.heap.size r.heap).1.Pairwise r.queue.Before := by
  obtain ⟨r, hr, hp⟩ := TransSys.Reach.exists_of_exec
    (heapReplayIf_sound (C := fun r op => op.SmallGiven r) 1) rfl
    (fun r => (extractions r.heap.size r.heap).1 = [1, 0])
    [.insert 70 1, .insert 80 4, .insert 90 0, .extractMin, .update 2 7, .update 0 9] (by decide)
  obtain ⟨es, h, heq, -, -, hsorted, -⟩ := extractions_sorted hr
  refine ⟨r, of_decide_eq_true hp, ?_⟩
  rw [heq]
  exact hsorted

end ZnCache
