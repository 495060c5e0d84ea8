/-
  ZnCache.Lib.Pieces — a transfer in pieces.

  A loop asks its environment for one piece after the other, until it has
  `size` units or an answer makes it stop.  An answer counts for some units,
  and may count for none; the loop puts something for it.  `transfer` is the
  loop, and `pieces` lists what it asks for: how far it is by then, and what it
  is answered.

  Answers come as a list where the loop is run, and as a stream where it is
  reasoned about; `asks` says which answers of a stream are asked for.

  Main results:
    * `mem_pieces_iff` — the pieces are the answers that are asked for,
    * `transfer_isSome_iff` — the loop is over when it asks for no more,
    * `transfer_rule` — the invariant rule,
    * `exists_not_asks` — the loop ends, if answers count now and then.
-/
import Mathlib.Algebra.BigOperators.Group.Finset.Basic
import Mathlib.Algebra.Order.BigOperators.Group.Finset

namespace ZnCache.Lib

universe u v

/-- The first `n` answers of a stream. -/
def firstOf {A : Type u} (n : Nat) (answers : Nat → A) : List A := (List.range n).map answers

theorem firstOf_succ {A : Type u} (n : Nat) (answers : Nat → A) :
    firstOf (n + 1) answers = answers 0 :: firstOf n fun i => answers (i + 1) := by
  unfold firstOf
  rw [List.range_succ_eq_map, List.map_cons, List.map_map]
  rfl

namespace Pieces

variable {A : Type u} (count : A → Nat) (goesOn : A → Prop) [DecidablePred goesOn] (size : Nat)

/-- What the loop asks for on a list of answers, from `total` on. -/
def pieces : List A → Nat → List (Nat × A)
  | [], _ => []
  | a :: rest, total =>
    if total < size then
      (total, a) :: if goesOn a then pieces rest (total + count a) else []
    else []

/-- The loop from `total` on: how far it comes, the answer that makes it stop
if one does, and what was put; `none` if there are too few answers. -/
def transfer {S : Type v} (put : Nat → A → S → S) :
    List A → Nat → S → Option (Nat × Option A × S)
  | [], total, s => if total < size then none else some (total, none, s)
  | a :: rest, total, s =>
    if total < size then
      if goesOn a then transfer put rest (total + count a) (put total a s)
      else some (total, some a, put total a s)
    else some (total, none, s)

/-- How far `k` answers bring the loop. -/
def done (answers : Nat → A) (k : Nat) : Nat := ∑ j ∈ Finset.range k, count (answers j)

omit [DecidablePred goesOn] in
/-- Answer `k` is asked for: no answer before has made the loop stop, and
something is left. -/
def asks (answers : Nat → A) (total k : Nat) : Prop :=
  (∀ j, j < k → goesOn (answers j)) ∧ total + done count answers k < size

variable {count goesOn size} {answers : Nat → A} {total k : Nat}

omit [DecidablePred goesOn]

theorem done_succ_left (answers : Nat → A) (k : Nat) :
    done count answers (k + 1) = count (answers 0) + done count (fun i => answers (i + 1)) k := by
  unfold done
  rw [Finset.sum_range_succ', Nat.add_comm]

theorem done_succ (answers : Nat → A) (k : Nat) :
    done count answers (k + 1) = done count answers k + count (answers k) :=
  Finset.sum_range_succ ..

theorem done_const (count : A → Nat) (a : A) (k : Nat) :
    done count (fun _ => a) k = k * count a := by
  induction k with
  | zero => simp [done]
  | succ k ih => rw [done_succ, ih, Nat.succ_mul]

theorem done_mono (count : A → Nat) (answers : Nat → A) {k m : Nat} (h : k ≤ m) :
    done count answers k ≤ done count answers m :=
  Finset.sum_le_sum_of_subset (Finset.range_mono h)

theorem asks_zero : asks count goesOn size answers total 0 ↔ total < size := by
  unfold asks
  constructor
  · exact fun h => h.2
  · intro h
    exact ⟨fun j hj => absurd hj (Nat.not_lt_zero j), h⟩

theorem asks_succ : asks count goesOn size answers total (k + 1)
    ↔ goesOn (answers 0)
      ∧ asks count goesOn size (fun i => answers (i + 1)) (total + count (answers 0)) k := by
  unfold asks
  rw [done_succ_left, ← Nat.add_assoc]
  constructor
  · intro h
    obtain ⟨hgoes, hleft⟩ := h
    exact ⟨hgoes 0 (Nat.succ_pos k), fun j hj => hgoes (j + 1) (Nat.succ_lt_succ hj), hleft⟩
  · intro h
    obtain ⟨hfirst, hgoes, hleft⟩ := h
    refine ⟨?_, hleft⟩
    intro j hj
    cases j with
    | zero => exact hfirst
    | succ j => exact hgoes j (Nat.lt_of_succ_lt_succ hj)

/-- What is asked for later is asked for from the start. -/
theorem asks_start (h : asks count goesOn size answers total k) : total < size :=
  Nat.lt_of_le_of_lt (Nat.le_add_right ..) h.2

/-- **The pieces are the answers that are asked for.** -/
theorem mem_pieces_iff [DecidablePred goesOn] (n : Nat) {off : Nat} {a : A} :
    (off, a) ∈ pieces count goesOn size (firstOf n answers) total
      ↔ ∃ k, k < n ∧ asks count goesOn size answers total k ∧ off = total + done count answers k
        ∧ a = answers k := by
  induction n generalizing answers total with
  | zero =>
    constructor
    · intro h
      cases h
    · intro h
      obtain ⟨k, hk, -⟩ := h
      exact absurd hk (Nat.not_lt_zero k)
  | succ n ih =>
    rw [firstOf_succ, pieces]
    by_cases hlt : total < size
    · rw [if_pos hlt, List.mem_cons]
      constructor
      · intro h
        rcases h with heq | hrest
        · obtain ⟨rfl, rfl⟩ := Prod.mk.inj heq
          exact ⟨0, Nat.succ_pos n, asks_zero.mpr hlt, rfl, rfl⟩
        · by_cases hgoes : goesOn (answers 0)
          · rw [if_pos hgoes, ih] at hrest
            obtain ⟨k, hk, hasks, rfl, rfl⟩ := hrest
            refine ⟨k + 1, Nat.succ_lt_succ hk, asks_succ.mpr ⟨hgoes, hasks⟩, ?_, rfl⟩
            rw [done_succ_left, Nat.add_assoc]
          · rw [if_neg hgoes] at hrest
            cases hrest
      · intro h
        obtain ⟨k, hk, hasks, rfl, rfl⟩ := h
        cases k with
        | zero => exact Or.inl rfl
        | succ k =>
          obtain ⟨hgoes, hrest⟩ := asks_succ.mp hasks
          right
          rw [if_pos hgoes, ih]
          exact ⟨k, Nat.lt_of_succ_lt_succ hk, hrest, by rw [done_succ_left, Nat.add_assoc], rfl⟩
    · rw [if_neg hlt]
      constructor
      · intro h
        cases h
      · intro h
        obtain ⟨k, -, hasks, -⟩ := h
        exact absurd (asks_start hasks) hlt

/-- What is made of the pieces, from the start. -/
theorem mem_map_pieces_iff [DecidablePred goesOn] {B : Type v} (f : Nat × A → B) (n : Nat) {b : B} :
    b ∈ (pieces count goesOn size (firstOf n answers) 0).map f
      ↔ ∃ k, k < n ∧ asks count goesOn size answers 0 k ∧ b = f (done count answers k, answers k) := by
  rw [List.mem_map]
  constructor
  · rintro ⟨⟨off, a⟩, hmem, rfl⟩
    obtain ⟨k, hk, hasks, rfl, rfl⟩ := (mem_pieces_iff n).mp hmem
    exact ⟨k, hk, hasks, by rw [Nat.zero_add]⟩
  · rintro ⟨k, hk, hasks, rfl⟩
    refine ⟨(done count answers k, answers k), ?_, rfl⟩
    exact (mem_pieces_iff n).mpr ⟨k, hk, hasks, by rw [Nat.zero_add], rfl⟩

section Rule

variable [DecidablePred goesOn] {S : Type v} {put : Nat → A → S → S}

/-- **The loop is over when it asks for no more.** -/
theorem transfer_isSome_iff (n : Nat) {s : S} :
    (transfer count goesOn size put (firstOf n answers) total s).isSome
      ↔ ¬ asks count goesOn size answers total n := by
  induction n generalizing answers total s with
  | zero =>
    rw [asks_zero]
    show (transfer count goesOn size put [] total s).isSome ↔ _
    rw [transfer]
    by_cases hlt : total < size
    · simp [hlt]
    · simp [hlt]
  | succ n ih =>
    rw [firstOf_succ, transfer]
    by_cases hlt : total < size
    · rw [if_pos hlt, asks_succ]
      by_cases hgoes : goesOn (answers 0)
      · rw [if_pos hgoes, ih]
        simp [hgoes]
      · simp [hgoes]
    · have hnot : ¬ asks count goesOn size answers total (n + 1) := fun h => hlt (asks_start h)
      simp [hlt, hnot]

/-- **The invariant rule.**  `I` is kept by what is put for an answer that
goes on; an answer that stops the loop, and the end of the loop, turn it into
`Q`. -/
theorem transfer_rule {I : Nat → S → Prop} {Q : Nat → Option A → S → Prop}
    (hnext : ∀ k s, asks count goesOn size answers total k → goesOn (answers k) →
      I (total + done count answers k) s →
        I (total + done count answers (k + 1))
          (put (total + done count answers k) (answers k) s))
    (hstop : ∀ k s, asks count goesOn size answers total k → ¬ goesOn (answers k) →
      I (total + done count answers k) s →
        Q (total + done count answers k) (some (answers k))
          (put (total + done count answers k) (answers k) s))
    (hend : ∀ k s, (∀ j, j < k → goesOn (answers j)) → size ≤ total + done count answers k →
      I (total + done count answers k) s → Q (total + done count answers k) none s)
    (n : Nat) {s : S} {t : Nat} {stop : Option A} {s' : S} (hinv : I total s)
    (h : transfer count goesOn size put (firstOf n answers) total s = some (t, stop, s')) :
    Q t stop s' := by
  induction n generalizing answers total s with
  | zero =>
    have h' : transfer count goesOn size put [] total s = some (t, stop, s') := h
    rw [transfer] at h'
    split at h'
    · cases h'
    · rename_i hge
      cases h'
      exact hend 0 _ (fun j hj => absurd hj (Nat.not_lt_zero j)) (Nat.le_of_not_lt hge) hinv
  | succ n ih =>
    rw [firstOf_succ, transfer] at h
    split at h
    · rename_i hlt
      split at h
      · rename_i hgoes
        -- what is asked for next is asked for one later from the start
        have hlater : ∀ k, total + count (answers 0) + done count (fun i => answers (i + 1)) k
            = total + done count answers (k + 1) := by
          intro k
          rw [done_succ_left, Nat.add_assoc]
        have hinv' : I (total + count (answers 0)) (put total (answers 0) s) := by
          simpa [done] using hnext 0 s (asks_zero.mpr hlt) hgoes (by simpa [done] using hinv)
        refine ih ?_ ?_ ?_ hinv' h
        · intro k s hasks hg hi
          rw [hlater] at hi ⊢
          rw [hlater]
          exact hnext (k + 1) s (asks_succ.mpr ⟨hgoes, hasks⟩) hg hi
        · intro k s hasks hg hi
          rw [hlater] at hi ⊢
          exact hstop (k + 1) s (asks_succ.mpr ⟨hgoes, hasks⟩) hg hi
        · intro k s hall hge hi
          rw [hlater] at hge hi ⊢
          refine hend (k + 1) s ?_ hge hi
          intro j hj
          cases j with
          | zero => exact hgoes
          | succ j => exact hall j (Nat.lt_of_succ_lt_succ hj)
      · rename_i hgoes
        cases h
        exact hstop 0 s (asks_zero.mpr hlt) hgoes hinv
    · rename_i hge
      cases h
      exact hend 0 _ (fun j hj => absurd hj (Nat.not_lt_zero j)) (Nat.le_of_not_lt hge) hinv

/-- The rule from the start. -/
theorem transfer_rule_start {I : Nat → S → Prop} {Q : Nat → Option A → S → Prop}
    (hnext : ∀ k s, asks count goesOn size answers 0 k → goesOn (answers k) →
      I (done count answers k) s →
        I (done count answers (k + 1)) (put (done count answers k) (answers k) s))
    (hstop : ∀ k s, asks count goesOn size answers 0 k → ¬ goesOn (answers k) →
      I (done count answers k) s →
        Q (done count answers k) (some (answers k)) (put (done count answers k) (answers k) s))
    (hend : ∀ k s, (∀ j, j < k → goesOn (answers j)) → size ≤ done count answers k →
      I (done count answers k) s → Q (done count answers k) none s)
    (n : Nat) {s : S} {t : Nat} {stop : Option A} {s' : S} (hinv : I 0 s)
    (h : transfer count goesOn size put (firstOf n answers) 0 s = some (t, stop, s')) :
    Q t stop s' := by
  refine transfer_rule (I := I) (Q := Q) ?_ ?_ ?_ n hinv h
  · intro k s
    simp only [Nat.zero_add]
    exact hnext k s
  · intro k s
    simp only [Nat.zero_add]
    exact hstop k s
  · intro k s
    simp only [Nat.zero_add]
    exact hend k s

end Rule

/-- **The loop ends**, if it is never left without an answer that counts or
stops it. -/
theorem exists_not_asks (h : ∀ k, ∃ m, k ≤ m ∧ (goesOn (answers m) → 1 ≤ count (answers m))) :
    ∃ n, ¬ asks count goesOn size answers total n := by
  by_contra hall
  push Not at hall
  have hfar : ∀ b, ∃ k, b ≤ done count answers k := by
    intro b
    induction b with
    | zero => exact ⟨0, Nat.zero_le _⟩
    | succ b ih =>
      obtain ⟨k, hk⟩ := ih
      obtain ⟨m, hm, hcounts⟩ := h k
      have hone := hcounts ((hall (m + 1)).1 m (Nat.lt_succ_self m))
      have hmono := done_mono count answers hm
      refine ⟨m + 1, ?_⟩
      rw [done_succ]
      omega
  obtain ⟨k, hk⟩ := hfar size
  have hleft := (hall k).2
  omega

end Pieces

end ZnCache.Lib
