/-
  ZnCache.Lib.Drive — a program that runs alone.

  A program is a step function: a step is given an answer by the environment,
  and goes on, faults, or waits for others (`none`).  `drive` runs it for a
  number of steps, and `Total P s Q` is total correctness from `s`: whatever
  the answers, as long as each is in `P`, some number of steps brings a result
  in `Q`.  The rules go backwards from the result, one step at a time; a loop
  is an induction over what is left of it.  `step_iff` and `result_iff` go both
  ways, and `not_of_invariant` shows where a program is not total.
-/
import Mathlib.Logic.Basic

namespace ZnCache.Lib

universe u v w x

/-- A program, and the results of its final states. -/
structure Program (S : Type u) (A : Type v) (F : Type w) (R : Type x) where
  step : A → S → Option (Except F S)
  result : S → Option R

namespace Program

variable {S : Type u} {A : Type v} {F : Type w} {R : Type x}

/-- The outcome of at most `n` steps, if there is one. -/
def drive (p : Program S A F R) : Nat → (Nat → A) → S → Option (Except F R)
  | 0, _, _ => none
  | n + 1, answers, s =>
    match p.result s with
    | some r => some (.ok r)
    | none =>
      match p.step (answers 0) s with
      | none => none
      | some (.error f) => some (.error f)
      | some (.ok s') => p.drive n (fun i => answers (i + 1)) s'

variable {p : Program S A F R}

theorem drive_result {s : S} {r : R} (h : p.result s = some r) (n : Nat) (answers : Nat → A) :
    p.drive (n + 1) answers s = some (.ok r) := by
  simp only [drive, h]

theorem drive_step {s s' : S} {answers : Nat → A} (hres : p.result s = none)
    (h : p.step (answers 0) s = some (.ok s')) (n : Nat) :
    p.drive (n + 1) answers s = p.drive n (fun i => answers (i + 1)) s' := by
  simp only [drive, hres, h]

/-- More steps do not change the outcome. -/
theorem drive_mono : ∀ (n m : Nat) (answers : Nat → A) (s : S) (x : Except F R),
    p.drive n answers s = some x → n ≤ m → p.drive m answers s = some x := by
  intro n
  induction n with
  | zero => intro m answers s x h; cases h
  | succ n ih =>
    intro m answers s x h hle
    cases m with
    | zero => omega
    | succ m =>
      unfold drive at h ⊢
      split at h
      · exact h
      · split at h
        · cases h
        · exact h
        · exact ih m _ _ x h (by omega)

/-! ## Total correctness. -/

/-- **On answers in `P`, the program returns**, with a result in `Q`. -/
def Total (p : Program S A F R) (P : A → Prop) (s : S) (Q : R → Prop) : Prop :=
  ∀ answers : Nat → A, (∀ i, P (answers i)) → ∃ n r, p.drive n answers s = some (.ok r) ∧ Q r

namespace Total

variable {P : A → Prop} {Q Q' : R → Prop} {s : S}

theorem returned {r : R} (h : p.result s = some r) (hq : Q r) : p.Total P s Q :=
  fun answers _ => ⟨1, r, drive_result h 0 answers, hq⟩

theorem step (hres : p.result s = none)
    (h : ∀ a, P a → ∃ s', p.step a s = some (.ok s') ∧ p.Total P s' Q) : p.Total P s Q := by
  intro answers hP
  obtain ⟨s', hs, htotal⟩ := h (answers 0) (hP 0)
  obtain ⟨n, r, hr, hq⟩ := htotal _ fun i => hP (i + 1)
  exact ⟨n + 1, r, (drive_step hres hs n).trans hr, hq⟩

theorem mono (h : p.Total P s Q) (hq : ∀ r, Q r → Q' r) : p.Total P s Q' := by
  intro answers hP
  obtain ⟨n, r, hr, hQ⟩ := h answers hP
  exact ⟨n, r, hr, hq r hQ⟩

/-- A program that returns whatever is answered does not fault on any answer,
and returns from there. -/
theorem next (h : p.Total P s Q) (hres : p.result s = none) {a : A} (ha : P a) :
    ∃ s', p.step a s = some (.ok s') ∧ p.Total P s' Q := by
  -- put the answer in front of any others
  have hfront : ∀ answers : Nat → A, (∀ i, P (answers i)) →
      ∃ s', p.step a s = some (.ok s') ∧ ∃ n r, p.drive n answers s' = some (.ok r) ∧ Q r := by
    intro answers hP
    obtain ⟨n, r, hr, hq⟩ := h (fun i => Nat.casesOn i a answers) fun i => by
      cases i with
      | zero => exact ha
      | succ i => exact hP i
    cases n with
    | zero => cases hr
    | succ n =>
      unfold drive at hr
      rw [hres] at hr
      dsimp only at hr
      split at hr
      · cases hr
      · cases hr
      · rename_i s' hs
        exact ⟨s', hs, n, r, hr, hq⟩
  obtain ⟨s', hs, -⟩ := hfront (fun _ => a) fun _ => ha
  refine ⟨s', hs, ?_⟩
  intro answers hP
  obtain ⟨s'', hs'', hrest⟩ := hfront answers hP
  rw [hs] at hs''
  cases hs''
  exact hrest

/-- A step that no answer changes can be skipped, in both directions. -/
theorem step_iff {s' : S} (hres : p.result s = none) (hP : ∃ a, P a)
    (h : ∀ a, P a → p.step a s = some (.ok s')) : p.Total P s Q ↔ p.Total P s' Q := by
  constructor
  · intro htotal
    obtain ⟨a, ha⟩ := hP
    obtain ⟨s'', hs'', htotal'⟩ := htotal.next hres ha
    rw [h a ha] at hs''
    cases hs''
    exact htotal'
  · exact fun htotal => .step hres fun a ha => ⟨s', h a ha, htotal⟩

/-- At a result there is nothing left to do. -/
theorem result_iff {r : R} (hres : p.result s = some r) (hP : ∃ a, P a) :
    p.Total P s Q ↔ Q r := by
  constructor
  · intro htotal
    obtain ⟨a, ha⟩ := hP
    obtain ⟨n, r', hr', hq⟩ := htotal (fun _ => a) fun _ => ha
    cases n with
    | zero => cases hr'
    | succ n =>
      rw [drive_result hres] at hr'
      cases hr'
      exact hq
  · exact fun hq => .returned hres hq

/-- **A program that stays where there are no results** is not total: it faults,
waits or goes on for ever. -/
theorem not_of_invariant {I : S → Prop} {a : A} (ha : P a) (hres : ∀ s, I s → p.result s = none)
    (hstep : ∀ s s', I s → p.step a s = some (.ok s') → I s') (h : I s) : ¬ p.Total P s Q := by
  have hnever : ∀ n s, I s → ∀ r, p.drive n (fun _ => a) s ≠ some (.ok r) := by
    intro n
    induction n with
    | zero =>
      intro s _ r hr
      cases hr
    | succ n ih =>
      intro s hI r hr
      unfold drive at hr
      rw [hres s hI] at hr
      dsimp only at hr
      split at hr
      · cases hr
      · cases hr
      · rename_i s' hs
        exact ih s' (hstep s s' hI hs) r hr
  intro htotal
  obtain ⟨n, r, hr, -⟩ := htotal (fun _ => a) fun _ => ha
  exact hnever n s h r hr

end Total

end Program

end ZnCache.Lib
