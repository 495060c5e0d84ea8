/-
  ZnCache.Lib.Transition — labelled transition systems, reachability under a
  step condition, and the two rules every run-level result goes through.

  A system is an initial predicate and a labelled step relation.  `Reach C s`
  says that `s` is reached by a run ALL of whose steps meet the condition `C`
  (a predicate of the state before the step and the label).  With
  `C := fun _ _ => True` this is plain reachability.

  Main results:
    * `Reach.invariant` — "holds initially, kept by every admissible step"
      gives "holds in every reachable state".
    * `Reach.simulate` — an abstraction function that maps every step to a
      step (or to no change) carries reachability to the abstract system.
    * `Inevitable.of_measure` — progress, and a measure that every step lowers,
      bring every run to its end.
    * `Reach.of_exec` — a run replayed by an executable step function is a run.
-/
import Mathlib.Logic.Basic

namespace ZnCache.Lib

universe u v w x

/-- A labelled transition system. -/
structure TransSys (σ : Type u) (ℓ : Type v) where
  /-- The initial states. -/
  init : σ → Prop
  /-- One step, under a label. -/
  step : σ → ℓ → σ → Prop

namespace TransSys

variable {σ : Type u} {ℓ : Type v} {τ : Type w} {κ : Type x}

/-- The states reached by the runs all of whose steps meet `C`. -/
inductive Reach (T : TransSys σ ℓ) (C : σ → ℓ → Prop) : σ → Prop
  | start {s : σ} (h : T.init s) : Reach T C s
  | next {s s' : σ} {l : ℓ} (hr : Reach T C s) (hc : C s l) (hs : T.step s l s') :
      Reach T C s'

/-- Every step is admissible. -/
abbrev Any : σ → ℓ → Prop := fun _ _ => True

/-! ## §1. The invariant rule. -/

/-- **Invariant rule.**  The step case may use that the state is reached. -/
theorem Reach.invariant {T : TransSys σ ℓ} {C : σ → ℓ → Prop} {I : σ → Prop}
    (h0 : ∀ s, T.init s → I s)
    (hstep : ∀ s l s', T.Reach C s → I s → C s l → T.step s l s' → I s')
    {s : σ} (hr : T.Reach C s) : I s := by
  induction hr with
  | start h => exact h0 _ h
  | next hr hc hs ih => exact hstep _ _ _ hr ih hc hs

/-- A weaker step condition admits more runs. -/
theorem Reach.mono {T : TransSys σ ℓ} {C D : σ → ℓ → Prop}
    (hCD : ∀ s l, C s l → D s l) {s : σ} (hr : T.Reach C s) : T.Reach D s := by
  induction hr with
  | start h => exact .start h
  | next _ hc hs ih => exact .next ih (hCD _ _ hc) hs

/-! ## §2. The simulation rule. -/

/-- **Simulation rule.**  If `f` maps initial states to initial states, and
every step to an admissible abstract step or to no change at all, it maps
reached states to reached states. -/
theorem Reach.simulate {T : TransSys σ ℓ} {A : TransSys τ κ}
    {C : σ → ℓ → Prop} {D : τ → κ → Prop} (f : σ → τ)
    (h0 : ∀ s, T.init s → A.init (f s))
    (hstep : ∀ s l s', T.Reach C s → A.Reach D (f s) → C s l → T.step s l s' →
      f s' = f s ∨ ∃ k, D (f s) k ∧ A.step (f s) k (f s'))
    {s : σ} (hr : T.Reach C s) : A.Reach D (f s) := by
  induction hr with
  | start h => exact .start (h0 _ h)
  | next hr hc hs ih =>
    rcases hstep _ _ _ hr ih hc hs with heq | ⟨k, hk, hks⟩
    · rw [heq]; exact ih
    · exact .next ih hk hks

/-! ## §3. Replaying a run. -/

/-- Replay a list of labels with an executable step. -/
def execAll (f : σ → ℓ → Option σ) : List ℓ → σ → Option σ
  | [], s => some s
  | l :: ls, s => (f s l).bind (execAll f ls)

/-- What an executable step replays is a run of the system. -/
theorem Reach.of_exec {T : TransSys σ ℓ} {C : σ → ℓ → Prop}
    {f : σ → ℓ → Option σ} (hf : ∀ s l s', f s l = some s' → C s l ∧ T.step s l s') :
    ∀ (ls : List ℓ) (s s' : σ), T.Reach C s → execAll f ls s = some s' → T.Reach C s'
  | [], s, s', hr, h => by
      injection h with h
      exact h ▸ hr
  | l :: ls, s, s', hr, h => by
      simp only [execAll, Option.bind_eq_some_iff] at h
      obtain ⟨m, hm, hrest⟩ := h
      obtain ⟨hc, hs⟩ := hf _ _ _ hm
      exact Reach.of_exec hf ls m s' (.next hr hc hs) hrest

/-- A replayed run that ends in a state passing a test reaches such a state. -/
theorem Reach.exists_of_exec {T : TransSys σ ℓ} {C : σ → ℓ → Prop} {f : σ → ℓ → Option σ}
    (hf : ∀ s l s', f s l = some s' → C s l ∧ T.step s l s') {s : σ} (h0 : T.init s)
    (p : σ → Bool) (ls : List ℓ) (h : (execAll f ls s).any p = true) :
    ∃ s', T.Reach C s' ∧ p s' = true := by
  cases he : execAll f ls s with
  | none => rw [he] at h; simp at h
  | some s' =>
    rw [he] at h
    exact ⟨s', Reach.of_exec hf ls s s' (.start h0) he, by simpa using h⟩

/-! ## §4. Where every schedule ends. -/

/-- Every run from `s` comes to a state in `P`, whatever moves next. -/
inductive Inevitable (T : TransSys σ ℓ) (P : σ → Prop) : σ → Prop
  | now {s : σ} (h : P s) : Inevitable T P s
  | later {s : σ} (hstep : ∃ l s', T.step s l s')
      (hall : ∀ l s', T.step s l s' → Inevitable T P s') : Inevitable T P s

/-- **Measure rule.** -/
theorem Inevitable.of_measure {T : TransSys σ ℓ} {P I : σ → Prop} (m : σ → Nat)
    (hprogress : ∀ s, I s → ¬ P s → ∃ l s', T.step s l s')
    (hstep : ∀ s l s', I s → ¬ P s → T.step s l s' → I s' ∧ m s' < m s) :
    ∀ s, I s → T.Inevitable P s := by
  have key : ∀ n s, m s ≤ n → I s → T.Inevitable P s := by
    intro n
    induction n with
    | zero =>
      intro s hm hi
      by_cases hp : P s
      · exact .now hp
      · -- a measure of zero leaves no step to take
        refine .later (hprogress s hi hp) fun l s' hs => ?_
        have hlt := (hstep s l s' hi hp hs).2
        omega
    | succ n ih =>
      intro s hm hi
      by_cases hp : P s
      · exact .now hp
      · refine .later (hprogress s hi hp) fun l s' hs => ?_
        obtain ⟨hi', hlt⟩ := hstep s l s' hi hp hs
        exact ih s' (by omega) hi'
  exact fun s => key (m s) s (Nat.le_refl _)

/-- What every step keeps, and excludes the end, is never left. -/
theorem not_inevitable {T : TransSys σ ℓ} {P I : σ → Prop} (hno : ∀ s, I s → ¬ P s)
    (hstep : ∀ s l s', I s → T.step s l s' → I s') {s : σ} (hi : I s) : ¬ T.Inevitable P s := by
  intro h
  induction h with
  | now hp => exact hno _ hi hp
  | later hs _ ih =>
    obtain ⟨l, s', hs⟩ := hs
    exact ih l s' hs (hstep _ l s' hi hs)

end TransSys

end ZnCache.Lib
