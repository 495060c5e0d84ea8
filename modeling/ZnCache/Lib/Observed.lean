/-
  ZnCache.Lib.Observed — a system, and what an observer notes of its runs.

  An observer starts with a note and rewrites it at every step, from the state
  before, the label and the state after.  `T.observed` is the system with the
  note beside its state.  The observer does not interfere: every run has its
  note (`Reach.observe`), and every run with a note is a run (`Reach.forget`).
-/
import ZnCache.Lib.Transition

namespace ZnCache.Lib.TransSys

universe u v w

variable {σ : Type u} {ℓ : Type v} {N : Type w}

/-- The runs of `T`, with a note that is `blank` at the start. -/
def observed (T : TransSys σ ℓ) (blank : N) (note : N → σ → ℓ → σ → N) : TransSys (σ × N) ℓ where
  init x := T.init x.1 ∧ x.2 = blank
  step x l x' := T.step x.1 l x'.1 ∧ x'.2 = note x.2 x.1 l x'.1

variable {T : TransSys σ ℓ} {C : σ → ℓ → Prop} {blank : N} {note : N → σ → ℓ → σ → N}

/-- Every run has its note. -/
theorem Reach.observe {s : σ} (hr : T.Reach C s) :
    ∃ n, (T.observed blank note).Reach (fun x l => C x.1 l) (s, n) := by
  induction hr with
  | start h => exact ⟨blank, .start ⟨h, rfl⟩⟩
  | @next s s' l _ hc hs ih =>
    obtain ⟨n, hn⟩ := ih
    exact ⟨note n s l s', .next hn hc ⟨hs, rfl⟩⟩

/-- A run with a note is a run. -/
theorem Reach.forget {x : σ × N} (hr : (T.observed blank note).Reach (fun x l => C x.1 l) x) :
    T.Reach C x.1 := by
  induction hr with
  | start h => exact .start h.1
  | next _ hc hs ih => exact .next ih hc hs.1

/-- **Invariant rule**, for the state with its note. -/
theorem Reach.observed_invariant {I : σ → N → Prop} (h0 : ∀ s, T.init s → I s blank)
    (hstep : ∀ s n l s', T.Reach C s → I s n → C s l → T.step s l s' → I s' (note n s l s'))
    {s : σ} {n : N} (hr : (T.observed blank note).Reach (fun x l => C x.1 l) (s, n)) : I s n := by
  refine hr.invariant (I := fun x => I x.1 x.2) ?_ ?_
  · rintro ⟨s, n⟩ ⟨hs, rfl⟩
    exact h0 s hs
  · rintro x l x' hr h hc ⟨hs, hnote⟩
    rw [hnote]
    exact hstep x.1 x.2 l x'.1 hr.forget h hc hs

end ZnCache.Lib.TransSys
