/-
  ZnCache.Lib.Leads — states that some run leads to.

  `Leads T D P s` says that a run from `s`, all of whose steps meet `D`, comes
  to a state in `P`.  A system in which every reached state leads to its end has
  no trap: no deadlock, and no loop that cannot be left.

  Main results:
    * `Leads.trans` — runs are put one after the other,
    * `Leads.of_rounds` — rounds that lower a well-founded measure lead to where
      there are no more rounds,
    * `Leads.of_measure` — the same for single steps.
-/
import ZnCache.Lib.Transition
import Mathlib.Order.WellFounded

namespace ZnCache.Lib.TransSys

universe u v w

variable {σ : Type u} {ℓ : Type v} {α : Type w}

/-- Some run from here, all of whose steps meet `D`, comes to a state in `P`. -/
inductive Leads (T : TransSys σ ℓ) (D : σ → ℓ → Prop) (P : σ → Prop) : σ → Prop
  | now {s : σ} (h : P s) : Leads T D P s
  | later {s s' : σ} {l : ℓ} (hd : D s l) (hs : T.step s l s') (h : Leads T D P s') : Leads T D P s

namespace Leads

variable {T : TransSys σ ℓ} {D : σ → ℓ → Prop} {P Q I : σ → Prop} {s : σ}

/-- One run after the other. -/
theorem trans (h : T.Leads D P s) (hPQ : ∀ s, P s → T.Leads D Q s) : T.Leads D Q s := by
  induction h with
  | now hp => exact hPQ _ hp
  | later hd hs _ ih => exact .later hd hs ih

theorem mono (h : T.Leads D P s) (hPQ : ∀ s, P s → Q s) : T.Leads D Q s :=
  h.trans fun _ hp => .now (hPQ _ hp)

/-- What a run leads to is reached. -/
theorem reach {C : σ → ℓ → Prop} (hDC : ∀ s l, D s l → C s l) (h : T.Leads D P s)
    (hr : T.Reach C s) : ∃ s', T.Reach C s' ∧ P s' := by
  induction h with
  | now hp => exact ⟨_, hr, hp⟩
  | later hd hs _ ih => exact ih (.next hr (hDC _ _ hd) hs)

/-- **Rounds.**  While there is another round, and rounds lower a well-founded
measure, some run comes to where there is none. -/
theorem of_rounds {r : α → α → Prop} (hwf : WellFounded r) (m : σ → α)
    (hround : ∀ s, I s → ¬ P s → T.Leads D (fun s' => I s' ∧ r (m s') (m s)) s) :
    ∀ s, I s → T.Leads D (fun s' => I s' ∧ P s') s := by
  have key : ∀ n s, m s = n → I s → T.Leads D (fun s' => I s' ∧ P s') s := by
    intro n
    induction n using hwf.induction with
    | _ n ih =>
      intro s hm hi
      by_cases hp : P s
      · exact .now ⟨hi, hp⟩
      · refine (hround s hi hp).trans fun s' hs' => ?_
        obtain ⟨hi', hlt⟩ := hs'
        exact ih (m s') (hm ▸ hlt) s' rfl hi'
  exact fun s => key (m s) s rfl

/-- **Steps.**  While some step lowers a measure, some run comes to where none
does. -/
theorem of_measure (m : σ → Nat)
    (hstep : ∀ s, I s → ¬ P s → ∃ l s', D s l ∧ T.step s l s' ∧ I s' ∧ m s' < m s) :
    ∀ s, I s → T.Leads D (fun s' => I s' ∧ P s') s := by
  refine of_rounds Nat.lt_wfRel.wf m fun s hi hp => ?_
  obtain ⟨l, s', hd, hs, hi', hlt⟩ := hstep s hi hp
  exact .later hd hs (.now ⟨hi', hlt⟩)

end Leads

end ZnCache.Lib.TransSys
