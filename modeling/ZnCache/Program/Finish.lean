/-
  ZnCache.Program.Finish — the program can come to its end.

  Under the promotional policy: whatever the threads have done so far, if the
  device has succeeded and the end of the workload was not signalled before
  `main` waits for it, some schedule of the threads brings the program to its
  end, with the workload drained.

  What the cache can be led to, the program can be led to (`Running.lift`): a
  worker returns from its call, and the eviction thread from its round.  So all
  calls can be finished first, and then, one at a time, a worker takes its next
  index or is counted, and `evict_task` and `main` come to their ends.

  Main result: `program_can_finish`.
-/
import ZnCache.Program.Served
import ZnCache.Promotional.Finish

namespace ZnCache

open Lib Lib.ThreadPool

universe u

variable {P E : Type} {pol : EvictPolicy P E} {g : Geometry} {rb : Buffer} {Tid : Type u}
  [DecidableEq Tid] [Fintype Tid] {buffer : Nat → Nat} {workloadMax : Nat}

/-! ## §1. What is assumed. -/

/-- `main` is in `g_main_loop_run` when the last worker is counted. -/
def ProgramLabel.Heard (s : ProgramState P E Tid) : ProgramLabel Tid → Prop
  | .count _ => s.work.nrThreadsCompleted + 1 = Fintype.card Tid → s.work.main = .inLoop
  | .take _ | .step .. | .ret _ | .evictTask | .main => True

instance ProgramLabel.decHeard (s : ProgramState P E Tid) : (l : ProgramLabel Tid) → Decidable (l.Heard s)
  | .count _ => inferInstanceAs (Decidable (_ → _))
  | .take _ | .step .. | .ret _ | .evictTask | .main => isTrue trivial

/-- The device succeeds, and the signal is heard. -/
def ProgramLabel.Proper (g : Geometry) (s : ProgramState P E Tid) (l : ProgramLabel Tid) : Prop :=
  l.Meets (fun _ k => k.ZoneOk g ∧ k.TransferOk g) s ∧ l.Heard s

instance ProgramLabel.decProper (g : Geometry) (s : ProgramState P E Tid) (l : ProgramLabel Tid) :
    Decidable (l.Proper g s) :=
  inferInstanceAs (Decidable (_ ∧ _))

/-- The device does what it is asked for. -/
def SysLabel.Obeyed {T : Type u} (g : Geometry) : SysLabel T → Prop
  | .step _ a => a.Obeys g
  | .get .. | .fgEvict _ | .evictTask _ | .ret _ => True

/-- The device does what it is asked for, and the signal is heard. -/
def ProgramLabel.Obeyed (g : Geometry) (s : ProgramState P E Tid) (l : ProgramLabel Tid) : Prop :=
  l.Meets (fun _ k => k.Obeyed g) s ∧ l.Heard s

theorem ProgramLabel.Obeyed.proper {s : ProgramState P E Tid} {l : ProgramLabel Tid} (h : l.Obeyed g s) :
    l.Proper g s := by
  refine ⟨fun k hk => ?_, h.2⟩
  have hobeyed := h.1 k hk
  cases k with
  | step t a => exact ⟨hobeyed.1, hobeyed.2.1, hobeyed.2.2.2⟩
  | get | fgEvict | evictTask | ret => exact ⟨trivial, trivial⟩

/-! ## §2. `main` and the signal. -/

/-- **Where `main` is**: before its loop, in it, or past the signal. -/
def MainInv (w : Workers Tid) : Prop :=
  w.main = .setUp ∨ (w.main = .inLoop ∧ w.isRunning = true) ∨ w.told = true

theorem MainInv.step {w w' : Workers Tid} {l : WorkLabel Tid} (h : MainInv w)
    (hs : workStep w l = some w') : MainInv w' := by
  cases workStep_cases hs with
  | leave | request | got | gotNull | evictTest | evictRound => exact h
  | count =>
    unfold countWorker
    dsimp only
    split
    · exact Or.inr (Or.inr rfl)
    · exact h
  | mainRuns => exact Or.inr (Or.inl ⟨rfl, rfl⟩)
  | mainLeaves hm hquit =>
    -- it was told to: nothing else stops the loop
    rcases h with hsetUp | ⟨-, hrun⟩ | htold
    · rw [hm] at hsetUp
      cases hsetUp
    · rw [hquit] at hrun
      cases hrun
    · exact Or.inr (Or.inr htold)
  | mainEnds hm =>
    rcases h with hsetUp | ⟨hin, -⟩ | htold
    · rw [hm] at hsetUp
      cases hsetUp
    · rw [hm] at hin
      cases hin
    · exact Or.inr (Or.inr htold)

theorem MainInv.reach {C : Workers Tid → WorkLabel Tid → Prop} {w : Workers Tid}
    (hr : (workSystem Tid buffer workloadMax).Reach C w) : MainInv w := by
  refine hr.invariant (fun w h0 => ?_) fun w l w' _ h _ hs => h.step hs
  obtain rfl : w = initWorkers Tid buffer workloadMax := h0
  exact Or.inl rfl

/-! ## §3. What every run keeps. -/

/-- The runs of the program under the promotional policy. -/
abbrev Running (g : Geometry) (rb : Buffer) (buffer : Nat → Nat) (workloadMax : Nat)
    (s : ProgramState ZnPolicyPromotional FgEvict Tid) : Prop :=
  (programSystem Tid promotional g rb buffer workloadMax).Reach (fun s l => l.Proper g s) s

/-- **What holds between steps.** -/
structure InOrder (g : Geometry) (rb : Buffer) (buffer : Nat → Nat) (workloadMax : Nat)
    (s : ProgramState ZnPolicyPromotional FgEvict Tid) : Prop where
  aligned : Aligned buffer workloadMax s
  cache : Reached g rb s.cache
  well : ∀ u, (s.cache.pool u).GoesWell
  work : WorkInv s.work
  served : ServedInv s.work
  main : MainInv s.work

theorem InOrder.of_running (hcard : 1 ≤ Fintype.card Tid) (h32 : Fintype.card Tid < 2 ^ 32)
    (hwork : workloadMax < 2 ^ 64) (hpos : 1 ≤ g.maxZoneChunks) (hdvd : writeGranularity ∣ g.chunkSz)
    (hids : ∀ i, buffer i < 2 ^ 31) {s : ProgramState ZnPolicyPromotional FgEvict Tid}
    (hr : Running g rb buffer workloadMax s) : InOrder g rb buffer workloadMax s := by
  have hids' : ∀ i, buffer i < 2 ^ 32 := fun i => Nat.lt_trans (hids i) (by decide)
  have hwells : ∀ {s : ProgramState ZnPolicyPromotional FgEvict Tid}, Running g rb buffer workloadMax s →
      ∀ u, (s.cache.pool u).GoesWell := fun hr =>
    goes_well promotional_recycles hpos hdvd (fun _ _ hc => hc)
      (cache_run (C := fun _ k => k.ZoneOk g ∧ k.TransferOk g) (fun _ _ _ hd => hd.1) hr)
  have hserved : (workSystem Tid buffer workloadMax).Reach Served s.work := by
    apply work_run hids' (fun _ _ => trivial) (fun _ => trivial) (fun _ => trivial) _ _ hr
    · intro s t id data hreach _ ht
      have hwell := hwells hreach (some t)
      rw [ht] at hwell
      exact Option.isSome_iff_ne_none.mpr hwell
    · exact fun _ _ hd => hd.2
  constructor
  case aligned => exact Aligned.reach hids' hr
  case cache =>
    exact cache_run (fun s l hreach hd k hk =>
      ⟨(Aligned.reach hids' hreach).smallId hids l k hk, (hd.1 k hk).1⟩) hr
  case well => exact hwells hr
  case work => exact WorkInv.reach hcard h32 hwork hserved
  case served => exact ServedInv.reach hcard h32 hwork hserved
  case main => exact MainInv.reach hserved

/-! ## §4. What the cache can be led to. -/

/-- Some requests have come back, and perhaps `evict_task` from its round. -/
structure Workers.Returns (w w' : Workers Tid) : Prop where
  reader : w'.reader = w.reader
  main : w'.main = w.main
  pool : ∀ t, w'.pool t = w.pool t ∨ (w.pool t).asked ≠ none ∧ w'.pool t = .loop
  evict : w'.evictTask = w.evictTask ∨ w.evictTask = .round ∧ w'.evictTask = .test

omit [DecidableEq Tid] [Fintype Tid] in
theorem Workers.Returns.refl (w : Workers Tid) : w.Returns w :=
  ⟨rfl, rfl, fun _ => Or.inl rfl, Or.inl rfl⟩

omit [DecidableEq Tid] [Fintype Tid] in
theorem Workers.Returns.trans {w w' w'' : Workers Tid} (h : w.Returns w') (h' : w'.Returns w'') :
    w.Returns w'' := by
  constructor
  case reader => exact h'.reader.trans h.reader
  case main => exact h'.main.trans h.main
  case pool =>
    intro t
    rcases h'.pool t with hsame | ⟨hask, hloop⟩
    · rw [hsame]
      exact h.pool t
    · rcases h.pool t with hsame | ⟨-, hloop'⟩
      · rw [hsame] at hask
        exact Or.inr ⟨hask, hloop⟩
      · rw [hloop'] at hask
        exact absurd rfl hask
  case evict =>
    rcases h'.evict with hsame | ⟨hround, htest⟩
    · rw [hsame]
      exact h.evict
    · rcases h.evict with hsame | ⟨-, htest'⟩
      · rw [hsame] at hround
        exact Or.inr ⟨hround, htest⟩
      · rw [htest'] at hround
        cases hround

omit [DecidableEq Tid] [Fintype Tid] in
theorem Workers.Returns.backFrom {w : Workers Tid} (pc : Pc E) (h : w.evictTask = .round) :
    w.Returns (w.backFrom pc) := by
  unfold Workers.backFrom
  split
  · exact ⟨rfl, rfl, fun _ => Or.inl rfl, Or.inr ⟨h, rfl⟩⟩
  · exact .refl w

section Lift

variable {s : ProgramState ZnPolicyPromotional FgEvict Tid}

/-- **What the cache can be led to, the program can be led to.** -/
theorem Running.lift (hcard : 1 ≤ Fintype.card Tid) (h32 : Fintype.card Tid < 2 ^ 32)
    (hwork : workloadMax < 2 ^ 64) (hpos : 1 ≤ g.maxZoneChunks) (hdvd : writeGranularity ∣ g.chunkSz)
    (hids : ∀ i, buffer i < 2 ^ 31) {Q : Sys ZnPolicyPromotional FgEvict (Option Tid) → Prop}
    {c : Sys ZnPolicyPromotional FgEvict (Option Tid)}
    (h : (cacheSystem (Option Tid) promotional g rb).Leads (fun _ k => k.Finishes g) Q c) :
    ∀ s, Running g rb buffer workloadMax s → s.cache = c →
      (programSystem Tid promotional g rb buffer workloadMax).Leads (fun s l => l.Obeyed g s)
        (fun s' => Running g rb buffer workloadMax s' ∧ Q s'.cache ∧ s.work.Returns s'.work
          ∧ (s.cache.pool none = .idle ∨ s'.cache.pool none ≠ .idle ∨ s'.work.evictTask = .test)) s := by
  induction h with
  | now hq =>
    rintro s hr rfl
    exact .now ⟨hr, hq, .refl _, (Classical.em _).imp_right Or.inl⟩
  | @later c c' k hd hs _ ih =>
    rintro s hr rfl
    have hin := InOrder.of_running hcard h32 hwork hpos hdvd hids hr
    -- one step of the program, and then what the rest of the run does
    have hthen : ∀ {l : ProgramLabel Tid} {w : Workers Tid}, l.Obeyed g s →
        programStep promotional g rb s l = some (.ok ⟨c', w⟩) → s.work.Returns w →
        (s.cache.pool none = .idle ∨ c'.pool none ≠ .idle ∨ w.evictTask = .test) →
        (programSystem Tid promotional g rb buffer workloadMax).Leads (fun s l => l.Obeyed g s)
          (fun s' => Running g rb buffer workloadMax s' ∧ Q s'.cache ∧ s.work.Returns s'.work
            ∧ (s.cache.pool none = .idle ∨ s'.cache.pool none ≠ .idle ∨ s'.work.evictTask = .test)) s := by
      intro l w hobeyed hstep hret hback
      refine .later hobeyed hstep ((ih ⟨c', w⟩ (.next hr hobeyed.proper hstep) rfl).mono ?_)
      rintro s' ⟨hr', hq, hret', hback'⟩
      refine ⟨hr', hq, hret.trans hret', ?_⟩
      rcases hback with hidle | hbusy | htest
      · exact Or.inl hidle
      · exact Or.inr (hback'.resolve_left hbusy)
      · rcases hret'.evict with hsame | ⟨hround, -⟩
        · exact Or.inr (Or.inr (hsame.trans htest))
        · rw [htest] at hround
          cases hround
    cases k with
    | get | fgEvict | evictTask => exact hd.elim
    | step t a =>
      cases t with
      | some t =>
        refine hthen (l := .step (some t) a) (w := s.work) ⟨?_, trivial⟩ ?_ (.refl _) ?_
        · intro k hk
          cases hk
          exact hd
        · unfold programStep
          dsimp only
          rw [show sysStep promotional g rb s.cache _ = _ from hs]
          rfl
        · have hother : c'.pool none = s.cache.pool none :=
            (sysStep_cases hs).other fun heq => by cases heq
          rw [hother]
          exact (Classical.em _).imp_right Or.inl
      | none =>
        have hround : s.work.evictTask = .round := by
          by_contra hno
          have hidle := hin.aligned.round hno
          have hs' : sysStep promotional g rb s.cache (.step none a) = some (.ok c') := hs
          simp only [sysStep, hidle] at hs'
          cases hs'
        refine hthen (l := .step none a) (w := s.work.backFrom (c'.pool none)) ⟨?_, trivial⟩ ?_
          (.backFrom _ hround) ?_
        · intro k hk
          cases hk
          exact hd
        · unfold programStep
          dsimp only
          rw [show sysStep promotional g rb s.cache _ = _ from hs]
          rfl
        · by_cases hidle : c'.pool none = .idle
          · refine Or.inr (Or.inr ?_)
            rw [hidle]
            rfl
          · exact Or.inr (Or.inl hidle)
    | ret t =>
      have hs' : sysStep promotional g rb s.cache (.ret t) = some (.ok c') := hs
      cases t with
      | none =>
        cases sysStep_cases hs' with
        | ret ht => exact absurd ht (hin.aligned.evictor _)
      | some t =>
        have hother : c'.pool none = s.cache.pool none :=
          (sysStep_cases hs').other fun heq => by cases heq
        obtain ⟨id, data, ht⟩ : ∃ id data, s.cache.pool (some t) = .get (.done id data) := by
          cases sysStep_cases hs' with
          | ret ht => exact ⟨_, _, ht⟩
        have hasked : (s.work.pool t).asked = some id := by
          rw [← hin.aligned.asked t, ht]
          rfl
        have htask : s.work.pool t = .get id := by
          cases hpc : s.work.pool t with
          | get dataId =>
            rw [hpc] at hasked
            cases hasked
            rfl
          | loop | count | finished | gaveUp =>
            rw [hpc] at hasked
            cases hasked
        have hsome : data.isSome = true := by
          have hwell := hin.well (some t)
          rw [ht] at hwell
          exact Option.isSome_iff_ne_none.mpr hwell
        refine hthen (l := .ret t) (w := { s.work with pool := Function.update s.work.pool t .loop })
          ⟨?_, trivial⟩ ?_ ⟨rfl, rfl, fun u => ?_, Or.inl rfl⟩ ?_
        · intro k hk
          cases hk
          trivial
        · unfold programStep
          simp only [ht, workStep, htask, hsome, if_true, Option.bind_some, hs']
          rfl
        · show Function.update s.work.pool t .loop u = _ ∨ _ ∧ Function.update s.work.pool t .loop u = _
          by_cases hut : u = t
          · rw [hut, Function.update_self]
            exact Or.inr ⟨by rw [hasked]; exact Option.some_ne_none _, rfl⟩
          · rw [Function.update_of_ne hut]
            exact Or.inl rfl
        · rw [hother]
          exact (Classical.em _).imp_right Or.inl

end Lift

/-! ## §5. What is left to do. -/

/-- What a worker has left, beside the indices that nobody has taken. -/
def TaskPc.left : TaskPc → Nat
  | .loop | .get _ => 2
  | .count => 1
  | .finished | .gaveUp => 0

/-- What the program has left. -/
def Workers.toDo (w : Workers Tid) : Nat :=
  (w.reader.workloadMax - w.reader.workloadIndex) + total TaskPc.left w.pool + w.stepsLeft

namespace Workers.Returns

variable {w w' : Workers Tid}

omit [DecidableEq Tid] in
/-- A worker is back in its loop: what it asked for was taken before. -/
theorem total_left (h : w.Returns w') : total TaskPc.left w'.pool = total TaskPc.left w.pool := by
  unfold total weightOn
  refine Finset.sum_congr rfl fun t _ => ?_
  rcases h.pool t with hsame | ⟨hasked, hloop⟩
  · rw [hsame]
  · rw [hloop]
    cases hpc : w.pool t with
    | loop | get => rfl
    | count | finished | gaveUp =>
      rw [hpc] at hasked
      exact absurd rfl hasked

omit [DecidableEq Tid] in
theorem toDo_le (h : w.Returns w') : w'.toDo ≤ w.toDo := by
  have hsteps : w'.stepsLeft ≤ w.stepsLeft := by
    unfold stepsLeft
    rw [h.main]
    rcases h.evict with hsame | ⟨hround, htest⟩
    · rw [hsame]
    · rw [hround, htest]
      exact Nat.add_le_add_right (by decide) _
  unfold toDo
  rw [h.reader, h.total_left]
  omega

omit [DecidableEq Tid] in
/-- `evict_task` is back from its round. -/
theorem toDo_lt (h : w.Returns w') (hround : w.evictTask = .round) (htest : w'.evictTask = .test) :
    w'.toDo < w.toDo := by
  have hsteps : w'.stepsLeft < w.stepsLeft := by
    unfold stepsLeft
    rw [h.main, hround, htest]
    exact Nat.add_lt_add_right (by decide) _
  unfold toDo
  rw [h.reader, h.total_left]
  omega

end Workers.Returns

/-- The workers that have returned have nothing left. -/
theorem WindingUp.toDo_lt {w w' : Workers Tid} {l : WorkLabel Tid} (h : WindingUp w)
    (hs : workStep w l = some w') : w'.toDo < w.toDo := by
  have hless := (h.step hs).2
  have hsame : w'.reader = w.reader ∧ w'.pool = w.pool := by
    cases workStep_cases hs with
    | @leave t ht | @request t _ ht | @got t _ ht | @gotNull t _ ht | @count t ht =>
      rcases h.returned t with hret | hret <;> rw [ht] at hret <;> cases hret
    | evictTest | evictRound | mainRuns | mainLeaves | mainEnds => exact ⟨rfl, rfl⟩
  unfold Workers.toDo
  rw [hsame.1, hsame.2]
  omega

/-! ## §6. One thing after the other. -/

section Rounds

variable (hcard : 1 ≤ Fintype.card Tid) (h32 : Fintype.card Tid < 2 ^ 32) (hwork : workloadMax < 2 ^ 64)
  (hpos : 1 ≤ g.maxZoneChunks) (hmax : g.maxZoneChunks < 2 ^ 32) (hact : 1 ≤ g.maxNrActiveZones)
  (hzones : 1 ≤ g.nrZones) (hdvd : writeGranularity ∣ g.chunkSz) (hids : ∀ i, buffer i < 2 ^ 31)
  {s r : ProgramState ZnPolicyPromotional FgEvict Tid} {n : Nat}

/-- The cache is at rest, with less than `n` to be done. -/
abbrev Rested (g : Geometry) (rb : Buffer) (buffer : Nat → Nat) (workloadMax n : Nat)
    (s : ProgramState ZnPolicyPromotional FgEvict Tid) : Prop :=
  (Running g rb buffer workloadMax s ∧ ∀ u, s.cache.pool u = .idle) ∧ s.work.toDo < n

include hcard h32 hwork hpos hmax hact hzones hdvd hids

/-- The cache comes to rest, and no more is left to do. -/
theorem Running.rest (hr : Running g rb buffer workloadMax s) (hn : s.work.toDo < n) :
    (programSystem Tid promotional g rb buffer workloadMax).Leads (fun s l => l.Obeyed g s)
      (Rested g rb buffer workloadMax n) s := by
  have hin := InOrder.of_running hcard h32 hwork hpos hdvd hids hr
  have hidle := leads_idle hpos hmax hact hzones hin.cache
  refine (Running.lift hcard h32 hwork hpos hdvd hids hidle s hr rfl).mono ?_
  rintro s' ⟨hr', ⟨-, hidle'⟩, hret, -⟩
  exact ⟨⟨hr', hidle'⟩, Nat.lt_of_le_of_lt hret.toDo_le hn⟩

/-- A step that leaves less to do. -/
theorem Running.steps (hr : Running g rb buffer workloadMax s) {l : ProgramLabel Tid}
    (hobeyed : l.Obeyed g s) (hs : programStep promotional g rb s l = some (.ok r))
    (hless : r.work.toDo < n) :
    (programSystem Tid promotional g rb buffer workloadMax).Leads (fun s l => l.Obeyed g s)
      (Rested g rb buffer workloadMax n) s :=
  .later hobeyed hs
    (Running.rest hcard h32 hwork hpos hmax hact hzones hdvd hids (.next hr hobeyed.proper hs) hless)

/-- A worker takes the next index, or leaves its loop. -/
theorem Running.takes (hr : Running g rb buffer workloadMax s) (hidle : ∀ u, s.cache.pool u = .idle)
    {t : Tid} (ht : s.work.pool t = .loop) :
    (programSystem Tid promotional g rb buffer workloadMax).Leads (fun s l => l.Obeyed g s)
      (Rested g rb buffer workloadMax s.work.toDo) s := by
  have hin := InOrder.of_running hcard h32 hwork hpos hdvd hids hr
  have hobeyed : (ProgramLabel.take t).Obeyed g s := by
    refine ⟨fun k hk => ?_, trivial⟩
    unfold ProgramLabel.onCache at hk
    obtain ⟨w, -, hk⟩ := Option.bind_eq_some_iff.mp hk
    split at hk
    · cases hk
      trivial
    · cases hk
  obtain ⟨w, hw⟩ : ∃ w, workStep s.work (.take t) = some w := by
    unfold workStep
    dsimp only
    rw [if_pos ht]
    split
    · exact ⟨_, rfl⟩
    · exact ⟨_, rfl⟩
  have hlt := hin.work.max_lt
  cases workStep_cases hw with
  | leave _ hread =>
    have hstep : programStep promotional g rb s (.take t)
        = some (.ok ⟨s.cache, { s.work with pool := Function.update s.work.pool t .count }⟩) := by
      unfold programStep
      dsimp only
      rw [hw]
      simp only [Option.bind_some, Function.update_self]
    refine Running.steps hcard h32 hwork hpos hmax hact hzones hdvd hids hr hobeyed hstep ?_
    have htotal := total_update TaskPc.left s.work.pool t .count
    rw [ht] at htotal
    have hone : TaskPc.left .count + 1 = TaskPc.left .loop := rfl
    unfold Workers.toDo Workers.stepsLeft
    dsimp only
    omega
  | @request _ reader _ hmore hindex hreaderMax =>
    obtain ⟨c, hc⟩ : ∃ c, sysStep promotional g rb s.cache (.get (some t)
        (UInt32.ofNat (reader.workloadBuffer s.work.reader.workloadIndex))) = some (.ok c) := by
      simp only [sysStep, hidle (some t)]
      exact ⟨_, rfl⟩
    have hstep : programStep promotional g rb s (.take t) = some (.ok ⟨c, { s.work with
        reader := reader
        requested := (t, s.work.reader.workloadIndex) :: s.work.requested
        pool := Function.update s.work.pool t
          (.get (reader.workloadBuffer s.work.reader.workloadIndex)) }⟩) := by
      unfold programStep
      dsimp only
      rw [hw]
      simp only [Option.bind_some, Function.update_self, hc]
      rfl
    refine Running.steps hcard h32 hwork hpos hmax hact hzones hdvd hids hr hobeyed hstep ?_
    have htotal := total_update TaskPc.left s.work.pool t
      (.get (reader.workloadBuffer s.work.reader.workloadIndex))
    rw [ht] at htotal
    have hsame : TaskPc.left (.get (reader.workloadBuffer s.work.reader.workloadIndex))
        = TaskPc.left .loop := rfl
    unfold Workers.toDo Workers.stepsLeft
    dsimp only
    omega

/-- A worker is counted: `main` has come to its loop, or gets there. -/
theorem Running.counts (hr : Running g rb buffer workloadMax s) {t : Tid}
    (ht : s.work.pool t = .count) :
    (programSystem Tid promotional g rb buffer workloadMax).Leads (fun s l => l.Obeyed g s)
      (Rested g rb buffer workloadMax s.work.toDo) s := by
  have hin := InOrder.of_running hcard h32 hwork hpos hdvd hids hr
  rcases hin.main with hsetUp | ⟨hloop, -⟩ | htold
  · have hstep : programStep promotional g rb s .main
        = some (.ok ⟨s.cache, { s.work with main := .inLoop, isRunning := true }⟩) := by
      simp only [programStep, workStep, hsetUp]
      rfl
    refine Running.steps hcard h32 hwork hpos hmax hact hzones hdvd hids hr (l := .main) ?_ hstep ?_
    · exact ⟨fun k hk => (by cases hk), trivial⟩
    · unfold Workers.toDo Workers.stepsLeft
      rw [hsetUp]
      dsimp only
      omega
  · have hstep : programStep promotional g rb s (.count t)
        = some (.ok ⟨s.cache, countWorker s.work t⟩) := by
      simp only [programStep, workStep, ht]
      rfl
    refine Running.steps hcard h32 hwork hpos hmax hact hzones hdvd hids hr (l := .count t) ?_ hstep ?_
    · exact ⟨fun k hk => (by cases hk), fun _ => hloop⟩
    · have htotal := total_update TaskPc.left s.work.pool t .finished
      rw [ht] at htotal
      have hone : TaskPc.left .finished + 1 = TaskPc.left .count := rfl
      unfold countWorker
      dsimp only
      split
      · unfold Workers.toDo Workers.stepsLeft
        dsimp only
        omega
      · unfold Workers.toDo Workers.stepsLeft
        dsimp only
        omega
  · -- the last worker had been counted
    have hfinished := hin.work.finished_of_told htold t
    rw [ht] at hfinished
    cases hfinished

/-- `evict_task` ends its round: it sleeps, or evicts. -/
theorem Running.ends_round (hr : Running g rb buffer workloadMax s)
    (hidle : ∀ u, s.cache.pool u = .idle) (hround : s.work.evictTask = .round) :
    (programSystem Tid promotional g rb buffer workloadMax).Leads (fun s l => l.Obeyed g s)
      (Rested g rb buffer workloadMax s.work.toDo) s := by
  have hobeyed : ProgramLabel.evictTask.Obeyed g s := by
    refine ⟨fun k hk => ?_, trivial⟩
    unfold ProgramLabel.onCache at hk
    dsimp only at hk
    rw [if_pos hround] at hk
    cases hk
    trivial
  by_cases hfree : evictHighThreshZones < zsmGetNumFreeZones s.cache.cache.zoneState
  · have hstep : programStep promotional g rb s .evictTask
        = some (.ok ⟨s.cache, s.work.backFrom (s.cache.pool none)⟩) := by
      simp only [programStep, hround, sysStep, hidle none, if_pos hfree]
      rw [← hidle none]
      rfl
    refine Running.steps hcard h32 hwork hpos hmax hact hzones hdvd hids hr hobeyed hstep ?_
    refine (Workers.Returns.backFrom _ hround).toDo_lt hround ?_
    rw [hidle none]
    rfl
  · -- it is back in its loop once its eviction has ended
    have hstep : programStep promotional g rb s .evictTask
        = some (.ok ⟨s.cache.goto none s.cache.cache (.evictor promotional.entry), s.work⟩) := by
      have hlow : 0 < u32Sub evictLowThreshZones (zsmGetNumFreeZones s.cache.cache.zoneState) := by
        have hfew : zsmGetNumFreeZones s.cache.cache.zoneState ≤ evictHighThreshZones := not_lt.mp hfree
        have hhigh : evictHighThreshZones < evictLowThreshZones := by decide
        rw [u32Sub_of_le (by omega) (by decide)]
        omega
      simp only [programStep, hround, sysStep, hidle none, if_neg hfree, check, if_pos hlow,
        Workers.backFrom]
      rfl
    have hr' := TransSys.Reach.next hr hobeyed.proper hstep
    have hin' := InOrder.of_running hcard h32 hwork hpos hdvd hids hr'
    refine .later hobeyed hstep ((Running.lift hcard h32 hwork hpos hdvd hids
      (leads_idle hpos hmax hact hzones hin'.cache) _ hr' rfl).mono ?_)
    rintro s' ⟨hr'', ⟨-, hidle'⟩, hret, hback⟩
    refine ⟨⟨hr'', hidle'⟩, hret.toDo_lt hround ?_⟩
    rcases hback with hbefore | hafter | htest
    · rw [Sys.goto_pool, Function.update_self] at hbefore
      cases hbefore
    · exact absurd (hidle' none) hafter
    · exact htest

/-- **A round.** -/
theorem Running.round (hr : Running g rb buffer workloadMax s) (hidle : ∀ u, s.cache.pool u = .idle)
    (hno : ¬ s.work.Ended) :
    (programSystem Tid promotional g rb buffer workloadMax).Leads (fun s l => l.Obeyed g s)
      (Rested g rb buffer workloadMax s.work.toDo) s := by
  have hin := InOrder.of_running hcard h32 hwork hpos hdvd hids hr
  by_cases hloop : ∃ t, s.work.pool t = .loop
  · obtain ⟨t, ht⟩ := hloop
    exact Running.takes hcard h32 hwork hpos hmax hact hzones hdvd hids hr hidle ht
  by_cases hcount : ∃ t, s.work.pool t = .count
  · obtain ⟨t, ht⟩ := hcount
    exact Running.counts hcard h32 hwork hpos hmax hact hzones hdvd hids hr ht
  push Not at hloop hcount
  have hfinished : ∀ t, s.work.pool t = .finished := by
    intro t
    cases hpc : s.work.pool t with
    | loop => exact absurd hpc (hloop t)
    | count => exact absurd hpc (hcount t)
    | gaveUp => exact absurd hpc (hin.served.none_gave_up t)
    | finished => rfl
    | get dataId =>
      -- a worker that waits has its call in progress
      have hasked := hin.aligned.asked t
      rw [hpc, hidle (some t)] at hasked
      cases hasked
  have hall : s.work.AllReturned := fun t => Or.inl (hfinished t)
  have hdrained := (hin.work.drained_iff hcard hall).mpr hin.served.none_gave_up
  obtain ⟨hquit, hmain⟩ := hin.served.heard hdrained.told
  have hwind : WindingUp s.work := ⟨hall, hdrained.done, hquit, hmain, hin.served.order⟩
  obtain ⟨l, w, hw⟩ : ∃ l w, workStep s.work l = some w :=
    @WindingUp.progress Tid _ _ buffer workloadMax _ hwind hno
  have hless : w.toDo < s.work.toDo := hwind.toDo_lt hw
  cases workStep_cases hw with
  | @leave t ht | @request t _ ht | @got t _ ht | @gotNull t _ ht | @count t ht =>
    rw [hfinished t] at ht
    cases ht
  | evictTest he =>
    refine Running.steps hcard h32 hwork hpos hmax hact hzones hdvd hids hr (l := .evictTask)
      (r := ⟨s.cache, _⟩) ?_ ?_ hless
    · refine ⟨fun k hk => ?_, trivial⟩
      simp only [ProgramLabel.onCache, he] at hk
      cases hk
    · simp only [programStep, he, workStep]
      rfl
  | evictRound he => exact Running.ends_round hcard h32 hwork hpos hmax hact hzones hdvd hids hr hidle he
  | mainRuns | mainLeaves | mainEnds =>
    refine Running.steps hcard h32 hwork hpos hmax hact hzones hdvd hids hr (l := .main)
      (r := ⟨s.cache, _⟩) ⟨fun k hk => (by cases hk), trivial⟩ ?_ hless
    unfold programStep
    dsimp only
    rw [hw]
    rfl

end Rounds

/-- **THE PROGRAM CAN COME TO ITS END.**  From every state of every run in which
the device succeeds and the signal is not given before `main` waits for it, some
schedule of the threads ends `main` and `evict_task`, with the workload drained
and no call in progress: no worker waits for ever, and none is left behind. -/
theorem program_can_finish (hcard : 1 ≤ Fintype.card Tid) (h32 : Fintype.card Tid < 2 ^ 32)
    (hwork : workloadMax < 2 ^ 64) (hpos : 1 ≤ g.maxZoneChunks) (hmax : g.maxZoneChunks < 2 ^ 32)
    (hact : 1 ≤ g.maxNrActiveZones) (hzones : 1 ≤ g.nrZones) (hdvd : writeGranularity ∣ g.chunkSz)
    (hids : ∀ i, buffer i < 2 ^ 31) {s : ProgramState ZnPolicyPromotional FgEvict Tid}
    (hr : (programSystem Tid promotional g rb buffer workloadMax).Reach (fun s l => l.Proper g s) s) :
    (programSystem Tid promotional g rb buffer workloadMax).Leads (fun s l => l.Obeyed g s)
      (fun s' => s'.work.Ended ∧ Drained s'.work ∧ ∀ u, s'.cache.pool u = .idle) s := by
  have hrest := Running.rest hcard h32 hwork hpos hmax hact hzones hdvd hids hr (Nat.lt_succ_self _)
  refine (hrest.trans fun s₁ h₁ => TransSys.Leads.of_rounds Nat.lt_wfRel.wf
    (fun s : ProgramState ZnPolicyPromotional FgEvict Tid => s.work.toDo)
    (I := fun s => Running g rb buffer workloadMax s ∧ ∀ u, s.cache.pool u = .idle)
    (P := fun s => s.work.Ended) ?_ s₁ h₁.1).mono ?_
  · exact fun s hi hno =>
      Running.round hcard h32 hwork hpos hmax hact hzones hdvd hids hi.1 hi.2 hno
  · rintro s' ⟨⟨hr', hidle⟩, hended⟩
    have hin := InOrder.of_running hcard h32 hwork hpos hdvd hids hr'
    -- `main` has returned, so that it was told to quit
    have htold : s'.work.told = true := by
      rcases hin.main with hsetUp | ⟨hloop, -⟩ | htold
      · rw [hended.1] at hsetUp
        cases hsetUp
      · rw [hended.1] at hloop
        cases hloop
      · exact htold
    have hall : s'.work.AllReturned := fun t => Or.inl (hin.work.finished_of_told htold t)
    exact ⟨hended, (hin.work.drained_iff hcard hall).mpr hin.served.none_gave_up, hidle⟩

/-- Worker 0 is to write id 7, and worker 1 sleeps until it has; one request is
still to be taken. -/
theorem program_can_finish_asleep : ∃ s : ProgramState ZnPolicyPromotional FgEvict (Fin 2),
    (s.cache.pool (some 0)).rank = 7 ∧ (s.cache.pool (some 1)).searching = 1
      ∧ s.work.requested = [(1, 1), (0, 0)]
      ∧ (programSystem (Fin 2) promotional oneChunk (fun _ => 0) twiceSeven 3).Leads
          (fun s l => l.Obeyed oneChunk s)
          (fun s' => s'.work.Ended ∧ Drained s'.work ∧ ∀ u, s'.cache.pool u = .idle) s := by
  obtain ⟨⟨s, n⟩, hr, hs⟩ := @program_replay _ _ promotional oneChunk (fun _ => 0) (Fin 2) _ _ twiceSeven 3
    (fun s l => l.Proper oneChunk s) _
    (fun x => (x.1.cache.pool (some 0)).rank = 7 ∧ (x.1.cache.pool (some 1)).searching = 1
      ∧ x.1.work.requested = [(1, 1), (0, 0)])
    ((serveThree 0 1).take 6) (by decide +kernel)
  obtain ⟨hwrites, hasleep, hrequested⟩ := of_decide_eq_true hs
  exact ⟨s, hwrites, hasleep, hrequested, program_can_finish (by decide) (by decide) (by decide)
    (by decide) (by decide) (by decide) (by decide) (by decide) twiceSeven_small (TransSys.Reach.forget hr)⟩

end ZnCache
