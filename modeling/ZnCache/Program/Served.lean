/-
  ZnCache.Program.Served — the workload is served.

  Nobody keeps what the requests came back with, and the cache counts hits and
  misses, not requests.  A `ProgramLog` notes the results and the ledger of the
  cache beside a run of the program.

  Main results, for any number of workers and every interleaving, under either
  policy:
    * `program_serves` — when the device succeeds, and all workers have returned:
      each index was requested once, each request came back with a buffer, and
      the hits and the misses are as many as the requests;
    * `program_verifies` — each result passes the check that `task_function`
      makes under VERIFY, in the runs in which the cache returns what is right.
-/
import ZnCache.Program.Defs
import ZnCache.Cache.Ledger
import ZnCache.Chunk.Contents
import Mathlib.Data.Fintype.Option

namespace ZnCache

open Lib Lib.ThreadPool

universe u

variable {P E : Type} {pol : EvictPolicy P E} {g : Geometry} {rb : Buffer} {Tid : Type u}

/-! ## §1. Calls that do not fail. -/

/-- A call that does not return NULL. -/
def Pc.GoesWell : Pc E → Prop
  | .get (.undoZoneGet ..) | .get (.undoMap _) => False
  | .get (.readUpdate _ _ data) | .get (.readDone _ _ data) | .get (.hit _ data)
  | .get (.done _ data) => data ≠ none
  | .idle | .evictor _ | .get (.find _) | .get (.findWait ..) | .get (.read ..) | .get (.acquire _)
  | .get (.evict ..) | .get (.write ..) | .get (.miss ..) | .get (.commit ..)
  | .get (.writeUpdate ..) | .get (.publish ..) => True

theorem Pc.GoesWell.failing {pc : Pc E} (h : pc.GoesWell) : pc.failing = 0 := by
  cases pc with
  | idle | evictor => rfl
  | get pc =>
    cases pc with
    | undoMap => exact h.elim
    | find | findWait | read | readUpdate | readDone | hit | acquire | evict | write | miss | commit
    | writeUpdate | publish | undoZoneGet | done => rfl

/-- A call goes on to do well when the device succeeds. -/
theorem GetCase.goesWell (hdvd : writeGranularity ∣ g.chunkSz) {a : Answers} (ha : DeviceOk g a.ret)
    (hwrites : TransfersOk a.pwrites) (hread : a.pread = g.chunkSz) {c c' : CacheState P}
    (hzsm : ZsmInv g c.zoneState) {pc pc' : GetPc E} (h : GetCase pol g rb a c pc c' pc')
    (hwell : (Pc.get pc).GoesWell) : (Pc.get pc').GoesWell := by
  cases h with
  | @find id r | @wake id cond seen r => cases r <;> trivial
  | read =>
    show znReadFromDisk _ _ _ _ ≠ none
    unfold znReadFromDisk
    rw [if_pos hread]
    exact Option.some_ne_none _
  | readUpdate | readDone | hit => exact hwell
  | @acquire id r z hr =>
    -- no error: the zone command has succeeded
    obtain ⟨r', z', heq, hcase⟩ := zsmGetActiveZone_spec hzsm ha
    rw [hr] at heq
    cases heq
    cases hcase <;> trivial
  | @evict id e c' e' => cases e' <;> trivial
  | @write id l r d hw =>
    have hzero : r = 0 := by
      unfold writeChunk at hw
      obtain ⟨⟨r', bytes⟩, hout, heq⟩ := Option.map_eq_some_iff.mp hw
      cases heq
      exact (znWriteOut_ok hdvd hwrites hout).1
    rw [if_neg (by simpa using hzero)]
    trivial
  | miss | commit | writeUpdate => trivial
  | publish => exact Option.some_ne_none _
  | undoZoneGet | undoMap => exact hwell.elim

/-- **No call fails** in a run in which the device succeeds. -/
theorem goes_well [DecidableEq Tid] (hpol : pol.Recycles g) (hpos : 1 ≤ g.maxZoneChunks)
    (hdvd : writeGranularity ∣ g.chunkSz) {C : Sys P E Tid → SysLabel Tid → Prop}
    (hC : ∀ s l, C s l → l.ZoneOk g ∧ l.TransferOk g) {s : Sys P E Tid}
    (hr : (cacheSystem Tid pol g rb).Reach C s) : ∀ t, (s.pool t).GoesWell := by
  apply TransSys.Reach.invariant (I := fun s => ∀ t, (s.pool t).GoesWell) _ _ hr
  · intro s hs t
    obtain ⟨bytes, rfl⟩ := hs
    trivial
  · intro s l s' hreach h hc hs
    have hzsm := zsm_inv_reach hpos hpol.zsm (fun s l hc => (hC s l hc).1) hreach
    cases sysStep_cases hs with
    | get | fgEvict | taskEvicts | ret => exact Sys.goto_forall h _ _ trivial
    | taskSleeps => exact h
    | @step t a pc pc' c ht hcase =>
      obtain ⟨hok, hwrites, hread⟩ := hC s _ hc
      have hwell := h t
      rw [ht] at hwell
      exact Sys.goto_forall h _ _ (hcase.goesWell hdvd hok hwrites hread hzsm hwell)
    | @evict t a e e' =>
      apply Sys.goto_forall h
      cases e' <;> trivial

/-! ## §2. The log. -/

variable [DecidableEq Tid] [Fintype Tid] {buffer : Nat → Nat} {workloadMax : Nat}
  {D : ProgramState P E Tid → ProgramLabel Tid → Prop}

/-- What is noted of a run. -/
structure ProgramLog where
  /-- The id of every request that came back, and what it came back with; newest
  first. -/
  results : List (Nat × Option Buffer)
  ledger : Ledger

/-- The request that comes back. -/
def ProgramLabel.result (s : ProgramState P E Tid) : ProgramLabel Tid → Option (Nat × Option Buffer)
  | .ret t => (s.cache.pool (some t)).returned
  | .take _ | .step .. | .count _ | .evictTask | .main => none

/-- What one step adds to the log. -/
def ProgramLog.note (g : Geometry) (n : ProgramLog) (s : ProgramState P E Tid) (l : ProgramLabel Tid)
    (s' : ProgramState P E Tid) : ProgramLog where
  results := (l.result s).toList ++ n.results
  ledger :=
    match l.onCache s with
    | some k => n.ledger.note g s.cache k s'.cache
    | none => n.ledger

/-- The runs of the program, with their log. -/
def programLogSystem (Tid : Type u) [DecidableEq Tid] [Fintype Tid] (pol : EvictPolicy P E)
    (g : Geometry) (rb : Buffer) (buffer : Nat → Nat) (workloadMax : Nat) :
    TransSys (ProgramState P E Tid × ProgramLog) (ProgramLabel Tid) :=
  (programSystem Tid pol g rb buffer workloadMax).observed ⟨[], ⟨0, 0, 0⟩⟩ (ProgramLog.note g)

/-- A run of the program is, with the ledger, a run of the cache with its ledger. -/
theorem ledger_run {C : Sys P E (Option Tid) → SysLabel (Option Tid) → Prop}
    (hD : ∀ s l, (programSystem Tid pol g rb buffer workloadMax).Reach D s → D s l → l.Meets C s)
    {s : ProgramState P E Tid} {n : ProgramLog}
    (hr : (programLogSystem Tid pol g rb buffer workloadMax).Reach (fun x l => D x.1 l) (s, n)) :
    (ledgerSystem (Option Tid) pol g rb).Reach (fun x k => C x.1 k) (s.cache, n.ledger) := by
  refine TransSys.Reach.simulate
    (fun x : ProgramState P E Tid × ProgramLog => (x.1.cache, x.2.ledger)) ?_ ?_ hr
  · intro x hx
    obtain ⟨⟨bytes, hs⟩, hn⟩ := hx
    rw [hs, hn]
    exact ⟨⟨bytes, rfl⟩, rfl⟩
  · intro x l x' hreach _ hd hx
    obtain ⟨hs, hn⟩ := hx
    have hrun : (programSystem Tid pol g rb buffer workloadMax).Reach D x.1 :=
      TransSys.Reach.forget hreach
    rw [hn]
    unfold ProgramLog.note
    rcases (programStep_cases hs).on_cache with ⟨hnone, hsame⟩ | ⟨k, hk, hstep⟩
    · rw [hnone, hsame]
      exact Or.inl rfl
    · rw [hk]
      exact Or.inr ⟨k, hD x.1 l hrun hd k hk, hstep, rfl⟩

/-- What is true of every call that returns is true of every result. -/
theorem results_hold {Q : Nat → Option Buffer → Prop}
    (hQ : ∀ s t id data, (programSystem Tid pol g rb buffer workloadMax).Reach D s →
      s.cache.pool (some t) = .get (.done id data) → Q id data)
    {s : ProgramState P E Tid} {n : ProgramLog}
    (hr : (programLogSystem Tid pol g rb buffer workloadMax).Reach (fun x l => D x.1 l) (s, n)) :
    ∀ r ∈ n.results, Q r.1 r.2 := by
  apply TransSys.Reach.observed_invariant (T := programSystem Tid pol g rb buffer workloadMax)
    (C := D) (N := ProgramLog) (I := fun _ n => ∀ r ∈ n.results, Q r.1 r.2) _ _ hr
  · intro s _ r hr
    cases hr
  · intro s n l s' hreach h _ hs r hr
    rcases List.mem_append.mp hr with hnew | hold
    · rw [Option.mem_toList] at hnew
      cases l with
      | ret t => exact hQ s t r.1 r.2 hreach (Pc.eq_of_returned hnew)
      | take | step | count | evictTask | main => cases hnew
    · exact h r hold

/-! ## §3. Requests and results. -/

/-- **What the log and the workers agree on.** -/
structure Answered (buffer : Nat → Nat) (s : ProgramState P E Tid) (n : ProgramLog) : Prop where
  calls : n.ledger.calls = s.work.requested.length
  failures : n.ledger.failures = 0
  /-- What was requested has come back, or is waited for. -/
  ids : ∀ id, (s.work.requested.map fun r => buffer r.2).count id
    = (n.results.map Prod.fst).count id + countOn Finset.univ (fun task => task = .get id) s.work.pool
  stayed : ∀ t, s.work.pool t ≠ .gaveUp

namespace Answered

variable {s s' : ProgramState P E Tid} {n : ProgramLog}

/-- A worker that waits for nothing moves, and no request is made or comes back. -/
theorem goto (h : Answered buffer s n) {t : Tid} {task : TaskPc} {w : Workers Tid}
    {c : Sys P E (Option Tid)} (hpool : w.pool = Function.update s.work.pool t task)
    (hreq : w.requested = s.work.requested) (hasked : task.asked = (s.work.pool t).asked)
    (hstay : task ≠ .gaveUp) : Answered buffer ⟨c, w⟩ n := by
  have hget : ∀ id, task = .get id ↔ s.work.pool t = .get id := by
    intro id
    have hask : ∀ x : TaskPc, x = .get id ↔ x.asked = some id := by
      intro x
      cases x <;> simp [TaskPc.asked]
    rw [hask, hask, hasked]
  constructor
  case calls =>
    show _ = w.requested.length
    rw [hreq]
    exact h.calls
  case failures => exact h.failures
  case ids =>
    intro id
    show (w.requested.map _).count id = _ + countOn Finset.univ _ w.pool
    rw [hreq, hpool, countOn_update_same _ s.work.pool t task (hget id)]
    exact h.ids id
  case stayed =>
    intro u
    show w.pool u ≠ _
    rw [hpool]
    by_cases hut : u = t
    · rw [hut, Function.update_self]
      exact hstay
    · rw [Function.update_of_ne hut]
      exact h.stayed u

omit [DecidableEq Tid] in
/-- The eviction thread or `main` moves. -/
theorem aside (h : Answered buffer s n) {w : Workers Tid} {c : Sys P E (Option Tid)}
    (hpool : w.pool = s.work.pool) (hreq : w.requested = s.work.requested) :
    Answered buffer ⟨c, w⟩ n := by
  constructor
  case calls =>
    show _ = w.requested.length
    rw [hreq]
    exact h.calls
  case failures => exact h.failures
  case ids =>
    intro id
    show (w.requested.map _).count id = _ + countOn Finset.univ _ w.pool
    rw [hreq, hpool]
    exact h.ids id
  case stayed =>
    show ∀ u, w.pool u ≠ _
    rw [hpool]
    exact h.stayed

/-- **A request is made.** -/
theorem request (h : Answered buffer s n) {t : Tid} {wi : Nat} {w : Workers Tid}
    {c : Sys P E (Option Tid)} {m : ProgramLog} (ht : s.work.pool t = .loop)
    (hpool : w.pool = Function.update s.work.pool t (.get (buffer wi)))
    (hreq : w.requested = (t, wi) :: s.work.requested)
    (hcalls : m.ledger.calls = n.ledger.calls + 1) (hfailures : m.ledger.failures = n.ledger.failures)
    (hresults : m.results = n.results) : Answered buffer ⟨c, w⟩ m := by
  constructor
  case calls =>
    show _ = w.requested.length
    rw [hcalls, hreq, List.length_cons, h.calls]
  case failures => exact hfailures.trans h.failures
  case ids =>
    intro id
    have hcount := countOn_update (D := Finset.univ) (fun task => task = TaskPc.get id) s.work.pool
      (Finset.mem_univ t) (.get (buffer wi))
    have hold := h.ids id
    rw [ht, if_neg (show ¬ TaskPc.loop = .get id by simp)] at hcount
    show (w.requested.map _).count id = _ + countOn Finset.univ _ w.pool
    rw [hreq, hpool, hresults, List.map_cons, List.count_cons, hold]
    by_cases hid : buffer wi = id
    · rw [if_pos (by rw [hid])] at hcount
      rw [if_pos (by simpa using hid)]
      omega
    · rw [if_neg (by simpa using hid)] at hcount
      rw [if_neg (by simpa using hid)]
      omega
  case stayed =>
    intro u
    show w.pool u ≠ _
    rw [hpool]
    by_cases hut : u = t
    · rw [hut, Function.update_self]
      exact fun heq => by cases heq
    · rw [Function.update_of_ne hut]
      exact h.stayed u

/-- **A request comes back**, with a buffer. -/
theorem answer (h : Answered buffer s n) {t : Tid} {id : Nat} {data : Option Buffer} {w : Workers Tid}
    {c : Sys P E (Option Tid)} {m : ProgramLog} (ht : s.work.pool t = .get id)
    (hpool : w.pool = Function.update s.work.pool t .loop) (hreq : w.requested = s.work.requested)
    (hcalls : m.ledger.calls = n.ledger.calls) (hfailures : m.ledger.failures = n.ledger.failures)
    (hresults : m.results = (id, data) :: n.results) : Answered buffer ⟨c, w⟩ m := by
  constructor
  case calls =>
    show _ = w.requested.length
    rw [hcalls, hreq]
    exact h.calls
  case failures => exact hfailures.trans h.failures
  case ids =>
    intro k
    have hcount := countOn_update (D := Finset.univ) (fun task => task = TaskPc.get k) s.work.pool
      (Finset.mem_univ t) .loop
    have hold := h.ids k
    rw [ht, if_neg (show ¬ TaskPc.loop = .get k by simp)] at hcount
    show (w.requested.map _).count k = _ + countOn Finset.univ _ w.pool
    rw [hreq, hpool, hresults, List.map_cons, List.count_cons, hold]
    by_cases hk : id = k
    · rw [if_pos (by rw [hk])] at hcount
      rw [if_pos (by simpa using hk)]
      omega
    · rw [if_neg (by simpa using hk)] at hcount
      rw [if_neg (by simpa using hk)]
      omega
  case stayed =>
    intro u
    show w.pool u ≠ _
    rw [hpool]
    by_cases hut : u = t
    · rw [hut, Function.update_self]
      exact fun heq => by cases heq
    · rw [Function.update_of_ne hut]
      exact h.stayed u

omit [DecidableEq Tid] in
theorem congr (h : Answered buffer s n) {m : ProgramLog} (hcalls : m.ledger.calls = n.ledger.calls)
    (hfailures : m.ledger.failures = n.ledger.failures) (hresults : m.results = n.results) :
    Answered buffer s m := by
  refine ⟨hcalls.trans h.calls, hfailures.trans h.failures, ?_, h.stayed⟩
  rw [hresults]
  exact h.ids

/-- **Step lemma.** -/
theorem step (h : Answered buffer s n) (hal : Aligned buffer workloadMax s)
    (hwell : ∀ u, (s.cache.pool u).GoesWell) {l : ProgramLabel Tid}
    (hs : ProgramCase pol g rb s l s') : Answered buffer s' (n.note g s l s') := by
  have hnote : ∀ {k : SysLabel (Option Tid)}, l.onCache s = some k →
      (n.note g s l s').ledger.calls = n.ledger.calls + k.calls
        ∧ (n.note g s l s').ledger.failures = n.ledger.failures := by
    intro k hk
    have hfails : k.fails s.cache = 0 := by
      cases k with
      | step t a => exact (hwell t).failing
      | get | fgEvict | evictTask | ret => rfl
    unfold ProgramLog.note
    rw [hk]
    exact ⟨rfl, congrArg (n.ledger.failures + ·) hfails⟩
  -- the cache makes a step that is no call, and nothing comes back
  have hquiet : ∀ {k : SysLabel (Option Tid)}, l.onCache s = some k → k.calls = 0 →
      l.result s = none → Answered buffer s' n → Answered buffer s' (n.note g s l s') := by
    intro k hk hcalls hresult h'
    refine h'.congr ?_ (hnote hk).2 ?_
    · rw [(hnote hk).1, hcalls]
      rfl
    · show (l.result s).toList ++ _ = _
      rw [hresult]
      rfl
  have hunseen : l.onCache s = none → l.result s = none → Answered buffer s' n →
      Answered buffer s' (n.note g s l s') := by
    intro hk hresult h'
    unfold ProgramLog.note
    rw [hk, hresult]
    exact h'
  have hbackPool : ∀ pc : Pc E, (s.work.backFrom pc).pool = s.work.pool := by
    intro pc
    unfold Workers.backFrom
    split <;> rfl
  have hbackReq : ∀ pc : Pc E, (s.work.backFrom pc).requested = s.work.requested := by
    intro pc
    unfold Workers.backFrom
    split <;> rfl
  cases hs with
  | @leave t w hw hno =>
    obtain ⟨ht, -, -, -, ⟨hpool, hreq⟩ | ⟨hpool, -⟩⟩ := take_cases hw
    · refine hunseen (onCache_leave hw hno) rfl (h.goto hpool hreq ?_ fun heq => by cases heq)
      rw [ht]
      rfl
    · exact absurd (by rw [hpool, Function.update_self]) (hno _)
  | @request t w dataId c hw hid hc =>
    obtain ⟨ht, -, -, -, ⟨hpool, -⟩ | ⟨hpool, hreq⟩⟩ := take_cases hw
    · rw [hpool, Function.update_self] at hid
      cases hid
    · have hk := onCache_request hw hid
      rw [hal.buffer_eq] at hpool
      exact h.request ht hpool hreq (hnote hk).1 (hnote hk).2 rfl
  | step => exact hquiet rfl rfl rfl (h.aside rfl rfl)
  | evict => exact hquiet rfl rfl rfl (h.aside (hbackPool _) (hbackReq _))
  | @ret t id data w c ht hw hc =>
    have hsome : data.isSome = true := by
      have hdata := hwell (some t)
      rw [ht] at hdata
      exact Option.isSome_iff_ne_none.mpr hdata
    have htask : s.work.pool t = .get id := by
      have hasked := hal.asked t
      rw [ht] at hasked
      cases hpc : s.work.pool t with
      | get dataId =>
        rw [hpc] at hasked
        cases hasked
        rfl
      | loop | count | finished | gaveUp =>
        rw [hpc] at hasked
        cases hasked
    rw [hsome] at hw
    have hresults : (n.note g s (.ret t) ⟨c, w⟩).results = (id, data) :: n.results := by
      show ((s.cache.pool (some t)).returned).toList ++ _ = _
      rw [ht]
      rfl
    cases workStep_cases hw with
    | got => exact h.answer htask rfl rfl (hnote rfl).1 (hnote rfl).2 hresults
  | round he => exact hquiet (if_pos he) rfl rfl (h.aside (hbackPool _) (hbackReq _))
  | test he hw =>
    refine hunseen (if_neg he) rfl ?_
    cases workStep_cases hw with
    | evictTest | evictRound => exact h.aside rfl rfl
  | @count t w hw =>
    refine hunseen rfl rfl ?_
    cases workStep_cases hw with
    | count ht =>
      unfold countWorker
      dsimp only
      split <;> exact h.goto rfl rfl (by rw [ht]; rfl) fun heq => by cases heq
  | main hw =>
    refine hunseen rfl rfl ?_
    cases workStep_cases hw with
    | mainRuns | mainLeaves | mainEnds => exact h.aside rfl rfl

/-- **Run lemma**, for the runs in which the device succeeds. -/
theorem reach (hpol : pol.Recycles g) (hpos : 1 ≤ g.maxZoneChunks) (hdvd : writeGranularity ∣ g.chunkSz)
    (hids : ∀ i, buffer i < 2 ^ 32)
    (hr : (programLogSystem Tid pol g rb buffer workloadMax).Reach
      (fun x l => l.Meets (fun _ k => k.ZoneOk g ∧ k.TransferOk g) x.1) (s, n)) :
    Answered buffer s n := by
  apply TransSys.Reach.observed_invariant (T := programSystem Tid pol g rb buffer workloadMax)
    (C := fun s l => l.Meets (fun _ k => k.ZoneOk g ∧ k.TransferOk g) s) (N := ProgramLog)
    (I := Answered buffer) _ _ hr
  · intro s hs
    obtain ⟨bytes, rfl⟩ := hs
    refine ⟨rfl, rfl, fun id => ?_, fun t heq => by cases heq⟩
    have hnone : countOn Finset.univ (fun task => task = TaskPc.get id)
        (initWorkers Tid buffer workloadMax).pool = 0 :=
      (countOn_eq_zero_iff _ _).mpr fun t _ heq => by cases heq
    show 0 = 0 + countOn Finset.univ _ (initWorkers Tid buffer workloadMax).pool
    rw [hnone]
  · intro s n l s' hreach h _ hs
    have hrun := cache_run (C := fun _ k => k.ZoneOk g ∧ k.TransferOk g) (fun _ _ _ hd => hd) hreach
    exact h.step (Aligned.reach hids hreach) (goes_well hpol hpos hdvd (fun _ _ hc => hc) hrun)
      (programStep_cases hs)

end Answered

/-! ## §4. The end of a run. -/

/-- **The workload has been served.** -/
structure WorkloadServed (buffer : Nat → Nat) (workloadMax : Nat) (s : ProgramState P E Tid)
    (n : ProgramLog) : Prop where
  drained : Drained s.work
  /-- Every index was requested once. -/
  once : (s.work.requested.map Prod.snd).Perm (List.range workloadMax)
  /-- Every request came back once, with a buffer. -/
  answered : (n.results.map Prod.fst).Perm ((List.range workloadMax).map buffer)
  buffers : ∀ r ∈ n.results, r.2 ≠ none
  /-- The cache has counted the requests, and nothing else. -/
  counted : s.cache.cache.hits + s.cache.cache.misses = workloadMax
  ratio : znCacheGetHitRatio s.cache.cache * workloadMax = s.cache.cache.hits

omit [DecidableEq Tid] in
/-- Once the end has been signalled every worker has been counted. -/
theorem WorkInv.finished_of_told {w : Workers Tid} (h : WorkInv w) (htold : w.told = true) (t : Tid) :
    w.pool t = .finished := by
  have hcompleted := h.done_iff.mp (h.told_iff.mp htold)
  rw [h.completed_eq] at hcompleted
  unfold countOn at hcompleted
  rw [← Finset.card_univ, Finset.card_filter_eq_iff] at hcompleted
  exact hcompleted t (Finset.mem_univ t)

omit [DecidableEq Tid] [Fintype Tid] in
/-- A worker that has returned has no call in progress. -/
theorem Aligned.idle_of_returned {s : ProgramState P E Tid} (h : Aligned buffer workloadMax s) {t : Tid}
    (ht : s.work.pool t = .finished ∨ s.work.pool t = .gaveUp) : s.cache.pool (some t) = .idle := by
  have hasked := h.asked t
  have hnone : (s.work.pool t).asked = none := by
    rcases ht with ht | ht
    · rw [ht]
      rfl
    · rw [ht]
      rfl
  rw [hnone] at hasked
  cases hpc : s.cache.pool (some t) with
  | idle => rfl
  | get pc =>
    rw [hpc] at hasked
    cases hasked
  | evictor e => exact absurd hpc (h.worker t e)

theorem workload_served (hpol : pol.Recycles g) (hcard : 1 ≤ Fintype.card Tid)
    (h32 : Fintype.card Tid < 2 ^ 32) (hwork : workloadMax < 2 ^ 64) (hpos : 1 ≤ g.maxZoneChunks)
    (hmax : g.maxZoneChunks < 2 ^ 32) (hdvd : writeGranularity ∣ g.chunkSz)
    (hids : ∀ i, buffer i < 2 ^ 32) {s : ProgramState P E Tid} {n : ProgramLog}
    (hr : (programLogSystem Tid pol g rb buffer workloadMax).Reach
      (fun x l => l.Meets (fun _ k => k.ZoneOk g ∧ k.TransferOk g) x.1) (s, n))
    (hall : s.work.AllReturned) : WorkloadServed buffer workloadMax s n := by
  have hrun : (programSystem Tid pol g rb buffer workloadMax).Reach
      (fun s l => l.Meets (fun _ k => k.ZoneOk g ∧ k.TransferOk g) s) s := TransSys.Reach.forget hr
  have hal := Aligned.reach hids hrun
  have hans := Answered.reach hpol hpos hdvd hids hr
  have hwork' : WorkInv s.work := WorkInv.reach hcard h32 hwork
    (work_run (C := TransSys.Any) hids (fun _ _ => trivial) (fun _ => trivial) (fun _ => trivial)
      (fun _ _ _ _ _ _ _ => trivial) (fun _ _ _ => trivial) hrun)
  have hdrained : Drained s.work := (hwork'.drained_iff hcard hall).mpr hans.stayed
  have hfinished : ∀ t, s.work.pool t = .finished := fun t => (hall t).resolve_right (hans.stayed t)
  -- all indices have been taken
  have hindex : s.work.reader.workloadIndex = workloadMax := by
    obtain ⟨t⟩ := Fintype.card_pos_iff.mp hcard
    rw [hwork'.left_drained t (Or.inr (hfinished t)), hal.max_eq]
  have honce : (s.work.requested.map Prod.snd).Perm (List.range workloadMax) := by
    rw [hwork'.requested_eq, hindex]
    exact List.reverse_perm _
  have hlength : s.work.requested.length = workloadMax := by
    rw [← List.length_map Prod.snd, honce.length_eq, List.length_range]
  have hcounted : s.cache.cache.hits + s.cache.cache.misses = workloadMax := by
    have hledger := ledger_run (C := fun _ k => k.ZoneOk g) (fun _ _ _ hd k hk => (hd k hk).1) hr
    have hcalls := (InBalance.reach hpol hpos hmax hledger).calls
    have hopen : total Pc.uncounted s.cache.pool = 0 := by
      rw [total_eq_zero_iff]
      intro u
      cases u with
      | some t => rw [hal.idle_of_returned (hall t)]; rfl
      | none =>
        cases hpc : s.cache.pool none with
        | idle | evictor => rfl
        | get pc => exact absurd hpc (hal.evictor pc)
    rw [hans.calls, hans.failures, hopen, hlength] at hcalls
    omega
  constructor
  case drained => exact hdrained
  case once => exact honce
  case answered =>
    have hmap : (s.work.requested.map fun r => buffer r.2).Perm ((List.range workloadMax).map buffer) := by
      have hperm := honce.map buffer
      rw [List.map_map] at hperm
      exact hperm
    refine List.Perm.trans (List.perm_iff_count.mpr fun id => ?_) hmap
    have hnone : countOn Finset.univ (fun task => task = TaskPc.get id) s.work.pool = 0 :=
      (countOn_eq_zero_iff _ _).mpr fun t _ heq => by
        rw [hfinished t] at heq
        cases heq
    rw [hans.ids id, hnone]
    rfl
  case buffers =>
    refine results_hold (Q := fun _ data => data ≠ none) (fun s t id data hreach ht => ?_) hr
    have hwell := goes_well hpol hpos hdvd (fun _ _ hc => hc)
      (cache_run (C := fun _ k => k.ZoneOk g ∧ k.TransferOk g) (fun _ _ _ hd => hd) hreach) (some t)
    rw [ht] at hwell
    exact hwell
  case counted => exact hcounted
  case ratio =>
    have hratio := znCacheGetHitRatio_mul s.cache.cache
    rw [Nat.add_comm, hcounted] at hratio
    exact hratio

/-- **THE WORKLOAD IS SERVED**, under either policy and in every interleaving of
the workers and the eviction thread, when the device succeeds. -/
theorem program_serves {mem : Nat → EvictionPolicyChunkZone} (hcard : 1 ≤ Fintype.card Tid)
    (h32 : Fintype.card Tid < 2 ^ 32) (hwork : workloadMax < 2 ^ 64) (hpos : 1 ≤ g.maxZoneChunks)
    (hmax : g.maxZoneChunks < 2 ^ 32) (hdvd : writeGranularity ∣ g.chunkSz)
    (hids : ∀ i, buffer i < 2 ^ 32) :
    (∀ (s : ProgramState ZnPolicyPromotional FgEvict Tid) (n : ProgramLog),
      (programLogSystem Tid promotional g rb buffer workloadMax).Reach
        (fun x l => l.Meets (fun _ k => k.ZoneOk g ∧ k.TransferOk g) x.1) (s, n) →
      s.work.AllReturned → WorkloadServed buffer workloadMax s n)
    ∧ ∀ (s : ProgramState ZnPolicyChunk ChunkEvict Tid) (n : ProgramLog),
      (programLogSystem Tid (chunk mem) g rb buffer workloadMax).Reach
        (fun x l => l.Meets (fun _ k => k.ZoneOk g ∧ k.TransferOk g) x.1) (s, n) →
      s.work.AllReturned → WorkloadServed buffer workloadMax s n :=
  ⟨fun _ _ => workload_served promotional_recycles hcard h32 hwork hpos hmax hdvd hids,
    fun _ _ => workload_served (chunk_recycles hpos) hcard h32 hwork hpos hmax hdvd hids⟩

/-- One step that meets `D` and returns, with what is noted. -/
def programLogExec (pol : EvictPolicy P E) (g : Geometry) (rb : Buffer)
    (D : ProgramState P E Tid → ProgramLabel Tid → Prop) [∀ s l, Decidable (D s l)]
    (x : ProgramState P E Tid × ProgramLog) (l : ProgramLabel Tid) :
    Option (ProgramState P E Tid × ProgramLog) :=
  if D x.1 l then
    ((programStep pol g rb x.1 l).bind Except.toOption).map fun s' => (s', x.2.note g x.1 l s')
  else none

theorem programLogExec_ok [∀ s l, Decidable (D s l)] (x : ProgramState P E Tid × ProgramLog)
    (l : ProgramLabel Tid) (x' : ProgramState P E Tid × ProgramLog)
    (h : programLogExec pol g rb D x l = some x') :
    D x.1 l ∧ (programLogSystem Tid pol g rb buffer workloadMax).step x l x' := by
  unfold programLogExec at h
  split at h
  · obtain ⟨s', hs, rfl⟩ := Option.map_eq_some_iff.mp h
    exact ⟨‹_›, bind_toOption_eq_some hs, rfl⟩
  · cases h

/-- A replayed run that ends in a state passing a test. -/
theorem program_replay [∀ s l, Decidable (D s l)] (p : ProgramState P E Tid × ProgramLog → Bool)
    (ls : List (ProgramLabel Tid))
    (h : (TransSys.execAll (programLogExec pol g rb D) ls
      (initProgram pol g (fun _ => 0) buffer workloadMax, ⟨[], ⟨0, 0, 0⟩⟩)).any p = true) :
    ∃ x, (programLogSystem Tid pol g rb buffer workloadMax).Reach (fun x l => D x.1 l) x ∧ p x = true :=
  TransSys.Reach.exists_of_exec programLogExec_ok ⟨⟨fun _ => 0, rfl⟩, rfl⟩ p ls h

/-- A workload of three requests, for two ids. -/
abbrev twiceSeven : Nat → Nat := fun i => if i = 2 then 8 else 7

theorem twiceSeven_small (i : Nat) : twiceSeven i < 2 ^ 31 := by
  unfold twiceSeven
  split <;> decide

/-- Workers `t` and `u` both ask for id 7, and `u` sleeps until `t` has it; the
eviction thread evicts it; `t` serves id 8 from the same zone. -/
def serveThree {Tid : Type u} (t u : Tid) : List (ProgramLabel Tid) :=
  let goOn (t : Option Tid) (n : Nat) : List (ProgramLabel Tid) := List.replicate n (.step t allWell)
  [.main, .take t, .take u] ++ goOn (some t) 1 ++ goOn (some u) 1 ++ goOn (some t) 6 ++ .ret t
    :: goOn (some u) 5 ++ [.ret u, .evictTask, .evictTask] ++ goOn none 6 ++ .take t
    :: goOn (some t) 7 ++ [.ret t, .take t, .take u, .count u, .count t]

/-- A workload of eleven requests, for nine ids. -/
abbrev nineTwice : Nat → Nat := fun i => if i < 9 then i + 1 else if i = 9 then 1 else 9

theorem nineTwice_small (i : Nat) : nineTwice i < 2 ^ 31 := by
  unfold nineTwice
  split
  · omega
  · split <;> decide

/-- Worker `t` fetches nine ids, and the eviction thread evicts six of them and
collects two zones; then `t` fetches id 1 again, and finds id 9. -/
def serveEleven {Tid : Type u} (t u : Tid) : List (ProgramLabel Tid) :=
  let goOn (t : Option Tid) (n : Nat) : List (ProgramLabel Tid) := List.replicate n (.step t allWell)
  let fetch (n : Nat) : List (ProgramLabel Tid) := .take t :: goOn (some t) n ++ [.ret t]
  .main :: (List.replicate 9 (fetch 7)).flatten ++ [.evictTask, .evictTask] ++ goOn none 39
    ++ fetch 7 ++ fetch 5 ++ [.take t, .take u, .count u, .count t]

/-- The cache under the chunk policy is right in that run. -/
theorem serveEleven_reach : ∃ x : ProgramState ZnPolicyChunk ChunkEvict (Fin 2) × ProgramLog,
    (programLogSystem (Fin 2) (chunk clearedPool) fiveZones (fun _ => 0) nineTwice 11).Reach
      (fun x l => l.Meets (fun c k => k.ZoneOk fiveZones ∧ k.TransferOk fiveZones ∧ k.MovesNone c
        ∧ k.PopsPublished c ∧ k.ResetsUnused c) x.1) x
    ∧ x.1.work.AllReturned ∧ x.1.cache.cache.hits = 1
    ∧ x.2.results.map Prod.fst = [9, 1, 9, 8, 7, 6, 5, 4, 3, 2, 1]
    ∧ ∀ r ∈ x.2.results, r.2.isSome = true := by
  obtain ⟨x, hr, hs⟩ := @program_replay _ _ (chunk clearedPool) fiveZones (fun _ => 0) (Fin 2) _ _
    nineTwice 11 (fun s l => l.Meets (fun c k => k.ZoneOk fiveZones ∧ k.TransferOk fiveZones
      ∧ k.MovesNone c ∧ k.PopsPublished c ∧ k.ResetsUnused c) s) _
    (fun x => x.1.work.AllReturned ∧ x.1.cache.cache.hits = 1
      ∧ x.2.results.map Prod.fst = [9, 1, 9, 8, 7, 6, 5, 4, 3, 2, 1]
      ∧ ∀ r ∈ x.2.results, r.2.isSome = true)
    (serveEleven 0 1) (by decide +kernel)
  exact ⟨x, hr, of_decide_eq_true hs⟩

/-- Under the promotional policy three requests, a hit and two misses, and a zone
that was reset; under the chunk policy eleven requests, after an eviction. -/
theorem program_serves_evicted :
    (∃ (s : ProgramState ZnPolicyPromotional FgEvict (Fin 2)) (n : ProgramLog),
      s.cache.cache.hits = 1 ∧ n.results.map Prod.fst = [8, 7, 7]
        ∧ WorkloadServed twiceSeven 3 s n)
    ∧ ∃ (s : ProgramState ZnPolicyChunk ChunkEvict (Fin 2)) (n : ProgramLog),
      s.cache.cache.hits = 1 ∧ n.results.map Prod.fst = [9, 1, 9, 8, 7, 6, 5, 4, 3, 2, 1]
        ∧ WorkloadServed nineTwice 11 s n := by
  constructor
  · obtain ⟨⟨s, n⟩, hr, hs⟩ := @program_replay _ _ promotional oneChunk (fun _ => 0) (Fin 2) _ _
      twiceSeven 3 (fun s l => l.Meets (fun _ k => k.ZoneOk oneChunk ∧ k.TransferOk oneChunk) s) _
      (fun x => x.1.work.AllReturned ∧ x.1.cache.cache.hits = 1 ∧ x.2.results.map Prod.fst = [8, 7, 7])
      (serveThree 0 1) (by decide +kernel)
    obtain ⟨hall, hhits, hresults⟩ := of_decide_eq_true hs
    have hserves := @program_serves oneChunk (fun _ => 0) (Fin 2) _ _ twiceSeven 3 clearedPool
      (by decide) (by decide) (by decide) (by decide) (by decide) (by decide)
      fun i => Nat.lt_trans (twiceSeven_small i) (by decide)
    exact ⟨s, n, hhits, hresults, hserves.1 s n hr hall⟩
  · obtain ⟨⟨s, n⟩, hr, hall, hhits, hresults, -⟩ := serveEleven_reach
    have hserves := @program_serves fiveZones (fun _ => 0) (Fin 2) _ _ nineTwice 11 clearedPool
      (by decide) (by decide) (by decide) (by decide) (by decide) (by decide)
      fun i => Nat.lt_trans (nineTwice_small i) (by decide)
    have hwell := hr.mono (D := fun x l =>
        ProgramLabel.Meets (fun _ k => k.ZoneOk fiveZones ∧ k.TransferOk fiveZones) x.1 l)
      fun _ _ hmeets k hk => ⟨(hmeets k hk).1, (hmeets k hk).2.1⟩
    exact ⟨s, n, hhits, hresults, hserves.2 s n hwell hall⟩

/-- Every result is right, and passes the check under VERIFY. -/
def ResultsVerify (g : Geometry) (rb : Buffer) (n : ProgramLog) : Prop :=
  ∀ r ∈ n.results, ∀ data, r.2 = some data → ValidFor g.chunkSz rb r.1 data
    ∧ (g.chunkSz < 2 ^ 32 → znValidateRead g.chunkSz data r.1 rb = some 0)

/-- **EVERY RESULT VERIFIES** in the runs in which the cache is right: under the
promotional policy those that publish first, under the chunk policy those that
move no live chunk, evict none before it is published and reset no zone in use. -/
theorem program_verifies {mem : Nat → EvictionPolicyChunkZone} (hg : g.Zonable)
    (hids : ∀ i, buffer i < 2 ^ 31) :
    (∀ (s : ProgramState ZnPolicyPromotional FgEvict Tid) (n : ProgramLog),
      (programLogSystem Tid promotional g rb buffer workloadMax).Reach
        (fun x l => l.Meets (fun c k => k.TransferOk g ∧ k.PublishedFirst c) x.1) (s, n) →
      ResultsVerify g rb n)
    ∧ ∀ (s : ProgramState ZnPolicyChunk ChunkEvict Tid) (n : ProgramLog),
      (programLogSystem Tid (chunk mem) g rb buffer workloadMax).Reach
        (fun x l => l.Meets (fun c k => k.ZoneOk g ∧ k.TransferOk g ∧ k.MovesNone c
          ∧ k.PopsPublished c ∧ k.ResetsUnused c) x.1) (s, n) →
      ResultsVerify g rb n := by
  have hsound : g.Sound := ⟨hg.addressable, hg.chunk_dvd, hg.chunk_pos, hg.chunk_fits⟩
  refine ⟨fun s n hr => ?_, fun s n hr => ?_⟩
  · refine results_hold (Q := fun id result => ∀ data, result = some data → ValidFor g.chunkSz rb id data
      ∧ (g.chunkSz < 2 ^ 32 → znValidateRead g.chunkSz data id rb = some 0)) ?_ hr
    rintro s t id result hreach ht data rfl
    have hrun := cache_run (C := fun c k => k.TransferOk g ∧ k.PublishedFirst c)
      (fun _ _ _ hd => hd) hreach
    have hlife : (lifeSystem (Option Tid) g rb).Reach (fun s l => l.PublishedFirst s ∧ l.TransferOk)
        s.cache.life := life_simulates (fun _ _ _ hc _ ht hp => ⟨hp hc.2, ht hc.1⟩) hrun
    have hvalid : ValidFor g.chunkSz rb id data := by
      apply (buffers_reach hsound hg.narrow (fun _ _ h => h) hlife).valid (some t) id data
      rw [life_role, ht]
      rfl
    exact ⟨hvalid, fun hsz => hvalid.validate hsz⟩
  · refine results_hold (Q := fun id result => ∀ data, result = some data → ValidFor g.chunkSz rb id data
      ∧ (g.chunkSz < 2 ^ 32 → znValidateRead g.chunkSz data id rb = some 0)) ?_ hr
    rintro s t id result hreach ht data rfl
    have hids' : ∀ i, buffer i < 2 ^ 32 := fun i => Nat.lt_trans (hids i) (by decide)
    have hrun := cache_run (C := fun c k => k.Orderly g c)
      (fun s l hreach hd k hk => ⟨(Aligned.reach hids' hreach).smallId hids l k hk, hd k hk⟩) hreach
    exact (ChunkContents.reach hg hrun).resultsRight (some t) id data ht

/-- The results of those runs verify. -/
theorem program_verifies_evicted :
    (∃ (s : ProgramState ZnPolicyPromotional FgEvict (Fin 2)) (n : ProgramLog),
      s.work.AllReturned ∧ n.results.map Prod.fst = [8, 7, 7]
        ∧ (∀ r ∈ n.results, r.2.isSome = true) ∧ ResultsVerify oneChunk (fun _ => 0) n)
    ∧ ∃ (s : ProgramState ZnPolicyChunk ChunkEvict (Fin 2)) (n : ProgramLog),
      s.work.AllReturned ∧ n.results.map Prod.fst = [9, 1, 9, 8, 7, 6, 5, 4, 3, 2, 1]
        ∧ (∀ r ∈ n.results, r.2.isSome = true) ∧ ResultsVerify fiveZones (fun _ => 0) n := by
  constructor
  · obtain ⟨⟨s, n⟩, hr, hs⟩ := @program_replay _ _ promotional oneChunk (fun _ => 0) (Fin 2) _ _
      twiceSeven 3 (fun s l => l.Meets (fun c k => k.TransferOk oneChunk ∧ k.PublishedFirst c) s) _
      (fun x => x.1.work.AllReturned ∧ x.2.results.map Prod.fst = [8, 7, 7]
        ∧ ∀ r ∈ x.2.results, r.2.isSome = true)
      (serveThree 0 1) (by decide +kernel)
    obtain ⟨hall, hresults, hsome⟩ := of_decide_eq_true hs
    have hg : oneChunk.Zonable := ⟨⟨by decide, by decide⟩, by decide, by decide, by decide, by decide⟩
    have hverifies := @program_verifies oneChunk (fun _ => 0) (Fin 2) _ _ twiceSeven 3 clearedPool hg
      twiceSeven_small
    exact ⟨s, n, hall, hresults, hsome, hverifies.1 s n hr⟩
  · obtain ⟨⟨s, n⟩, hr, hall, -, hresults, hsome⟩ := serveEleven_reach
    have hverifies := @program_verifies fiveZones (fun _ => 0) (Fin 2) _ _ nineTwice 11 clearedPool
      fiveZones_zonable nineTwice_small
    exact ⟨s, n, hall, hresults, hsome, hverifies.2 s n hr⟩

end ZnCache
