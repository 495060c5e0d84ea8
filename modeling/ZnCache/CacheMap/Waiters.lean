/-
  ZnCache.CacheMap.Waiters — one writer per entry, and no lost wakeup.

  Any number of threads run the map side of `zn_cache_get`: find an id; on a
  location, read and leave; on a condition, write and then insert or fail.
  Evictions clear zones and chunks at any time.  One step is one stretch under
  `cache_map_mutex`; a sleeping thread may be woken at any time, notified or
  not.

  `WaitInv` ties the entries, the condition boxes and the threads together:

    * a `RESULT_COND` entry and the thread that writes it determine each other,
    * a sleeper that has not been notified sleeps on the entry's condition,
    * the references of a box are its entry, if any, and its sleepers.

  Main results: `WaitInv.step`, and `cachemap_single_writer` over every run.
-/
import ZnCache.CacheMap.Spec
import ZnCache.Lib.Transition
import ZnCache.Lib.ThreadPool

namespace ZnCache

open Lib Lib.ThreadPool

universe u

/-! ## §1. The threads. -/

/-- Where a thread is. -/
inductive MapPc where
  | idle
  /-- About to run `zn_cachemap_find` from the top. -/
  | find (id : Nat)
  /-- In `g_cond_wait`, since the condition had been broadcast `seen` times. -/
  | asleep (id cond seen : Nat)
  /-- Was handed a location. -/
  | hit (id : Nat) (location : ZnPair)
  /-- Was handed the condition of a new entry, and is writing it. -/
  | writer (id cond : Nat)
  deriving DecidableEq

/-- Where a thread is after a stretch of `zn_cachemap_find`. -/
def FindResult.pc (id : Nat) : FindResult → MapPc
  | .located l => .hit id l
  | .sleep c seen => .asleep id c seen
  | .write c => .writer id c

/-- In `g_cond_wait` on `c`. -/
def MapPc.SleepsOn (c : Nat) : MapPc → Prop
  | .asleep _ c' _ => c' = c
  | _ => False

instance MapPc.decSleepsOn (c : Nat) : DecidablePred (MapPc.SleepsOn c) := fun pc => by
  cases pc <;> unfold MapPc.SleepsOn <;> infer_instance

theorem MapPc.sleepsOn_iff {c : Nat} {pc : MapPc} :
    pc.SleepsOn c ↔ ∃ id seen, pc = .asleep id c seen := by
  cases pc with
  | asleep id c' seen =>
    constructor
    · intro hc
      exact ⟨id, seen, by rw [show c' = c from hc]⟩
    · intro hc
      obtain ⟨id', seen', heq⟩ := hc
      cases heq
      rfl
  | idle | find | hit | writer => simp [MapPc.SleepsOn]

/-- The cache map and the threads that use it. -/
structure MapThreads (Tid : Type u) where
  map : ZnCachemap
  pool : Tid → MapPc

/-- One step. -/
inductive MapLabel (Tid : Type u) where
  | call (t : Tid) (id : Nat)
  | find (t : Tid)
  | wake (t : Tid)
  | leave (t : Tid)
  | insert (t : Tid) (location : ZnPair)
  | fail (t : Tid)
  | clearChunk (location : ZnPair)
  | clearZone (zone : Nat) (iter : List (Sigma fun _ : Nat => Nat))

variable {Tid : Type u} [DecidableEq Tid]

/-- Thread `t` goes on at `pc`. -/
def MapThreads.goto (s : MapThreads Tid) (t : Tid) (pc : MapPc) (m : ZnCachemap) :
    MapThreads Tid := ⟨m, Function.update s.pool t pc⟩

/-- One step: `none` if the thread is elsewhere. -/
def mapStep (s : MapThreads Tid) : MapLabel Tid → Option (Except Fault (MapThreads Tid))
  | .call t id =>
    match s.pool t with
    | .idle => if id < 2 ^ 32 then some (.ok (s.goto t (.find id) s.map)) else none
    | _ => none
  | .find t =>
    match s.pool t with
    | .find id => some ((znCachemapFind s.map id).map fun r => s.goto t (r.1.pc id) r.2)
    | _ => none
  | .wake t =>
    match s.pool t with
    | .asleep id c _ => some ((znCachemapWake s.map id c).map fun r => s.goto t (r.1.pc id) r.2)
    | _ => none
  | .leave t =>
    match s.pool t with
    | .hit _ _ => some (.ok (s.goto t .idle s.map))
    | _ => none
  | .insert t l =>
    match s.pool t with
    | .writer id _ => some ((znCachemapInsert s.map id l).map (s.goto t .idle))
    | _ => none
  | .fail t =>
    match s.pool t with
    | .writer id _ => some ((znCachemapFail s.map id).map (s.goto t .idle))
    | _ => none
  | .clearChunk l => some ((znCachemapClearChunk s.map l).map fun m => ⟨m, s.pool⟩)
  | .clearZone zone iter =>
    some ((znCachemapClearZone s.map zone iter).map fun m => ⟨m, s.pool⟩)

/-- The runs from `zn_cachemap_init`, with every thread idle. -/
def mapThreadSystem (Tid : Type u) [DecidableEq Tid] (numZones : Nat) :
    TransSys (MapThreads Tid) (MapLabel Tid) where
  init s := s = ⟨znCachemapInit numZones, fun _ => .idle⟩
  step s l s' := mapStep s l = some (.ok s')

/-! ## §2. The invariant. -/

/-- Both spellings of the pointer of a 32-bit id. -/
theorem guint_eq_gint {id : Nat} (h : id < 2 ^ 32) : guintToPointer id = gintToPointer (id : Int) := by
  rw [guintToPointer_eq (by omega), gintToPointer_natCast (by omega)]

variable [Fintype Tid]

/-- How many threads sleep on `c`. -/
def sleepers (pool : Tid → MapPc) (c : Nat) : Nat := countOn Finset.univ (MapPc.SleepsOn c) pool

/-- **The invariant.** -/
structure WaitInv (m : ZnCachemap) (pool : Tid → MapPc) : Prop where
  /-- Ids are 32-bit. -/
  id_lt : ∀ t id, (pool t = .find id ∨ (∃ c seen, pool t = .asleep id c seen)
    ∨ ∃ c, pool t = .writer id c) → id < 2 ^ 32
  writer_entry : ∀ t id c, pool t = .writer id c → m.zoneMap (gintToPointer id) = some (.cond c)
  entry_writer : ∀ k c, m.zoneMap k = some (.cond c) →
    ∃ t id, pool t = .writer id c ∧ gintToPointer id = k
  writer_unique : ∀ t u id c c', pool t = .writer id c → pool u = .writer id c' → t = u
  cond_inj : ∀ k k' c, m.zoneMap k = some (.cond c) → m.zoneMap k' = some (.cond c) → k = k'
  /-- A condition that has been broadcast `seen` times since the thread went to
  sleep has not notified it. -/
  sleep : ∀ t id c seen, pool t = .asleep id c seen → seen ≤ (m.conds c).broadcasts
    ∧ ((m.conds c).broadcasts = seen → m.zoneMap (gintToPointer id) = some (.cond c))
  rc_entry : ∀ k c, m.zoneMap k = some (.cond c) → (m.conds c).rc = 1 + sleepers pool c
  rc_no_entry : ∀ c, (∀ k, m.zoneMap k ≠ some (.cond c)) → (m.conds c).rc = sleepers pool c
  unused : ∀ c, m.nextCond ≤ c → (∀ k, m.zoneMap k ≠ some (.cond c)) ∧ sleepers pool c = 0
    ∧ (m.conds c).cleared = 0
  cleared : ∀ c, c < m.nextCond → (m.conds c).cleared = if (m.conds c).rc = 0 then 1 else 0

namespace WaitInv

variable {m m' : ZnCachemap} {pool : Tid → MapPc} {t : Tid}

/-- Threads that neither sleep nor write are none of the invariant's business. -/
structure Outside (pc : MapPc) : Prop where
  not_asleep : ∀ id c seen, pc ≠ .asleep id c seen
  not_writer : ∀ id c, pc ≠ .writer id c

theorem outside_idle : Outside .idle := ⟨by simp, by simp⟩
theorem outside_find (id : Nat) : Outside (.find id) := ⟨by simp, by simp⟩
theorem outside_hit (id : Nat) (l : ZnPair) : Outside (.hit id l) := ⟨by simp, by simp⟩

omit [Fintype Tid] in
/-- A thread found in a moved pool is the one that moved, or was there before. -/
theorem of_update {pc pc' : MapPc} {u : Tid} (h : Function.update pool t pc u = pc') :
    (u = t ∧ pc = pc') ∨ (u ≠ t ∧ pool u = pc') := by
  by_cases hu : u = t
  · subst hu
    rw [Function.update_self] at h
    exact Or.inl ⟨rfl, h⟩
  · rw [Function.update_of_ne hu] at h
    exact Or.inr ⟨hu, h⟩

/-- The count of sleepers when a thread that does not sleep on `c` moves to
where it does not either. -/
theorem sleepers_same {pc : MapPc} {c : Nat} (h : pc.SleepsOn c ↔ (pool t).SleepsOn c) :
    sleepers (Function.update pool t pc) c = sleepers pool c :=
  countOn_update_same _ pool t pc h

/-- The count of sleepers when a thread falls asleep on `c`. -/
theorem sleepers_gain {pc : MapPc} {c : Nat} (h : pc.SleepsOn c) (h' : ¬ (pool t).SleepsOn c) :
    sleepers (Function.update pool t pc) c = sleepers pool c + 1 := by
  have := countOn_update (D := Finset.univ) (MapPc.SleepsOn c) pool (Finset.mem_univ t) pc
  rw [if_neg h', if_pos h] at this
  exact this

/-- The count of sleepers when a thread that slept on `c` wakes. -/
theorem sleepers_lose {pc : MapPc} {c : Nat} (h : ¬ pc.SleepsOn c) (h' : (pool t).SleepsOn c) :
    sleepers (Function.update pool t pc) c + 1 = sleepers pool c := by
  have := countOn_update (D := Finset.univ) (MapPc.SleepsOn c) pool (Finset.mem_univ t) pc
  rw [if_pos h', if_neg h] at this
  exact this

omit [DecidableEq Tid] in
/-- The box of a pending entry is alive. -/
theorem rc_pos (h : WaitInv m pool) {k c : Nat} (hk : m.zoneMap k = some (.cond c)) :
    (m.conds c).rc ≠ 0 := by
  have := h.rc_entry k c hk
  omega

omit [DecidableEq Tid] in
theorem cond_lt (h : WaitInv m pool) {k c : Nat} (hk : m.zoneMap k = some (.cond c)) :
    c < m.nextCond := by
  by_contra hlt
  exact (h.unused c (Nat.le_of_not_lt hlt)).1 k hk

omit [DecidableEq Tid] in
theorem sleepers_pos {id c seen : Nat} (ht : pool t = .asleep id c seen) : 0 < sleepers pool c := by
  by_contra hzero
  have := (countOn_eq_zero_iff (D := Finset.univ) (MapPc.SleepsOn c) pool).mp (by
    show sleepers pool c = 0
    omega) t (Finset.mem_univ t)
  rw [ht] at this
  exact this rfl

omit [DecidableEq Tid] in
/-- The box a thread sleeps on is alive. -/
theorem rc_pos_of_asleep (h : WaitInv m pool) {id c seen : Nat}
    (ht : pool t = .asleep id c seen) : (m.conds c).rc ≠ 0 := by
  have hpos := sleepers_pos ht
  by_cases hk : ∃ k, m.zoneMap k = some (.cond c)
  · obtain ⟨k, hk⟩ := hk
    exact h.rc_pos hk
  · have := h.rc_no_entry c (fun k hk' => hk ⟨k, hk'⟩)
    omega

/-! ## §3. Steps that concern no condition. -/

omit [DecidableEq Tid] in
/-- **Frame lemma.**  The invariant reads the entries being written, the boxes,
and which threads sleep or write. -/
theorem congr (h : WaitInv m pool) {pool' : Tid → MapPc}
    (hfind : ∀ u id, pool' u = .find id → id < 2 ^ 32)
    (hwriter : ∀ u id c, pool' u = .writer id c ↔ pool u = .writer id c)
    (hasleep : ∀ u id c seen, pool' u = .asleep id c seen ↔ pool u = .asleep id c seen)
    (hentry : ∀ k c, m'.zoneMap k = some (.cond c) ↔ m.zoneMap k = some (.cond c))
    (hconds : m'.conds = m.conds) (hnext : m'.nextCond = m.nextCond) : WaitInv m' pool' := by
  have hsl : ∀ c, sleepers pool' c = sleepers pool c := by
    intro c
    refine countOn_congr fun u _ => ?_
    rw [MapPc.sleepsOn_iff, MapPc.sleepsOn_iff]
    simp only [hasleep]
  constructor
  case id_lt =>
    intro u id hu
    rcases hu with hu | ⟨c, seen, hu⟩ | ⟨c, hu⟩
    · exact hfind u id hu
    · exact h.id_lt u id (Or.inr (Or.inl ⟨c, seen, (hasleep u id c seen).mp hu⟩))
    · exact h.id_lt u id (Or.inr (Or.inr ⟨c, (hwriter u id c).mp hu⟩))
  case writer_entry =>
    intro u id c hu
    exact (hentry _ _).mpr (h.writer_entry u id c ((hwriter u id c).mp hu))
  case entry_writer =>
    intro k c hk
    obtain ⟨u, id, hu, hkey⟩ := h.entry_writer k c ((hentry k c).mp hk)
    exact ⟨u, id, (hwriter u id c).mpr hu, hkey⟩
  case writer_unique =>
    intro u v id c c' hu hv
    exact h.writer_unique u v id c c' ((hwriter u id c).mp hu) ((hwriter v id c').mp hv)
  case cond_inj =>
    intro k k' c hk hk'
    exact h.cond_inj k k' c ((hentry k c).mp hk) ((hentry k' c).mp hk')
  case sleep =>
    intro u id c seen hu
    rw [hconds]
    obtain ⟨hle, hcur⟩ := h.sleep u id c seen ((hasleep u id c seen).mp hu)
    exact ⟨hle, fun heq => (hentry _ _).mpr (hcur heq)⟩
  case rc_entry =>
    intro k c hk
    rw [hconds, hsl]
    exact h.rc_entry k c ((hentry k c).mp hk)
  case rc_no_entry =>
    intro c hno
    rw [hconds, hsl]
    exact h.rc_no_entry c (fun k hk => hno k ((hentry k c).mpr hk))
  case unused =>
    intro c hc
    rw [hconds, hsl]
    rw [hnext] at hc
    obtain ⟨hno, hrest⟩ := h.unused c hc
    exact ⟨fun k hk => hno k ((hentry k c).mp hk), hrest⟩
  case cleared =>
    intro c hc
    rw [hconds]
    rw [hnext] at hc
    exact h.cleared c hc

/-- A thread moves outside, and the entries being written stay. -/
theorem move (h : WaitInv m pool) {pc : MapPc} (hfrom : Outside (pool t)) (hto : Outside pc)
    (hid : ∀ id, pc = .find id → id < 2 ^ 32)
    (hentry : ∀ k c, m'.zoneMap k = some (.cond c) ↔ m.zoneMap k = some (.cond c))
    (hconds : m'.conds = m.conds) (hnext : m'.nextCond = m.nextCond) :
    WaitInv m' (Function.update pool t pc) := by
  refine h.congr ?_ ?_ ?_ hentry hconds hnext
  · intro u id hu
    rcases of_update hu with ⟨-, hpc⟩ | ⟨-, hpool⟩
    · exact hid id hpc
    · exact h.id_lt u id (Or.inl hpool)
  · intro u id c
    by_cases hu : u = t
    · subst hu
      rw [Function.update_self]
      exact ⟨fun he => absurd he (hto.not_writer id c), fun he => absurd he (hfrom.not_writer id c)⟩
    · rw [Function.update_of_ne hu]
  · intro u id c seen
    by_cases hu : u = t
    · subst hu
      rw [Function.update_self]
      exact ⟨fun he => absurd he (hto.not_asleep id c seen),
        fun he => absurd he (hfrom.not_asleep id c seen)⟩
    · rw [Function.update_of_ne hu]

omit [DecidableEq Tid] in
/-- An eviction: no thread moves. -/
theorem evict (h : WaitInv m pool)
    (hentry : ∀ k c, m'.zoneMap k = some (.cond c) ↔ m.zoneMap k = some (.cond c))
    (hconds : m'.conds = m.conds) (hnext : m'.nextCond = m.nextCond) : WaitInv m' pool :=
  h.congr (fun u id hu => h.id_lt u id (Or.inl hu)) (fun _ _ _ => Iff.rfl)
    (fun _ _ _ _ => Iff.rfl) hentry hconds hnext

/-! ## §4. Falling asleep and waking. -/

/-- **A thread that does not write joins or leaves the sleepers of `c`**, and
the box of `c` counts it. -/
theorem recount (h : WaitInv m pool) {c : Nat} {box : RcCond} {pc : MapPc} (hlt : c < m.nextCond)
    (hfrom : ∀ i x, pool t ≠ .writer i x) (hto : ∀ i x, pc ≠ .writer i x)
    (hid : ∀ i, pc = .find i ∨ (∃ x seen, pc = .asleep i x seen) → i < 2 ^ 32)
    (hsleep : ∀ i x seen, pc = .asleep i x seen → seen ≤ (m.conds x).broadcasts
      ∧ ((m.conds x).broadcasts = seen → m.zoneMap (gintToPointer i) = some (.cond x)))
    (hother : ∀ x, x ≠ c → sleepers (Function.update pool t pc) x = sleepers pool x)
    (hrc : box.rc + sleepers pool c = (m.conds c).rc + sleepers (Function.update pool t pc) c)
    (hbroadcasts : box.broadcasts = (m.conds c).broadcasts)
    (hcleared : box.cleared = if box.rc = 0 then 1 else 0) :
    WaitInv (m.setCond c box) (Function.update pool t pc) := by
  have hwriter : ∀ u i x, Function.update pool t pc u = .writer i x ↔ pool u = .writer i x := by
    intro u i x
    by_cases hu : u = t
    · rw [hu, Function.update_self]
      exact iff_of_false (hto i x) (hfrom i x)
    · rw [Function.update_of_ne hu]
  have hbc : ∀ x, ((m.setCond c box).conds x).broadcasts = (m.conds x).broadcasts := by
    intro x
    rw [ZnCachemap.setCond_conds]
    by_cases hx : x = c
    · rw [hx, Function.update_self, hbroadcasts]
    · rw [Function.update_of_ne hx]
  constructor
  case id_lt =>
    intro u i hu
    rcases hu with hu | ⟨x, seen, hu⟩ | ⟨x, hu⟩
    · rcases of_update hu with ⟨-, hpc⟩ | ⟨-, hpool⟩
      · exact hid i (Or.inl hpc)
      · exact h.id_lt u i (Or.inl hpool)
    · rcases of_update hu with ⟨-, hpc⟩ | ⟨-, hpool⟩
      · exact hid i (Or.inr ⟨x, seen, hpc⟩)
      · exact h.id_lt u i (Or.inr (Or.inl ⟨x, seen, hpool⟩))
    · exact h.id_lt u i (Or.inr (Or.inr ⟨x, (hwriter u i x).mp hu⟩))
  case writer_entry => exact fun u i x hu => h.writer_entry u i x ((hwriter u i x).mp hu)
  case entry_writer =>
    intro k x hk
    obtain ⟨u, i, hu, hkey⟩ := h.entry_writer k x hk
    exact ⟨u, i, (hwriter u i x).mpr hu, hkey⟩
  case writer_unique =>
    intro u v i x x' hu hv
    exact h.writer_unique u v i x x' ((hwriter u i x).mp hu) ((hwriter v i x').mp hv)
  case cond_inj => exact h.cond_inj
  case sleep =>
    intro u i x seen hu
    rw [hbc]
    rcases of_update hu with ⟨-, hpc⟩ | ⟨-, hpool⟩
    · exact hsleep i x seen hpc
    · exact h.sleep u i x seen hpool
  case rc_entry =>
    intro k x hk
    have hold := h.rc_entry k x hk
    rw [ZnCachemap.setCond_conds]
    by_cases hx : x = c
    · subst hx
      rw [Function.update_self]
      omega
    · rw [Function.update_of_ne hx, hother x hx]
      exact hold
  case rc_no_entry =>
    intro x hno
    have hold := h.rc_no_entry x hno
    rw [ZnCachemap.setCond_conds]
    by_cases hx : x = c
    · subst hx
      rw [Function.update_self]
      omega
    · rw [Function.update_of_ne hx, hother x hx]
      exact hold
  case unused =>
    intro x hx
    -- the box of `c` is in use
    have hxc : x ≠ c := Nat.ne_of_gt (Nat.lt_of_lt_of_le hlt hx)
    rw [ZnCachemap.setCond_conds, Function.update_of_ne hxc, hother x hxc]
    exact h.unused x hx
  case cleared =>
    intro x hx
    rw [ZnCachemap.setCond_conds]
    by_cases hxc : x = c
    · rw [hxc, Function.update_self]
      exact hcleared
    · rw [Function.update_of_ne hxc]
      exact h.cleared x hx

/-- **Wake.**  The thread gives its reference back and looks again. -/
theorem wake (h : WaitInv m pool) {id c seen : Nat} (ht : pool t = .asleep id c seen) :
    WaitInv (m.setCond c (m.conds c).released) (Function.update pool t (.find id)) := by
  have hrc := h.rc_pos_of_asleep ht
  have hlose : sleepers (Function.update pool t (.find id)) c + 1 = sleepers pool c :=
    sleepers_lose (fun hs => hs) (by rw [ht]; rfl)
  have hlt : c < m.nextCond := by
    by_contra hge
    have hzero := (h.unused c (Nat.le_of_not_lt hge)).2.1
    omega
  have hlive := h.cleared c hlt
  rw [if_neg hrc] at hlive
  apply h.recount hlt
  · intro i x hi
    rw [ht] at hi
    cases hi
  · exact fun i x hi => by cases hi
  · intro i hi
    rcases hi with hi | ⟨x, seen', hi⟩
    · cases hi
      exact h.id_lt t id (Or.inr (Or.inl ⟨c, seen, ht⟩))
    · cases hi
  · exact fun i x seen' hi => by cases hi
  · intro x hne
    refine sleepers_same ⟨fun hs => hs.elim, fun hs => ?_⟩
    rw [ht] at hs
    exact absurd hs (Ne.symm hne)
  · simp only [RcCond.released]
    omega
  · simp [RcCond.released]
  · -- the box is cleared with its last reference
    simp only [RcCond.released, hlive]
    split <;> split <;> omega

/-- **Sleep.**  The thread takes a reference to the entry's condition. -/
theorem fallAsleep (h : WaitInv m pool) {id c : Nat} (ht : pool t = .find id)
    (hc : m.zoneMap (gintToPointer id) = some (.cond c)) :
    WaitInv (m.setCond c (m.conds c).acquired)
      (Function.update pool t (.asleep id c (m.conds c).broadcasts)) := by
  have hrc := h.rc_pos hc
  have hlt := h.cond_lt hc
  have hgain : sleepers (Function.update pool t (.asleep id c (m.conds c).broadcasts)) c
      = sleepers pool c + 1 := sleepers_gain rfl (by rw [ht]; exact fun hs => hs)
  have hlive := h.cleared c hlt
  rw [if_neg hrc] at hlive
  apply h.recount hlt
  · intro i x hi
    rw [ht] at hi
    cases hi
  · exact fun i x hi => by cases hi
  · intro i hi
    rcases hi with hi | ⟨x, seen, hi⟩
    · cases hi
    · cases hi
      exact h.id_lt t id (Or.inl ht)
  · intro i x seen hi
    -- nothing has been broadcast since the thread looked
    cases hi
    exact ⟨Nat.le_refl _, fun _ => hc⟩
  · intro x hne
    refine sleepers_same ⟨fun hs => absurd hs (Ne.symm hne), fun hs => ?_⟩
    rw [ht] at hs
    exact hs.elim
  · simp only [RcCond.acquired]
    omega
  · simp [RcCond.acquired]
  · simp only [RcCond.acquired, hlive]
    rw [if_neg (by omega)]

/-! ## §5. Claiming an entry, and the end of a write. -/

/-- **Claim.**  A new entry, a new box, one writer. -/
theorem claim (h : WaitInv m pool) {id : Nat} (ht : pool t = .find id)
    (hnone : m.zoneMap (gintToPointer id) = none) :
    WaitInv (claimed m id) (Function.update pool t (.writer id m.nextCond)) := by
  have hlt := h.id_lt t id (Or.inl ht)
  have hfresh := h.unused m.nextCond (Nat.le_refl _)
  have hsl : ∀ c, sleepers (Function.update pool t (.writer id m.nextCond)) c = sleepers pool c := by
    intro c
    refine sleepers_same ⟨fun hs => hs.elim, fun hs => ?_⟩
    rw [ht] at hs
    exact hs.elim
  have hzm : ∀ k x, (claimed m id).zoneMap k = some (.cond x)
      ↔ (k = gintToPointer id ∧ x = m.nextCond) ∨ m.zoneMap k = some (.cond x) := by
    intro k x
    by_cases hk : k = gintToPointer (id : Int)
    · subst hk
      simp [claimed, hnone, eq_comm]
    · simp [claimed, hk]
  have hasleep : ∀ u i x seen, Function.update pool t (.writer id m.nextCond) u = .asleep i x seen →
      pool u = .asleep i x seen := by
    intro u i x seen hu
    rcases of_update hu with ⟨-, hpc⟩ | ⟨-, hpool⟩
    · cases hpc
    · exact hpool
  have hconds : ∀ x, x ≠ m.nextCond → (claimed m id).conds x = m.conds x := by
    intro x hx
    simp [claimed, hx]
  -- nobody else writes this id: its entry would be pending
  have hnowriter : ∀ u c, pool u ≠ .writer id c := by
    intro u c hu
    have := h.writer_entry u id c hu
    rw [hnone] at this
    cases this
  constructor
  case id_lt =>
    intro u i hu
    by_cases hut : u = t
    · subst hut
      rw [Function.update_self] at hu
      obtain rfl : id = i := by
        rcases hu with hu | ⟨x, y, hu⟩ | ⟨x, hu⟩ <;> cases hu
        rfl
      exact hlt
    · rw [Function.update_of_ne hut] at hu
      exact h.id_lt u i hu
  case writer_entry =>
    intro u i x hu
    rw [hzm]
    rcases of_update hu with ⟨-, hpc⟩ | ⟨-, hpool⟩
    · cases hpc
      exact Or.inl ⟨rfl, rfl⟩
    · exact Or.inr (h.writer_entry u i x hpool)
  case entry_writer =>
    intro k x hk
    rcases (hzm k x).mp hk with ⟨rfl, rfl⟩ | hk
    · exact ⟨t, id, by rw [Function.update_self], rfl⟩
    · obtain ⟨u, i, hu, hkey⟩ := h.entry_writer k x hk
      have hut : u ≠ t := by
        rintro rfl
        rw [ht] at hu
        cases hu
      exact ⟨u, i, by rw [Function.update_of_ne hut]; exact hu, hkey⟩
  case writer_unique =>
    intro u v i x x' hu hv
    rcases of_update hu with ⟨rfl, hpu⟩ | ⟨-, hpu⟩ <;> rcases of_update hv with ⟨rfl, hpv⟩ | ⟨-, hpv⟩
    · rfl
    · cases hpu
      exact absurd hpv (hnowriter v x')
    · cases hpv
      exact absurd hpu (hnowriter u x)
    · exact h.writer_unique u v i x x' hpu hpv
  case cond_inj =>
    intro k k' x hk hk'
    rcases (hzm k x).mp hk with ⟨rfl, rfl⟩ | hk <;> rcases (hzm k' _).mp hk' with ⟨rfl, hx⟩ | hk'
    · rfl
    · exact absurd hk' (hfresh.1 k')
    · subst hx
      exact absurd hk (hfresh.1 k)
    · exact h.cond_inj k k' x hk hk'
  case sleep =>
    intro u i x seen hu
    obtain ⟨hle, hcur⟩ := h.sleep u i x seen (hasleep u i x seen hu)
    -- nobody sleeps on a box that does not exist yet
    have hx : x ≠ m.nextCond := by
      rintro rfl
      have := sleepers_pos (hasleep u i _ seen hu)
      have := hfresh.2.1
      omega
    rw [hconds x hx, hzm]
    exact ⟨hle, fun heq => Or.inr (hcur heq)⟩
  case rc_entry =>
    intro k x hk
    rw [hsl]
    rcases (hzm k x).mp hk with ⟨-, rfl⟩ | hk
    · rw [hfresh.2.1]
      simp [claimed]
    · have hx : x ≠ m.nextCond := Nat.ne_of_lt (h.cond_lt hk)
      rw [hconds x hx]
      exact h.rc_entry k x hk
  case rc_no_entry =>
    intro x hno
    rw [hsl]
    have hx : x ≠ m.nextCond := by
      rintro rfl
      exact hno _ ((hzm _ _).mpr (Or.inl ⟨rfl, rfl⟩))
    rw [hconds x hx]
    exact h.rc_no_entry x (fun k hk => hno k ((hzm k x).mpr (Or.inr hk)))
  case unused =>
    intro x hx
    have hx' : m.nextCond + 1 ≤ x := hx
    rw [hsl, hconds x (by omega)]
    obtain ⟨hno, hrest⟩ := h.unused x (by omega)
    refine ⟨fun k hk => ?_, hrest⟩
    rcases (hzm k x).mp hk with ⟨-, rfl⟩ | hk
    · omega
    · exact hno k hk
  case cleared =>
    intro x hx
    have hx' : x < m.nextCond + 1 := hx
    by_cases hxn : x = m.nextCond
    · subst hxn
      simp [claimed]
    · rw [hconds x hxn]
      exact h.cleared x (by omega)

/-- **End of a write.**  The entry stops being pending, its sleepers are
notified, and the writer's reference is given back. -/
theorem settle (h : WaitInv m pool) {id c : Nat} (ht : pool t = .writer id c)
    (hzm : ∀ k x, m'.zoneMap k = some (.cond x)
      ↔ k ≠ gintToPointer id ∧ m.zoneMap k = some (.cond x))
    (hconds : m'.conds = Function.update m.conds c (m.conds c).signalled)
    (hnext : m'.nextCond = m.nextCond) : WaitInv m' (Function.update pool t .idle) := by
  have hentry := h.writer_entry t id c ht
  have hsl : ∀ x, sleepers (Function.update pool t .idle) x = sleepers pool x := by
    intro x
    refine sleepers_same ⟨fun hs => hs.elim, fun hs => ?_⟩
    rw [ht] at hs
    exact hs.elim
  have hrc := h.rc_entry _ c hentry
  have hothers : ∀ k, m'.zoneMap k ≠ some (.cond c) := by
    intro k hk
    obtain ⟨hne, hk⟩ := (hzm k c).mp hk
    exact hne (h.cond_inj k _ c hk hentry)
  have hold : ∀ {pc : MapPc} {u : Tid}, Function.update pool t .idle u = pc → pc ≠ .idle →
      u ≠ t ∧ pool u = pc := by
    intro pc u hu hpc
    rcases of_update hu with ⟨-, hidle⟩ | hpool
    · exact absurd hidle.symm hpc
    · exact hpool
  constructor
  case id_lt =>
    intro u i hu
    rcases hu with hu | ⟨x, seen, hu⟩ | ⟨x, hu⟩
    · exact h.id_lt u i (Or.inl (hold hu (by simp)).2)
    · exact h.id_lt u i (Or.inr (Or.inl ⟨x, seen, (hold hu (by simp)).2⟩))
    · exact h.id_lt u i (Or.inr (Or.inr ⟨x, (hold hu (by simp)).2⟩))
  case writer_entry =>
    intro u i x hu
    obtain ⟨hut, hu⟩ := hold hu (by simp)
    refine (hzm _ _).mpr ⟨fun hkey => ?_, h.writer_entry u i x hu⟩
    -- the same key is the same id, and that has one writer
    have hi := h.id_lt u i (Or.inr (Or.inr ⟨x, hu⟩))
    have hid := h.id_lt t id (Or.inr (Or.inr ⟨c, ht⟩))
    rw [gintToPointer_natCast (by omega), gintToPointer_natCast (by omega)] at hkey
    subst hkey
    exact hut (h.writer_unique u t i x c hu ht)
  case entry_writer =>
    intro k x hk
    obtain ⟨hne, hk⟩ := (hzm k x).mp hk
    obtain ⟨u, i, hu, hkey⟩ := h.entry_writer k x hk
    have hut : u ≠ t := by
      rintro rfl
      rw [ht] at hu
      cases hu
      exact hne hkey.symm
    exact ⟨u, i, by rw [Function.update_of_ne hut]; exact hu, hkey⟩
  case writer_unique =>
    intro u v i x x' hu hv
    exact h.writer_unique u v i x x' (hold hu (by simp)).2 (hold hv (by simp)).2
  case cond_inj =>
    intro k k' x hk hk'
    exact h.cond_inj k k' x ((hzm k x).mp hk).2 ((hzm k' x).mp hk').2
  case sleep =>
    intro u i x seen hu
    obtain ⟨hle, hcur⟩ := h.sleep u i x seen (hold hu (by simp)).2
    rw [hconds]
    by_cases hx : x = c
    · -- notified by this broadcast
      subst hx
      simp only [Function.update_self, RcCond.signalled, RcCond.released]
      exact ⟨by omega, fun heq => by omega⟩
    · rw [Function.update_of_ne hx]
      refine ⟨hle, fun heq => (hzm _ _).mpr ⟨fun hkey => ?_, hcur heq⟩⟩
      have := hcur heq
      rw [hkey, hentry] at this
      cases this
      exact hx rfl
  case rc_entry =>
    intro k x hk
    rw [hsl, hconds]
    by_cases hx : x = c
    · subst hx
      exact absurd hk (hothers k)
    · rw [Function.update_of_ne hx]
      exact h.rc_entry k x ((hzm k x).mp hk).2
  case rc_no_entry =>
    intro x hno
    rw [hsl, hconds]
    by_cases hx : x = c
    · subst hx
      simp only [Function.update_self, RcCond.signalled, RcCond.released]
      omega
    · rw [Function.update_of_ne hx]
      refine h.rc_no_entry x (fun k hk => hno k ((hzm k x).mpr ⟨fun hkey => ?_, hk⟩))
      rw [hkey, hentry] at hk
      cases hk
      exact hx rfl
  case unused =>
    intro x hx
    rw [hnext] at hx
    have hxc : x ≠ c := by
      rintro rfl
      have := h.cond_lt hentry
      omega
    rw [hsl, hconds, Function.update_of_ne hxc]
    obtain ⟨hno, hrest⟩ := h.unused x hx
    exact ⟨fun k hk => hno k ((hzm k x).mp hk).2, hrest⟩
  case cleared =>
    intro x hx
    rw [hnext] at hx
    rw [hconds]
    have := h.cleared x hx
    by_cases hxc : x = c
    · subst hxc
      rw [if_neg (by omega)] at this
      simp only [Function.update_self, RcCond.signalled, RcCond.released, this]
      split <;> split <;> omega
    · rw [Function.update_of_ne hxc]
      exact this

/-! ## §6. One step. -/

/-- A stretch of `zn_cachemap_find`, whatever it comes to. -/
theorem find (h : WaitInv m pool) {id : Nat} {r : FindResult} (ht : pool t = .find id)
    (hc : FindCase m id r m') : WaitInv m' (Function.update pool t (r.pc id)) := by
  cases hc with
  | located hl =>
    have hfrom : Outside (pool t) := by rw [ht]; exact outside_find id
    exact h.move hfrom (outside_hit id _) (fun _ he => by cases he) (fun _ _ => Iff.rfl) rfl rfl
  | sleep hcond => exact h.fallAsleep ht hcond
  | write hnone => exact h.claim ht hnone

/-- The writer inserts its entry. -/
theorem insert (h : WaitInv m pool) {id c : Nat} {l : ZnPair} (ht : pool t = .writer id c)
    (hi : znCachemapInsert m id l = .ok m') : WaitInv m' (Function.update pool t .idle) := by
  have hid := guint_eq_gint (h.id_lt t id (Or.inr (Or.inr ⟨c, ht⟩)))
  obtain ⟨c', hc', -, -, rfl⟩ := znCachemapInsert_ok hi
  rw [hid, h.writer_entry t id c ht] at hc'
  cases hc'
  refine h.settle ht (fun k x => ?_) rfl rfl
  show Function.update m.zoneMap (guintToPointer id) (some (.loc l)) k = _ ↔ _
  rw [hid]
  by_cases hk : k = gintToPointer (id : Int)
  · subst hk; simp
  · simp [hk]

/-- The writer gives up. -/
theorem failed (h : WaitInv m pool) {id c : Nat} (ht : pool t = .writer id c)
    (hi : znCachemapFail m id = .ok m') : WaitInv m' (Function.update pool t .idle) := by
  obtain ⟨c', hc', -, rfl⟩ := znCachemapFail_ok hi
  rw [h.writer_entry t id c ht] at hc'
  cases hc'
  refine h.settle ht (fun k x => ?_) rfl rfl
  show Function.update m.zoneMap (gintToPointer id) none k = _ ↔ _
  by_cases hk : k = gintToPointer (id : Int)
  · subst hk; simp
  · simp [hk]

/-- Clearing removes located entries only. -/
theorem entry_iff_of_removed {zm zm' : Nat → Option ZoneMapResult}
    (h : ∀ k, zm' k = zm k ∨ zm' k = none ∧ ∃ l, zm k = some (.loc l)) (k c : Nat) :
    zm' k = some (.cond c) ↔ zm k = some (.cond c) := by
  rcases h k with heq | ⟨hnone, l, hl⟩
  · rw [heq]
  · rw [hnone, hl]
    simp

omit [DecidableEq Tid] in
theorem clearChunk (h : WaitInv m pool) {l : ZnPair} (hc : znCachemapClearChunk m l = .ok m') :
    WaitInv m' pool := by
  obtain ⟨l', hl', -, -, rfl⟩ := znCachemapClearChunk_ok hc
  refine h.evict (entry_iff_of_removed fun k => ?_) rfl rfl
  by_cases hk : k = keyAt m l
  · subst hk
    exact Or.inr ⟨by simp, l', hl'⟩
  · exact Or.inl (by simp [hk])

omit [DecidableEq Tid] in
theorem clearZone (h : WaitInv m pool) {zone : Nat} {iter : List (Sigma fun _ : Nat => Nat)}
    (hc : znCachemapClearZone m zone iter = .ok m') : WaitInv m' pool := by
  obtain ⟨-, zm, rfl, hzm, -⟩ := znCachemapClearZone_ok hc
  refine h.evict (entry_iff_of_removed fun k => ?_) rfl rfl
  rcases hzm k with heq | ⟨hnone, l, hl, -⟩
  · exact Or.inl heq
  · exact Or.inr ⟨hnone, l, hl⟩

/-- **Step lemma.** -/
theorem step {s s' : MapThreads Tid} {l : MapLabel Tid} (h : WaitInv s.map s.pool)
    (hs : mapStep s l = some (.ok s')) : WaitInv s'.map s'.pool := by
  cases l with
  | call t id =>
    simp only [mapStep] at hs
    split at hs
    · rename_i ht
      split at hs
      · rename_i hid
        cases hs
        refine h.move (by rw [ht]; exact outside_idle) (outside_find id) ?_ (fun _ _ => Iff.rfl)
          rfl rfl
        intro i hi
        cases hi
        exact hid
      · cases hs
    · cases hs
  | find t =>
    simp only [mapStep] at hs
    split at hs
    · rename_i id ht
      obtain ⟨r, hf, rfl⟩ := map_eq_ok (Option.some.inj hs)
      exact h.find ht (znCachemapFind_cases hf)
    · cases hs
  | wake t =>
    simp only [mapStep] at hs
    split at hs
    · rename_i id c seen ht
      obtain ⟨r, hf, rfl⟩ := map_eq_ok (Option.some.inj hs)
      obtain ⟨-, hfind⟩ := znCachemapWake_ok hf
      -- first the release, then the stretch from the top of the loop
      have hw := (h.wake ht).find (Function.update_self ..) (znCachemapFind_cases hfind)
      rwa [Function.update_idem] at hw
    · cases hs
  | leave t =>
    simp only [mapStep] at hs
    split at hs
    · rename_i id l ht
      cases hs
      exact h.move (by rw [ht]; exact outside_hit id l) outside_idle (fun _ he => by cases he)
        (fun _ _ => Iff.rfl) rfl rfl
    · cases hs
  | insert t l =>
    simp only [mapStep] at hs
    split at hs
    · rename_i id c ht
      obtain ⟨m', hi, rfl⟩ := map_eq_ok (Option.some.inj hs)
      exact h.insert ht hi
    · cases hs
  | fail t =>
    simp only [mapStep] at hs
    split at hs
    · rename_i id c ht
      obtain ⟨m', hi, rfl⟩ := map_eq_ok (Option.some.inj hs)
      exact h.failed ht hi
    · cases hs
  | clearChunk l =>
    obtain ⟨m', hc, rfl⟩ := map_eq_ok (Option.some.inj hs)
    exact h.clearChunk hc
  | clearZone zone iter =>
    obtain ⟨m', hc, rfl⟩ := map_eq_ok (Option.some.inj hs)
    exact h.clearZone hc

omit [DecidableEq Tid] in
theorem init (numZones : Nat) : WaitInv (znCachemapInit numZones) fun _ : Tid => .idle := by
  have hsl : ∀ c, sleepers (fun _ : Tid => MapPc.idle) c = 0 := by
    intro c
    refine (countOn_eq_zero_iff _ _).mpr fun t _ hs => ?_
    exact hs
  constructor
  case id_lt => simp
  case writer_entry => simp
  case entry_writer => exact fun k c hk => by cases hk
  case writer_unique => simp
  case cond_inj => exact fun k k' c hk => by cases hk
  case sleep => simp
  case rc_entry => exact fun k c hk => by cases hk
  case rc_no_entry =>
    intro c _
    rw [hsl]
    rfl
  case unused =>
    intro c _
    refine ⟨fun k hk => ?_, hsl c, rfl⟩
    cases hk
  case cleared =>
    intro c hc
    exact absurd hc (Nat.not_lt_zero c)

end WaitInv

/-! ## §7. The whole run. -/

/-- **Run lemma.** -/
theorem mapThreads_inv {numZones : Nat} {s : MapThreads Tid}
    (hr : (mapThreadSystem Tid numZones).Reach TransSys.Any s) : WaitInv s.map s.pool := by
  refine TransSys.Reach.invariant (I := fun s => WaitInv s.map s.pool) ?_ ?_ hr
  · intro s hs
    obtain rfl : s = ⟨znCachemapInit numZones, fun _ => .idle⟩ := hs
    exact WaitInv.init numZones
  · intro s l s' _ hinv _ hs
    exact hinv.step hs

/-- **SINGLE WRITER AND NO LOST WAKEUP.**  In every reachable state: an entry is
pending exactly when one thread writes it, so insert and fail return; a sleeper
that has not been notified sleeps on the current condition of its id; a box has
its entry and its sleepers as references, and has been cleared once exactly
when there are none; no thread faults in find; and when no call is in progress
nothing is pending and every condition has been cleared. -/
theorem cachemap_single_writer (numZones : Nat) (s : MapThreads Tid)
    (hr : (mapThreadSystem Tid numZones).Reach TransSys.Any s) :
    (∀ id, id < 2 ^ 32 → (Pending s.map id ↔
      ∃ t, (∃ c, s.pool t = .writer id c) ∧ ∀ u c, s.pool u = .writer id c → u = t))
    ∧ (∀ t id c, s.pool t = .writer id c →
        (∀ l, l.zone < s.map.numZones → ∃ m', znCachemapInsert s.map id l = .ok m')
        ∧ ∃ m', znCachemapFail s.map id = .ok m')
    ∧ (∀ t id c seen, s.pool t = .asleep id c seen → (s.map.conds c).broadcasts = seen →
        s.map.zoneMap (gintToPointer id) = some (.cond c))
    ∧ (∀ c, c < s.map.nextCond →
        ((∃ k, s.map.zoneMap k = some (.cond c)) →
          (s.map.conds c).rc = 1 + sleepers s.pool c)
        ∧ ((¬ ∃ k, s.map.zoneMap k = some (.cond c)) → (s.map.conds c).rc = sleepers s.pool c)
        ∧ (s.map.conds c).cleared = if (s.map.conds c).rc = 0 then 1 else 0)
    ∧ (∀ t id, s.pool t = .find id → ∃ r, znCachemapFind s.map id = .ok r)
    ∧ (∀ t id c seen, s.pool t = .asleep id c seen → ∃ r, znCachemapWake s.map id c = .ok r)
    ∧ ((∀ t, s.pool t = .idle) → (∀ id, ¬ Pending s.map id)
        ∧ ∀ c, c < s.map.nextCond → (s.map.conds c).cleared = 1) := by
  have h := mapThreads_inv hr
  refine ⟨?_, ?_, ?_, ?_, ?_, ?_, ?_⟩
  · intro id hid
    constructor
    · intro hp
      obtain ⟨c, hc⟩ := hp
      obtain ⟨t, i, ht, hkey⟩ := h.entry_writer _ c hc
      have hi := h.id_lt t i (Or.inr (Or.inr ⟨c, ht⟩))
      rw [gintToPointer_natCast (by omega), gintToPointer_natCast (by omega)] at hkey
      subst hkey
      exact ⟨t, ⟨c, ht⟩, fun u c' hu => h.writer_unique u t i c' c hu ht⟩
    · intro hw
      obtain ⟨t, ⟨c, ht⟩, -⟩ := hw
      exact ⟨c, h.writer_entry t id c ht⟩
  · intro t id c ht
    have hc := h.writer_entry t id c ht
    refine ⟨fun l hl => ?_, ⟨_, znCachemapFail_eq hc (h.rc_pos hc)⟩⟩
    rw [← guint_eq_gint (h.id_lt t id (Or.inr (Or.inr ⟨c, ht⟩)))] at hc
    exact ⟨_, znCachemapInsert_eq hc hl (h.rc_pos hc)⟩
  · exact fun t id c seen ht => (h.sleep t id c seen ht).2
  · intro c hc
    refine ⟨fun hk => ?_, fun hk => ?_, h.cleared c hc⟩
    · obtain ⟨k, hk⟩ := hk
      exact h.rc_entry k c hk
    · exact h.rc_no_entry c (fun k hk' => hk ⟨k, hk'⟩)
  · intro t id _
    obtain ⟨r, m', heq⟩ := znCachemapFind_returns id fun c hc => h.rc_pos hc
    exact ⟨_, heq⟩
  · intro t id c seen ht
    rw [znCachemapWake_eq (h.rc_pos_of_asleep ht)]
    obtain ⟨r, m', heq⟩ := znCachemapFind_returns id fun c' hc' => (h.wake ht).rc_pos hc'
    exact ⟨_, heq⟩
  · intro hidle
    have hno : ∀ k c, s.map.zoneMap k ≠ some (.cond c) := by
      intro k c hk
      obtain ⟨t, id, ht, -⟩ := h.entry_writer k c hk
      rw [hidle t] at ht
      cases ht
    refine ⟨fun id hp => ?_, fun c hc => ?_⟩
    · obtain ⟨c, hc⟩ := hp
      exact hno _ c hc
    · have hsl : sleepers s.pool c = 0 := by
        refine (countOn_eq_zero_iff _ _).mpr fun t _ hs => ?_
        rw [hidle t] at hs
        exact hs
      rw [h.cleared c hc, h.rc_no_entry c (fun k => hno k c), hsl, if_pos rfl]

omit [Fintype Tid] in
theorem mapReplay_sound (numZones : Nat) (s : MapThreads Tid) (l : MapLabel Tid)
    (s' : MapThreads Tid) (h : (mapStep s l).bind Except.toOption = some s') :
    TransSys.Any s l ∧ (mapThreadSystem Tid numZones).step s l s' :=
  ⟨trivial, bind_toOption_eq_some h⟩

/-- Two threads ask for one id; the writer fails while the other sleeps; the
sleeper wakes, sees no entry and becomes the writer on a new condition. -/
theorem cachemap_single_writer_handover :
    ∃ s : MapThreads (Fin 2), s.pool 1 = .writer 5 1 ∧ (s.map.conds 0).rc = 0
      ∧ (s.map.conds 0).cleared = 1 ∧ Pending s.map 5 := by
  obtain ⟨s, hr, hp⟩ := TransSys.Reach.exists_of_exec (mapReplay_sound 1) rfl
    (fun s : MapThreads (Fin 2) => s.pool 0 = .idle ∧ s.pool 1 = .writer 5 1 ∧ (s.map.conds 0).rc = 0
      ∧ s.map.nextCond = 2)
    [.call 0 5, .call 1 5, .find 0, .find 1, .fail 0, .wake 1] (by decide)
  simp only [decide_eq_true_eq] at hp
  obtain ⟨h0, h1, hrc, hnext⟩ := hp
  obtain ⟨ha, -, -, hc, -⟩ := cachemap_single_writer 1 s hr
  have hcleared := (hc 0 (by omega)).2.2
  rw [if_pos hrc] at hcleared
  refine ⟨s, h1, hrc, hcleared, (ha 5 (by decide)).mpr ⟨1, ⟨1, h1⟩, fun u c hu => ?_⟩⟩
  match u with
  | 0 => rw [h0] at hu; cases hu
  | 1 => rfl

end ZnCache
