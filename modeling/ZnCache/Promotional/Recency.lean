/-
  ZnCache.Promotional.Recency — the promotional policy is zone LRU.

  The abstract side is read off the calls alone: a zone is `filled` from the
  write of its last chunk until it is handed out, and is `touched` by that
  write and by every read.  The queue, the links and the table are the code's
  own, and `ZoneLruInv` says what they have to do with the calls.

  The answer of `zn_policy_promotional_get_zone_to_evict` is an `int`, so a
  zone number goes out as the signed reading of its 32 bits.  `nr_zones` is a
  `uint32_t`, so no zone has the number `2^32 - 1` that reads as -1.

  Main result: `promotional_is_zone_lru`.
-/
import ZnCache.Promotional.Policy
import ZnCache.Lib.Recency
import ZnCache.Lib.Transition

namespace ZnCache

open Lib ZnPolicyPromotional

/-! ## §1. What the calls say. -/

/-- A call of the policy, with its answer. -/
inductive PolicyCall where
  | update (location : ZnPair) (ioType : ZnIoType)
  | getZoneToEvict (answer : Option Nat)
  deriving DecidableEq, Repr

/-- A write to the last chunk of a zone of `n` chunks. -/
def PolicyCall.Fills (n : Nat) (location : ZnPair) (ioType : ZnIoType) : Prop :=
  ioType = .write ∧ location.chunkOffset = u32Sub n 1

instance (n : Nat) (location : ZnPair) (ioType : ZnIoType) :
    Decidable (PolicyCall.Fills n location ioType) :=
  inferInstanceAs (Decidable (_ ∧ _))

/-- The zone was filled, and has not been handed out since.  Newest call first. -/
def filled (n : Nat) : List PolicyCall → Nat → Prop
  | [], _ => False
  | .update location ioType :: calls, z =>
      (PolicyCall.Fills n location ioType ∧ location.zone = z) ∨ filled n calls z
  | .getZoneToEvict (some victim) :: calls, z => z ≠ victim ∧ filled n calls z
  | .getZoneToEvict none :: calls, z => filled n calls z

/-- The zones touched, newest first: by the write that fills, and by reads. -/
def touched (n : Nat) : List PolicyCall → List Nat
  | [] => []
  | .update location ioType :: calls =>
      if ioType = .read ∨ PolicyCall.Fills n location ioType
      then location.zone :: touched n calls else touched n calls
  | .getZoneToEvict _ :: calls => touched n calls

/-- The `int` that `zn_policy_promotional_get_zone_to_evict` returns. -/
def zoneToEvictInt : Option Nat → Int
  | none => -1
  | some zoneId => gpointerToInt zoneId

/-- Only `2^32 - 1` reads as -1. -/
theorem gpointerToInt_ne_neg_one {z : Nat} (h : z < 2 ^ 32 - 1) : gpointerToInt z ≠ -1 := by
  unfold gpointerToInt
  split <;> omega

/-- Read back as a `uint32_t`, the answer is the zone. -/
theorem gpointerToInt_emod {z : Nat} (h : z < 2 ^ 32) : gpointerToInt z % 2 ^ 32 = (z : Int) := by
  unfold gpointerToInt
  split <;> omega

/-! ## §2. Runs of the policy. -/

/-- The policy and the calls it has answered. -/
structure PromotionalRun where
  policy : ZnPolicyPromotional
  calls : List PolicyCall

/-- What a caller may ask for. -/
inductive PolicyRequest where
  | update (location : ZnPair) (ioType : ZnIoType)
  | getZoneToEvict
  deriving DecidableEq, Repr

/-- One call; the policy's mutex makes it one step. -/
def promotionalCall (s : PromotionalRun) : PolicyRequest → Except Fault PromotionalRun
  | .update location ioType =>
      (znPolicyPromotionalUpdate s.policy location ioType).map
        fun policy => ⟨policy, .update location ioType :: s.calls⟩
  | .getZoneToEvict =>
      let r := znPolicyPromotionalGetZoneToEvict s.policy
      .ok ⟨r.2, .getZoneToEvict r.1 :: s.calls⟩

/-- The policy that `zn_evict_policy_init` sets up, and any calls. -/
def promotionalSystem (g : Geometry) : TransSys PromotionalRun PolicyRequest where
  init s := s = ⟨znPolicyPromotionalInit g, []⟩
  step s r s' := promotionalCall s r = .ok s'

/-- What is filled is a zone of the device, and is not queued when it is filled. -/
def FillsOnce (s : PromotionalRun) : PolicyRequest → Prop
  | .update location ioType => PolicyCall.Fills s.policy.zoneMaxChunks location ioType →
      location.zone < 2 ^ 32 - 1 ∧ location.zone ∉ s.policy.lru
  | .getZoneToEvict => True

instance (s : PromotionalRun) : (r : PolicyRequest) → Decidable (FillsOnce s r)
  | .update _ _ => inferInstanceAs (Decidable (_ → _))
  | .getZoneToEvict => inferInstanceAs (Decidable True)

/-! ## §3. The invariant. -/

/-- What the queue and the table have to do with the calls. -/
structure ZoneLruInv (s : PromotionalRun) : Prop where
  ok : s.policy.LruOk
  zones : ∀ z ∈ s.policy.lru, z < 2 ^ 32 - 1
  filled_iff : ∀ z, z ∈ s.policy.lru ↔ filled s.policy.zoneMaxChunks s.calls z
  order : ByRecency (touched s.policy.zoneMaxChunks s.calls) s.policy.lru

/-- The call that queues a zone, and the call that moves one, do the same to
the order: the zone goes to the back. -/
theorem lru_touch_mem {l : List Nat} {a z : Nat} : z ∈ l.erase a ++ [a] ↔ z = a ∨ z ∈ l := by
  rw [List.mem_append, List.mem_singleton]
  by_cases h : z = a
  · simp [h]
  · rw [List.mem_erase_of_ne h]
    simp [h]

theorem ZoneLruInv.init (g : Geometry) : ZoneLruInv ⟨znPolicyPromotionalInit g, []⟩ where
  ok := init_ok g
  zones := by simp
  filled_iff := by
    intro z
    show z ∈ [] ↔ False
    simp
  order := ByRecency.nil _

/-- **A write** either fills the zone or changes nothing. -/
theorem ZoneLruInv.write {s : PromotionalRun} (hi : ZoneLruInv s) {location : ZnPair}
    (hc : FillsOnce s (.update location .write)) :
    ∃ s', promotionalCall s (.update location .write) = .ok s' ∧ ZoneLruInv s' := by
  obtain ⟨policy', hp, hok, hmax, hlru⟩ :=
    znPolicyPromotionalUpdate_write hi.ok location fun hlast => (hc ⟨rfl, hlast⟩).2
  refine ⟨⟨policy', .update location .write :: s.calls⟩, ?_, ?_⟩
  · show (znPolicyPromotionalUpdate s.policy location .write).map _ = _
    rw [hp]
    rfl
  · by_cases hlast : location.chunkOffset = u32Sub s.policy.zoneMaxChunks 1
    · have hfill : PolicyCall.Fills s.policy.zoneMaxChunks location .write := ⟨rfl, hlast⟩
      obtain ⟨hz, hnew⟩ := hc hfill
      -- the zone was not queued, so appending it is moving it to the back
      have herase : s.policy.lru ++ [location.zone]
          = s.policy.lru.erase location.zone ++ [location.zone] := by
        rw [List.erase_of_not_mem hnew]
      rw [if_pos hlast, herase] at hlru
      refine ⟨hok, ?_, ?_, ?_⟩
      · intro z hmem
        rw [hlru, lru_touch_mem] at hmem
        rcases hmem with rfl | hin
        · exact hz
        · exact hi.zones z hin
      · intro z
        show z ∈ policy'.lru ↔ (PolicyCall.Fills policy'.zoneMaxChunks location .write
          ∧ location.zone = z) ∨ filled policy'.zoneMaxChunks s.calls z
        rw [hlru, hmax, lru_touch_mem, hi.filled_iff z]
        simp [hfill, eq_comm]
      · show ByRecency (touched policy'.zoneMaxChunks (.update location .write :: s.calls)) _
        rw [hlru, hmax]
        unfold touched
        rw [if_pos (Or.inr hfill)]
        exact hi.order.touch location.zone
    · have hno : ¬ PolicyCall.Fills s.policy.zoneMaxChunks location .write := fun hf => hlast hf.2
      rw [if_neg hlast] at hlru
      refine ⟨hok, ?_, ?_, ?_⟩
      · intro z hmem
        exact hi.zones z (hlru ▸ hmem)
      · intro z
        show z ∈ policy'.lru ↔ (PolicyCall.Fills policy'.zoneMaxChunks location .write
          ∧ location.zone = z) ∨ filled policy'.zoneMaxChunks s.calls z
        rw [hlru, hmax, hi.filled_iff z]
        simp [hno]
      · show ByRecency (touched policy'.zoneMaxChunks (.update location .write :: s.calls)) _
        rw [hlru, hmax]
        unfold touched
        rw [if_neg (by simp [hno])]
        exact hi.order

/-- **A read** touches the zone, and moves it if it is queued. -/
theorem ZoneLruInv.read {s : PromotionalRun} (hi : ZoneLruInv s) (location : ZnPair) :
    ∃ s', promotionalCall s (.update location .read) = .ok s' ∧ ZoneLruInv s' := by
  obtain ⟨policy', hp, hok, hmax, hlru⟩ := znPolicyPromotionalUpdate_read hi.ok location
  have hno : ¬ PolicyCall.Fills s.policy.zoneMaxChunks location .read := by
    rintro ⟨h, -⟩
    cases h
  have hmem : ∀ z, z ∈ policy'.lru ↔ z ∈ s.policy.lru := by
    intro z
    rw [hlru]
    split
    · rw [lru_touch_mem]
      constructor
      · rintro (rfl | hin)
        · assumption
        · exact hin
      · exact Or.inr
    · exact Iff.rfl
  refine ⟨⟨policy', .update location .read :: s.calls⟩, ?_, hok, ?_, ?_, ?_⟩
  · show (znPolicyPromotionalUpdate s.policy location .read).map _ = _
    rw [hp]
    rfl
  · intro z hin
    exact hi.zones z ((hmem z).mp hin)
  · intro z
    show z ∈ policy'.lru ↔ (PolicyCall.Fills policy'.zoneMaxChunks location .read
      ∧ location.zone = z) ∨ filled policy'.zoneMaxChunks s.calls z
    rw [hmem z, hmax, hi.filled_iff z]
    simp [hno]
  · show ByRecency (touched policy'.zoneMaxChunks (.update location .read :: s.calls)) policy'.lru
    rw [hlru, hmax]
    unfold touched
    rw [if_pos (Or.inl rfl)]
    split
    · exact hi.order.touch location.zone
    · exact hi.order.other ‹_›

/-- **A zone handed out** leaves the head of the queue. -/
theorem ZoneLruInv.evict {s : PromotionalRun} (hi : ZoneLruInv s) :
    ∃ s', promotionalCall s .getZoneToEvict = .ok s' ∧ ZoneLruInv s' := by
  refine ⟨_, rfl, ?_⟩
  rcases znPolicyPromotionalGetZoneToEvict_spec hi.ok with ⟨-, heq⟩ | ⟨z, rest, p', hl, heq, hok,
    hrest, hmax⟩
  · rw [heq]
    exact ⟨hi.ok, hi.zones, hi.filled_iff, hi.order⟩
  · rw [heq]
    have hnd := hi.order.nodup
    have horder := hi.order
    rw [hl] at hnd horder
    refine ⟨hok, ?_, ?_, ?_⟩
    · intro y hy
      refine hi.zones y ?_
      rw [hl]
      exact List.mem_cons_of_mem _ (hrest ▸ hy)
    · intro y
      show y ∈ p'.lru ↔ y ≠ z ∧ filled p'.zoneMaxChunks s.calls y
      rw [hrest, hmax, ← hi.filled_iff y, hl, List.mem_cons]
      constructor
      · intro hy
        refine ⟨?_, Or.inr hy⟩
        rintro rfl
        exact (List.nodup_cons.mp hnd).1 hy
      · rintro ⟨hne, rfl | hy⟩
        · exact absurd rfl hne
        · exact hy
    · show ByRecency (touched p'.zoneMaxChunks s.calls) p'.lru
      rw [hrest, hmax]
      exact horder.sublist (List.sublist_cons_self _ _)

/-- Every call that may be made returns, and keeps the invariant. -/
theorem ZoneLruInv.call {s : PromotionalRun} (hi : ZoneLruInv s) :
    ∀ r, FillsOnce s r → ∃ s', promotionalCall s r = .ok s' ∧ ZoneLruInv s'
  | .update _ .write, hc => hi.write hc
  | .update location .read, _ => hi.read location
  | .getZoneToEvict, _ => hi.evict

theorem zone_lru_inv {g : Geometry} {s : PromotionalRun}
    (hr : (promotionalSystem g).Reach FillsOnce s) : ZoneLruInv s := by
  refine hr.invariant ?_ ?_
  · rintro s rfl
    exact ZoneLruInv.init g
  · intro s r s' _ hi hc hs
    obtain ⟨t, ht, hti⟩ := hi.call r hc
    have hst : s' = t := Except.ok.inj ((Eq.symm hs).trans ht)
    exact hst ▸ hti

/-! ## §4. The policy is zone LRU. -/

/-- An update that does not fill a zone, for a zone that is not queued. -/
theorem znPolicyPromotionalUpdate_not_queued {policy : ZnPolicyPromotional} (h : policy.LruOk)
    {location : ZnPair} {ioType : ZnIoType} (hnot : location.zone ∉ policy.lru)
    (hno : ¬ PolicyCall.Fills policy.zoneMaxChunks location ioType) :
    znPolicyPromotionalUpdate policy location ioType = .ok policy := by
  unfold znPolicyPromotionalUpdate
  cases ioType with
  | write =>
    have hlast : location.chunkOffset ≠ u32Sub policy.zoneMaxChunks 1 := fun he => hno ⟨rfl, he⟩
    exact if_neg hlast
  | read =>
    have hnone := (LinkQueue.Indexed.eq_none_iff h location.zone).mpr hnot
    simp only [hnone]

/-- **The promotional policy is zone LRU.**  In every run: the table and the
queue agree; the queue holds the zones filled and not handed out, in the order
of their latest touch; every call returns; the answer is -1 exactly when there
is no such zone, and otherwise the one touched longest ago, which leaves the
queue; other updates of a zone that is not queued change nothing. -/
theorem promotional_is_zone_lru {g : Geometry} {s : PromotionalRun}
    (hr : (promotionalSystem g).Reach FillsOnce s) :
    (∀ z, s.policy.zoneToLruMap z ≠ none ↔ z ∈ s.policy.lru)
    ∧ s.policy.lru.Nodup
    ∧ (∀ z node, s.policy.zoneToLruMap z = some node → s.policy.lruQueue.linkData node = some z)
    ∧ (∀ z, z ∈ s.policy.lru ↔ filled s.policy.zoneMaxChunks s.calls z)
    ∧ s.policy.lru.Pairwise (fun a b => lastTouch (touched s.policy.zoneMaxChunks s.calls) a
        < lastTouch (touched s.policy.zoneMaxChunks s.calls) b)
    ∧ (∀ r, FillsOnce s r → ∃ s', promotionalCall s r = .ok s')
    ∧ (zoneToEvictInt (znPolicyPromotionalGetZoneToEvict s.policy).1 = -1
        ↔ ∀ z, ¬ filled s.policy.zoneMaxChunks s.calls z)
    ∧ (∀ z, (znPolicyPromotionalGetZoneToEvict s.policy).1 = some z →
        zoneToEvictInt (some z) % 2 ^ 32 = (z : Int)
        ∧ filled s.policy.zoneMaxChunks s.calls z
        ∧ (∀ y, filled s.policy.zoneMaxChunks s.calls y → y ≠ z →
            lastTouch (touched s.policy.zoneMaxChunks s.calls) z
              < lastTouch (touched s.policy.zoneMaxChunks s.calls) y)
        ∧ s.policy.lru = z :: (znPolicyPromotionalGetZoneToEvict s.policy).2.lru)
    ∧ ((znPolicyPromotionalGetZoneToEvict s.policy).1 = none →
        (znPolicyPromotionalGetZoneToEvict s.policy).2 = s.policy)
    ∧ (∀ location ioType, location.zone ∉ s.policy.lru →
        ¬ PolicyCall.Fills s.policy.zoneMaxChunks location ioType →
        znPolicyPromotionalUpdate s.policy location ioType = .ok s.policy) := by
  have hi := zone_lru_inv hr
  have hev := znPolicyPromotionalGetZoneToEvict_spec hi.ok
  refine ⟨?_, hi.ok.nodup, ?_, hi.filled_iff, hi.order, ?_, ?_, ?_, ?_, ?_⟩
  · intro z
    rw [Option.ne_none_iff_isSome]
    exact LinkQueue.Indexed.isSome_iff hi.ok z
  · intro z node hnode
    exact LinkQueue.linkData_eq_some ((hi.ok z node).mp hnode)
  · intro r hc
    obtain ⟨s', hs, -⟩ := hi.call r hc
    exact ⟨s', hs⟩
  · rcases hev with ⟨hnil, heq⟩ | ⟨z, rest, p', hl, heq, -⟩
    · rw [heq]
      refine iff_of_true rfl ?_
      intro z hz
      have hin := (hi.filled_iff z).mpr hz
      rw [hnil] at hin
      cases hin
    · rw [heq]
      have hin : z ∈ s.policy.lru := by rw [hl]; exact List.mem_cons_self
      refine iff_of_false (gpointerToInt_ne_neg_one (hi.zones z hin)) ?_
      intro hall
      exact hall z ((hi.filled_iff z).mp hin)
  · intro y hy
    rcases hev with ⟨-, heq⟩ | ⟨z, rest, p', hl, heq, -, hrest, -⟩
    · rw [heq] at hy
      cases hy
    · rw [heq] at hy ⊢
      obtain rfl : z = y := Option.some.inj hy
      have hin : z ∈ s.policy.lru := by rw [hl]; exact List.mem_cons_self
      have hz := hi.zones z hin
      have horder := hi.order
      rw [hl] at horder
      refine ⟨gpointerToInt_emod (by omega), (hi.filled_iff z).mp hin, ?_, by rw [hrest]; exact hl⟩
      intro y hfilled hne
      have hyin := (hi.filled_iff y).mpr hfilled
      rw [hl] at hyin
      exact horder.head_oldest hyin hne
  · intro hnone
    rcases hev with ⟨-, heq⟩ | ⟨z, rest, p', -, heq, -⟩
    · rw [heq]
    · rw [heq] at hnone
      cases hnone
  · intro location ioType hnot hno
    exact znPolicyPromotionalUpdate_not_queued hi.ok hnot hno

/-- Zones of one chunk: zones 0 and 1 are filled, and then zone 0 is read. -/
theorem promotional_is_zone_lru_read_back :
    ∃ s, (promotionalSystem ⟨2, 1, 4096, 4096, 4096, .zns⟩).Reach FillsOnce s
      ∧ (znPolicyPromotionalGetZoneToEvict s.policy).1 = some 1
      ∧ ∀ y, filled s.policy.zoneMaxChunks s.calls y → y ≠ 1 →
          lastTouch (touched s.policy.zoneMaxChunks s.calls) 1
            < lastTouch (touched s.policy.zoneMaxChunks s.calls) y := by
  obtain ⟨s, hr, hs⟩ := TransSys.Reach.exists_of_exec
    (T := promotionalSystem ⟨2, 1, 4096, 4096, 4096, .zns⟩) (C := FillsOnce)
    (f := fun s r => if FillsOnce s r then (promotionalCall s r).toOption else none)
    (by
      intro s r s' h
      by_cases hc : FillsOnce s r
      · simp only [if_pos hc] at h
        refine ⟨hc, ?_⟩
        show promotionalCall s r = .ok s'
        cases hp : promotionalCall s r with
        | error e => rw [hp] at h; cases h
        | ok t => rw [hp] at h; exact congrArg Except.ok (Option.some.inj h)
      · simp only [if_neg hc] at h
        cases h)
    (s := ⟨znPolicyPromotionalInit ⟨2, 1, 4096, 4096, 4096, .zns⟩, []⟩) rfl
    (fun s => (znPolicyPromotionalGetZoneToEvict s.policy).1 == some 1)
    [.update ⟨0, 0, 7, true⟩ .write, .update ⟨1, 0, 8, true⟩ .write,
      .update ⟨0, 0, 7, true⟩ .read] (by decide)
  have hone : (znPolicyPromotionalGetZoneToEvict s.policy).1 = some 1 := by simpa using hs
  obtain ⟨-, -, -, -, -, -, -, hsome, -⟩ := promotional_is_zone_lru hr
  obtain ⟨-, -, hold, -⟩ := hsome 1 hone
  exact ⟨s, hr, hone, hold⟩

end ZnCache
