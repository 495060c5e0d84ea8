/-
  ZnCache.Backend — what every module of the cache shares.

  `znbackend.h` (backends, chunk locations), `CHUNK_POINTER` of `znutil.h`,
  the thresholds of `eviction_policy.h`, the parameters `zn_init_cache` is
  given, and GLib's integer/pointer conversions as they are on an LP64
  platform.

  Machine integers are `Nat` or `Int`.  A reduction modulo `2^32` or `2^64` is
  written wherever the C expression can wrap.
-/
import Mathlib.Algebra.Group.Nat.Defs
import Mathlib.Algebra.Group.Int.Defs

namespace ZnCache

universe v w

/-! ## §1. Backends, locations and thresholds. -/

/-- `enum zn_backend`. -/
inductive ZnBackend where
  | zns
  | block
  deriving DecidableEq, Repr

/-- `struct zn_pair`: where a chunk lives. -/
structure ZnPair where
  zone : Nat
  chunkOffset : Nat
  id : Nat
  inUse : Bool
  deriving DecidableEq, Repr

/-- `enum zn_io_type`. -/
inductive ZnIoType where
  | read
  | write
  deriving DecidableEq, Repr

/-- `EVICT_HIGH_THRESH_ZONES`. -/
abbrev evictHighThreshZones : Nat := 2
/-- `EVICT_LOW_THRESH_ZONES`. -/
abbrev evictLowThreshZones : Nat := 4
/-- `EVICT_HIGH_THRESH_CHUNKS`. -/
abbrev evictHighThreshChunks : Nat := 6
/-- `EVICT_LOW_THRESH_CHUNKS`. -/
abbrev evictLowThreshChunks : Nat := 12
/-- `WRITE_GRANULARITY`. -/
abbrev writeGranularity : Nat := 4096

/-- The difference of two `uint32_t` values, as C computes it. -/
def u32Sub (a b : Nat) : Nat := (a + 2 ^ 32 - b % 2 ^ 32) % 2 ^ 32

theorem u32Sub_of_le {a b : Nat} (hb : b ≤ a) (ha : a < 2 ^ 32) : u32Sub a b = a - b := by
  unfold u32Sub
  omega

/-- `CHUNK_POINTER`: the byte address of a chunk, in 64-bit arithmetic. -/
def chunkPointer (zSz cSz cNum zNum : Nat) : Nat :=
  (zSz * zNum % 2 ^ 64 + cNum * cSz % 2 ^ 64) % 2 ^ 64

/-- Why a call does not return: a failed `assert`, a NULL dereference, a store
past the end of an array, memory used after it was freed or never initialised,
or a loop that waits for other threads when there are none. -/
inductive Fault where
  | assertion
  | nullDeref
  | outOfBounds
  | badPointer
  | spin
  deriving DecidableEq, Repr

/-- `assert(c)`. -/
def check (c : Prop) [Decidable c] : Except Fault Unit :=
  if c then .ok () else .error .assertion

theorem check_of {c : Prop} [Decidable c] (h : c) : check c = .ok () := if_pos h

theorem check_bind_ok {α : Type} {c : Prop} [Decidable c] {f : Unit → Except Fault α} {x : α}
    (h : (check c >>= f) = .ok x) : c ∧ f () = .ok x := by
  by_cases hc : c
  · rw [check_of hc] at h
    exact ⟨hc, h⟩
  · rw [check, if_neg hc] at h
    cases h

theorem map_eq_ok {α : Type v} {β : Type w} {x : Except Fault α} {f : α → β} {y : β}
    (h : x.map f = .ok y) : ∃ v, x = .ok v ∧ f v = y := by
  cases x with
  | error e => cases h
  | ok v => exact ⟨v, rfl, Except.ok.inj h⟩

theorem bind_eq_ok {α : Type v} {β : Type w} {x : Except Fault α} {f : α → Except Fault β} {y : β}
    (h : x.bind f = .ok y) : ∃ v, x = .ok v ∧ f v = .ok y := by
  cases x with
  | error e => cases h
  | ok v => exact ⟨v, rfl, h⟩

theorem toOption_eq_some {α : Type v} {x : Except Fault α} {y : α} (h : x.toOption = some y) :
    x = .ok y := by
  cases x with
  | error e => cases h
  | ok v => rw [Option.some.inj h]

/-- A step that is taken returns. -/
theorem bind_toOption_eq_some {α : Type v} {x : Option (Except Fault α)} {y : α}
    (h : x.bind Except.toOption = some y) : x = some (.ok y) := by
  obtain ⟨r, rfl, hr⟩ := Option.bind_eq_some_iff.mp h
  rw [toOption_eq_some hr]

theorem toOption_map_some {α : Type v} {β : Type w} {x : Except Fault α} {f : α → β} {y : β}
    (h : (x.map f).toOption = some y) : ∃ v, x = .ok v ∧ f v = y := by
  cases x with
  | error e => cases h
  | ok v => exact ⟨v, rfl, Option.some.inj h⟩

/-! ## §2. The parameters of a cache. -/

/-- What `zn_init_cache` is told about the device and the chunks, and hands to
`zsm_init`.  Nothing changes these values afterwards. -/
structure Geometry where
  nrZones : Nat
  maxNrActiveZones : Nat
  chunkSz : Nat
  zoneCap : Nat
  zoneSize : Nat
  backend : ZnBackend
  deriving DecidableEq, Repr

namespace Geometry

/-- `max_zone_chunks = zone_cap / chunk_size`. -/
def maxZoneChunks (g : Geometry) : Nat := g.zoneCap / g.chunkSz

/-- The byte address of chunk `c` of zone `z`. -/
def wp (g : Geometry) (z c : Nat) : Nat := chunkPointer g.zoneSize g.chunkSz c z

/-- The device's own limits: a zone's capacity fits its size, and the device
is addressable by an `off_t`. -/
structure Addressable (g : Geometry) : Prop where
  cap_le : g.zoneCap ≤ g.zoneSize
  addr : g.nrZones * g.zoneSize < 2 ^ 63

theorem chunk_end_le_cap (g : Geometry) {c : Nat} (hc : c < g.maxZoneChunks) :
    c * g.chunkSz + g.chunkSz ≤ g.zoneCap := by
  calc c * g.chunkSz + g.chunkSz = (c + 1) * g.chunkSz := by rw [Nat.succ_mul]
    _ ≤ g.maxZoneChunks * g.chunkSz := Nat.mul_le_mul_right _ hc
    _ ≤ g.zoneCap := Nat.div_mul_le_self _ _

/-- A chunk of the device starts at `zone_size * z + c * chunk_size`, with no
wrap-around. -/
theorem wp_eq {g : Geometry} (ha : g.Addressable) {z c : Nat} (hz : z < g.nrZones)
    (hc : c < g.maxZoneChunks) : g.wp z c = g.zoneSize * z + c * g.chunkSz := by
  have hend := g.chunk_end_le_cap hc
  have hzone : g.zoneSize * z + g.zoneSize ≤ g.nrZones * g.zoneSize := by
    calc g.zoneSize * z + g.zoneSize = (z + 1) * g.zoneSize := by rw [Nat.succ_mul, Nat.mul_comm]
      _ ≤ g.nrZones * g.zoneSize := Nat.mul_le_mul_right _ hz
  have hcap := ha.cap_le
  have haddr := ha.addr
  unfold wp chunkPointer
  rw [Nat.mod_eq_of_lt (by omega : g.zoneSize * z < 2 ^ 64),
      Nat.mod_eq_of_lt (by omega : c * g.chunkSz < 2 ^ 64), Nat.mod_eq_of_lt (by omega)]

/-- Two different chunks of the device occupy disjoint byte ranges. -/
theorem wp_disjoint {g : Geometry} (ha : g.Addressable) {z c z' c' : Nat}
    (hz : z < g.nrZones) (hc : c < g.maxZoneChunks) (hz' : z' < g.nrZones)
    (hc' : c' < g.maxZoneChunks) (hne : (z, c) ≠ (z', c')) {i j : Nat}
    (hi : i < g.chunkSz) (hj : j < g.chunkSz) : g.wp z c + i ≠ g.wp z' c' + j := by
  have hcap := ha.cap_le
  have key : ∀ {a b a' b' i j : Nat}, b < g.maxZoneChunks → b' < g.maxZoneChunks →
      i < g.chunkSz → j < g.chunkSz → (a < a' ∨ (a = a' ∧ b < b')) →
      g.zoneSize * a + b * g.chunkSz + i < g.zoneSize * a' + b' * g.chunkSz + j := by
    intro a b a' b' i j hb hb' hi hj hlt
    have h1 := g.chunk_end_le_cap hb
    rcases hlt with hlt | ⟨rfl, hlt⟩
    · have : g.zoneSize * (a + 1) ≤ g.zoneSize * a' := Nat.mul_le_mul_left _ hlt
      rw [Nat.mul_succ] at this
      omega
    · have : (b + 1) * g.chunkSz ≤ b' * g.chunkSz := Nat.mul_le_mul_right _ hlt
      rw [Nat.succ_mul] at this
      omega
  rw [wp_eq ha hz hc, wp_eq ha hz' hc']
  rcases Nat.lt_trichotomy z z' with h | h | h
  · exact Nat.ne_of_lt (key hc hc' hi hj (Or.inl h))
  · rcases Nat.lt_trichotomy c c' with hcc | hcc | hcc
    · exact Nat.ne_of_lt (key hc hc' hi hj (Or.inr ⟨h, hcc⟩))
    · exact absurd (by rw [h, hcc]) hne
    · exact Nat.ne_of_gt (key hc' hc hj hi (Or.inr ⟨h.symm, hcc⟩))
  · exact Nat.ne_of_gt (key hc' hc hj hi (Or.inl h))

end Geometry

/-! ## §3. Integers in pointers. -/

/-- `GINT_TO_POINTER`, through a signed 64-bit `long`.  A `uint32_t` argument
is passed as its value, an `int` one is sign extended. -/
def gintToPointer (i : Int) : Nat := (i % 2 ^ 64).toNat

/-- `GUINT_TO_POINTER`, through an unsigned `long`. -/
def guintToPointer (u : Nat) : Nat := u % 2 ^ 64

/-- `GPOINTER_TO_INT`: the low 32 bits, as a signed `int`. -/
def gpointerToInt (p : Nat) : Int :=
  if p % 2 ^ 32 < 2 ^ 31 then (p % 2 ^ 32 : Nat) else (p % 2 ^ 32 : Nat) - 2 ^ 32

theorem gintToPointer_natCast {n : Nat} (h : n < 2 ^ 64) : gintToPointer (n : Int) = n := by
  unfold gintToPointer
  omega

theorem guintToPointer_eq {n : Nat} (h : n < 2 ^ 64) : guintToPointer n = n :=
  Nat.mod_eq_of_lt h

/-- Below `2^31` the round trip through a pointer is the identity, whichever
macros are used. -/
theorem gpointerToInt_eq {n : Nat} (h : n < 2 ^ 31) : gpointerToInt n = (n : Int) := by
  unfold gpointerToInt
  rw [Nat.mod_eq_of_lt (by omega), if_pos h]

end ZnCache
