/-
  ZnCache.ZonedDevice — what a zoned device takes, and where its write pointers
  then are.

  A zone takes a `pwrite` at its write pointer only, and the pointer advances
  by the bytes written.  A reset takes it back to the start of the zone, a
  finish to the end of its capacity; nothing else takes it back.

  The device may refuse any single `pwrite`.  So of a chunk that `zn_write_out`
  writes in pieces, some may be there when the next is refused.  `AllOrNothing`
  excludes that.
-/
import ZnCache.Device
import ZnCache.ZoneState.Invariant

namespace ZnCache

/-! ## §1. The device. -/

/-- One `pwrite` of a piece at `addr`, and the write pointers after it; `none`
if no zoned device answers so. -/
def zonedPwrite (g : Geometry) (wps : Nat → Nat) (addr : Nat) (r : PwriteResult) :
    Option (Nat → Nat) :=
  if r.bytesWritten = -1 then some wps
  else if r.bytesWritten = writeGranularity ∧ addr = wps (addr / g.zoneSize) then
    some (Function.update wps (addr / g.zoneSize) (addr + writeGranularity))
  else none

/-- The `pwrite` calls of `zn_write_out`, in its order, with `total` bytes
written so far. -/
def zonedWriteOut (g : Geometry) (toWrite wpStart : Nat) :
    List PwriteResult → Nat → (Nat → Nat) → Option (Nat → Nat)
  | [], _, wps => some wps
  | r :: rest, total, wps =>
    if total < toWrite then
      (zonedPwrite g wps (wpStart + total) r).bind fun wps' =>
        if r.bytesWritten = -1 ∨ r.errno ≠ 0 then some wps'
        else zonedWriteOut g toWrite wpStart rest (total + r.bytesWritten.toNat) wps'
    else some wps

/-- The zone commands of a step that succeeds: a zone that has become FREE was
reset, one that has become FULL was finished. -/
def zoneCommands (g : Geometry) (s s' : ZoneStateManager) (wps : Nat → Nat) : Nat → Nat := fun z =>
  if (s'.state z).state = .free ∧ (s.state z).state ≠ .free then g.zoneSize * z
  else if (s'.state z).state = .full ∧ (s.state z).state ≠ .full then g.zoneSize * z + g.zoneCap
  else wps z

/-- A chunk is taken as a whole, or refused at its first piece. -/
def AllOrNothing (g : Geometry) (results : List PwriteResult) : Prop :=
  TransfersOk (results.take (g.chunkSz / writeGranularity))
    ∨ ∃ r ∈ results.head?, r.bytesWritten = -1

instance TransfersOk.dec (results : List PwriteResult) : Decidable (TransfersOk results) :=
  inferInstanceAs (Decidable (∀ r ∈ results, _))

instance AllOrNothing.dec (g : Geometry) (results : List PwriteResult) :
    Decidable (AllOrNothing g results) :=
  inferInstanceAs (Decidable (_ ∨ _))

/-! ## §2. A chunk. -/

/-- The zone an address of a chunk belongs to. -/
theorem wp_zone {g : Geometry} (ha : g.Addressable) {z c i : Nat} (hz : z < g.nrZones)
    (hc : c < g.maxZoneChunks) (hi : i < g.chunkSz) : (g.wp z c + i) / g.zoneSize = z := by
  have hend := g.chunk_end_le_cap hc
  have hcap := ha.cap_le
  rw [Geometry.wp_eq ha hz hc]
  apply Nat.div_eq_of_lt_le
  · rw [Nat.mul_comm]
    omega
  · rw [Nat.succ_mul, Nat.mul_comm]
    omega

/-- **A chunk whose pieces are all taken** moves the write pointer of its zone to
its end, and no other. -/
theorem zonedWriteOut_ok {g : Geometry} {toWrite start z : Nat} {buffer : Buffer}
    (hdvd : writeGranularity ∣ toWrite)
    (hzone : ∀ i, i < toWrite → (start + i) / g.zoneSize = z) :
    ∀ (results : List PwriteResult) (total : Nat) (bytes : Buffer) (res : Int × Buffer)
      (wps wps' : Nat → Nat), writeGranularity ∣ total → total ≤ toWrite →
      TransfersOk (results.take ((toWrite - total) / writeGranularity)) → wps z = start + total →
      writeOutLoop toWrite buffer writeGranularity start results total bytes = some res →
      zonedWriteOut g toWrite start results total wps = some wps' →
        res.1 = 0 ∧ wps' = Function.update wps z (start + toWrite)
  | [], total, bytes, res, wps, wps', _, hle, _, hwp, hout, hzoned => by
      rw [writeOutLoop] at hout
      split at hout
      · cases hout
      · cases hout
        cases hzoned
        have hend : total = toWrite := by omega
        rw [← hend, ← hwp, Function.update_eq_self]
        exact ⟨rfl, rfl⟩
  | r :: rest, total, bytes, res, wps, wps', htot, hle, hok, hwp, hout, hzoned => by
      rw [writeOutLoop] at hout
      rw [zonedWriteOut] at hzoned
      by_cases hlt : total < toWrite
      · rw [if_pos hlt] at hout hzoned
        -- whole pieces are left
        obtain ⟨k, rfl⟩ := htot
        obtain ⟨n, rfl⟩ := hdvd
        have hkn : k < n := by
          have hlt' : 4096 * k < 4096 * n := hlt
          omega
        have hleft : (writeGranularity * n - writeGranularity * k) / writeGranularity
            = (n - (k + 1)) + 1 := by
          show (4096 * n - 4096 * k) / 4096 = _
          omega
        have hnext : (writeGranularity * n - (writeGranularity * k + writeGranularity))
            / writeGranularity = n - (k + 1) := by
          show (4096 * n - (4096 * k + 4096)) / 4096 = _
          omega
        rw [hleft, List.take_succ_cons] at hok
        obtain rfl := hok r (List.mem_cons_self ..)
        have hpwrite : zonedPwrite g wps (start + writeGranularity * k)
            ⟨(writeGranularity : Nat), 0⟩
              = some (Function.update wps z (start + writeGranularity * k + writeGranularity)) := by
          unfold zonedPwrite
          rw [if_neg (by decide), hzone _ hlt, if_pos ⟨rfl, hwp.symm⟩]
        simp only [hpwrite, Option.bind_some, ne_eq, not_true_eq_false, or_false] at hzoned
        rw [if_neg (by decide)] at hzoned
        simp only [ne_eq, not_true_eq_false, or_false] at hout
        rw [if_neg (by decide)] at hout
        obtain ⟨hres, hwps⟩ := zonedWriteOut_ok ⟨n, rfl⟩ hzone rest _ _ res _ wps'
          ⟨k + 1, by rw [Nat.mul_succ]; rfl⟩
          (by show 4096 * k + 4096 ≤ 4096 * n; omega)
          (by
            show TransfersOk (rest.take ((_ - (writeGranularity * k + writeGranularity)) / _))
            rw [hnext]
            exact fun x hx => hok x (List.mem_cons_of_mem _ hx))
          (by rw [Function.update_self]; exact Nat.add_assoc ..) hout hzoned
        rw [Function.update_idem] at hwps
        exact ⟨hres, hwps⟩
      · rw [if_neg hlt] at hout hzoned
        cases hout
        cases hzoned
        have hend : total = toWrite := by omega
        rw [← hend, ← hwp, Function.update_eq_self]
        exact ⟨rfl, rfl⟩

/-- **A chunk that is taken as a whole or not at all**: either way the write
pointer of its zone is where the result says. -/
theorem zonedWriteOut_allOrNothing {g : Geometry} (ha : g.Addressable) (hpos : 0 < g.chunkSz)
    (hdvd : writeGranularity ∣ g.chunkSz) {l : ZnPair} (hz : l.zone < g.nrZones)
    (hc : l.chunkOffset < g.maxZoneChunks) {data : Buffer} {results : List PwriteResult}
    (hclean : AllOrNothing g results) {bytes : Buffer} {res : Int × Buffer} {wps wps' : Nat → Nat}
    (hwp : wps l.zone = g.wp l.zone l.chunkOffset)
    (hout : znWriteOut g.chunkSz data writeGranularity (g.wp l.zone l.chunkOffset) results bytes
      = some res)
    (hzoned : zonedWriteOut g g.chunkSz (g.wp l.zone l.chunkOffset) results 0 wps = some wps') :
    wps' = if res.1 = 0 then Function.update wps l.zone (g.wp l.zone l.chunkOffset + g.chunkSz)
      else wps := by
  rcases hclean with hok | ⟨r, hr, hrefused⟩
  · obtain ⟨hres, hwps⟩ := zonedWriteOut_ok hdvd (fun i hi => wp_zone ha hz hc hi) results 0 bytes
      res wps wps' (dvd_zero _) (Nat.zero_le _) hok hwp hout hzoned
    rw [if_pos hres, hwps]
  · cases results with
    | nil => cases hr
    | cons x rest =>
      obtain rfl : x = r := Option.some.inj hr
      unfold znWriteOut at hout
      rw [writeOutLoop, if_pos hpos] at hout
      simp only [hrefused, true_or, if_true] at hout
      rw [zonedWriteOut, if_pos hpos, zonedPwrite, if_pos hrefused] at hzoned
      simp only [Option.bind_some, hrefused, true_or, if_true] at hzoned
      cases hout
      cases hzoned
      rfl

end ZnCache
