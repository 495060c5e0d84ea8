/-
  ZnCache.Device — the device and the buffers, `cache.c` from
  `zn_read_from_disk` to `zn_validate_read`.

  The device is its bytes.  Beside them stands a history variable that no code
  reads: which id's chunk was last written at a place since its zone was reset.
  `Device.Holds` says what the history is good for.

  What the kernel answers is an argument: the result of every `pwrite` (with
  `errno` after the `fsync`), and the result of `pread`.  A reset of a zone
  leaves the bytes: a read gives what was last written there.
-/
import ZnCache.Backend
import Mathlib.Logic.Function.Basic
import Mathlib.Data.Nat.ModEq

namespace ZnCache

/-- A buffer of `chunk_sz` bytes. -/
abbrev Buffer := Nat → UInt8

/-! ## §1. Buffers. -/

/-- `zn_gen_write_buffer`: the caller's bytes, with the id over the first four. -/
def znGenWriteBuffer (zoneId : Nat) (buffer : Buffer) : Buffer := fun i =>
  if i < 4 then UInt8.ofNat (zoneId / 256 ^ i % 256) else buffer i

/-- `memcpy(&read_id, data, sizeof(uint32_t))`. -/
def readId (data : Buffer) : Nat :=
  (data 0).toNat + (data 1).toNat * 256 + (data 2).toNat * 256 ^ 2 + (data 3).toNat * 256 ^ 3

/-- The loop of `zn_validate_read`, for at most `fuel` rounds; `i` is a
`uint32_t`. -/
def validateLoop (chunkSz : Nat) (data compareBuffer : Buffer) : Nat → Nat → Option Int
  | 0, _ => none
  | fuel + 1, i =>
    if i < chunkSz then
      if data i ≠ compareBuffer i then some (-1)
      else validateLoop chunkSz data compareBuffer fuel ((i + 1) % 2 ^ 32)
    else some 0

/-- `zn_validate_read`; `none` if the loop does not end. -/
def znValidateRead (chunkSz : Nat) (data : Buffer) (id : Nat) (compareBuffer : Buffer) :
    Option Int :=
  if readId data ≠ id then some (-1) else validateLoop chunkSz data compareBuffer (chunkSz + 1) 4

/-- The buffer begins with the id and goes on as the caller's bytes. -/
def ValidFor (chunkSz : Nat) (randomBuffer : Buffer) (id : Nat) (data : Buffer) : Prop :=
  readId data = id ∧ ∀ i, 4 ≤ i → i < chunkSz → data i = randomBuffer i

theorem readId_gen {id : Nat} (h : id < 2 ^ 32) (buffer : Buffer) :
    readId (znGenWriteBuffer id buffer) = id := by
  have hb : ∀ n : Nat, (UInt8.ofNat (n % 256)).toNat = n % 256 := by
    intro n
    rw [UInt8.toNat_ofNat']
    omega
  unfold readId znGenWriteBuffer
  simp only [show (0 : Nat) < 4 by decide, show (1 : Nat) < 4 by decide,
    show (2 : Nat) < 4 by decide, show (3 : Nat) < 4 by decide, if_true, hb]
  omega

/-- Validity reads the first `chunk_sz` bytes only. -/
theorem ValidFor.congr {chunkSz id : Nat} {rb data data' : Buffer} (hsz : 4 ≤ chunkSz)
    (h : ValidFor chunkSz rb id data) (heq : ∀ i, i < chunkSz → data' i = data i) :
    ValidFor chunkSz rb id data' := by
  refine ⟨?_, fun i hi hlt => (heq i hlt).trans (h.2 i hi hlt)⟩
  rw [← h.1]
  unfold readId
  rw [heq 0 (by omega), heq 1 (by omega), heq 2 (by omega), heq 3 (by omega)]

theorem gen_valid {id : Nat} (h : id < 2 ^ 32) (chunkSz : Nat) (buffer : Buffer) :
    ValidFor chunkSz buffer id (znGenWriteBuffer id buffer) :=
  ⟨readId_gen h buffer, fun i hi _ => if_neg (by omega)⟩

/-- The loop compares the rest of the chunk, and is left before the fuel is. -/
theorem validateLoop_returns {chunkSz : Nat} (hsz : chunkSz < 2 ^ 32) (data cmp : Buffer) :
    ∀ (fuel i : Nat), chunkSz < fuel + i → 0 < fuel →
      (validateLoop chunkSz data cmp fuel i = some 0 ∧ ∀ j, i ≤ j → j < chunkSz → data j = cmp j)
      ∨ (validateLoop chunkSz data cmp fuel i = some (-1)
        ∧ ∃ j, i ≤ j ∧ j < chunkSz ∧ data j ≠ cmp j)
  | fuel + 1, i, hf, _ => by
      rw [validateLoop]
      by_cases hlt : i < chunkSz
      · rw [if_pos hlt]
        by_cases hne : data i = cmp i
        · rw [if_neg (not_not.mpr hne), Nat.mod_eq_of_lt (by omega)]
          rcases validateLoop_returns hsz data cmp fuel (i + 1) (by omega) (by omega) with
            ⟨heq, hrest⟩ | ⟨heq, j, hij, hj⟩
          · refine Or.inl ⟨heq, fun j hij hj => ?_⟩
            rcases Nat.lt_or_eq_of_le hij with hlt' | rfl
            · exact hrest j hlt' hj
            · exact hne
          · exact Or.inr ⟨heq, j, by omega, hj⟩
        · rw [if_pos hne]
          exact Or.inr ⟨rfl, i, Nat.le_refl i, hlt, hne⟩
      · rw [if_neg hlt]
        exact Or.inl ⟨rfl, fun j hij hj => absurd (Nat.lt_of_le_of_lt hij hj) hlt⟩

/-- **`zn_validate_read` passes the valid buffers**, and fails the others, when
the chunk size fits the loop counter. -/
theorem znValidateRead_eq {chunkSz : Nat} (hsz : chunkSz < 2 ^ 32) (data : Buffer) (id : Nat)
    (rb : Buffer) :
    (znValidateRead chunkSz data id rb = some 0 ∧ ValidFor chunkSz rb id data)
      ∨ (znValidateRead chunkSz data id rb = some (-1) ∧ ¬ ValidFor chunkSz rb id data) := by
  unfold znValidateRead
  by_cases hid : readId data = id
  · rw [if_neg (not_not.mpr hid)]
    rcases validateLoop_returns hsz data rb (chunkSz + 1) 4 (by omega) (by omega) with
      ⟨heq, hall⟩ | ⟨heq, j, hij, hj, hne⟩
    · exact Or.inl ⟨heq, hid, hall⟩
    · exact Or.inr ⟨heq, fun hvalid => hne (hvalid.2 j hij hj)⟩
  · rw [if_pos hid]
    exact Or.inr ⟨rfl, fun hvalid => hid hvalid.1⟩

/-- A valid buffer passes. -/
theorem ValidFor.validate {chunkSz id : Nat} {rb data : Buffer} (hsz : chunkSz < 2 ^ 32)
    (h : ValidFor chunkSz rb id data) : znValidateRead chunkSz data id rb = some 0 := by
  rcases znValidateRead_eq hsz data id rb with ⟨heq, -⟩ | ⟨-, hnot⟩
  · exact heq
  · exact absurd h hnot

/-! ## §2. Transfers. -/

/-- What one `pwrite` returned, and `errno` after the `fsync`. -/
structure PwriteResult where
  bytesWritten : Int
  errno : Int
  deriving DecidableEq, Repr

/-- Overwrite `n` bytes from `off` on. -/
def storeBytes (bytes : Buffer) (off n : Nat) (data : Buffer) : Buffer := fun a =>
  if off ≤ a ∧ a < off + n then data (a - off) else bytes a

theorem storeBytes_within {bytes data : Buffer} {off n a : Nat} (h : off ≤ a ∧ a < off + n) :
    storeBytes bytes off n data a = data (a - off) := if_pos h

theorem storeBytes_outside {bytes data : Buffer} {off n a : Nat}
    (h : ¬ (off ≤ a ∧ a < off + n)) : storeBytes bytes off n data a = bytes a := if_neg h

/-- The loop of `zn_write_out` with `total` bytes written so far, on the
results of the remaining `pwrite` calls; `none` if there are too few of them.
Each call asks for `write_size` bytes. -/
def writeOutLoop (toWrite : Nat) (buffer : Buffer) (writeSize wpStart : Nat) :
    List PwriteResult → Nat → Buffer → Option (Int × Buffer)
  | [], total, bytes => if total < toWrite then none else some (0, bytes)
  | r :: rest, total, bytes =>
    if total < toWrite then
      let stored := min r.bytesWritten.toNat writeSize
      let bytes' := storeBytes bytes (wpStart + total) stored fun i => buffer (total + i)
      if r.bytesWritten = -1 ∨ r.errno ≠ 0 then some (-1, bytes')
      else writeOutLoop toWrite buffer writeSize wpStart rest (total + r.bytesWritten.toNat) bytes'
    else some (0, bytes)

/-- `zn_write_out`. -/
def znWriteOut (toWrite : Nat) (buffer : Buffer) (writeSize wpStart : Nat)
    (results : List PwriteResult) (bytes : Buffer) : Option (Int × Buffer) :=
  writeOutLoop toWrite buffer writeSize wpStart results 0 bytes

/-- Every `pwrite` and `fsync` succeeds in full. -/
def TransfersOk (results : List PwriteResult) : Prop :=
  ∀ r ∈ results, r = { bytesWritten := writeGranularity, errno := 0 }

/-- A transfer that succeeds throughout writes the whole buffer. -/
theorem writeOutLoop_ok {toWrite : Nat} {buffer : Buffer} {wpStart : Nat}
    (hdvd : writeGranularity ∣ toWrite) : ∀ (results : List PwriteResult) (total : Nat)
    (bytes : Buffer) (r : Int) (bytes' : Buffer), TransfersOk results →
    writeGranularity ∣ total → total ≤ toWrite →
    writeOutLoop toWrite buffer writeGranularity wpStart results total bytes = some (r, bytes') →
      r = 0 ∧ ∀ a, bytes' a = if wpStart + total ≤ a ∧ a < wpStart + toWrite
        then buffer (a - wpStart) else bytes a
  | [], total, bytes, r, bytes', _, _, hle, h => by
      rw [writeOutLoop] at h
      split at h
      · cases h
      · cases h
        refine ⟨rfl, fun a => ?_⟩
        rw [if_neg (by omega)]
  | x :: rest, total, bytes, r, bytes', hok, htot, hle, h => by
      rw [writeOutLoop] at h
      split at h
      · rename_i hlt
        obtain rfl := hok x (List.mem_cons_self ..)
        -- whole blocks are left, so this one fits
        have hnext : total + writeGranularity ≤ toWrite := by
          obtain ⟨k, rfl⟩ := htot
          obtain ⟨n, rfl⟩ := hdvd
          show 4096 * k + 4096 ≤ 4096 * n
          have : 4096 * k < 4096 * n := hlt
          omega
        simp only [ne_eq, not_true_eq_false, or_false] at h
        rw [if_neg (by decide)] at h
        obtain ⟨hr, hbytes⟩ := writeOutLoop_ok hdvd rest _ _ r bytes'
          (fun y hy => hok y (List.mem_cons_of_mem _ hy)) (Nat.dvd_add htot (Nat.dvd_refl _)) hnext h
        refine ⟨hr, fun a => ?_⟩
        rw [hbytes a]
        show (if wpStart + (total + 4096) ≤ a ∧ a < wpStart + toWrite then buffer (a - wpStart)
          else if wpStart + total ≤ a ∧ a < wpStart + total + 4096
            then buffer (total + (a - (wpStart + total))) else bytes a) = _
        have hnext' : total + 4096 ≤ toWrite := hnext
        by_cases h1 : wpStart + (total + 4096) ≤ a ∧ a < wpStart + toWrite
        · rw [if_pos h1, if_pos (by omega)]
        · rw [if_neg h1]
          by_cases h2 : wpStart + total ≤ a ∧ a < wpStart + total + 4096
          · rw [if_pos h2, if_pos (by omega)]
            congr 1
            omega
          · rw [if_neg h2, if_neg (by omega)]
      · cases h
        refine ⟨rfl, fun a => ?_⟩
        rw [if_neg (by omega)]

theorem znWriteOut_ok {toWrite : Nat} {buffer : Buffer} {wpStart : Nat}
    {results : List PwriteResult} {bytes bytes' : Buffer} {r : Int}
    (hdvd : writeGranularity ∣ toWrite) (hok : TransfersOk results)
    (h : znWriteOut toWrite buffer writeGranularity wpStart results bytes = some (r, bytes')) :
    r = 0 ∧ ∀ a, bytes' a = if wpStart ≤ a ∧ a < wpStart + toWrite
      then buffer (a - wpStart) else bytes a :=
  writeOutLoop_ok hdvd results 0 bytes r bytes' hok (dvd_zero _) (Nat.zero_le _) h

/-- As many successful `pwrite` calls as there are blocks complete a transfer. -/
theorem writeOutLoop_returns (toWrite : Nat) (buffer : Buffer) (wpStart : Nat) :
    ∀ (n total : Nat) (bytes : Buffer), toWrite ≤ total + writeGranularity * n →
      ∃ res, writeOutLoop toWrite buffer writeGranularity wpStart
        (List.replicate n { bytesWritten := writeGranularity, errno := 0 }) total bytes = some res
  | 0, total, bytes, hle => by
      refine ⟨(0, bytes), ?_⟩
      show writeOutLoop _ _ _ _ [] _ _ = _
      rw [writeOutLoop, if_neg (by omega)]
  | n + 1, total, bytes, hle => by
      rw [List.replicate_succ, writeOutLoop]
      split
      · simp only [ne_eq, not_true_eq_false, or_false]
        rw [if_neg (by decide)]
        refine writeOutLoop_returns toWrite buffer wpStart n _ _ ?_
        show toWrite ≤ total + 4096 + 4096 * n
        have : toWrite ≤ total + 4096 * (n + 1) := hle
        omega
      · exact ⟨_, rfl⟩

/-! ## §3. The device. -/

/-- The bytes of the device, and the history of what was written where. -/
structure Device where
  bytes : Buffer
  written : Nat → Nat → Option Nat

namespace Device

/-- The history after `who` was written to chunk `c` of zone `z`. -/
def record (d : Device) (bytes : Buffer) (z c : Nat) (who : Option Nat) : Device where
  bytes := bytes
  written := Function.update d.written z (Function.update (d.written z) c who)

/-- The history after a reset of zone `z`. -/
def forget (d : Device) (z : Nat) : Device :=
  { d with written := Function.update d.written z fun _ => none }

/-- The history is right: where it names an id, the bytes are that id's chunk. -/
def Holds (d : Device) (g : Geometry) (randomBuffer : Buffer) : Prop :=
  ∀ z c id, d.written z c = some id → z < g.nrZones ∧ c < g.maxZoneChunks
    ∧ ∀ i, i < g.chunkSz → d.bytes (g.wp z c + i) = znGenWriteBuffer id randomBuffer i

theorem Holds.forget {d : Device} {g : Geometry} {rb : Buffer} (h : d.Holds g rb) (z : Nat) :
    (d.forget z).Holds g rb := by
  intro y c id hy
  by_cases hyz : y = z
  · subst hyz
    simp [Device.forget] at hy
  · have hy' : Function.update d.written z (fun _ => none) y c = some id := hy
    rw [Function.update_of_ne hyz] at hy'
    exact h y c id hy'

end Device

/-- `zn_read_from_disk`; `ret` is what `pread` returns, and `none` is NULL. -/
def znReadFromDisk (g : Geometry) (d : Device) (pair : ZnPair) (ret : Int) : Option Buffer :=
  if ret = g.chunkSz then some fun i => d.bytes (g.wp pair.zone pair.chunkOffset + i) else none

/-- Write one chunk with `zn_write_out`, and keep the history. -/
def writeChunk (g : Geometry) (d : Device) (pair : ZnPair) (id : Nat) (data : Buffer)
    (results : List PwriteResult) : Option (Int × Device) :=
  (znWriteOut g.chunkSz data writeGranularity (g.wp pair.zone pair.chunkOffset) results d.bytes).map
    fun r => (r.1, d.record r.2 pair.zone pair.chunkOffset (if r.1 = 0 then some id else none))

/-- What the history says after a write: nothing else changes. -/
theorem writeChunk_written {g : Geometry} {d d' : Device} {pair : ZnPair} {id : Nat}
    {data : Buffer} {results : List PwriteResult} {r : Int}
    (h : writeChunk g d pair id data results = some (r, d')) (z c : Nat) :
    d'.written z c = if z = pair.zone ∧ c = pair.chunkOffset
      then (if r = 0 then some id else none) else d.written z c := by
  unfold writeChunk at h
  obtain ⟨⟨r', bytes'⟩, -, heq⟩ := Option.map_eq_some_iff.mp h
  cases heq
  by_cases hz : z = pair.zone
  · subst hz
    by_cases hc : c = pair.chunkOffset
    · subst hc; simp [Device.record]
    · simp [Device.record, hc]
  · simp [Device.record, hz]

/-- **A successful write** returns 0, is recorded, and keeps the history right. -/
theorem writeChunk_ok {g : Geometry} {d d' : Device} {pair : ZnPair} {id : Nat} {rb : Buffer}
    {results : List PwriteResult} {r : Int} (ha : g.Addressable)
    (hdvd : writeGranularity ∣ g.chunkSz) (hz : pair.zone < g.nrZones)
    (hc : pair.chunkOffset < g.maxZoneChunks) (hok : TransfersOk results) (hd : d.Holds g rb)
    (h : writeChunk g d pair id (znGenWriteBuffer id rb) results = some (r, d')) :
    r = 0 ∧ d'.Holds g rb ∧ d'.written = (d.record d.bytes pair.zone pair.chunkOffset (some id)).written := by
  unfold writeChunk at h
  obtain ⟨⟨r', bytes'⟩, hout, heq⟩ := Option.map_eq_some_iff.mp h
  obtain ⟨rfl, hbytes⟩ := znWriteOut_ok hdvd hok hout
  cases heq
  refine ⟨rfl, ?_, by simp [Device.record]⟩
  intro z c id' hw
  by_cases hzc : z = pair.zone ∧ c = pair.chunkOffset
  · obtain ⟨rfl, rfl⟩ := hzc
    obtain rfl : id = id' := by simpa [Device.record] using hw
    refine ⟨hz, hc, fun i hi => ?_⟩
    show bytes' _ = _
    rw [hbytes, if_pos (by omega), Nat.add_sub_cancel_left]
  · have hw' : d.written z c = some id' := by
      rw [← hw]
      by_cases hzz : z = pair.zone
      · subst hzz
        have hcc : c ≠ pair.chunkOffset := fun hcc => hzc ⟨rfl, hcc⟩
        simp [Device.record, hcc]
      · simp [Device.record, hzz]
    obtain ⟨hz', hc', hb⟩ := hd z c id' hw'
    refine ⟨hz', hc', fun i hi => ?_⟩
    -- another chunk: its bytes lie outside the range written
    have hout : ¬ (g.wp pair.zone pair.chunkOffset ≤ g.wp z c + i
        ∧ g.wp z c + i < g.wp pair.zone pair.chunkOffset + g.chunkSz) := by
      intro hin
      have hne : (z, c) ≠ (pair.zone, pair.chunkOffset) := fun heq =>
        hzc ⟨(Prod.mk.inj heq).1, (Prod.mk.inj heq).2⟩
      have := Geometry.wp_disjoint ha hz' hc' hz hc hne hi
        (j := g.wp z c + i - g.wp pair.zone pair.chunkOffset) (by omega)
      omega
    show bytes' _ = _
    rw [hbytes, if_neg hout]
    exact hb i hi

/-- A write returns when the device takes every block of it. -/
theorem writeChunk_returns {g : Geometry} {results : List PwriteResult} (hok : TransfersOk results)
    (hlen : g.chunkSz ≤ writeGranularity * results.length) (d : Device) (pair : ZnPair) (id : Nat)
    (data : Buffer) : ∃ r d', writeChunk g d pair id data results = some (r, d') := by
  have hrep := List.eq_replicate_of_mem hok
  obtain ⟨res, hres⟩ := writeOutLoop_returns g.chunkSz data (g.wp pair.zone pair.chunkOffset)
    results.length 0 d.bytes (by omega)
  unfold writeChunk znWriteOut
  rw [hrep, hres]
  exact ⟨_, _, rfl⟩

/-- What a read returns where the history names an id. -/
theorem read_valid {g : Geometry} {d : Device} {pair : ZnPair} {id : Nat} {rb data : Buffer}
    {ret : Int} (hid : id < 2 ^ 32) (h4 : 4 ≤ g.chunkSz) (hd : d.Holds g rb)
    (hw : d.written pair.zone pair.chunkOffset = some id)
    (h : znReadFromDisk g d pair ret = some data) : ValidFor g.chunkSz rb id data := by
  unfold znReadFromDisk at h
  split at h
  · cases h
    exact (gen_valid hid g.chunkSz rb).congr h4 (hd _ _ id hw).2.2
  · cases h

end ZnCache
