/-
  ZnCache.WriteOut — `zn_write_out` under every answer of `pwrite`.

  Each round asks for `write_size` bytes, whatever the buffer has left.  So
  nothing goes wrong as long as no round begins less than `write_size` bytes,
  and more than none, before the end; one that does reads past the buffer and
  writes past the chunk.

  A buffer ends before `2 ^ 63`, and so does what one `pwrite` may take: the
  sums below stay under `2 ^ 64`.

  Main results:
    * `writeOut_exactly_iff` — exactly the chunk is written, if and only if
      no round begins so late,
    * `never_straddles_of_full` — with a device that takes what it is given,
      that is: if and only if `write_size` divides `to_write`,
    * `always_never_straddles_iff` — with a device that may take less, only
      where there is nothing to write or bytes are written one by one.
-/
import ZnCache.Device
import ZnCache.Lib.Pieces

namespace ZnCache

open Lib Lib.Pieces

/-! ## §1. The calls. -/

namespace PwriteResult

/-- The test after the `fsync`. -/
def Failed (r : PwriteResult) : Prop := r.bytesWritten = -1 ∨ r.errno ≠ 0

instance : DecidablePred Failed := fun r =>
  inferInstanceAs (Decidable (r.bytesWritten = -1 ∨ r.errno ≠ 0))

/-- What `total_written` grows by. -/
def count (r : PwriteResult) : Nat := r.bytesWritten.toNat

/-- What POSIX allows of a `pwrite` of `write_size` bytes: it fails, or takes
some bytes and at most these.  The `fsync` may leave any `errno`. -/
def Posix (writeSize : Nat) (r : PwriteResult) : Prop :=
  (r.bytesWritten = -1 ∧ r.errno ≠ 0) ∨ (1 ≤ r.bytesWritten ∧ r.bytesWritten ≤ writeSize)

theorem Posix.count_pos {writeSize : Nat} {r : PwriteResult} (h : r.Posix writeSize)
    (hok : ¬ r.Failed) : 1 ≤ r.count := by
  unfold count
  rcases h with hfail | htook
  · exact absurd (Or.inl hfail.1) hok
  · have := htook.1
    omega

theorem Posix.count_le {writeSize : Nat} {r : PwriteResult} (h : r.Posix writeSize) :
    r.count ≤ writeSize := by
  unfold count
  rcases h with hfail | htook
  · have := hfail.1
    omega
  · have := htook.2
    omega

end PwriteResult

/-- `pwrite(fd, buffer + bufferOffset, count, offset)`, with what it returned. -/
structure PwriteCall where
  bufferOffset : Nat
  count : Nat
  offset : Nat
  result : PwriteResult
  deriving DecidableEq, Repr

/-- The device byte is written by the call. -/
def PwriteCall.Touches (c : PwriteCall) (a : Nat) : Prop :=
  c.offset ≤ a ∧ a < c.offset + min c.result.count c.count

/-- The calls `zn_write_out` makes. -/
def writeOutCalls (toWrite writeSize wpStart : Nat) (results : List PwriteResult) :
    List PwriteCall :=
  (pieces PwriteResult.count (fun r => ¬ r.Failed) toWrite results 0).map fun call =>
    { bufferOffset := call.1, count := writeSize, offset := wpStart + call.1, result := call.2 }

/-- The loop is a transfer in pieces, and every piece is put on the device. -/
theorem writeOutLoop_eq_transfer (toWrite : Nat) (buffer : Buffer) (writeSize wpStart : Nat)
    (results : List PwriteResult) (total : Nat) (bytes : Buffer) :
    writeOutLoop toWrite buffer writeSize wpStart results total bytes
      = (transfer PwriteResult.count (fun r => ¬ r.Failed) toWrite
          (fun t r b => storeBytes b (wpStart + t) (min r.count writeSize) fun i => buffer (t + i))
          results total bytes).map fun x => (if x.2.1.isSome then -1 else 0, x.2.2) := by
  induction results generalizing total bytes with
  | nil =>
    rw [writeOutLoop, transfer]
    split
    · rfl
    · rfl
  | cons r rest ih =>
    rw [writeOutLoop, transfer]
    by_cases hlt : total < toWrite
    · rw [if_pos hlt, if_pos hlt]
      by_cases hfail : r.Failed
      · rw [if_neg (not_not_intro hfail)]
        exact if_pos hfail
      · rw [if_pos hfail]
        refine Eq.trans (if_neg hfail) ?_
        exact ih _ _
    · rw [if_neg hlt, if_neg hlt]
      rfl

/-! ## §2. What is to hold, and where it does. -/

/-- `zn_write_out` writes exactly the chunk: it returns, no call reads the
buffer or writes the device beyond the chunk, nothing else of the device
changes, 0 means that the chunk is there, and a failed `pwrite` is reported.
The kernel answers call `k` with `results k`. -/
structure WritesExactly (toWrite : Nat) (buffer : Buffer) (writeSize wpStart : Nat)
    (results : Nat → PwriteResult) (bytes : Buffer) : Prop where
  returns : ∃ n, (znWriteOut toWrite buffer writeSize wpStart (firstOf n results) bytes).isSome
  reads_within : ∀ n, ∀ c ∈ writeOutCalls toWrite writeSize wpStart (firstOf n results),
    c.bufferOffset + c.count ≤ toWrite
  touches_within : ∀ n, ∀ c ∈ writeOutCalls toWrite writeSize wpStart (firstOf n results),
    ∀ a, c.Touches a → wpStart ≤ a ∧ a < wpStart + toWrite
  frame : ∀ n r bytes',
    znWriteOut toWrite buffer writeSize wpStart (firstOf n results) bytes = some (r, bytes') →
      ∀ a, ¬ (wpStart ≤ a ∧ a < wpStart + toWrite) → bytes' a = bytes a
  holds : ∀ n bytes',
    znWriteOut toWrite buffer writeSize wpStart (firstOf n results) bytes = some (0, bytes') →
      ∀ i, i < toWrite → bytes' (wpStart + i) = buffer i
  reports : ∀ n r bytes',
    znWriteOut toWrite buffer writeSize wpStart (firstOf n results) bytes = some (r, bytes') →
      (∃ c ∈ writeOutCalls toWrite writeSize wpStart (firstOf n results),
        c.result.bytesWritten = -1) → r ≠ 0

/-- As long as nothing has failed, what is written so far is never strictly
between `to_write - write_size` and `to_write`. -/
def NeverStraddles (toWrite writeSize : Nat) (results : Nat → PwriteResult) : Prop :=
  ∀ k, (∀ j, j < k → ¬ (results j).Failed) →
    ¬ (toWrite < done PwriteResult.count results k + writeSize
      ∧ done PwriteResult.count results k < toWrite)

section

variable {toWrite : Nat} {buffer : Buffer} {writeSize wpStart : Nat}
  {results : Nat → PwriteResult} {bytes : Buffer}

/-- Call `k` is made. -/
abbrev Calls (toWrite : Nat) (results : Nat → PwriteResult) (k : Nat) : Prop :=
  asks PwriteResult.count (fun r => ¬ r.Failed) toWrite results 0 k

theorem mem_writeOutCalls (n : Nat) {c : PwriteCall} :
    c ∈ writeOutCalls toWrite writeSize wpStart (firstOf n results)
      ↔ ∃ k, k < n ∧ Calls toWrite results k
        ∧ c = { bufferOffset := done PwriteResult.count results k, count := writeSize,
                offset := wpStart + done PwriteResult.count results k, result := results k } :=
  mem_map_pieces_iff _ n

/-- Every call that is made finds room for its piece, if and only if no round
begins too late. -/
theorem calls_fit_iff : (∀ k, Calls toWrite results k →
      done PwriteResult.count results k + writeSize ≤ toWrite)
    ↔ NeverStraddles toWrite writeSize results := by
  unfold NeverStraddles Calls asks
  simp only [Nat.zero_add]
  constructor
  · intro h k hok hin
    have := h k ⟨hok, hin.2⟩
    omega
  · intro h k hcalls
    have := h k hcalls.1
    have := hcalls.2
    omega

/-! ## §3. What always holds. -/

theorem writeOut_returns (hposix : ∀ k, (results k).Posix writeSize) :
    ∃ n, (znWriteOut toWrite buffer writeSize wpStart (firstOf n results) bytes).isSome := by
  have hends : ∃ n, ¬ Calls toWrite results n :=
    exists_not_asks fun k => ⟨k, Nat.le_refl k, (hposix k).count_pos⟩
  obtain ⟨n, hn⟩ := hends
  refine ⟨n, ?_⟩
  unfold znWriteOut
  rw [writeOutLoop_eq_transfer, Option.isSome_map]
  exact (transfer_isSome_iff n).mpr hn

/-- The rounds as `transfer_rule` has them, from the start of `zn_write_out`. -/
theorem writeOut_rule {I : Nat → Buffer → Prop} {Q : Int → Buffer → Prop}
    (hnext : ∀ k b, Calls toWrite results k → ¬ (results k).Failed →
      I (done PwriteResult.count results k) b →
        I (done PwriteResult.count results (k + 1))
          (storeBytes b (wpStart + done PwriteResult.count results k)
            (min (results k).count writeSize)
            fun i => buffer (done PwriteResult.count results k + i)))
    (hfail : ∀ k b, Calls toWrite results k → (results k).Failed →
      I (done PwriteResult.count results k) b →
        Q (-1) (storeBytes b (wpStart + done PwriteResult.count results k)
          (min (results k).count writeSize)
          fun i => buffer (done PwriteResult.count results k + i)))
    (hend : ∀ k b, (∀ j, j < k → ¬ (results j).Failed) →
      toWrite ≤ done PwriteResult.count results k → I (done PwriteResult.count results k) b →
        Q 0 b)
    (n : Nat) {r : Int} {bytes' : Buffer} (hinv : I 0 bytes)
    (h : znWriteOut toWrite buffer writeSize wpStart (firstOf n results) bytes
      = some (r, bytes')) : Q r bytes' := by
  unfold znWriteOut at h
  rw [writeOutLoop_eq_transfer] at h
  obtain ⟨⟨t, stop, b⟩, hrun, heq⟩ := Option.map_eq_some_iff.mp h
  cases heq
  refine transfer_rule_start (I := I) (Q := fun _ stop b => Q (if stop.isSome then -1 else 0) b)
    hnext ?_ hend n hinv hrun
  intro k b hcalls hf
  exact hfail k b hcalls (not_not.mp hf)

/-- 0 means that the chunk is there, even where more was written. -/
theorem writeOut_holds (hposix : ∀ k, (results k).Posix writeSize) (n : Nat) {bytes' : Buffer}
    (h : znWriteOut toWrite buffer writeSize wpStart (firstOf n results) bytes
      = some (0, bytes')) : ∀ i, i < toWrite → bytes' (wpStart + i) = buffer i := by
  refine writeOut_rule (I := fun t b => ∀ i, i < t → b (wpStart + i) = buffer i)
    (Q := fun r b => r = 0 → ∀ i, i < toWrite → b (wpStart + i) = buffer i)
    ?_ ?_ ?_ n ?_ h rfl
  · intro k b _ _ hinv i hi
    rw [done_succ] at hi
    have hle := (hposix k).count_le
    -- the byte was there before, or comes with this piece
    by_cases hold : i < done PwriteResult.count results k
    · rw [storeBytes_outside (by omega)]
      exact hinv i hold
    · rw [storeBytes_within (by omega)]
      show buffer _ = buffer i
      congr 1
      omega
  · intro k b _ _ _ hr
    exact absurd hr (by decide)
  · intro k b _ hge hinv _ i hi
    exact hinv i (Nat.lt_of_lt_of_le hi hge)
  · intro i hi
    exact absurd hi (Nat.not_lt_zero i)

/-- A call that fails is the last one, and is reported. -/
theorem writeOut_reports (n : Nat) {r : Int} {bytes' : Buffer}
    (h : znWriteOut toWrite buffer writeSize wpStart (firstOf n results) bytes
      = some (r, bytes'))
    {k : Nat} (hcalls : Calls toWrite results k) (hfails : (results k).Failed) : r ≠ 0 := by
  refine writeOut_rule (I := fun _ _ => True) (Q := fun r _ => r ≠ 0) ?_ ?_ ?_ n trivial h
  · intro _ _ _ _ _
    trivial
  · intro _ _ _ _ _
    decide
  · intro m b hok hge _
    -- the loop ended after `m` calls that succeeded, so call `k` was not made
    exfalso
    have hkm : ¬ k < m := fun hlt => hok k hlt hfails
    have hmono := done_mono PwriteResult.count results (Nat.le_of_not_lt hkm)
    have hleft := hcalls.2
    omega

/-! ## §4. Where no round begins too late. -/

theorem touches_within (hposix : ∀ k, (results k).Posix writeSize)
    (hfits : NeverStraddles toWrite writeSize results) {k : Nat}
    (hcalls : Calls toWrite results k) {a : Nat}
    (ha : wpStart + done PwriteResult.count results k ≤ a
      ∧ a < wpStart + done PwriteResult.count results k + min (results k).count writeSize) :
    wpStart ≤ a ∧ a < wpStart + toWrite := by
  have hroom := calls_fit_iff.mpr hfits k hcalls
  have hle := (hposix k).count_le
  omega

theorem writeOut_frame (hposix : ∀ k, (results k).Posix writeSize)
    (hfits : NeverStraddles toWrite writeSize results) (n : Nat) {r : Int} {bytes' : Buffer}
    (h : znWriteOut toWrite buffer writeSize wpStart (firstOf n results) bytes
      = some (r, bytes')) (a : Nat) (ha : ¬ (wpStart ≤ a ∧ a < wpStart + toWrite)) :
    bytes' a = bytes a := by
  have hput : ∀ k (b : Buffer), Calls toWrite results k → b a = bytes a →
      storeBytes b (wpStart + done PwriteResult.count results k) (min (results k).count writeSize)
        (fun i => buffer (done PwriteResult.count results k + i)) a = bytes a := by
    intro k b hcalls hb
    rw [storeBytes_outside fun hin => ha (touches_within hposix hfits hcalls hin)]
    exact hb
  refine writeOut_rule (I := fun _ b => b a = bytes a) (Q := fun _ b => b a = bytes a)
    ?_ ?_ ?_ n rfl h
  · exact fun k b hcalls _ hb => hput k b hcalls hb
  · exact fun k b hcalls _ hb => hput k b hcalls hb
  · exact fun _ _ _ _ hb => hb

end

/-! ## §5. Which answers never begin a round too late. -/

namespace PwriteResult

/-- The `pwrite` takes everything. -/
abbrev full (writeSize : Nat) : PwriteResult where
  bytesWritten := writeSize
  errno := 0

theorem full_posix {writeSize : Nat} (h : 1 ≤ writeSize) : (full writeSize).Posix writeSize :=
  Or.inr ⟨Int.ofNat_le.mpr h, Int.le_refl _⟩

theorem full_ok (writeSize : Nat) : ¬ (full writeSize).Failed := by
  rintro (hneg | herr)
  · have hneg' : (writeSize : Int) = -1 := hneg
    omega
  · exact herr rfl

theorem done_full (writeSize k : Nat) :
    done count (fun _ => full writeSize) k = k * writeSize :=
  done_const count (full writeSize) k

end PwriteResult

/-- A device that takes what it is given: whole blocks fit, and nothing else. -/
theorem never_straddles_of_full {toWrite writeSize : Nat} (hsize : 1 ≤ writeSize) :
    NeverStraddles toWrite writeSize (fun _ => .full writeSize) ↔ writeSize ∣ toWrite := by
  unfold NeverStraddles
  simp only [PwriteResult.done_full]
  constructor
  · intro h
    have hlast := h (toWrite / writeSize) fun _ _ => PwriteResult.full_ok _
    have hdiv := Nat.div_add_mod toWrite writeSize
    have hmod := Nat.mod_lt toWrite hsize
    rw [Nat.mul_comm] at hdiv
    exact Nat.dvd_of_mod_eq_zero (by omega)
  · rintro ⟨m, rfl⟩ k _ hin
    obtain ⟨hpast, hleft⟩ := hin
    -- `k` pieces are fewer than `m`, and one more is more than `m`
    have hm : m < k + 1 := by
      refine Nat.lt_of_mul_lt_mul_left (a := writeSize) ?_
      rw [Nat.mul_succ, Nat.mul_comm writeSize k]
      exact hpast
    have hk : k < m := Nat.lt_of_mul_lt_mul_left (a := writeSize) (by rwa [Nat.mul_comm writeSize k])
    omega

/-- A device that may take one byte at a time begins a round everywhere. -/
theorem always_never_straddles_iff {toWrite writeSize : Nat} :
    (∀ results : Nat → PwriteResult, (∀ k, (results k).Posix writeSize) →
        NeverStraddles toWrite writeSize results)
      ↔ toWrite = 0 ∨ writeSize ≤ 1 := by
  constructor
  · intro h
    by_contra hbig
    push Not at hbig
    obtain ⟨hsome, htwo⟩ := hbig
    have hone : done PwriteResult.count (fun _ => PwriteResult.full 1) (toWrite - 1)
        = toWrite - 1 := by rw [PwriteResult.done_full, Nat.mul_one]
    refine h (fun _ => .full 1) (fun _ => Or.inr ⟨Int.le_refl _, ?_⟩) (toWrite - 1) ?_ ?_
    · show (1 : Int) ≤ writeSize
      omega
    · exact fun _ _ => PwriteResult.full_ok 1
    · rw [hone]
      omega
  · intro h results _ k _ hin
    rcases h with rfl | hle
    · exact absurd hin.2 (Nat.not_lt_zero _)
    · omega

/-! ## §6. Exactly the chunk. -/

/-- **`zn_write_out` writes exactly the chunk, if and only if no round begins
less than `write_size` bytes before its end**, for every chunk, every place and
every answer of the kernel. -/
theorem writeOut_exactly_iff (toWrite : Nat) (buffer : Buffer) (writeSize wpStart : Nat)
    (bytes : Buffer) {results : Nat → PwriteResult} (hposix : ∀ k, (results k).Posix writeSize) :
    WritesExactly toWrite buffer writeSize wpStart results bytes
      ↔ NeverStraddles toWrite writeSize results := by
  constructor
  · intro h
    refine calls_fit_iff.mp fun k hcalls => ?_
    exact h.reads_within (k + 1) _
      ((mem_writeOutCalls (k + 1)).mpr ⟨k, Nat.lt_succ_self k, hcalls, rfl⟩)
  · intro hfits
    refine ⟨writeOut_returns hposix, ?_, ?_, ?_, ?_, ?_⟩
    · intro n c hc
      obtain ⟨k, -, hcalls, rfl⟩ := (mem_writeOutCalls n).mp hc
      exact calls_fit_iff.mpr hfits k hcalls
    · intro n c hc a ha
      obtain ⟨k, -, hcalls, rfl⟩ := (mem_writeOutCalls n).mp hc
      exact touches_within hposix hfits hcalls ha
    · intro n r bytes' h a ha
      exact writeOut_frame hposix hfits n h a ha
    · intro n bytes' h
      exact writeOut_holds hposix n h
    · rintro n r bytes' h ⟨c, hc, hfails⟩
      obtain ⟨k, -, hcalls, rfl⟩ := (mem_writeOutCalls n).mp hc
      exact writeOut_reports n h hcalls (Or.inl hfails)

/-- Two whole blocks. -/
theorem writeOut_two_blocks :
    WritesExactly 8192 (fun i => UInt8.ofNat i) writeGranularity 0
      (fun _ => .full writeGranularity) fun _ => 0 := by
  refine (writeOut_exactly_iff _ _ _ _ _ fun _ => PwriteResult.full_posix (by decide)).mpr ?_
  exact (never_straddles_of_full (by decide)).mpr (by decide)

/-- **A chunk of 5000 bytes.**  The second call reads `buffer[4096, 8192)` and
writes the device to 8192, into the next chunk; then 0 is returned. -/
theorem writeOut_past_the_chunk :
    writeOutCalls 5000 writeGranularity 0 (firstOf 2 fun _ => .full writeGranularity)
      = [{ bufferOffset := 0, count := 4096, offset := 0, result := .full writeGranularity },
         { bufferOffset := 4096, count := 4096, offset := 4096,
           result := .full writeGranularity }]
    ∧ (znWriteOut 5000 (fun i => UInt8.ofNat i) writeGranularity 0
        (firstOf 2 fun _ => .full writeGranularity) fun _ => 0).map
          (fun out => (out.1, out.2 5000)) = some (0, 136)
    ∧ ¬ WritesExactly 5000 (fun i => UInt8.ofNat i) writeGranularity 0
        (fun _ => .full writeGranularity) fun _ => 0 := by
  have hcalls : writeOutCalls 5000 writeGranularity 0 (firstOf 2 fun _ => .full writeGranularity)
      = [{ bufferOffset := 0, count := 4096, offset := 0, result := .full writeGranularity },
         { bufferOffset := 4096, count := 4096, offset := 4096,
           result := .full writeGranularity }] := by decide
  refine ⟨hcalls, by decide, ?_⟩
  intro h
  have hover := h.reads_within 2 _ (by rw [hcalls]; exact List.mem_cons_of_mem _ (.head _))
  exact absurd hover (by decide)

end ZnCache
