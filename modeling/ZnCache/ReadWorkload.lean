/-
  ZnCache.ReadWorkload — `read_workload` of `zncache.c`.

  The buffer is a `uint32_t *` and the running count counts bytes: what comes
  after the first `t` bytes is stored at `buffer + t`, which is byte `4 * t`.

  What the kernel answers is an argument.  The file is its bytes and its
  length, and is read from its beginning.

  Main results:
    * `readWorkload_faithful_iff` — the file is loaded faithfully, if and only
      if no piece is longer than what `4 * t` bytes leave of the buffer,
    * `complete_in_one_piece` — such a load, when it is complete, took one
      `read` that was not interrupted.
-/
import ZnCache.Device
import ZnCache.Lib.Pieces

namespace ZnCache

open Lib Lib.Pieces

/-! ## §1. The loop. -/

/-- What one `read` returned, and `errno`. -/
structure ReadResult where
  bytesRead : Int
  errno : Int
  deriving DecidableEq, Repr

/-- `EINTR`. -/
abbrev eintr : Int := 4

/-- `sizeof(uint32_t)`. -/
abbrev sizeofUint32 : Nat := 4

/-- The loop of `read_workload` with `total_bytes_read` bytes read so far, on
the results of the remaining `read` calls; `none` if there are too few of them.
The bytes are those from `buffer` on. -/
def readWorkloadLoop (size : Nat) (file : Buffer) :
    List ReadResult → Nat → Buffer → Option (Int × Buffer)
  | [], total, buffer =>
    if total < size then none else some (if total ≠ size then 1 else 0, buffer)
  | r :: rest, total, buffer =>
    if total < size then
      if r.bytesRead < 0 then
        if r.errno = eintr then readWorkloadLoop size file rest total buffer
        else some (1, buffer)
      else if r.bytesRead = 0 then some (if total ≠ size then 1 else 0, buffer)
      else
        readWorkloadLoop size file rest (total + r.bytesRead.toNat)
          (storeBytes buffer (sizeofUint32 * total) r.bytesRead.toNat fun i => file (total + i))
    else some (if total ≠ size then 1 else 0, buffer)

/-- `read_workload`. -/
def readWorkload (size : Nat) (file : Buffer) (results : List ReadResult) (buffer : Buffer) :
    Option (Int × Buffer) :=
  readWorkloadLoop size file results 0 buffer

namespace ReadResult

/-- The `read` was interrupted. -/
def Interrupted (r : ReadResult) : Prop := r.bytesRead < 0 ∧ r.errno = eintr

/-- The `read` failed for another reason. -/
def Failed (r : ReadResult) : Prop := r.bytesRead < 0 ∧ r.errno ≠ eintr

/-- The loop goes on. -/
def GoesOn (r : ReadResult) : Prop := 0 < r.bytesRead ∨ r.Interrupted

instance : DecidablePred GoesOn := fun r =>
  inferInstanceAs (Decidable (0 < r.bytesRead ∨ r.bytesRead < 0 ∧ r.errno = eintr))

theorem Failed.not_goesOn {r : ReadResult} (h : r.Failed) : ¬ r.GoesOn := by
  obtain ⟨hneg, herr⟩ := h
  rintro (hpos | hint)
  · omega
  · exact herr hint.2

/-- What `total_bytes_read` grows by. -/
def count (r : ReadResult) : Nat := r.bytesRead.toNat

/-- What the kernel may answer after `total` bytes of a file of `fileLen`: the
`read` fails, or the file is at its end, or some bytes come. -/
def Answers (size fileLen total : Nat) (r : ReadResult) : Prop :=
  (r.bytesRead = -1 ∧ r.errno ≠ 0) ∨ (r.bytesRead = 0 ∧ fileLen ≤ total)
    ∨ (1 ≤ r.bytesRead ∧ total + r.count ≤ size ∧ total + r.count ≤ fileLen)

theorem Answers.count_le {size fileLen total : Nat} {r : ReadResult}
    (h : r.Answers size fileLen total) (htotal : total ≤ fileLen) : total + r.count ≤ fileLen := by
  rcases h with hfail | hend | hsome
  · have hzero : r.count = 0 := by unfold count; rw [hfail.1]; rfl
    omega
  · have hzero : r.count = 0 := by unfold count; rw [hend.1]; rfl
    omega
  · exact hsome.2.2

end ReadResult

/-- `read(fd, buffer + total, count)`, with what it returned. -/
structure ReadCall where
  total : Nat
  count : Nat
  result : ReadResult
  deriving DecidableEq, Repr

/-- The byte is stored by the call. -/
def ReadCall.Stores (c : ReadCall) (a : Nat) : Prop :=
  sizeofUint32 * c.total ≤ a ∧ a < sizeofUint32 * c.total + c.result.count

/-- The calls `read_workload` makes. -/
def readWorkloadCalls (size : Nat) (results : List ReadResult) : List ReadCall :=
  (pieces ReadResult.count ReadResult.GoesOn size results 0).map fun call =>
    { total := call.1, count := size - call.1, result := call.2 }

theorem storeBytes_zero (bytes : Buffer) (off : Nat) (data : Buffer) :
    storeBytes bytes off 0 data = bytes := by
  funext a
  exact storeBytes_outside (by omega)

/-- The loop is a transfer in pieces; only the end of it tells 0 from 1. -/
theorem readWorkloadLoop_eq_transfer (size : Nat) (file : Buffer) (results : List ReadResult)
    (total : Nat) (buffer : Buffer) :
    readWorkloadLoop size file results total buffer
      = (transfer ReadResult.count ReadResult.GoesOn size
          (fun t r b => storeBytes b (sizeofUint32 * t) r.count fun i => file (t + i))
          results total buffer).map fun x => (if x.1 ≠ size then 1 else 0, x.2.2) := by
  induction results generalizing total buffer with
  | nil =>
    rw [readWorkloadLoop, transfer]
    split
    · rfl
    · rfl
  | cons r rest ih =>
    rw [readWorkloadLoop, transfer]
    by_cases hlt : total < size
    · rw [if_pos hlt, if_pos hlt]
      have hne : total ≠ size := Nat.ne_of_lt hlt
      by_cases hneg : r.bytesRead < 0
      · have hnone : r.count = 0 := by
          unfold ReadResult.count
          omega
        rw [if_pos hneg, hnone, storeBytes_zero]
        by_cases hint : r.errno = eintr
        · have hgoes : r.GoesOn := Or.inr ⟨hneg, hint⟩
          rw [if_pos hint, if_pos hgoes, ih]
          rfl
        · have hstops : ¬ r.GoesOn := ReadResult.Failed.not_goesOn ⟨hneg, hint⟩
          rw [if_neg hint, if_neg hstops]
          simp [hne]
      · rw [if_neg hneg]
        by_cases hzero : r.bytesRead = 0
        · have hnone : r.count = 0 := by
            unfold ReadResult.count
            omega
          have hstops : ¬ r.GoesOn := by
            rintro (hpos | hint)
            · omega
            · exact hneg hint.1
          rw [if_pos hzero, hnone, storeBytes_zero, if_neg hstops]
          simp [hne]
        · have hgoes : r.GoesOn := Or.inl (by omega)
          rw [if_neg hzero, if_pos hgoes, ih]
          rfl
    · rw [if_neg hlt, if_neg hlt]
      rfl

/-! ## §2. What is to hold, and where it does. -/

section

variable {size : Nat} {file : Buffer} {fileLen : Nat} {results : Nat → ReadResult}
  {buffer : Buffer}

/-- Call `k` is made. -/
abbrev Reads (size : Nat) (results : Nat → ReadResult) (k : Nat) : Prop :=
  asks ReadResult.count ReadResult.GoesOn size results 0 k

/-- The kernel answers every call that is made as it may. -/
def KernelAnswers (size fileLen : Nat) (results : Nat → ReadResult) : Prop :=
  ∀ k, Reads size results k →
    (results k).Answers size fileLen (done ReadResult.count results k)

/-- `read_workload` loads the first `size` bytes of the file: 0 means that they
are in the buffer, nothing is stored behind it, and a file that is too short and
a failed `read` are reported.  Interruptions may go on for ever, and then it
does not return. -/
structure LoadsFaithfully (size : Nat) (file : Buffer) (fileLen : Nat)
    (results : Nat → ReadResult) (buffer : Buffer) : Prop where
  loads : ∀ n buffer', readWorkload size file (firstOf n results) buffer = some (0, buffer') →
    size ≤ fileLen ∧ ∀ i, i < size → buffer' i = file i
  stores_within : ∀ n, ∀ c ∈ readWorkloadCalls size (firstOf n results),
    ∀ a, c.Stores a → a < size
  short_file : fileLen < size → (∀ k, ∃ m, k ≤ m ∧ ¬ (results m).Interrupted) →
    ∃ n r buffer', readWorkload size file (firstOf n results) buffer = some (r, buffer') ∧ r ≠ 0
  failed_read : ∀ n, (∃ c ∈ readWorkloadCalls size (firstOf n results), c.result.Failed) →
    ∃ r buffer', readWorkload size file (firstOf n results) buffer = some (r, buffer') ∧ r ≠ 0

/-- Behind the first `t` bytes, a piece is no longer than what `4 * t` bytes
leave of the buffer. -/
def PiecesFit (size : Nat) (results : Nat → ReadResult) : Prop :=
  ∀ k, Reads size results k → 0 < (results k).count →
    sizeofUint32 * done ReadResult.count results k + (results k).count ≤ size

theorem mem_readWorkloadCalls (n : Nat) {c : ReadCall} :
    c ∈ readWorkloadCalls size (firstOf n results)
      ↔ ∃ k, k < n ∧ Reads size results k
        ∧ c = { total := done ReadResult.count results k,
                count := size - done ReadResult.count results k, result := results k } :=
  mem_map_pieces_iff _ n

/-- What is stored stays within the buffer, if and only if the pieces fit. -/
theorem stores_within_iff : (∀ n, ∀ c ∈ readWorkloadCalls size (firstOf n results),
      ∀ a, c.Stores a → a < size)
    ↔ PiecesFit size results := by
  constructor
  · intro h k hreads hpos
    have hmade := (mem_readWorkloadCalls (k + 1)).mpr ⟨k, Nat.lt_succ_self k, hreads, rfl⟩
    have hlast := h (k + 1) _ hmade
      (sizeofUint32 * done ReadResult.count results k + ((results k).count - 1))
      ⟨Nat.le_add_right .., Nat.add_lt_add_left (Nat.sub_lt hpos Nat.one_pos) _⟩
    omega
  · intro hfits n c hc a ha
    obtain ⟨k, -, hreads, rfl⟩ := (mem_readWorkloadCalls n).mp hc
    obtain ⟨hfrom, hto⟩ := ha
    have hfrom' : sizeofUint32 * done ReadResult.count results k ≤ a := hfrom
    have hto' : a < sizeofUint32 * done ReadResult.count results k + (results k).count := hto
    have := hfits k hreads (by omega)
    omega

/-! ## §3. What always holds. -/

theorem readWorkload_returns (hagain : ∀ k, ∃ m, k ≤ m ∧ ¬ (results m).Interrupted) :
    ∃ n, (readWorkload size file (firstOf n results) buffer).isSome := by
  have hcounts : ∀ k, ∃ m, k ≤ m ∧ ((results m).GoesOn → 1 ≤ (results m).count) := by
    intro k
    obtain ⟨m, hm, hnot⟩ := hagain k
    refine ⟨m, hm, ?_⟩
    rintro (hpos | hint)
    · unfold ReadResult.count
      omega
    · exact absurd hint hnot
  have hends : ∃ n, ¬ Reads size results n := exists_not_asks hcounts
  obtain ⟨n, hn⟩ := hends
  refine ⟨n, ?_⟩
  unfold readWorkload
  rw [readWorkloadLoop_eq_transfer, Option.isSome_map]
  exact (transfer_isSome_iff n).mpr hn

theorem readWorkload_returns_of_failed {k : Nat} (hfails : (results k).Failed) {n : Nat}
    (hk : k < n) : (readWorkload size file (firstOf n results) buffer).isSome := by
  unfold readWorkload
  rw [readWorkloadLoop_eq_transfer, Option.isSome_map, transfer_isSome_iff]
  intro hasks
  exact hfails.not_goesOn (hasks.1 k hk)

/-- **Where 0 is returned**, no answer has stopped the loop, and `size` bytes
have been read; what every round keeps holds then. -/
theorem readWorkload_zero {I : Nat → Buffer → Prop}
    (hnext : ∀ k b, Reads size results k → (results k).GoesOn →
      I (done ReadResult.count results k) b →
        I (done ReadResult.count results (k + 1))
          (storeBytes b (sizeofUint32 * done ReadResult.count results k) (results k).count
            fun i => file (done ReadResult.count results k + i)))
    (n : Nat) {buffer' : Buffer} (hinv : I 0 buffer)
    (h : readWorkload size file (firstOf n results) buffer = some (0, buffer')) :
    ∃ k, (∀ j, j < k → (results j).GoesOn) ∧ done ReadResult.count results k = size
      ∧ I size buffer' := by
  unfold readWorkload at h
  rw [readWorkloadLoop_eq_transfer] at h
  obtain ⟨⟨t, stop, b⟩, hrun, heq⟩ := Option.map_eq_some_iff.mp h
  obtain ⟨hzero, rfl⟩ := Prod.mk.inj heq
  have hall : t = size := by
    by_contra hne
    rw [if_pos hne] at hzero
    cases hzero
  refine transfer_rule_start (I := I)
    (Q := fun t _ b => t = size → ∃ k, (∀ j, j < k → (results j).GoesOn)
      ∧ done ReadResult.count results k = size ∧ I size b) hnext ?_ ?_ n hinv hrun hall
  · intro k b hreads _ _ hfull
    exact absurd hfull (Nat.ne_of_lt (by simpa using hreads.2))
  · intro k b hok _ hkeep hfull
    rw [hfull] at hkeep
    exact ⟨k, hok, hfull, hkeep⟩

/-- A call that fails is the last one, and is reported. -/
theorem readWorkload_reports (n : Nat) {r : Int} {buffer' : Buffer}
    (h : readWorkload size file (firstOf n results) buffer = some (r, buffer'))
    {k : Nat} (hreads : Reads size results k) (hfails : (results k).Failed) : r ≠ 0 := by
  rintro rfl
  obtain ⟨m, hok, hall, -⟩ := readWorkload_zero (I := fun _ _ => True) (fun _ _ _ _ _ => trivial) n
    trivial h
  by_cases hkm : k < m
  · exact hfails.not_goesOn (hok k hkm)
  · have hmono := done_mono ReadResult.count results (Nat.le_of_not_lt hkm)
    have hleft := hreads.2
    omega

/-- No more is read than the file holds. -/
theorem readWorkload_short (hkernel : KernelAnswers size fileLen results) (n : Nat)
    {buffer' : Buffer} (h : readWorkload size file (firstOf n results) buffer = some (0, buffer')) :
    size ≤ fileLen := by
  refine (readWorkload_zero (I := fun t _ => t ≤ fileLen) ?_ n (Nat.zero_le _) h).elim ?_
  · intro k b hreads _ hle
    rw [done_succ]
    exact (hkernel k hreads).count_le hle
  · exact fun _ hend => hend.2.2

/-! ## §4. Where the pieces fit. -/

/-- The piece that completes the buffer is the only one: `4 * t + n ≤ size` and
`t + n = size` leave `t = 0`. -/
theorem whole_piece (hfits : PiecesFit size results) {k : Nat} (hreads : Reads size results k)
    (hfull : done ReadResult.count results (k + 1) = size) :
    done ReadResult.count results k = 0 ∧ (results k).count = size := by
  rw [done_succ] at hfull
  have hleft := hreads.2
  have hfit : 0 < (results k).count →
      4 * done ReadResult.count results k + (results k).count ≤ size := hfits k hreads
  omega

theorem readWorkload_loads (hfits : PiecesFit size results) (n : Nat) {buffer' : Buffer}
    (h : readWorkload size file (firstOf n results) buffer = some (0, buffer')) :
    ∀ i, i < size → buffer' i = file i := by
  refine (readWorkload_zero (I := fun t b => t = size → ∀ i, i < size → b i = file i)
    ?_ n ?_ h).elim ?_
  · intro k b hreads _ _ hfull i hi
    obtain ⟨hstart, hcount⟩ := whole_piece hfits hreads hfull
    rw [hstart, hcount, storeBytes_within (by omega)]
    show file _ = file i
    congr 1
    omega
  · intro hfull i hi
    omega
  · exact fun _ hend => hend.2.2 rfl

/-- **A load that is complete took one piece**: what came before it was
interrupted. -/
theorem complete_in_one_piece (hsize : 0 < size) (hfits : PiecesFit size results) {n : Nat}
    {buffer' : Buffer} (h : readWorkload size file (firstOf n results) buffer = some (0, buffer')) :
    ∃ k, (results k).count = size ∧ ∀ j, j < k → (results j).Interrupted := by
  refine (readWorkload_zero
    (I := fun t _ => t = size → ∃ k, (results k).count = size ∧ ∀ j, j < k → (results j).Interrupted)
    ?_ n ?_ h).elim ?_
  · intro k b hreads _ _ hfull
    obtain ⟨hstart, hcount⟩ := whole_piece hfits hreads hfull
    refine ⟨k, hcount, ?_⟩
    intro j hj
    rcases hreads.1 j hj with hpos | hint
    · have hmono := done_mono ReadResult.count results (Nat.succ_le_of_lt hj)
      rw [done_succ] at hmono
      have hcounts : 1 ≤ (results j).count := by
        unfold ReadResult.count
        omega
      omega
    · exact hint
  · intro hfull
    omega
  · exact fun _ hend => hend.2.2 rfl

/-- **`read_workload` loads the file faithfully, if and only if the pieces
fit**, for every size, every file and every answer of the kernel. -/
theorem readWorkload_faithful_iff (size : Nat) (file : Buffer) (fileLen : Nat) (buffer : Buffer)
    {results : Nat → ReadResult} (hkernel : KernelAnswers size fileLen results) :
    LoadsFaithfully size file fileLen results buffer ↔ PiecesFit size results := by
  constructor
  · exact fun h => stores_within_iff.mp h.stores_within
  · intro hfits
    refine ⟨?_, stores_within_iff.mpr hfits, ?_, ?_⟩
    · intro n buffer' h
      exact ⟨readWorkload_short hkernel n h, readWorkload_loads hfits n h⟩
    · intro hshort hagain
      obtain ⟨n, hsome⟩ := readWorkload_returns hagain
      obtain ⟨⟨r, buffer'⟩, h⟩ := Option.isSome_iff_exists.mp hsome
      refine ⟨n, r, buffer', h, ?_⟩
      rintro rfl
      have hlong := readWorkload_short hkernel n h
      omega
    · rintro n ⟨c, hc, hfails⟩
      obtain ⟨k, hk, hreads, rfl⟩ := (mem_readWorkloadCalls n).mp hc
      obtain ⟨⟨r, buffer'⟩, h⟩ :=
        Option.isSome_iff_exists.mp (readWorkload_returns_of_failed hfails hk)
      exact ⟨r, buffer', h, readWorkload_reports n h hreads hfails⟩

end

/-- Two ids, after an interruption. -/
theorem readWorkload_two_ids :
    LoadsFaithfully 8 (fun i => UInt8.ofNat i) 8
      (fun k => if k = 0 then { bytesRead := -1, errno := eintr } else { bytesRead := 8, errno := 0 })
      fun _ => 0 := by
  -- the second call brings everything, so there is no third
  have hlast : ∀ {k}, Reads 8 (fun k => if k = 0 then { bytesRead := -1, errno := eintr }
      else { bytesRead := 8, errno := 0 }) k → k = 0 ∨ k = 1 := by
    intro k hreads
    by_contra hlate
    have hmono := done_mono ReadResult.count (fun k => if k = 0 then
      { bytesRead := -1, errno := eintr } else { bytesRead := 8, errno := 0 })
      (show 2 ≤ k by omega)
    have hleft := hreads.2
    rw [done_succ, done_succ] at hmono
    have : 8 ≤ done ReadResult.count (fun k => if k = 0 then
      { bytesRead := -1, errno := eintr } else { bytesRead := 8, errno := 0 }) k := hmono
    omega
  refine (readWorkload_faithful_iff _ _ _ _ ?_).mpr ?_
  · intro k hreads
    rcases hlast hreads with rfl | rfl
    · exact Or.inl ⟨rfl, by decide⟩
    · exact Or.inr (Or.inr ⟨by decide, by decide, by decide⟩)
  · intro k hreads _
    rcases hlast hreads with rfl | rfl
    · decide
    · decide

/-- **Two ids, in two pieces.**  The second is stored at byte 16 of a buffer of
8 bytes, where byte 4 was its place; then 0 is returned. -/
theorem readWorkload_behind_the_buffer :
    KernelAnswers 8 8 (fun _ => { bytesRead := 4, errno := 0 })
    ∧ readWorkloadCalls 8 (firstOf 2 fun _ => { bytesRead := 4, errno := 0 })
      = [{ total := 0, count := 8, result := { bytesRead := 4, errno := 0 } },
         { total := 4, count := 4, result := { bytesRead := 4, errno := 0 } }]
    ∧ (readWorkload 8 (fun i => UInt8.ofNat i)
        (firstOf 2 fun _ => { bytesRead := 4, errno := 0 }) fun _ => 0).map
          (fun out => (out.1, out.2 4, out.2 16)) = some (0, 0, 4)
    ∧ ¬ LoadsFaithfully 8 (fun i => UInt8.ofNat i) 8 (fun _ => { bytesRead := 4, errno := 0 })
        fun _ => 0 := by
  have hcalls : readWorkloadCalls 8 (firstOf 2 fun _ => { bytesRead := 4, errno := 0 })
      = [{ total := 0, count := 8, result := { bytesRead := 4, errno := 0 } },
         { total := 4, count := 4, result := { bytesRead := 4, errno := 0 } }] := by decide
  refine ⟨?_, hcalls, by decide, ?_⟩
  · intro k hreads
    have hleft := hreads.2
    rw [done_const] at hleft ⊢
    have hleft' : 0 + k * 4 < 8 := hleft
    refine Or.inr (Or.inr ⟨(by decide : (1 : Int) ≤ 4), ?_, ?_⟩)
    · show k * 4 + 4 ≤ 8
      omega
    · show k * 4 + 4 ≤ 8
      omega
  · intro h
    have hbehind := h.stores_within 2 _ (by rw [hcalls]; exact List.mem_cons_of_mem _ (.head _)) 16
      ⟨by decide, by decide⟩
    exact absurd hbehind (by decide)

end ZnCache
