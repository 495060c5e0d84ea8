/-
  ZnCache.Chunk.Contents — what a reader finds under the chunk policy.

  An entry of the map stands for bytes on the device.  So does the location that
  a call has been told by a find and has still to read from, and the one that a
  call has written and has still to tell the others of.  `Contents` says that
  all of these chunks are committed, and that their bytes are those of the id.

  The chunks of a zone are committed in order, and a write goes to the one after
  the last: it hits none of them.  What can go wrong is a reset.  The collector
  clears the map before it resets a zone, and holds `policy_mutex` from the one
  to the other, so no entry is left.  It does not ask for the calls that are
  about to read from the zone, or about to report a chunk of it.

  Main results, both about every buffer that `zn_cache_get` returns:
    * `chunk_get_returns_valid` — any interleaving in which no such call is
      there at a reset;
    * `chunk_get_alone_valid` — one call at a time, and nothing else assumed.
-/
import ZnCache.Chunk.Target
import ZnCache.Chunk.Identity
import ZnCache.Cache.WritePointers
import ZnCache.ZoneState.Filled

namespace ZnCache

open Lib

universe u

variable {Tid : Type u} {g : Geometry} {rb : Buffer}

/-! ## §1. Chunks, and who has to do with them. -/

/-- What a thread has to do with a chunk: it holds the location, it has written
the chunk of an id there, or it takes what is there for the chunk of an id. -/
inductive Hand where
  | empty
  | writing (l : ZnPair)
  | wrote (id : Nat) (l : ZnPair)
  | uses (id : Nat) (l : ZnPair)

/-- The location that is held. -/
def Hand.held : Hand → Option ZnPair
  | .writing l | .wrote _ l => some l
  | .empty | .uses .. => none

/-- The id whose chunk is taken to be where. -/
def Hand.used : Hand → Option (Nat × (Nat × Nat))
  | .uses id l => some (id, (l.zone, l.chunkOffset))
  | .empty | .writing _ | .wrote .. => none

/-- The bytes of chunk `ch` are those of `id`. -/
def Device.Has (d : Device) (g : Geometry) (rb : Buffer) (ch : Nat × Nat) (id : Nat) : Prop :=
  ∀ i, i < g.chunkSz → d.bytes (g.wp ch.1 ch.2 + i) = znGenWriteBuffer id rb i

/-- An entry of the map, or a thread, takes `ch` for the chunk of `id`. -/
def ReliedOn (loc : Nat → Option (Nat × Nat)) (hand : Tid → Hand) (id : Nat) (ch : Nat × Nat) : Prop :=
  loc id = some ch ∨ ∃ t, (hand t).used = some (id, ch)

/-- A write to one chunk leaves the bytes of another. -/
theorem Device.Has.other {d d' : Device} {ch ch' : Nat × Nat} {id : Nat} (ha : g.Addressable)
    (h : d.Has g rb ch id) (hch : ch.1 < g.nrZones ∧ ch.2 < g.maxZoneChunks)
    (hch' : ch'.1 < g.nrZones ∧ ch'.2 < g.maxZoneChunks) (hne : ch ≠ ch')
    (hbytes : ∀ a, ¬ (g.wp ch'.1 ch'.2 ≤ a ∧ a < g.wp ch'.1 ch'.2 + g.chunkSz) →
      d'.bytes a = d.bytes a) : d'.Has g rb ch id := by
  intro i hi
  rw [hbytes]
  · exact h i hi
  · intro hin
    have hapart := Geometry.wp_disjoint ha hch.1 hch.2 hch'.1 hch'.2 hne hi
      (j := g.wp ch.1 ch.2 + i - g.wp ch'.1 ch'.2) (by omega)
    omega

/-- **Chunks that are relied on are committed, and hold what they should.** -/
structure Contents (g : Geometry) (rb : Buffer) (zsm : ZoneStateManager)
    (loc : Nat → Option (Nat × Nat)) (dev : Device) (hand : Tid → Hand) : Prop where
  inv : ZsmInv g zsm
  /-- A zone that is held is written at its offset, by one thread. -/
  held : ∀ t l, (hand t).held = some l → (zsm.state l.zone).state = .writeOccuring
    ∧ (zsm.state l.zone).chunkOffset = l.chunkOffset
  single : ∀ t u l l', (hand t).held = some l → (hand u).held = some l' → l.zone = l'.zone → t = u
  filled : ∀ id ch, ReliedOn loc hand id ch → ch.2 < (zsm.state ch.1).filled g
  stored : ∀ id ch, ReliedOn loc hand id ch → dev.Has g rb ch id
  wrote : ∀ t id l, hand t = .wrote id l → dev.Has g rb (l.zone, l.chunkOffset) id

namespace Contents

variable {zsm zsm' : ZoneStateManager} {loc loc' : Nat → Option (Nat × Nat)} {dev dev' : Device}
  {hand : Tid → Hand}

theorem init (dev : Device) :
    Contents g rb (zsmInit g) (fun _ => none) dev (fun _ : Tid => Hand.empty) where
  inv := zsmInit_inv g
  held t l h := by cases h
  single t u l l' h := by cases h
  filled id ch h := by
    rcases h with h | ⟨t, h⟩
    · cases h
    · cases h
  stored id ch h := by
    rcases h with h | ⟨t, h⟩
    · cases h
    · cases h
  wrote t id l h := by cases h

/-- The chunk that is held is a chunk of the device. -/
theorem held_in (h : Contents g rb zsm loc dev hand) {t : Tid} {l : ZnPair}
    (ht : (hand t).held = some l) : l.zone < g.nrZones ∧ l.chunkOffset < g.maxZoneChunks := by
  obtain ⟨hst, hoff⟩ := h.held t l ht
  constructor
  · exact h.inv.lt_of_state (by rw [hst]; decide)
  · rw [← hoff]
    exact (h.inv.open_offset l.zone (Or.inr hst)).1

/-- The chunk that is held is relied on by nobody. -/
theorem held_ne (h : Contents g rb zsm loc dev hand) {t : Tid} {l : ZnPair}
    (ht : (hand t).held = some l) {id : Nat} {ch : Nat × Nat} (hch : ReliedOn loc hand id ch) :
    ch ≠ (l.zone, l.chunkOffset) := by
  rintro rfl
  obtain ⟨hst, hoff⟩ := h.held t l ht
  have hlt := h.filled id _ hch
  unfold ZnZone.filled at hlt
  rw [hst, if_neg (by decide), hoff] at hlt
  exact Nat.lt_irrefl _ hlt

variable [DecidableEq Tid] {t : Tid} {x : Hand}

/-- What is relied on after thread `t` has moved. -/
theorem relied_before {id : Nat} {ch : Nat × Nat}
    (hloc : loc' id = some ch → ReliedOn loc hand id ch)
    (hx : x.used = some (id, ch) → ReliedOn loc hand id ch)
    (h : ReliedOn loc' (Function.update hand t x) id ch) : ReliedOn loc hand id ch := by
  rcases h with h | ⟨u, hu⟩
  · exact hloc h
  · by_cases hut : u = t
    · rw [hut, Function.update_self] at hu
      exact hx hu
    · rw [Function.update_of_ne hut] at hu
      exact Or.inr ⟨u, hu⟩

/-- What is held after thread `t` has moved, and holds nothing new. -/
theorem held_before (hx : ∀ l, x.held = some l → hand t = x) {u : Tid} {l : ZnPair}
    (hu : (Function.update hand t x u).held = some l) : (hand u).held = some l := by
  by_cases hut : u = t
  · rw [hut, Function.update_self] at hu
    rw [hut, hx l hu]
    exact hu
  · rwa [Function.update_of_ne hut] at hu

/-- Nothing new is relied on, and nothing new is held. -/
theorem goto (h : Contents g rb zsm loc dev hand)
    (hloc : ∀ id ch, loc' id = some ch → ReliedOn loc hand id ch)
    (hused : ∀ id ch, x.used = some (id, ch) → ReliedOn loc hand id ch)
    (hheld : ∀ l, x.held = some l → hand t = x) :
    Contents g rb zsm loc' dev (Function.update hand t x) := by
  constructor
  · exact h.inv
  · exact fun u l hu => h.held u l (held_before hheld hu)
  · exact fun u v l l' hu hv => h.single u v l l' (held_before hheld hu) (held_before hheld hv)
  · exact fun id ch hch => h.filled id ch (relied_before (hloc id ch) (hused id ch) hch)
  · exact fun id ch hch => h.stored id ch (relied_before (hloc id ch) (hused id ch) hch)
  · intro u id l hu
    by_cases hut : u = t
    · rw [hut, Function.update_self] at hu
      exact h.wrote t id l ((hheld l (by rw [hu]; rfl)).trans hu)
    · rw [Function.update_of_ne hut] at hu
      exact h.wrote u id l hu

/-- A thread that goes on with the same chunk. -/
theorem stay (h : Contents g rb zsm loc dev hand) (hloc : ∀ id, loc' id = loc id) (hx : x = hand t) :
    Contents g rb zsm loc' dev (Function.update hand t x) := by
  subst hx
  apply h.goto
  · exact fun id ch hch => Or.inl ((hloc id).symm.trans hch)
  · exact fun id ch hch => Or.inr ⟨t, hch⟩
  · exact fun l _ => rfl

/-- A thread that is done with its chunk. -/
theorem leave (h : Contents g rb zsm loc dev hand) (hloc : ∀ id ch, loc' id = some ch → loc id = some ch)
    (hx : x = .empty) : Contents g rb zsm loc' dev (Function.update hand t x) := by
  subst hx
  apply h.goto
  · exact fun id ch hch => Or.inl (hloc id ch hch)
  · exact fun id ch hch => by cases hch
  · exact fun l hl => by cases hl

omit [DecidableEq Tid] in
/-- The zones stay as they are, but for what is not looked at. -/
theorem zones (h : Contents g rb zsm loc dev hand) (hinv : ZsmInv g zsm')
    (hsame : ∀ z, (zsm'.state z).state = (zsm.state z).state
      ∧ (zsm'.state z).chunkOffset = (zsm.state z).chunkOffset) :
    Contents g rb zsm' loc dev hand := by
  constructor
  · exact hinv
  · intro u l hu
    rw [(hsame l.zone).1, (hsame l.zone).2]
    exact h.held u l hu
  · exact h.single
  · intro id ch hch
    unfold ZnZone.filled
    rw [(hsame ch.1).1, (hsame ch.1).2]
    exact h.filled id ch hch
  · exact h.stored
  · exact h.wrote

/-! ## §2. What the calls do. -/

/-- **One zone changes its record**, and `t` is the only thread that may hold it. -/
theorem move (h : Contents g rb zsm loc dev hand) (hinv : ZsmInv g zsm') {z : Nat} {zn : ZnZone}
    (hs' : zsm'.state = Function.update zsm.state z zn)
    (hother : ∀ u, u ≠ t → ∀ l, (hand u).held = some l → l.zone ≠ z)
    (hfilled : (zsm.state z).filled g ≤ zn.filled g)
    (hheld : ∀ l, x.held = some l → l.zone = z ∧ zn.state = .writeOccuring
      ∧ zn.chunkOffset = l.chunkOffset)
    (hwrote : ∀ id l, x ≠ .wrote id l)
    (hused : ∀ id ch, x.used = some (id, ch) →
      ch.1 = z ∧ ch.2 < zn.filled g ∧ dev.Has g rb ch id) :
    Contents g rb zsm' loc dev (Function.update hand t x) := by
  have hcases : ∀ u l, (Function.update hand t x u).held = some l →
      (u = t ∧ x.held = some l) ∨ (u ≠ t ∧ (hand u).held = some l) := by
    intro u l hu
    by_cases hut : u = t
    · rw [hut, Function.update_self] at hu
      exact Or.inl ⟨hut, hu⟩
    · rw [Function.update_of_ne hut] at hu
      exact Or.inr ⟨hut, hu⟩
  -- relied on before, or by this thread from now on
  have hrelied : ∀ id ch, ReliedOn loc (Function.update hand t x) id ch →
      ReliedOn loc hand id ch ∨ x.used = some (id, ch) := by
    intro id ch hch
    by_cases hx : x.used = some (id, ch)
    · exact Or.inr hx
    · exact Or.inl (relied_before Or.inl (fun hx' => absurd hx' hx) hch)
  constructor
  · exact hinv
  · intro u l hu
    rw [hs']
    rcases hcases u l hu with ⟨-, hx⟩ | ⟨hut, hu⟩
    · obtain ⟨hz, hst, hoff⟩ := hheld l hx
      rw [hz, Function.update_self]
      exact ⟨hst, hoff⟩
    · rw [Function.update_of_ne (hother u hut l hu)]
      exact h.held u l hu
  · intro u v l l' hu hv heq
    rcases hcases u l hu with ⟨hut, hx⟩ | ⟨hut, hu⟩
    · rcases hcases v l' hv with ⟨hvt, -⟩ | ⟨hvt, hv⟩
      · rw [hut, hvt]
      · exact absurd (heq.symm.trans (hheld l hx).1) (hother v hvt l' hv)
    · rcases hcases v l' hv with ⟨-, hx⟩ | ⟨hvt, hv⟩
      · exact absurd (heq.trans (hheld l' hx).1) (hother u hut l hu)
      · exact h.single u v l l' hu hv heq
  · intro id ch hch
    rw [hs']
    rcases hrelied id ch hch with hold | hx
    · have hlt := h.filled id ch hold
      by_cases hz : ch.1 = z
      · rw [hz, Function.update_self]
        rw [hz] at hlt
        omega
      · rw [Function.update_of_ne hz]
        exact hlt
    · obtain ⟨hz, hlt, -⟩ := hused id ch hx
      rw [hz, Function.update_self]
      exact hlt
  · intro id ch hch
    rcases hrelied id ch hch with hold | hx
    · exact h.stored id ch hold
    · exact (hused id ch hx).2.2
  · intro u id l hu
    by_cases hut : u = t
    · rw [hut, Function.update_self] at hu
      exact absurd hu (hwrote id l)
    · rw [Function.update_of_ne hut] at hu
      exact h.wrote u id l hu

/-- **A zone is handed out.** -/
theorem acquire (h : Contents g rb zsm loc dev hand) (hpos : 1 ≤ g.maxZoneChunks)
    {r : ZsmGetActiveZone} (hc : GetActiveZoneCase g zsm r zsm')
    (hsuccess : ∀ l, r = .success l → x = .writing l) (helse : (∀ l, r ≠ .success l) → x = .empty) :
    Contents g rb zsm' loc dev (Function.update hand t x) := by
  have hinv := hc.inv hpos h.inv
  -- a zone that nobody writes to is held by nobody
  have hout : ∀ {z : Nat} {free active : List Nat} {writes : Int}
      (_ : ZsmInv g ⟨active, free, Function.update zsm.state z (writingZone zsm z), writes⟩),
      (zsm.state z).state ≠ .writeOccuring → (zsm.state z).state ≠ .full →
      x = .writing (locationOf zsm z) →
      Contents g rb ⟨active, free, Function.update zsm.state z (writingZone zsm z), writes⟩ loc dev
        (Function.update hand t x) := by
    intro z free active writes hinv hwriting hfull hx
    subst hx
    apply h.move hinv rfl
    · intro u _ l hu hz
      exact hwriting (hz ▸ (h.held u l hu).1)
    · unfold ZnZone.filled writingZone
      rw [if_neg hfull]
      exact Nat.le_refl _
    · intro l hl
      cases hl
      exact ⟨rfl, rfl, rfl⟩
    · exact fun id l hl => by cases hl
    · exact fun id ch hch => by cases hch
  cases hc with
  | evict | retry => exact h.leave (fun _ _ hch => hch) (helse fun l hl => by cases hl)
  | reuse ha hst =>
    exact hout hinv (by rw [hst]; decide) (by rw [hst]; decide) (hsuccess _ rfl)
  | opened ha hf hst =>
    exact hout hinv (by rw [hst]; decide) (by rw [hst]; decide) (hsuccess _ rfl)

/-- **A chunk is written.** -/
theorem write (ha : g.Addressable) (h : Contents g rb zsm loc dev hand) {l : ZnPair}
    (ht : (hand t).held = some l)
    (hbytes : ∀ a, ¬ (g.wp l.zone l.chunkOffset ≤ a ∧ a < g.wp l.zone l.chunkOffset + g.chunkSz) →
      dev'.bytes a = dev.bytes a)
    (hx : x = .empty ∨ ∃ id, x = .wrote id l ∧ dev'.Has g rb (l.zone, l.chunkOffset) id) :
    Contents g rb zsm loc dev' (Function.update hand t x) := by
  have hin := h.held_in ht
  have hused : ∀ id ch, x.used ≠ some (id, ch) := by
    intro id ch hch
    rcases hx with rfl | ⟨id', rfl, -⟩
    · cases hch
    · cases hch
  have hheld : ∀ u l', (Function.update hand t x u).held = some l' → (hand u).held = some l' := by
    intro u l' hu
    by_cases hut : u = t
    · rw [hut, Function.update_self] at hu
      rcases hx with rfl | ⟨id, rfl, -⟩
      · cases hu
      · cases hu
        rw [hut]
        exact ht
    · rwa [Function.update_of_ne hut] at hu
  have hrelied : ∀ id ch, ReliedOn loc (Function.update hand t x) id ch → ReliedOn loc hand id ch :=
    fun id ch => relied_before Or.inl fun hch => absurd hch (hused id ch)
  constructor
  · exact h.inv
  · exact fun u l' hu => h.held u l' (hheld u l' hu)
  · exact fun u v l₁ l₂ hu hv => h.single u v l₁ l₂ (hheld u l₁ hu) (hheld v l₂ hv)
  · exact fun id ch hch => h.filled id ch (hrelied id ch hch)
  · intro id ch hch
    have hold := hrelied id ch hch
    exact (h.stored id ch hold).other ha (h.inv.chunk_in (h.filled id ch hold)) hin
      (h.held_ne ht hold) hbytes
  · intro u id l' hu
    by_cases hut : u = t
    · rw [hut, Function.update_self] at hu
      rcases hx with rfl | ⟨id', rfl, hhas⟩
      · cases hu
      · cases hu
        exact hhas
    · rw [Function.update_of_ne hut] at hu
      -- another writer has another zone
      have hheld' : (hand u).held = some l' := by rw [hu]; rfl
      have hne : ((l'.zone, l'.chunkOffset) : Nat × Nat) ≠ (l.zone, l.chunkOffset) := by
        intro heq
        exact hut (h.single u t l' l hheld' ht (congrArg Prod.fst heq))
      exact (h.wrote u id l' hu).other ha (h.held_in hheld') hin hne hbytes

/-- **A chunk is committed**, and its writer takes it for what it has written. -/
theorem commit (h : Contents g rb zsm loc dev hand) (hmax : g.maxZoneChunks < 2 ^ 32) {id : Nat}
    {l : ZnPair} (ht : hand t = .wrote id l) (hx : x = .uses id l) :
    Contents g rb (committed g zsm l) loc dev (Function.update hand t x) := by
  subst hx
  have hheld : (hand t).held = some l := by rw [ht]; rfl
  obtain ⟨hst, hoff⟩ := h.held t l hheld
  obtain ⟨zn, hzn, hnew⟩ := committed_state hmax h.inv hst hoff
  have hopen : (zsm.state l.zone).state ≠ .full := by
    rw [hst]
    decide
  apply h.move (committed_inv h.inv hst hoff) hzn
  · exact fun u hut l' hu heq => hut (h.single u t l' l hu hheld heq)
  · rw [ZnZone.filled_open hopen, hoff, hnew]
    exact Nat.le_succ _
  · exact fun l' hl' => by cases hl'
  · exact fun id' l' hl' => by cases hl'
  · intro id' ch hch
    cases hch
    show _ ∧ l.chunkOffset < zn.filled g ∧ _
    rw [hnew]
    exact ⟨rfl, Nat.lt_succ_self _, h.wrote t id l ht⟩

/-- **A location is given up.** -/
theorem abandon (h : Contents g rb zsm loc dev hand) {l : ZnPair} (ht : (hand t).held = some l)
    (hx : x = .empty) : Contents g rb (abandoned zsm l) loc dev (Function.update hand t x) := by
  subst hx
  obtain ⟨hst, hoff⟩ := h.held t l ht
  apply h.move (abandoned_inv h.inv hst hoff) rfl
  · exact fun u hut l' hu heq => hut (h.single u t l' l hu ht heq)
  · unfold ZnZone.filled reopenedZone
    rw [hst, if_neg (by decide), hoff]
    exact Nat.le_refl _
  · exact fun l' hl' => by cases hl'
  · exact fun id l' hl' => by cases hl'
  · exact fun id ch hch => by cases hch

/-- **A zone is reset** that nobody relies on. -/
theorem reset (h : Contents g rb zsm loc dev hand) {z : Nat} (hfull : (zsm.state z).state = .full)
    (hnone : ∀ id ch, ReliedOn loc hand id ch → ch.1 ≠ z) (hbytes : dev'.bytes = dev.bytes)
    (hx : x = .empty) : Contents g rb (evicted zsm z) loc dev' (Function.update hand t x) := by
  subst hx
  have hrelied : ∀ id ch, ReliedOn loc (Function.update hand t .empty) id ch →
      ReliedOn loc hand id ch :=
    fun id ch => relied_before Or.inl fun hch => by cases hch
  have hheld : ∀ {u l}, (Function.update hand t .empty u).held = some l → (hand u).held = some l :=
    fun {u l} hu => held_before (fun l hl => by cases hl) hu
  have hhas : ∀ {ch id}, dev.Has g rb ch id → dev'.Has g rb ch id := by
    intro ch id hold i hi
    rw [hbytes]
    exact hold i hi
  constructor
  · exact evicted_inv h.inv hfull
  · intro u l hu
    have hold := h.held u l (hheld hu)
    have hne : l.zone ≠ z := by
      intro heq
      rw [heq, hfull] at hold
      cases hold.1
    show (Function.update zsm.state z _ l.zone).state = _
      ∧ (Function.update zsm.state z _ l.zone).chunkOffset = _
    rw [Function.update_of_ne hne]
    exact hold
  · exact fun u v l l' hu hv => h.single u v l l' (hheld hu) (hheld hv)
  · intro id ch hch
    have hold := hrelied id ch hch
    show ch.2 < (Function.update zsm.state z _ ch.1).filled g
    rw [Function.update_of_ne (hnone id ch hold)]
    exact h.filled id ch hold
  · exact fun id ch hch => hhas (h.stored id ch (hrelied id ch hch))
  · intro u id l hu
    apply hhas
    by_cases hut : u = t
    · rw [hut, Function.update_self] at hu
      cases hu
    · rw [Function.update_of_ne hut] at hu
      exact h.wrote u id l hu

end Contents

/-! ## §3. The threads. -/

/-- The collector holds the location that it has acquired, and not written. -/
def ChunkEvict.hand : ChunkEvict → Hand
  | .gcRead _ _ l | .gcWrite _ _ l _ => .writing l
  | .lock | .pop .. | .mark .. | .clear .. | .gc | .gcLoop _ | .gcScan .. | .gcInsert .. | .gcClear _
  | .gcReset _ | .gcFree | .unlock => .empty

/-- What a call has to do with a chunk. -/
def GetPc.hand : GetPc ChunkEvict → Hand
  | .write _ l | .undoZoneGet _ l => .writing l
  | .miss id l _ | .commit id l _ => .wrote id l
  | .read id l | .writeUpdate id l _ | .publish id l _ => .uses id l
  | .evict _ e => e.hand
  | .find _ | .findWait .. | .readUpdate .. | .readDone .. | .hit .. | .acquire _ | .undoMap _
  | .done .. => .empty

/-- The same for a thread of the system. -/
def Pc.hand : Pc ChunkEvict → Hand
  | .idle => .empty
  | .get pc => pc.hand
  | .evictor e => e.hand

/-- The buffer that a call has, and the id it is for. -/
def Pc.buffer {E : Type} : Pc E → Option (Nat × Buffer)
  | .get (.readUpdate id _ data) | .get (.readDone id _ data) | .get (.hit id data)
  | .get (.done id data) => data.map fun d => (id, d)
  | .get (.miss id _ data) | .get (.commit id _ data) | .get (.writeUpdate id _ data)
  | .get (.publish id _ data) => some (id, data)
  | _ => none

/-- A buffer that a call has was read, or made, or is the one it had. -/
theorem GetCase.buffer {P E : Type} {pol : EvictPolicy P E} {a : Answers} {s s' : CacheState P}
    {pc pc' : GetPc E} (h : GetCase pol g rb a s pc s' pc') {id : Nat} {data : Buffer}
    (hb : (Pc.get pc').buffer = some (id, data)) :
    (Pc.get pc).buffer = some (id, data)
      ∨ (∃ l, pc = .read id l ∧ znReadFromDisk g s.device l a.pread = some data)
      ∨ (pc.id = id ∧ data = znGenWriteBuffer id rb) := by
  cases h with
  | @find id r | @wake id c seen r => cases r <;> cases hb
  | @read id l =>
    obtain ⟨d, hd, heq⟩ := Option.map_eq_some_iff.mp hb
    cases heq
    exact Or.inr (Or.inl ⟨l, rfl, hd⟩)
  | readUpdate | readDone | hit | miss | commit | writeUpdate | publish => exact Or.inl hb
  | @acquire id r => cases r <;> cases hb
  | @evict id e s' e' => cases e' <;> cases hb
  | @write id l r d =>
    by_cases hr : r = 0
    · rw [if_neg (by simpa using hr)] at hb
      cases hb
      exact Or.inr (Or.inr ⟨rfl, rfl⟩)
    · rw [if_pos hr] at hb
      cases hb
  | undoZoneGet | undoMap => cases hb

theorem Geometry.Zonable.four_le (hg : g.Zonable) : 4 ≤ g.chunkSz :=
  Nat.le_trans (by decide) (Nat.le_of_dvd hg.chunk_pos hg.chunk_dvd)

section Steps

variable [DecidableEq Tid] {mem : Nat → EvictionPolicyChunkZone} {hand : Tid → Hand} {t : Tid}
  {a : Answers} {s s' : CacheState ZnPolicyChunk}

/-- **A step of an eviction**, unless the collector inserts a chunk. -/
theorem ChunkEvictCase.contents (hg : g.Zonable) {e : ChunkEvict} {e' : Option ChunkEvict}
    (hcase : ChunkEvictCase g a s e s' e')
    (h : Contents g rb s.zoneState (locOf s.cacheMap) s.device hand) (ht : hand t = e.hand)
    (hok : DeviceOk g a.ret) (htransfer : TransfersOk a.pwrites) (hmoves : ¬ e.Moves)
    (hreset : ∀ old, e = .gcReset old → ∀ id ch, ReliedOn (locOf s.cacheMap) hand id ch →
      ch.1 ≠ (s.policy.zonePool old).zoneId) :
    Contents g rb s'.zoneState (locOf s'.cacheMap) s'.device
      (Function.update hand t (e'.elim .empty ChunkEvict.hand)) := by
  cases hcase with
  | refuse | enter | pop | popped | gcSkip | gcStart | gcDone | gcPick | gcSkipChunk | gcScanned
  | gcRead | gcFree | unlock => exact h.stay (fun _ => rfl) ht.symm
  | @mark i nrEvict zp =>
    have hmarked := h.zones (h.inv.mark zp) fun z => (zsmMarkChunkInvalid_same _ zp z).2
    exact hmarked.stay (fun _ => rfl) ht.symm
  | @clear i i' nrEvict zp m hm =>
    obtain ⟨l, -, -, -, rfl⟩ := znCachemapClearChunk_ok hm
    apply h.leave _ rfl
    intro id ch hch
    obtain ⟨l', hl', heq⟩ := locOf_eq_some.mp hch
    have hl'' : Function.update s.cacheMap.zoneMap (keyAt s.cacheMap zp) none id = some (.loc l') := hl'
    by_cases hid : id = keyAt s.cacheMap zp
    · rw [hid, Function.update_self] at hl''
      cases hl''
    · rw [Function.update_of_ne hid] at hl''
      exact locOf_eq_some.mpr ⟨l', hl'', heq⟩
  | gcAcquire _ hr =>
    obtain ⟨r, z, hr', hc⟩ := zsmGetActiveZone_spec h.inv hok
    cases hr'.symm.trans hr
    apply h.acquire hg.max_pos hc
    · intro l hl
      cases hl
      rfl
    · exact fun hno => absurd rfl (hno _)
  | @gcWrite old i l data d hw =>
    obtain ⟨⟨r, bytes⟩, hout, heq⟩ := Option.map_eq_some_iff.mp hw
    cases heq
    obtain ⟨-, hbytes⟩ := znWriteOut_ok hg.chunk_dvd htransfer hout
    apply h.write hg.addressable (by rw [ht]; rfl) _ (Or.inl rfl)
    intro x hx
    show bytes x = _
    rw [hbytes, if_neg hx]
  | gcInsert => exact absurd trivial hmoves
  | gcClear hm =>
    obtain ⟨-, zm, rfl, hzm, -⟩ := znCachemapClearZone_ok hm
    apply h.leave _ rfl
    intro id ch hch
    obtain ⟨l, hl, heq⟩ := locOf_eq_some.mp hch
    have hl' : zm id = some (.loc l) := hl
    rcases hzm id with hsame | ⟨hnone, -⟩
    · exact locOf_eq_some.mpr ⟨l, hsame.symm.trans hl', heq⟩
    · rw [hnone] at hl'
      cases hl'
  | gcReset hr =>
    obtain ⟨hfull, -, -, rfl⟩ := zsmEvict_returns hr
    exact h.reset hfull (hreset _ rfl) rfl rfl

/-- **A step of `zn_cache_get`**, outside of `zn_fg_evict`. -/
theorem GetCase.contents (hg : g.Zonable) {pc pc' : GetPc ChunkEvict}
    (hcase : GetCase (chunk mem) g rb a s pc s' pc')
    (h : Contents g rb s.zoneState (locOf s.cacheMap) s.device hand) (ht : hand t = pc.hand)
    (hid : pc.id < 2 ^ 31) (hok : DeviceOk g a.ret) (htransfer : TransfersOk a.pwrites)
    (hout : (Pc.get pc).evicting = none) :
    Contents g rb s'.zoneState (locOf s'.cacheMap) s'.device (Function.update hand t pc'.hand) := by
  -- a find that tells a location tells where the entry of the id is
  have hfind : ∀ {m m' : ZnCachemap} {id : Nat} {r : FindResult}, id < 2 ^ 31 → FindCase m id r m' →
      (∀ k, locOf m k = locOf s.cacheMap k) →
      Contents g rb s.zoneState (locOf m') s.device
        (Function.update hand t (r.getPc id : GetPc ChunkEvict).hand) := by
    intro m m' id r hid hf hm
    apply h.goto
    · intro k ch hch
      rw [locOf_find hf, hm] at hch
      exact Or.inl hch
    · intro k ch hch
      cases hf with
      | @located l hl =>
        cases hch
        rw [ptr_eq hid] at hl
        exact Or.inl ((hm id).symm.trans (locOf_eq_some.mpr ⟨l, hl, rfl⟩))
      | sleep | write => cases hch
    · intro l hl
      cases hf <;> cases hl
  cases hcase with
  | find hf => exact hfind hid hf fun _ => rfl
  | wake hf =>
    apply hfind hid hf
    exact fun _ => rfl
  | read => exact h.leave (fun _ _ hch => hch) rfl
  | readUpdate | readDone | hit | miss | writeUpdate => exact h.stay (fun _ => rfl) ht.symm
  | @acquire id r z hr =>
    obtain ⟨r', z', hr', hc⟩ := zsmGetActiveZone_spec h.inv hok
    cases hr'.symm.trans hr
    apply h.acquire hg.max_pos hc
    · rintro l rfl
      rfl
    · intro hno
      cases r with
      | success l => exact absurd rfl (hno l)
      | retry | error | evict => rfl
  | evict => cases hout
  | @write id l r d hw =>
    obtain ⟨⟨r', bytes⟩, hres, heq⟩ := Option.map_eq_some_iff.mp hw
    cases heq
    obtain ⟨rfl, hbytes⟩ := znWriteOut_ok hg.chunk_dvd htransfer hres
    have hheld : (hand t).held = some l := by rw [ht]; rfl
    dsimp only
    rw [if_neg (show ¬ (0 : Int) ≠ 0 by simp)]
    apply h.write hg.addressable hheld
    · intro x hx
      show bytes x = _
      rw [hbytes, if_neg hx]
    · refine Or.inr ⟨id, rfl, ?_⟩
      intro i hi
      show bytes _ = _
      rw [hbytes, if_pos (by dsimp only; omega), Nat.add_sub_cancel_left]
  | @commit id l data r z hr =>
    obtain ⟨hst, hoff⟩ := h.held t l (by rw [ht]; rfl)
    cases (zsmReturnActiveZone_spec h.inv hok hst hoff).symm.trans hr
    exact h.commit hg.narrow ht rfl
  | @publish id l data m hm =>
    obtain ⟨c, -, -, -, rfl⟩ := znCachemapInsert_ok hm
    have hid' : id < 2 ^ 31 := hid
    rw [locOf_published (by omega)]
    apply h.goto
    · intro k ch hch
      by_cases hk : k = id
      · rw [hk, Function.update_self] at hch
        cases hch
        exact Or.inr ⟨t, by rw [ht, hk]; rfl⟩
      · rw [Function.update_of_ne hk] at hch
        exact Or.inl hch
    · exact fun k ch hch => by cases hch
    · exact fun l hl => by cases hl
  | @undoZoneGet id l z hr =>
    obtain ⟨-, -, rfl⟩ := zsmFailedToWrite_cases hr
    exact h.abandon (by rw [ht]; rfl) rfl
  | undoMap hm =>
    obtain ⟨c, hc, -, rfl⟩ := znCachemapFail_ok hm
    exact h.stay (locOf_withdrawn hc) ht.symm

end Steps

/-! ## §4. The system. -/

/-- The zone that a thread is about to reset. -/
def Sys.resetting (s : Sys ZnPolicyChunk ChunkEvict Tid) (t : Tid) : Option Nat :=
  match (s.pool t).evicting with
  | some (.gcReset old) => some (s.cache.policy.zonePool old).zoneId
  | _ => none

/-- When a zone is reset, no call is about to read from it, or has still to
insert a chunk of it. -/
def SysLabel.ResetsUnused (s : Sys ZnPolicyChunk ChunkEvict Tid) (l : SysLabel Tid) : Prop :=
  ∀ z ∈ s.resetting l.thread, ∀ u, ∀ x ∈ (s.pool u).hand.used, x.2.1 ≠ z

/-- **What is assumed of a step**: small ids, operations that succeed; no live
chunk is moved, none evicted before it is published, and no zone reset that a
call uses. -/
def SysLabel.Orderly (g : Geometry) (s : Sys ZnPolicyChunk ChunkEvict Tid) (l : SysLabel Tid) : Prop :=
  l.SmallId ∧ l.ZoneOk g ∧ l.TransferOk g ∧ l.MovesNone s ∧ l.PopsPublished s ∧ l.ResetsUnused s

/-- **The entries of the map are right**: they are about committed chunks of
zones that are not FREE, and the bytes there are those of the id. -/
def EntriesRight {P : Type} (g : Geometry) (rb : Buffer) (c : CacheState P) : Prop :=
  ∀ id l, c.cacheMap.zoneMap id = some (.loc l) →
    (c.zoneState.state l.zone).state ≠ .free
      ∧ l.chunkOffset < (c.zoneState.state l.zone).filled g
      ∧ c.device.Has g rb (l.zone, l.chunkOffset) id

/-- **Every buffer that is returned is right**, and passes `zn_validate_read`. -/
def ResultsRight {P E : Type} (g : Geometry) (rb : Buffer) (s : Sys P E Tid) : Prop :=
  ∀ t id data, s.pool t = .get (.done id (some data)) → ValidFor g.chunkSz rb id data
    ∧ (g.chunkSz < 2 ^ 32 → znValidateRead g.chunkSz data id rb = some 0)

/-- What holds of the device, the map and the threads. -/
structure ChunkContents (g : Geometry) (rb : Buffer) (s : Sys ZnPolicyChunk ChunkEvict Tid) : Prop where
  contents : Contents g rb s.cache.zoneState (locOf s.cache.cacheMap) s.cache.device
    fun t => (s.pool t).hand
  buffers : ∀ t id data, (s.pool t).buffer = some (id, data) → ValidFor g.chunkSz rb id data
  /-- Nothing has happened in the zone that was cleared and is to be reset. -/
  swept : ∀ t old, (s.pool t).evicting = some (.gcReset old) →
    (ChunkEvict.gcClear old).Scanned s.cache.policy

section System

variable [DecidableEq Tid] {mem : Nat → EvictionPolicyChunkZone}
  {s s' : Sys ZnPolicyChunk ChunkEvict Tid} {l : SysLabel Tid}

/-- A thread that is in an eviction has begun it, or has gone on with it. -/
theorem SysCase.evicting {P E : Type} {pol : EvictPolicy P E} {s s' : Sys P E Tid} {l : SysLabel Tid}
    (hs : SysCase pol g rb s l s') {e' : E} (he : (s'.pool l.thread).evicting = some e') :
    e' = pol.entry ∨ ∃ a e, (s.pool l.thread).evicting = some e
      ∧ pol.step g a s.cache e = some (.ok (s'.cache, some e')) := by
  have hself : ∀ {t : Tid} {c : CacheState P} {pc : Pc E}, ((s.goto t c pc).pool t).evicting = pc.evicting := by
    intro t c pc
    rw [Sys.goto_pool, Function.update_self]
  cases hs with
  | get | ret => cases hself.symm.trans he
  | fgEvict | taskEvicts =>
    cases hself.symm.trans he
    exact Or.inl rfl
  | taskSleeps ht => cases (congrArg Pc.evicting ht).symm.trans he
  | @evict t a e e'' c ht hstep =>
    have hpc := hself.symm.trans he
    cases e'' with
    | none => cases hpc
    | some e'' =>
      cases hpc
      exact Or.inr ⟨a, e, congrArg Pc.evicting ht, hstep⟩
  | @step t a pc pc' c ht hcase =>
    have hpc := hself.symm.trans he
    cases hcase with
    | @find id r | @wake id c seen r => cases r <;> cases hpc
    | read | readUpdate | readDone | hit | miss | commit | writeUpdate | publish | undoZoneGet
    | undoMap => cases hpc
    | @acquire id r =>
      cases r with
      | evict =>
        cases hpc
        exact Or.inl rfl
      | success | retry | error => cases hpc
    | @write id l r d =>
      by_cases hr : r = 0
      · rw [if_neg (by simpa using hr)] at hpc
        cases hpc
      · rw [if_pos hr] at hpc
        cases hpc
    | @evict id e c e'' hstep =>
      cases e'' with
      | none => cases hpc
      | some e'' =>
        cases hpc
        exact Or.inr ⟨a, e, congrArg Pc.evicting ht, hstep⟩

/-- While a thread has the mutex the others leave the policy alone. -/
theorem ChunkSys.policy_kept (hsys : ChunkSys g s) {u : Tid} {e : ChunkEvict}
    (hu : (s.pool u).holding = some e) (hne : u ≠ l.thread) (hs : SysCase (chunk mem) g rb s l s') :
    s'.cache.policy = s.cache.policy := by
  obtain ⟨e₀, hheld, -⟩ := hsys
  obtain ⟨hlocked, -, hno⟩ := hheld.holder hu
  have hclosed : s.cache.policy.locked ≠ false := by
    rw [hlocked]
    decide
  have hevict : ∀ {a : Answers} {e : ChunkEvict} {e' : Option ChunkEvict} {c : CacheState ZnPolicyChunk},
      (s.pool l.thread).evicting = some e → ChunkEvictCase g a s.cache e c e' →
      c.policy = s.cache.policy := by
    intro a e e' c hat hcase
    -- the others are at the gate
    have hlock : e = .lock := by
      by_contra hlock
      have hhold := Pc.holding_of_evicting hat hlock
      rw [hno l.thread (Ne.symm hne)] at hhold
      cases hhold
    subst hlock
    cases hcase with
    | refuse => rfl
    | enter hfree => exact absurd hfree hclosed
  cases hs with
  | get | fgEvict | taskSleeps | taskEvicts | ret => rfl
  | @evict t a e e' c ht hstep => exact hevict (congrArg Pc.evicting ht) (chunkEvictStep_cases hstep)
  | @step t a pc pc' c ht hcase =>
    cases hcase with
    | find | wake | read | readDone | hit | acquire | write | miss | commit | publish | undoZoneGet
    | undoMap => rfl
    | evict hstep => exact hevict (congrArg Pc.evicting ht) (chunkEvictStep_cases hstep)
    | readUpdate hup => exact absurd (chunkUpdate_cases hup).1 hclosed
    | writeUpdate hup => exact absurd (chunkUpdate_cases hup).1 hclosed

namespace ChunkContents

omit [DecidableEq Tid] in
theorem init (bytes : Buffer) : ChunkContents g rb
    (⟨initCache (chunk mem) g bytes, fun _ => .idle⟩ : Sys ZnPolicyChunk ChunkEvict Tid) where
  contents := Contents.init _
  buffers t id data h := by cases h
  swept t old h := by cases h

omit [DecidableEq Tid] in
/-- A thread that is about to reset a zone got there from the clearing of it. -/
theorem gcReset_from {a : Answers} {c c' : CacheState ZnPolicyChunk} {e : ChunkEvict} {old : Nat}
    (hcase : ChunkEvictCase g a c e c' (some (.gcReset old))) :
    e = .gcClear old ∧ c'.policy = c.policy := by
  cases hcase with
  | gcClear => exact ⟨rfl, rfl⟩

theorem swept_step (h : ChunkContents g rb s) (hsys : ChunkSys g s)
    (hs : SysCase (chunk mem) g rb s l s') (t : Tid) (old : Nat)
    (ht : (s'.pool t).evicting = some (.gcReset old)) :
    (ChunkEvict.gcClear old).Scanned s'.cache.policy := by
  by_cases hmoves : t = l.thread
  · rcases hs.evicting (hmoves ▸ ht) with hentry | ⟨a, e, hat, hstep⟩
    · cases hentry
    · -- the map has just been cleared
      obtain ⟨rfl, hpolicy⟩ := gcReset_from (chunkEvictStep_cases hstep)
      obtain ⟨e₀, hheld, hsh⟩ := hsys
      obtain ⟨-, rfl, -⟩ := hheld.holder (Pc.holding_of_evicting hat ChunkEvict.noConfusion)
      rw [hpolicy]
      exact hsh.scanned _ rfl
  · rw [hs.other hmoves] at ht
    rw [hsys.policy_kept (Pc.holding_of_evicting ht ChunkEvict.noConfusion) hmoves hs]
    exact h.swept t old ht

omit [DecidableEq Tid] in
/-- Nobody relies on the zone that is about to be reset, if no call uses it. -/
theorem unrelied (h : ChunkContents g rb s) (hsys : ChunkSys g s) {t : Tid} {old : Nat}
    (ht : (s.pool t).evicting = some (.gcReset old))
    (hunused : ∀ u, ∀ x ∈ (s.pool u).hand.used, x.2.1 ≠ (s.cache.policy.zonePool old).zoneId)
    (id : Nat) (ch : Nat × Nat)
    (hch : ReliedOn (locOf s.cache.cacheMap) (fun t => (s.pool t).hand) id ch) :
    ch.1 ≠ (s.cache.policy.zonePool old).zoneId := by
  rcases hch with hloc | ⟨u, hu⟩
  · obtain ⟨hzone, hnone⟩ := h.swept t old ht
    obtain ⟨e, hheld, hsh⟩ := hsys
    obtain ⟨-, rfl, -⟩ := hheld.holder (Pc.holding_of_evicting ht ChunkEvict.noConfusion)
    rw [hzone]
    intro hz
    -- an entry is about a chunk in use, and no chunk of the zone is
    rcases hsh.mapped ch (mappedAt_iff.mpr ⟨id, hloc⟩) with huse | hclearing
    · have hunuse := hnone ch.2
      rw [← hz] at hunuse
      rw [hunuse] at huse
      cases huse
    · cases hclearing
  · exact hunused u (id, ch) hu

omit [DecidableEq Tid] in
/-- What a call reads is the chunk of its id. -/
theorem read_valid (hg : g.Zonable) (h : ChunkContents g rb s) {t : Tid} {id : Nat} {l : ZnPair}
    (ht : s.pool t = .get (.read id l)) (hid : id < 2 ^ 31) {ret : Int} {data : Buffer}
    (hread : znReadFromDisk g s.cache.device l ret = some data) : ValidFor g.chunkSz rb id data := by
  have hused : (s.pool t).hand.used = some (id, (l.zone, l.chunkOffset)) := by
    rw [ht]
    rfl
  have hhas := h.contents.stored id (l.zone, l.chunkOffset) (Or.inr ⟨t, hused⟩)
  unfold znReadFromDisk at hread
  split at hread
  · cases hread
    exact (gen_valid (by omega) g.chunkSz rb).congr hg.four_le hhas
  · cases hread

/-- **Step lemma.** -/
theorem step (hg : g.Zonable) (h : ChunkContents g rb s) (hsys : ChunkSys g s)
    (hids : IdsIn (fun id => id < 2 ^ 31) s) (hok : l.ZoneOk g) (htransfer : l.TransferOk g)
    (hmoves : l.MovesNone s) (hresets : l.ResetsUnused s)
    (hs : SysCase (chunk mem) g rb s l s') : ChunkContents g rb s' := by
  -- a thread that begins or ends a call has nothing to do with a chunk
  have hquiet : ∀ {t : Tid} {pc : Pc ChunkEvict}, pc.hand = .empty →
      Contents g rb s.cache.zoneState (locOf s.cache.cacheMap) s.cache.device
        fun u => ((s.goto t s.cache pc).pool u).hand := by
    intro t pc hpc
    rw [Sys.goto_view Pc.hand]
    exact h.contents.leave (fun _ _ hch => hch) hpc
  have hevict : ∀ {t : Tid} {a : Answers} {e : ChunkEvict} {e' : Option ChunkEvict}
      {c : CacheState ZnPolicyChunk} {pc : Pc ChunkEvict}, l = .step t a →
      (s.pool t).evicting = some e → pc.hand = e'.elim .empty ChunkEvict.hand →
      ChunkEvictCase g a s.cache e c e' →
      Contents g rb c.zoneState (locOf c.cacheMap) c.device fun u => ((s.goto t c pc).pool u).hand := by
    intro t a e e' c pc hl hat hpc hcase
    subst hl
    rw [Sys.goto_view Pc.hand, hpc]
    have hhand : (s.pool t).hand = e.hand := by
      rcases evicting_eq hat with heq | ⟨id, heq⟩
      · rw [heq]
        rfl
      · rw [heq]
        rfl
    apply hcase.contents hg h.contents hhand hok htransfer.1 (hmoves e hat)
    intro old he
    subst he
    apply h.unrelied hsys hat
    apply hresets
    show s.resetting t = _
    unfold Sys.resetting
    rw [hat]
  have hkept : ∀ {t : Tid} {c : CacheState ZnPolicyChunk} {pc : Pc ChunkEvict},
      (∀ id data, pc.buffer = some (id, data) → ValidFor g.chunkSz rb id data) →
      ∀ u id data, ((s.goto t c pc).pool u).buffer = some (id, data) → ValidFor g.chunkSz rb id data :=
    fun hpc => Sys.goto_forall
      (Q := fun pc => ∀ id data, pc.buffer = some (id, data) → ValidFor g.chunkSz rb id data)
      h.buffers _ _ hpc
  have hswept := h.swept_step hsys hs
  cases hs with
  | get | fgEvict | taskEvicts | ret =>
    exact ⟨hquiet rfl, hkept (fun id data hb => by cases hb), hswept⟩
  | taskSleeps => exact h
  | @evict t a e e' c ht hstep =>
    refine ⟨?_, hkept (fun id data hb => ?_), hswept⟩
    · exact hevict rfl (congrArg Pc.evicting ht) (by cases e' <;> rfl) (chunkEvictStep_cases hstep)
    · cases e' <;> cases hb
  | @step t a pc pc' c ht hcase =>
    refine ⟨?_, hkept (fun id data hb => ?_), hswept⟩
    · cases hout : (Pc.get pc).evicting with
      | none =>
        rw [Sys.goto_view Pc.hand]
        exact hcase.contents hg h.contents (by rw [ht]; rfl) (hids t pc ht) hok htransfer.1 hout
      | some e =>
        rcases evicting_eq hout with hno | ⟨id, heq⟩
        · cases hno
        cases heq
        cases hcase with
        | @evict id e c e' hstep =>
          exact hevict rfl (congrArg Pc.evicting ht) (by cases e' <;> rfl) (chunkEvictStep_cases hstep)
    · rcases hcase.buffer hb with hold | ⟨loc, rfl, hread⟩ | ⟨hid, rfl⟩
      · exact h.buffers t id data ((congrArg Pc.buffer ht).trans hold)
      · exact h.read_valid hg ht (hids t _ ht) hread
      · have hlt : pc.id < 2 ^ 31 := hids t pc ht
        rw [hid] at hlt
        exact gen_valid (by omega) g.chunkSz rb

/-- **Run lemma.** -/
theorem reach (hg : g.Zonable)
    (hr : (cacheSystem Tid (chunk mem) g rb).Reach (fun s l => l.Orderly g s) s) :
    ChunkContents g rb s := by
  apply TransSys.Reach.invariant (I := ChunkContents g rb) _ _ hr
  · intro s hs
    obtain ⟨bytes, rfl⟩ := hs
    exact init bytes
  · intro s l s' hreach h hc hs
    have hsys := ChunkSys.reach hg.narrow (fun _ _ hc => ⟨hc.1, hc.2.2.2.1, hc.2.2.2.2.1⟩) hreach
    have hids := ids_in (Q := fun id => id < 2 ^ 31) (fun _ _ _ hc => hc.1) hreach
    obtain ⟨-, hok, htransfer, hmoves, -, hresets⟩ := hc
    exact h.step hg hsys hids hok htransfer hmoves hresets (sysStep_cases hs)

omit [DecidableEq Tid] in
theorem entriesRight (h : ChunkContents g rb s) : EntriesRight g rb s.cache := by
  intro id l hl
  have hrelied : ReliedOn (locOf s.cache.cacheMap) (fun t => (s.pool t).hand) id
      (l.zone, l.chunkOffset) := Or.inl (locOf_eq_some.mpr ⟨l, hl, rfl⟩)
  have hlt := h.contents.filled id _ hrelied
  refine ⟨?_, hlt, h.contents.stored id _ hrelied⟩
  intro hfree
  unfold ZnZone.filled at hlt
  rw [hfree, if_neg (by decide), h.contents.inv.free_offset _ hfree] at hlt
  exact Nat.not_lt_zero _ hlt

omit [DecidableEq Tid] in
theorem resultsRight (h : ChunkContents g rb s) : ResultsRight g rb s := by
  intro t id data ht
  have hvalid : ValidFor g.chunkSz rb id data := by
    apply h.buffers t id data
    rw [ht]
    rfl
  exact ⟨hvalid, fun hsz => hvalid.validate hsz⟩

end ChunkContents

/-- **THE CHUNK CACHE TELLS THE TRUTH**, in every interleaving of orderly steps:
the entries of the map are right, and so is every buffer that is returned. -/
theorem chunk_get_returns_valid (hg : g.Zonable)
    (hr : (cacheSystem Tid (chunk mem) g rb).Reach (fun s l => l.Orderly g s) s) :
    EntriesRight g rb s.cache ∧ ResultsRight g rb s :=
  have h := ChunkContents.reach hg hr
  ⟨h.entriesRight, h.resultsRight⟩

instance SysLabel.decResetsUnused [Fintype Tid] (s : Sys ZnPolicyChunk ChunkEvict Tid)
    (l : SysLabel Tid) : Decidable (l.ResetsUnused s) :=
  inferInstanceAs (Decidable
    (∀ z ∈ s.resetting l.thread, ∀ u, ∀ x ∈ (s.pool u).hand.used, x.2.1 ≠ z))

instance SysLabel.decOrderly [Fintype Tid] (g : Geometry) (s : Sys ZnPolicyChunk ChunkEvict Tid)
    (l : SysLabel Tid) : Decidable (l.Orderly g s) :=
  inferInstanceAs (Decidable (_ ∧ _ ∧ _ ∧ _ ∧ _ ∧ _))

omit [DecidableEq Tid] in
/-- What a test of a call that is about to return finds. -/
theorem returned_some {pc : Pc ChunkEvict} {id : Nat}
    (h : (pc.returned.any fun r => r.1 == id && r.2.isSome) = true) :
    ∃ data, pc = .get (.done id (some data)) := by
  obtain ⟨⟨id', result⟩, hr, hp⟩ := (Option.any_eq_true _ _).mp h
  obtain ⟨hid, hsome⟩ := Bool.and_eq_true_iff.mp hp
  obtain ⟨data, rfl⟩ := Option.isSome_iff_exists.mp hsome
  obtain rfl : id' = id := by simpa using hid
  exact ⟨data, Pc.eq_of_returned hr⟩

theorem fiveZones_zonable : fiveZones.Zonable where
  addressable := ⟨by decide, by decide⟩
  chunk_pos := by decide
  chunk_dvd := by decide
  chunk_fits := by decide
  narrow := by decide

/-- Thread `t` has cached nine ids, and reads id 9 from zone 2 while thread `u`
is about to reset zone 0; thread `u` goes on to reset zone 1. -/
def readWhileCollecting {Tid : Type u} (t u : Tid) : List (SysLabel Tid) :=
  fillAndEvict t u [1, 2, 3, 4, 5, 6, 7, 8, 9] ++ List.replicate 27 (.step u wellAnswered)
    ++ .get t 9 :: List.replicate 2 (.step t wellAnswered)
    ++ List.replicate 12 (.step u wellAnswered) ++ List.replicate 3 (.step t wellAnswered)

theorem chunk_get_returns_valid_nine :
    ∃ (s : Sys ZnPolicyChunk ChunkEvict (Fin 2)) (data : Buffer),
      s.pool 0 = .get (.done 9 (some data)) ∧ s.cache.cacheMap.zoneMap 1 = none
        ∧ ValidFor 4096 (fun _ => 0) 9 data ∧ EntriesRight fiveZones (fun _ => 0) s.cache := by
  obtain ⟨s, hr, hs⟩ := TransSys.Reach.exists_of_exec
    (T := cacheSystem (Fin 2) (chunk clearedPool) fiveZones fun _ => 0)
    (C := fun s l => l.Orderly fiveZones s) sysExec_ok ⟨fun _ => 0, rfl⟩
    (fun s => ((s.pool 0).returned.any fun r => r.1 == 9 && r.2.isSome)
      && decide (s.cache.cacheMap.zoneMap 1 = none)) (readWhileCollecting 0 1) (by decide +kernel)
  obtain ⟨hret, hgone⟩ := Bool.and_eq_true_iff.mp hs
  obtain ⟨data, ht⟩ := returned_some hret
  obtain ⟨hentries, hresults⟩ := chunk_get_returns_valid fiveZones_zonable hr
  exact ⟨s, data, ht, of_decide_eq_true hgone, (hresults 0 9 data ht).1, hentries⟩

/-! ## §5. One call at a time. -/

/-- One call at a time, small ids, and operations that succeed. -/
def SysLabel.AloneOk (g : Geometry) (s : Sys ZnPolicyChunk ChunkEvict Tid) (l : SysLabel Tid) : Prop :=
  l.Alone s ∧ l.SmallId ∧ l.ZoneOk g ∧ l.TransferOk g

omit [DecidableEq Tid] in
/-- The thread that resets a zone uses no chunk, and the others have no call in
progress. -/
theorem SysLabel.Alone.resetsUnused (h : l.Alone s) : l.ResetsUnused s := by
  intro z hz u x hx
  have hut : l.thread = u := by
    apply h.eq
    intro hidle
    rw [hidle] at hx
    cases hx
  unfold Sys.resetting at hz
  split at hz
  · rename_i old he
    rw [← hut] at hx
    rcases evicting_eq he with heq | ⟨id, heq⟩
    · rw [heq] at hx
      cases hx
    · rw [heq] at hx
      cases hx
  · cases hz

/-- What holds of the chunks, until a call is robbed of its entry. -/
theorem ChunkContents.alone_reach (hg : g.Zonable)
    (hr : (cacheSystem Tid (chunk mem) g rb).Reach (fun s l => l.AloneOk g s) s) :
    ChunkContents g rb s ∨ Robbed s := by
  apply TransSys.Reach.invariant (I := fun s => ChunkContents g rb s ∨ Robbed s) _ _ hr
  · intro s hs
    obtain ⟨bytes, rfl⟩ := hs
    exact Or.inl (init bytes)
  · intro s l s' hreach h hc hs
    obtain ⟨halone, -, hok, htransfer⟩ := hc
    have hinv := AloneInv.reach hg.narrow (fun _ _ hc => ⟨hc.1, hc.2.1⟩) hreach
    have hids := ids_in (Q := fun id => id < 2 ^ 31) (fun _ _ _ hc => hc.2.1) hreach
    have hcase := sysStep_cases hs
    rcases hinv.agree with ⟨hsys, -⟩ | hrobbed
    · rcases h with h | hrobbed
      · by_cases hmoves : l.MovesNone s
        · exact Or.inl (h.step hg hsys hids hok htransfer hmoves halone.resetsUnused hcase)
        · -- the collector takes the entry of the call it is in
          unfold SysLabel.MovesNone at hmoves
          push Not at hmoves
          obtain ⟨e, he, hmove⟩ := hmoves
          exact Or.inr (robbed_of_moves hinv.conds halone he hmove hcase)
      · exact Or.inr (hrobbed.step (chunk_conds mem) halone hids hcase)
    · exact Or.inr (hrobbed.step (chunk_conds mem) halone hids hcase)

/-- **ONE CALL AT A TIME, THE CHUNK CACHE TELLS THE TRUTH**, with nothing else
assumed: every buffer that is returned is right, and so are the entries of the
map between the calls. -/
theorem chunk_get_alone_valid (hg : g.Zonable)
    (hr : (cacheSystem Tid (chunk mem) g rb).Reach (fun s l => l.AloneOk g s) s) :
    ((∀ t, s.pool t = .idle) → EntriesRight g rb s.cache) ∧ ResultsRight g rb s := by
  have hlone : s.Lone := Sys.Lone.reach (fun _ _ hc => hc.1) hr
  rcases ChunkContents.alone_reach hg hr with h | ⟨t, k, hmiss, -⟩
  · exact ⟨fun _ => h.entriesRight, h.resultsRight⟩
  · constructor
    · exact fun hidle => absurd (hidle t) hmiss.ne_idle
    · -- the one call in progress has missed, and is not about to return
      intro u id data hu
      have hut : t = u := by
        apply hlone t u hmiss.ne_idle
        rw [hu]
        exact fun hno => by cases hno
      obtain ⟨id', hsome, -⟩ := hmiss
      rw [hut, hu] at hsome
      cases hsome

instance SysLabel.decAloneOk [Fintype Tid] (g : Geometry) (s : Sys ZnPolicyChunk ChunkEvict Tid)
    (l : SysLabel Tid) : Decidable (l.AloneOk g s) :=
  inferInstanceAs (Decidable (_ ∧ _ ∧ _ ∧ _))

/-- Thread `t` caches nine ids, thread `u` evicts six of them and resets zones 0
and 1, and thread `t` caches seven more.  The last is in zone 0; it is asked for
again. -/
def refillCollected {Tid : Type u} (t u : Tid) : List (SysLabel Tid) :=
  fillAndEvict t u [1, 2, 3, 4, 5, 6, 7, 8, 9] ++ List.replicate 39 (.step u wellAnswered)
    ++ cacheAll t [10, 11, 12, 13, 14, 15, 16] ++ .get t 16 :: List.replicate 5 (.step t wellAnswered)

theorem chunk_get_alone_valid_refilled :
    ∃ (s : Sys ZnPolicyChunk ChunkEvict (Fin 2)) (data : Buffer),
      s.pool 0 = .get (.done 16 (some data)) ∧ locOf s.cache.cacheMap 16 = some (0, 0)
        ∧ ValidFor 4096 (fun _ => 0) 16 data := by
  obtain ⟨s, hr, hs⟩ := TransSys.Reach.exists_of_exec
    (T := cacheSystem (Fin 2) (chunk clearedPool) fiveZones fun _ => 0)
    (C := fun s l => l.AloneOk fiveZones s) sysExec_ok ⟨fun _ => 0, rfl⟩
    (fun s => ((s.pool 0).returned.any fun r => r.1 == 16 && r.2.isSome)
      && decide (locOf s.cache.cacheMap 16 = some (0, 0))) (refillCollected 0 1) (by decide +kernel)
  obtain ⟨hret, hplace⟩ := Bool.and_eq_true_iff.mp hs
  obtain ⟨data, ht⟩ := returned_some hret
  exact ⟨s, data, ht, of_decide_eq_true hplace,
    ((chunk_get_alone_valid fiveZones_zonable hr).2 0 16 data ht).1⟩

end System

end ZnCache
