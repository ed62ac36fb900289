import MtpMount.Readers

/-!
# What a sequential fill leaves

One `fill_from_stream` from the claim of the slot to its end, on a spool that
works. The stream is any list of chunks, cut off by an error or not; a stop may be
requested between any two steps, and readers may come in between.

* `Holds`: the cache holds the stream's first bytes, clipped at the size of the object;
* `Going`, `Ended`: what is known of a fill under way and of one that is over;
* `fill_outcome`: every fill comes to its end, and how.
-/

namespace MtpMount

open ByteVec Transitions

/-- A fill with its cache. The last four fields are not in the program: the chunks
taken from the stream, whether a stop was seen, how often the transfer was
cancelled, and the steps taken. -/
structure FillRun where
  cache : SharedSparseCache
  filler : Filler
  pulled : List Bytes
  stopSeen : Bool
  cancels : Nat
  turns : Nat

inductive FillStep where
  | filler
  | requestStop
  /-- A pass of one `wait_and_read`, by a thread that is not parked. -/
  | read (thread offset size : Nat) (fault : Option IoError)
  /-- A parked thread wakes up by itself. -/
  | wakeUp (thread : Nat)

/-- The chunk that the next step of the filler takes. -/
def Filler.taken (f : Filler) : List Bytes :=
  match f.phase, f.stream with
  | .nextChunk, .ok bytes :: _ => [bytes]
  | _, _ => []

namespace FillRun

/-- A new cache, its slot just claimed for this stream. -/
def start (totalSize : Nat) (stream : List StreamItem) : FillRun where
  cache := (SharedSparseCache.new totalSize).startFill.2
  filler := .start 0 0 stream
  pulled := []
  stopSeen := false
  cancels := 0
  turns := 0

def step (s : FillRun) : FillStep → Option FillRun
  | .filler =>
    if s.filler.downloading then
      some {
        cache := (s.filler.streamStep s.cache none).2
        filler := (s.filler.streamStep s.cache none).1
        pulled := s.pulled ++ s.filler.taken
        stopSeen := s.stopSeen || s.filler.phase == .checkStop && s.cache.stopRequested
        cancels := s.cancels + if s.filler.phase = .cancel then 1 else 0
        turns := s.turns + 1 }
    else none
  | .requestStop => some { s with cache := s.cache.requestStop }
  | .read thread offset size fault =>
    if s.cache.isParked thread then none
    else some { s with cache := (s.cache.tryRead thread offset size fault).2 }
  | .wakeUp thread => some { s with cache := s.cache.wakeUp thread }

/-- The bytes that the stream has delivered. -/
def delivered (s : FillRun) : Bytes := s.pulled.flatten

end FillRun

/-! ## What the cache holds -/

/-- The cache is populated with the first bytes of `P`, as many as the object has. -/
structure Holds (totalSize : Nat) (P : Bytes) (c : SparseCache) : Prop where
  total : c.totalSize = totalSize
  length : c.file.content.length = totalSize
  covers : ∀ x, c.ranges.Covers x ↔ x < min totalSize P.length
  byte : ∀ x, x < min totalSize P.length → c.file.content.getD x 0 = P.getD x 0

namespace Holds

variable {totalSize : Nat} {P : Bytes} {c : SparseCache}

theorem new (totalSize : Nat) : Holds totalSize [] (.new totalSize) where
  total := rfl
  length := length_resize _ _
  covers := fun x => by
    simp only [List.length_nil, Nat.min_zero, Nat.not_lt_zero, iff_false]
    exact RangeSet.covers_new
  byte := fun x hx => by simp at hx

/-- The bytes past the size of the object do not matter. -/
theorem append {data : Bytes} (h : Holds totalSize P c) (hfull : totalSize ≤ P.length) :
    Holds totalSize (P ++ data) c := by
  have hmin : min totalSize (P ++ data).length = min totalSize P.length := by
    rw [List.length_append]
    omega
  refine ⟨h.total, h.length, fun x => by rw [hmin, h.covers], fun x hx => ?_⟩
  rw [hmin] at hx
  rw [h.byte x hx, List.getD_append _ _ _ _ (by omega)]

/-- A write right behind the bytes that are there, up to the size of the object. -/
theorem writeAt {data : Bytes} (h : Holds totalSize P c) (ht : totalSize ≤ U64_MAX)
    (hfits : P.length + data.length ≤ totalSize) :
    (c.writeAt P.length data none).1 = .ok () ∧
      Holds totalSize (P ++ data) (c.writeAt P.length data none).2 := by
  have hok : (c.writeAt P.length data none).1 = .ok () :=
    (c.writeAt_fits P.length data (h.total ▸ ht) (h.total ▸ hfits)).1
  refine ⟨hok, ?_⟩
  have hdoes := c.writeAt_does P.length data none
  rw [hok] at hdoes
  generalize (c.writeAt P.length data none).2 = c' at hdoes ⊢
  have hlen : (P ++ data).length = P.length + data.length := List.length_append
  cases hdoes with
  | nothing hnil =>
    rw [hnil, List.append_nil]
    exact h
  | @stored file hle hmax hfile =>
    refine ⟨h.total, ?_, fun x => ?_, fun x hx => ?_⟩
    · rw [hfile, length_patch, h.length]
      omega
    · rw [RangeSet.covers_insert, h.covers, hlen]
      simp only [ByteRange.Contains]
      omega
    · rw [hlen] at hx
      rw [hfile, getD_patch]
      split
      · rename_i hin
        rw [List.getD_append_right _ _ _ _ hin.1]
      · rename_i hin
        rw [h.byte x (by omega), List.getD_append _ _ _ _ (by omega)]

/-- A cache that holds all of the object misses nothing. -/
theorem missing_nil (h : Holds totalSize P c) (ht : totalSize ≤ U64_MAX)
    (hall : totalSize ≤ P.length) (offset size : Nat) : c.missingRanges offset size = [] := by
  refine (RangeSet.missing_eq_nil_iff (h.total ▸ ht)).mpr fun x _ _ hx => ?_
  rw [h.total] at hx
  rw [h.covers]
  omega

/-- A read moves nothing but the cursor of the file. -/
theorem tryRead {c : SharedSparseCache} (h : Holds totalSize P c.cache) (thread offset size : Nat)
    (fault : Option IoError) : Holds totalSize P (c.tryRead thread offset size fault).2.cache := by
  obtain ⟨hc, hr, ht, -⟩ := Shared.tryRead_frame c thread offset size fault
  exact ⟨ht.trans h.total, hc ▸ h.length, fun x => hr ▸ h.covers x, fun x hx => hc ▸ h.byte x hx⟩

end Holds

/-! ## One chunk -/

/-- The filler has counted all of `P`, and has a failure to report as soon as `P`
is longer than the object. -/
def Counts (totalSize : Nat) (P : Bytes) (f : Filler) : Prop :=
  f.writeFailure = none ∧ f.offset = P.length ∧ P.length ≤ totalSize ∨
    f.writeFailure.isSome = true ∧ totalSize < P.length

section Chunk

variable {totalSize : Nat} {P : Bytes} {f : Filler} {c : SharedSparseCache}

theorem writeChunk_holds (bytes : Bytes) (ht : totalSize ≤ U64_MAX) (h : Holds totalSize P c.cache)
    (hrun : c.fill = .running) (hcount : Counts totalSize P f) :
    Holds totalSize (P ++ bytes) (f.writeChunk bytes c none).2.cache ∧
      ((f.writeChunk bytes c none).1 = none ∧ f.offset = P.length ∧
          P.length + bytes.length ≤ totalSize ∨
        (f.writeChunk bytes c none).1.isSome = true ∧ totalSize < P.length + bytes.length) := by
  unfold Filler.writeChunk
  rcases hcount with ⟨hnone, hoffset, hle⟩ | ⟨hsome, hlt⟩
  · rw [hnone, h.total, hoffset]
    simp only [Option.isSome_none, Bool.false_eq_true, if_false]
    obtain ⟨hans, hcache⟩ := SharedSparseCache.writeSequential_running hrun P.length
      (bytes.take (min bytes.length (totalSize - P.length))) none
    have hfits : P.length + (bytes.take (min bytes.length (totalSize - P.length))).length ≤
        totalSize := by
      rw [List.length_take]
      omega
    obtain ⟨hok, hholds⟩ := h.writeAt ht hfits
    rw [← hans] at hok
    rw [← hcache] at hholds
    clear hans hcache
    generalize c.writeSequential P.length _ none = res at hok hholds ⊢
    obtain ⟨ans, c'⟩ := res
    cases hok
    dsimp only at hholds ⊢
    by_cases hfits : min bytes.length (totalSize - P.length) = bytes.length
    · rw [hfits, List.take_length] at hholds
      rw [if_neg (by rw [hfits]; exact fun hn => hn rfl)]
      exact ⟨hholds, .inl ⟨rfl, trivial, by omega⟩⟩
    · rw [if_pos hfits]
      have hlen : (bytes.take (min bytes.length (totalSize - P.length))).length =
          totalSize - P.length := by
        rw [List.length_take]
        omega
      have hall : Holds totalSize ((P ++ bytes.take (min bytes.length (totalSize - P.length))) ++
          bytes.drop (min bytes.length (totalSize - P.length))) _ :=
        hholds.append (by rw [List.length_append, hlen]; omega)
      rw [List.append_assoc, List.take_append_drop] at hall
      exact ⟨hall, .inr ⟨rfl, by omega⟩⟩
  · rw [if_pos hsome]
    exact ⟨h.append (by omega), .inr ⟨hsome, by omega⟩⟩

/-- After the chunk everything that was delivered is counted. -/
theorem countChunk_counts {bytes : Bytes} (ht : totalSize ≤ U64_MAX) {failure : Option FillFailure}
    (h : failure = none ∧ f.offset = P.length ∧ P.length + bytes.length ≤ totalSize ∨
      failure.isSome = true ∧ totalSize < P.length + bytes.length) :
    Counts totalSize (P ++ bytes) (f.countChunk bytes failure) := by
  unfold Counts Filler.countChunk
  rw [List.length_append]
  rcases h with ⟨rfl, hoffset, hle⟩ | ⟨hsome, hlt⟩
  · rw [if_neg (by omega), hoffset]
    exact .inl ⟨rfl, rfl, hle⟩
  · split
    · exact .inr ⟨by simp, hlt⟩
    · exact .inr ⟨hsome, hlt⟩

end Chunk

/-! ## The whole fill -/

/-- How many steps a fill takes at most for these chunks, up to the phase. -/
def FillerPhase.steps : FillerPhase → Nat
  | .checkStop => 0
  | .cancel | .nextChunk => 1
  | .ended => 2
  | .deregister | .cleanUp => 3

/-- A fill under way. -/
structure Going (totalSize : Nat) (chunks : List Bytes) (cut : Option Error) (s : FillRun) :
    Prop where
  holds : Holds totalSize s.delivered s.cache.cache
  running : s.cache.fill = .running
  rest : ∃ rest, s.filler.stream = streamOf rest cut ∧ chunks = s.pulled ++ rest ∧
    (s.filler.phase = .ended → rest = [] ∧ cut = none)
  counts : Counts totalSize s.delivered s.filler
  stop : s.stopSeen = true ↔ s.filler.phase = .cancel
  cancels : s.cancels = 0
  turns : s.turns ≤ 2 * s.pulled.length + s.filler.phase.steps

/-- A fill that is over. -/
structure Ended (totalSize : Nat) (chunks : List Bytes) (cut : Option Error) (s : FillRun) :
    Prop where
  holds : Holds totalSize s.delivered s.cache.cache
  delivered : s.pulled <+: chunks
  outcome : s.stopSeen = true ∧ (∃ failure, s.cache.fill = .failed failure) ∨
    s.stopSeen = false ∧ s.pulled = chunks ∧
      (cut.isSome = true ∧ (∃ failure, s.cache.fill = .failed failure) ∨
        cut = none ∧ (s.delivered.length = totalSize ∧ s.cache.fill = .complete ∨
          s.delivered.length ≠ totalSize ∧ ∃ failure, s.cache.fill = .failed failure))
  cancels : s.cancels = if s.stopSeen = true then 1 else 0
  turns : s.turns ≤ 2 * s.pulled.length + 3

/-- A fill under way, or one that is over. -/
def Fills (totalSize : Nat) (chunks : List Bytes) (cut : Option Error) (s : FillRun) : Prop :=
  s.filler.downloading = true ∧ Going totalSize chunks cut s ∨
    s.filler.downloading = false ∧ Ended totalSize chunks cut s

namespace Going

variable {totalSize : Nat} {chunks : List Bytes} {cut : Option Error} {s s' : FillRun}

theorem start (totalSize : Nat) (chunks : List Bytes) (cut : Option Error) :
    Going totalSize chunks cut (.start totalSize (streamOf chunks cut)) where
  holds := .new totalSize
  running := rfl
  rest := ⟨chunks, rfl, rfl, nofun⟩
  counts := .inl ⟨rfl, rfl, Nat.zero_le _⟩
  stop := by simp [FillRun.start, Filler.start]
  cancels := rfl
  turns := Nat.zero_le _

/-- The state after a step of the filler that took no chunk. -/
theorem filler_same {f : Filler} {c : SharedSparseCache} (hd : s.filler.downloading = true)
    (hstep : s.filler.streamStep s.cache none = (f, c)) (htaken : s.filler.taken = [])
    (hs : s.step .filler = some s') :
    s' = ⟨c, f, s.pulled, s.stopSeen || s.filler.phase == .checkStop && s.cache.stopRequested,
      s.cancels + if s.filler.phase = .cancel then 1 else 0, s.turns + 1⟩ := by
  rw [FillRun.step, if_pos hd, hstep, htaken, List.append_nil] at hs
  exact (Option.some.inj hs).symm

/-- Until it cancels, no stop request has been seen. -/
theorem unseen (h : Going totalSize chunks cut s) (hp : s.filler.phase ≠ .cancel) :
    s.stopSeen = false :=
  Bool.eq_false_iff.mpr fun hseen => hp (h.stop.mp hseen)

theorem checked (h : Going totalSize chunks cut s) (hd : s.filler.downloading = true)
    (hp : s.filler.phase = .checkStop) (hs : s.step .filler = some s') :
    Fills totalSize chunks cut s' := by
  obtain ⟨rest, hstream, hchunks, -⟩ := h.rest
  have hturns := h.turns
  have hstep : s.filler.streamStep s.cache none =
      ({ s.filler with phase := if s.cache.stopRequested then .cancel else .nextChunk }, s.cache) := by
    simp [Filler.streamStep, hp]
  have hseen := h.unseen (by simp [hp])
  rw [filler_same hd hstep (by simp [Filler.taken, hp]) hs, hp, hseen, h.cancels]
  rw [hp] at hturns
  refine .inl ⟨?_, h.holds, h.running, ⟨rest, hstream, hchunks, ?_⟩, h.counts, ?_, rfl, ?_⟩
  · cases s.cache.stopRequested <;> rfl
  · cases s.cache.stopRequested <;> exact nofun
  · cases s.cache.stopRequested <;> simp
  · have hone : ∀ b : Bool, (if b then FillerPhase.cancel else .nextChunk).steps = 1 := by
      intro b
      cases b <;> rfl
    dsimp only
    rw [hone]
    exact Nat.succ_le_succ hturns

theorem cancelled (h : Going totalSize chunks cut s) (hd : s.filler.downloading = true)
    (hp : s.filler.phase = .cancel) (hs : s.step .filler = some s') :
    Fills totalSize chunks cut s' := by
  obtain ⟨rest, -, hchunks, -⟩ := h.rest
  have hturns := h.turns
  have hstep : s.filler.streamStep s.cache none =
      ({ s.filler with phase := .deregister }, s.cache.fail Filler.STOPPED) := by
    simp [Filler.streamStep, hp]
  have hseen := h.stop.mpr hp
  rw [filler_same hd hstep (by simp [Filler.taken, hp]) hs, hp, hseen, h.cancels]
  rw [hp] at hturns
  exact .inr ⟨rfl, h.holds, ⟨rest, hchunks.symm⟩, .inl ⟨rfl, _, rfl⟩, rfl,
    Nat.le_succ_of_le (Nat.succ_le_succ hturns)⟩

/-- The stream is at its end. -/
theorem exhausted (h : Going totalSize s.pulled none s) (hd : s.filler.downloading = true)
    (hp : s.filler.phase = .nextChunk) (hstream : s.filler.stream = [])
    (hs : s.step .filler = some s') : Fills totalSize s.pulled none s' := by
  have hturns := h.turns
  have hstep : s.filler.streamStep s.cache none =
      ({ s.filler with phase := .ended }, s.cache) := by
    simp [Filler.streamStep, hp, hstream]
  have hseen := h.unseen (by simp [hp])
  rw [filler_same hd hstep (by simp [Filler.taken, hp, hstream]) hs, hp, hseen, h.cancels]
  rw [hp] at hturns
  exact .inl ⟨rfl, h.holds, h.running,
    ⟨[], hstream, (List.append_nil _).symm, fun _ => ⟨rfl, rfl⟩⟩, h.counts, by simp, rfl,
    Nat.succ_le_succ hturns⟩

/-- The stream ends with an error of the device. -/
theorem severed {e : Error} (h : Going totalSize s.pulled (some e) s)
    (hd : s.filler.downloading = true) (hp : s.filler.phase = .nextChunk)
    (hstream : s.filler.stream = [.error e]) (hs : s.step .filler = some s') :
    Fills totalSize s.pulled (some e) s' := by
  have hturns := h.turns
  have hstep : s.filler.streamStep s.cache none =
      ({ s.filler with stream := [], phase := .deregister },
        s.cache.fail ⟨.device e, isLinkLost e⟩) := by
    simp [Filler.streamStep, hp, hstream]
  have hseen := h.unseen (by simp [hp])
  rw [filler_same hd hstep (by simp [Filler.taken, hp, hstream]) hs, hp, hseen, h.cancels]
  rw [hp] at hturns
  exact .inr ⟨rfl, h.holds, List.prefix_refl _, .inr ⟨rfl, rfl, .inl ⟨rfl, _, rfl⟩⟩, rfl,
    Nat.le_succ_of_le (Nat.succ_le_succ hturns)⟩

/-- A chunk comes, and is written as far as it fits. -/
theorem pulls {bytes : Bytes} {rest : List Bytes} (ht : totalSize ≤ U64_MAX)
    (h : Going totalSize chunks cut s) (hd : s.filler.downloading = true)
    (hp : s.filler.phase = .nextChunk) (hstream : s.filler.stream = streamOf (bytes :: rest) cut)
    (hchunks : chunks = s.pulled ++ bytes :: rest) (hs : s.step .filler = some s') :
    Fills totalSize chunks cut s' := by
  have hturns := h.turns
  have hnext : s.filler.stream = .ok bytes :: streamOf rest cut := hstream
  obtain ⟨hwritten, houtcome⟩ := writeChunk_holds bytes ht h.holds h.running h.counts
  have hcounted := countChunk_counts ht houtcome
  have hflat : (s.pulled ++ [bytes]).flatten = s.delivered ++ bytes := by
    simp [FillRun.delivered]
  rw [← hflat] at hwritten hcounted
  have hstep : s.filler.streamStep s.cache none =
      ({ s.filler.countChunk bytes (s.filler.writeChunk bytes s.cache none).1 with
          stream := streamOf rest cut, phase := .checkStop },
        (s.filler.writeChunk bytes s.cache none).2) := by
    simp [Filler.streamStep, hp, hnext]
  have htaken : s.filler.taken = [bytes] := by simp [Filler.taken, hp, hnext]
  have hseen := h.unseen (by simp [hp])
  rw [FillRun.step, if_pos hd, hstep, htaken, hp, hseen, h.cancels] at hs
  rw [hp] at hturns
  cases hs
  refine .inl ⟨rfl, hwritten, (Filler.fill_writeChunk ..).trans h.running,
    ⟨rest, rfl, by rw [hchunks, List.append_assoc, List.singleton_append], nofun⟩, hcounted,
    by simp, rfl, ?_⟩
  simp only [FillerPhase.steps, List.length_append, List.length_singleton] at hturns ⊢
  omega

/-- The whole stream is there: complete if it had the size, failed otherwise. -/
theorem concluded (h : Going totalSize s.pulled none s) (hd : s.filler.downloading = true)
    (hp : s.filler.phase = .ended) (hs : s.step .filler = some s') :
    Fills totalSize s.pulled none s' := by
  have hturns := h.turns
  have hseen := h.unseen (by simp [hp])
  have htaken : s.filler.taken = [] := by simp [Filler.taken, hp]
  rw [hp] at hturns
  rcases h.counts with ⟨hnone, hoffset, hle⟩ | ⟨hsome, hlt⟩
  · have hstep : s.filler.streamStep s.cache none =
        ({ s.filler with phase := .deregister }, s.cache.finish s.filler.offset) := by
      simp [Filler.streamStep, hp, hnone]
    rw [filler_same hd hstep htaken hs, hp, hseen, h.cancels]
    refine .inr ⟨rfl, h.holds, List.prefix_refl _, .inr ⟨rfl, rfl, .inr ⟨rfl, ?_⟩⟩, rfl,
      Nat.succ_le_succ hturns⟩
    unfold SharedSparseCache.finish
    rw [hoffset, h.holds.total]
    by_cases heq : s.delivered.length = totalSize
    · exact .inl ⟨heq, if_pos heq⟩
    · exact .inr ⟨heq, _, if_neg heq⟩
  · obtain ⟨failure, hfailure⟩ := Option.isSome_iff_exists.mp hsome
    have hstep : s.filler.streamStep s.cache none =
        ({ s.filler with phase := .deregister }, s.cache.fail failure) := by
      simp [Filler.streamStep, hp, hfailure]
    rw [filler_same hd hstep htaken hs, hp, hseen, h.cancels]
    exact .inr ⟨rfl, h.holds, List.prefix_refl _,
      .inr ⟨rfl, rfl, .inr ⟨rfl, .inr ⟨Nat.ne_of_gt hlt, _, rfl⟩⟩⟩, rfl, Nat.succ_le_succ hturns⟩

/-- What another step of the filler does. -/
theorem filler (ht : totalSize ≤ U64_MAX) (h : Going totalSize chunks cut s)
    (hd : s.filler.downloading = true) (hs : s.step .filler = some s') :
    Fills totalSize chunks cut s' := by
  obtain ⟨rest, hstream, hchunks, hended⟩ := h.rest
  cases hp : s.filler.phase with
  | checkStop => exact h.checked hd hp hs
  | cancel => exact h.cancelled hd hp hs
  | nextChunk =>
    cases rest with
    | nil =>
      rw [List.append_nil] at hchunks
      subst hchunks
      cases cut with
      | none => exact h.exhausted hd hp hstream hs
      | some e => exact h.severed hd hp hstream hs
    | cons bytes rest => exact h.pulls ht hd hp hstream hchunks hs
  | ended =>
    obtain ⟨rfl, rfl⟩ := hended hp
    rw [List.append_nil] at hchunks
    subst hchunks
    exact h.concluded hd hp hs
  | deregister =>
    rw [Filler.downloading, hp] at hd
    cases hd
  | cleanUp =>
    rw [Filler.downloading, hp] at hd
    cases hd

end Going

section

variable {totalSize : Nat} {chunks : List Bytes} {cut : Option Error} {s s' : FillRun}

theorem Fills.step (ht : totalSize ≤ U64_MAX) (h : Fills totalSize chunks cut s) {a : FillStep}
    (ha : s.step a = some s') : Fills totalSize chunks cut s' := by
  cases a with
  | filler =>
    rcases h with ⟨hd, h⟩ | ⟨hd, -⟩
    · exact h.filler ht hd ha
    · rw [FillRun.step, hd] at ha
      cases ha
  | requestStop =>
    cases ha
    rcases h with ⟨hd, h⟩ | ⟨hd, h⟩
    · exact .inl ⟨hd, h.holds, h.running, h.rest, h.counts, h.stop, h.cancels, h.turns⟩
    · exact .inr ⟨hd, h.holds, h.delivered, h.outcome, h.cancels, h.turns⟩
  | read thread offset size fault =>
    simp only [FillRun.step] at ha
    split at ha <;> cases ha
    have hfill := SharedSparseCache.fill_tryRead s.cache thread offset size fault
    rcases h with ⟨hd, h⟩ | ⟨hd, h⟩
    · exact .inl ⟨hd, h.holds.tryRead .., hfill.trans h.running, h.rest, h.counts, h.stop,
        h.cancels, h.turns⟩
    · have houtcome := h.outcome
      rw [← hfill] at houtcome
      exact .inr ⟨hd, h.holds.tryRead .., h.delivered, houtcome, h.cancels, h.turns⟩
  | wakeUp thread =>
    cases ha
    rcases h with ⟨hd, h⟩ | ⟨hd, h⟩
    · exact .inl ⟨hd, h.holds, h.running, h.rest, h.counts, h.stop, h.cancels, h.turns⟩
    · exact .inr ⟨hd, h.holds, h.delivered, h.outcome, h.cancels, h.turns⟩

/-- The states that a fill of this stream reaches. -/
abbrev FillRun.Reaches (totalSize : Nat) (chunks : List Bytes) (cut : Option Error) :
    FillRun → Prop :=
  Run FillRun.step (fun _ _ => True) (.start totalSize (streamOf chunks cut))

theorem FillRun.Reaches.fills (ht : totalSize ≤ U64_MAX) (h : Reaches totalSize chunks cut s) :
    Fills totalSize chunks cut s :=
  h.invariant (.inl ⟨rfl, Going.start totalSize chunks cut⟩) fun _ _ _ _ ih _ ha => ih.step ht ha

/-- A fill comes to its end after so many steps at most. There the cache is populated
with the bytes that the stream delivered, clipped at the size of the object; it is
complete if the stream ended by itself with exactly that size, and then misses no
range; a longer stream is read to its end and fails; the transfer is cancelled once
if a stop was seen, and else never. -/
theorem fill_outcome (ht : totalSize ≤ U64_MAX) (h : FillRun.Reaches totalSize chunks cut s) :
    s.turns ≤ 2 * chunks.length + 3 ∧ (s.filler.downloading = false →
      (∀ x, s.cache.cache.ranges.Covers x ↔ x < min totalSize s.delivered.length) ∧
      (∀ x, x < min totalSize s.delivered.length →
        s.cache.cache.file.content.getD x 0 = s.delivered.getD x 0) ∧
      s.pulled <+: chunks ∧
      (s.cache.fill = .complete ↔
        s.stopSeen = false ∧ cut = none ∧ chunks.flatten.length = totalSize) ∧
      (s.cache.fill = .complete → ∀ offset size, s.cache.cache.missingRanges offset size = []) ∧
      (cut = none → s.stopSeen = false → totalSize < chunks.flatten.length →
        s.pulled = chunks ∧ ∃ failure, s.cache.fill = .failed failure) ∧
      s.cancels = if s.stopSeen = true then 1 else 0) := by
  rcases h.fills ht with ⟨hd, hgoing⟩ | ⟨hd, hended⟩
  · refine ⟨?_, fun hnot => absurd hd (by rw [hnot]; exact Bool.false_ne_true)⟩
    obtain ⟨rest, -, hchunks, -⟩ := hgoing.rest
    have hle : s.pulled.length ≤ chunks.length :=
      (show s.pulled <+: chunks from ⟨rest, hchunks.symm⟩).length_le
    have hsteps : s.filler.phase.steps ≤ 3 := by
      cases s.filler.phase <;> decide
    have hturns := hgoing.turns
    omega
  · have hle := hended.delivered.length_le
    have hturns := hended.turns
    refine ⟨by omega, fun _ => ⟨hended.holds.covers, hended.holds.byte, hended.delivered, ?_⟩⟩
    have hiff : s.cache.fill = .complete ↔
        s.stopSeen = false ∧ cut = none ∧ chunks.flatten.length = totalSize := by
      rcases hended.outcome with ⟨hseen, failure, hfill⟩ | ⟨hseen, hall, hend⟩
      · simp [hseen, hfill]
      · rcases hend with ⟨hcut, failure, hfill⟩ | ⟨hcut, ⟨hlen, hfill⟩ | ⟨hlen, failure, hfill⟩⟩
        · obtain ⟨e, rfl⟩ := Option.isSome_iff_exists.mp hcut
          simp [hfill]
        · rw [FillRun.delivered, hall] at hlen
          simp [hseen, hcut, hfill, hlen]
        · rw [FillRun.delivered, hall] at hlen
          simp only [hfill, reduceCtorEq, false_iff]
          exact fun hnot => hlen hnot.2.2
    refine ⟨hiff, fun hcomplete => ?_, fun hcut hseen hlong => ?_, hended.cancels⟩
    · obtain ⟨hseen, -, hlen⟩ := hiff.mp hcomplete
      rcases hended.outcome with ⟨hseen', -⟩ | ⟨-, hall, -⟩
      · rw [hseen] at hseen'
        cases hseen'
      · have hall' : s.delivered.length = totalSize := by rw [FillRun.delivered, hall, hlen]
        exact hended.holds.missing_nil ht (Nat.le_of_eq hall'.symm)
    · rcases hended.outcome with ⟨hseen', -⟩ | ⟨-, hall, hend⟩
      · rw [hseen] at hseen'
        cases hseen'
      · refine ⟨hall, ?_⟩
        rcases hend with ⟨hsome, -⟩ | ⟨-, ⟨hlen, -⟩ | ⟨-, hfailed⟩⟩
        · rw [hcut] at hsome
          cases hsome
        · rw [FillRun.delivered, hall] at hlen
          exact absurd hlen (Nat.ne_of_gt hlong)
        · exact hfailed

/-- A stream in three chunks, one of them empty, with a stop that comes too late. -/
theorem fill_outcome_late : ∃ s, FillRun.Reaches 3 [[1, 2], [], [3]] none s ∧
    s.cache.stopRequested = true ∧ s.cancels = 0 ∧ s.cache.cache.missingRanges 0 3 = [] := by
  obtain ⟨s, hs, htest⟩ := Run.of_test FillRun.step (.start 3 (streamOf [[1, 2], [], [3]] none))
    (fun _ _ => true) (fun _ _ _ => trivial)
    (List.replicate 8 .filler ++ [.requestStop, .filler])
    (fun s => !s.filler.downloading && !s.stopSeen && s.cache.stopRequested &&
      s.cache.fill == .complete) (by rfl)
  simp only [Bool.and_eq_true, Bool.not_eq_true', beq_iff_eq] at htest
  obtain ⟨⟨⟨hd, hseen⟩, hstop⟩, hcomplete⟩ := htest
  obtain ⟨-, -, -, -, hmissing, -, hcancels⟩ := (fill_outcome (by decide) hs).2 hd
  rw [hseen] at hcancels
  exact ⟨s, hs, hstop, hcancels, hmissing hcomplete 0 3⟩

end

end MtpMount
