import MtpMount.Fill
import MtpMount.Lib.Transitions

/-!
# Readers of a shared cache

One cache, whoever reads it, and its fills, one after another. The steps are
what a thread does under the lock of the cache: a pass of `wait_and_read`, which
may park the thread, a claim of the fill slot, a step of the filler, a failure, a
reset after a link loss. Every stream delivers the object `D` from its first byte
on, in chunks of any size, up to an end or an error at any point.

* `Shared.sound`: in every state, what the cache counts as populated was
  streamed, and is what `D` has there;
* `Shared.waits`: in every state, whoever is parked waits for a fill that runs;
* `waitAndRead_sound`: what a read answers, what stays readable, and when a
  read waits.
-/

namespace MtpMount

open ByteVec

/-- Who holds the fill slot. -/
inductive FillSlot where
  | none
  /-- Claimed; the device has not answered yet. -/
  | opening
  | filling (f : Filler)

structure Shared where
  cache : SharedSparseCache
  slot : FillSlot
  /-- Not in the program: how many bytes of the object a stream has delivered. -/
  streamed : Nat

/-- A stream of these chunks, and what cuts it off. -/
def streamOf (chunks : List Bytes) (cut : Option Error) : List StreamItem :=
  chunks.map .ok ++ cut.toList.map .error

inductive SharedStep where
  | startFill
  | opened (chunks : List Bytes) (cut : Option Error)
  | refused (failure : FillFailure)
  | filler (fault : Option WriteFault)
  | requestStop
  | resetAfterLinkLoss
  /-- A pass of one `wait_and_read`, by a thread that is not parked. -/
  | read (thread offset size : Nat) (fault : Option IoError)
  /-- A parked thread wakes up by itself. -/
  | wakeUp (thread : Nat)

namespace Shared

def new (totalSize : Nat) : Shared := ⟨.new totalSize, .none, 0⟩

/-- The filler's slot is free once its cache has an outcome. -/
def slotOf (f : Filler) : FillSlot := if f.downloading then .filling f else .none

def step (s : Shared) : SharedStep → Option Shared
  | .startFill =>
    some { s with
      cache := s.cache.startFill.2
      slot := if s.cache.startFill.1 then .opening else s.slot }
  | .opened chunks cut =>
    match s.slot with
    | .opening => some { s with slot := .filling (.start 0 0 (streamOf chunks cut)) }
    | _ => none
  | .refused failure =>
    match s.slot with
    | .opening => some { s with cache := s.cache.fail failure, slot := .none }
    | _ => none
  | .filler fault =>
    match s.slot with
    | .filling f =>
      some {
        cache := (f.streamStep s.cache fault).2
        slot := slotOf (f.streamStep s.cache fault).1
        streamed := max s.streamed (f.streamStep s.cache fault).1.offset }
    | _ => none
  | .requestStop => some { s with cache := s.cache.requestStop }
  | .resetAfterLinkLoss => some { s with cache := s.cache.resetAfterLinkLoss.2 }
  | .read thread offset size fault =>
    if s.cache.isParked thread then none
    else some { s with cache := (s.cache.tryRead thread offset size fault).2 }
  | .wakeUp thread => some { s with cache := s.cache.wakeUp thread }

/-- Every stream delivers the object from its first byte on. -/
def Streams (D : Bytes) (_ : Shared) : SharedStep → Prop
  | .opened chunks _ => chunks.flatten <+: D
  | _ => True

/-- The range can be served. -/
def Readable (s : Shared) (offset size : Nat) : Prop :=
  s.cache.cache.missingRanges offset size = []

/-- What is left of the filler's stream continues the object where the filler is,
as long as it still writes, and never goes past the object's end. -/
structure Continues (D : Bytes) (f : Filler) : Prop where
  downloading : f.downloading = true
  stream : ∃ chunks cut, f.stream = streamOf chunks cut ∧
    f.offset + chunks.flatten.length ≤ D.length ∧
    (f.writeFailure = none → chunks.flatten <+: D.drop f.offset)

/-- The populated bytes were streamed and are the object's; a filler writes the
bytes that follow. -/
structure Sound (D : Bytes) (totalSize : Nat) (s : Shared) : Prop where
  agrees : s.cache.cache.Agrees D
  total : s.cache.cache.totalSize = totalSize
  streamed : ∀ x, s.cache.cache.ranges.Covers x → x < s.streamed
  delivered : s.streamed ≤ D.length
  filling : ∀ f, s.slot = .filling f → Continues D f
  running : s.slot ≠ .none → s.cache.fill = .running

variable {D : Bytes} {totalSize : Nat} {s s' : Shared}

theorem sound_new (D : Bytes) (totalSize : Nat) : Sound D totalSize (new totalSize) where
  agrees := SparseCache.agrees_new totalSize D
  total := rfl
  streamed := fun _ h => (RangeSet.covers_new h).elim
  delivered := Nat.zero_le _
  filling := fun _ h => nomatch h
  running := fun h => absurd rfl h

/-! ## A step of the filler -/

theorem streamOf_eq_ok {chunks : List Bytes} {cut : Option Error} {bytes : Bytes}
    {rest : List StreamItem} (h : streamOf chunks cut = .ok bytes :: rest) :
    ∃ chunks', chunks = bytes :: chunks' ∧ rest = streamOf chunks' cut := by
  cases chunks with
  | nil => cases cut <;> simp [streamOf] at h
  | cons b chunks' =>
    simp only [streamOf, List.map_cons, List.cons_append, List.cons.injEq, Except.ok.injEq] at h
    obtain ⟨rfl, rfl⟩ := h
    exact ⟨chunks', rfl, rfl⟩

/-- What one step of a filler does to the cache. -/
structure Filled (D : Bytes) (f : Filler) (c : SharedSparseCache) (f' : Filler)
    (c' : SharedSparseCache) : Prop where
  agrees : c'.cache.Agrees D
  total : c'.cache.totalSize = c.cache.totalSize
  keeps : ∀ x, c.cache.ranges.Covers x → c'.cache.ranges.Covers x
  adds : ∀ x, c'.cache.ranges.Covers x → c.cache.ranges.Covers x ∨ x < f'.offset
  delivered : f'.offset ≤ D.length
  continues : f'.downloading = true → Continues D f' ∧ c'.fill = c.fill

/-- A step that writes nothing and takes nothing from the stream. -/
theorem filled_of_same {f f' : Filler} {c c' : SharedSparseCache} (ha : c.cache.Agrees D)
    (hf : Continues D f) (hc : c'.cache = c.cache) (ho : f'.offset = f.offset)
    (hs : f'.downloading = true → f'.stream = f.stream ∧ f'.writeFailure = f.writeFailure ∧
      c'.fill = c.fill) : Filled D f c f' c' := by
  obtain ⟨chunks, cut, hstream, hlen, hbegin⟩ := hf.stream
  refine ⟨hc ▸ ha, by rw [hc], fun x hx => hc ▸ hx, fun x hx => .inl (hc ▸ hx), by omega, ?_⟩
  intro hd
  obtain ⟨hs, hw, hfill⟩ := hs hd
  refine ⟨⟨hd, chunks, cut, hs.trans hstream, by omega, ?_⟩, hfill⟩
  rw [ho, hw]
  exact hbegin

/-- A chunk that still fits is a write of the object's own bytes. -/
theorem writeChunk_cases (f : Filler) (bytes : Bytes) (c : SharedSparseCache)
    (fault : Option WriteFault) :
    ((f.writeChunk bytes c fault).1.isSome = true ∧ (f.writeChunk bytes c fault).2 = c) ∨
      (f.writeFailure = none ∧ ∃ n, (f.writeChunk bytes c fault).2.cache =
        (c.cache.writeAt f.offset (bytes.take n) fault).2) := by
  unfold Filler.writeChunk
  cases hw : f.writeFailure with
  | some failure => exact .inl ⟨rfl, rfl⟩
  | none =>
    by_cases hc : c.fill = .running
    · refine .inr ⟨rfl, min bytes.length (c.cache.totalSize - f.offset), ?_⟩
      rw [← (SharedSparseCache.writeSequential_running hc f.offset _ fault).2]
      simp only [Option.isSome_none, Bool.false_eq_true, if_false]
      split
      · rename_i heq
        rw [heq]
      · rename_i heq
        rw [heq]
        split <;> rfl
    · simp only [Option.isSome_none, Bool.false_eq_true, if_false,
        SharedSparseCache.writeSequential, ne_eq, hc, not_false_eq_true, if_true]
      exact .inl ⟨rfl, trivial⟩

theorem offset_countChunk (f : Filler) (bytes : Bytes) (failure : Option FillFailure) :
    (f.countChunk bytes failure).offset = min (f.offset + bytes.length) U64_MAX := by
  unfold Filler.countChunk
  split <;> simp only <;> omega

theorem writeFailure_countChunk {f : Filler} {bytes : Bytes} {failure : Option FillFailure}
    (h : (f.countChunk bytes failure).writeFailure = none) :
    failure = none ∧ (f.countChunk bytes failure).offset = f.offset + bytes.length := by
  unfold Filler.countChunk at h ⊢
  split at h
  · cases failure <;> simp at h
  · rename_i hle
    rw [if_neg hle]
    exact ⟨h, rfl⟩

theorem prefix_getD {xs ys : Bytes} (h : xs <+: ys) {i : Nat} (hi : i < xs.length) :
    xs.getD i 0 = ys.getD i 0 := by
  obtain ⟨zs, rfl⟩ := h
  rw [List.getD_append _ _ _ _ hi]

theorem filled_chunk {f : Filler} {c : SharedSparseCache} {bytes : Bytes} {rest : List StreamItem}
    (ha : c.cache.Agrees D) (hf : Continues D f)
    (hs : f.stream = .ok bytes :: rest) (fault : Option WriteFault) :
    Filled D f c { f.countChunk bytes (f.writeChunk bytes c fault).1 with
      stream := rest, phase := .checkStop } (f.writeChunk bytes c fault).2 := by
  obtain ⟨chunks, cut, hstream, hlen, hbegin⟩ := hf.stream
  obtain ⟨chunks, rfl, rfl⟩ := streamOf_eq_ok (hstream.symm.trans hs)
  rw [List.flatten_cons] at hlen hbegin
  rw [List.length_append] at hlen
  have hoffset := offset_countChunk f bytes (f.writeChunk bytes c fault).1
  have hfill := f.fill_writeChunk bytes c fault
  -- the filler goes on behind the chunk
  have hcontinues : Continues D { f.countChunk bytes (f.writeChunk bytes c fault).1 with
      stream := streamOf chunks cut, phase := .checkStop } := by
    refine ⟨rfl, chunks, cut, rfl, ?_, fun hw => ?_⟩
    · dsimp only
      omega
    · obtain ⟨hnone, hoff⟩ := writeFailure_countChunk hw
      have hw : f.writeFailure = none := by
        rcases writeChunk_cases f bytes c fault with ⟨hsome, -⟩ | ⟨hsame, -⟩
        · rw [hnone] at hsome
          cases hsome
        · exact hsame
      obtain ⟨zs, hzs⟩ := hbegin hw
      refine ⟨zs, ?_⟩
      dsimp only
      rw [hoff, ← List.drop_drop, ← hzs, List.append_assoc, List.drop_left]
  have hdelivered : min (f.offset + bytes.length) U64_MAX ≤ D.length := by omega
  rcases writeChunk_cases f bytes c fault with ⟨-, hsame⟩ | ⟨hw, n, hcache⟩
  · have hcache : (f.writeChunk bytes c fault).2.cache = c.cache := by rw [hsame]
    refine ⟨?_, by rw [hcache], ?_, ?_, by simpa [hoffset] using hdelivered,
      fun _ => ⟨hcontinues, hfill⟩⟩
    · rw [hcache]
      exact ha
    · intro x hx
      rw [hcache]
      exact hx
    · intro x hx
      rw [hcache] at hx
      exact .inl hx
  · have hdata : ∀ i < (bytes.take n).length,
        (bytes.take n).getD i 0 = D.getD (f.offset + i) 0 := by
      intro i hi
      have htake : bytes.take n <+: D.drop f.offset :=
        ( List.take_prefix n bytes).trans ((List.prefix_append bytes _).trans (hbegin hw))
      rw [prefix_getD htake hi]
      simp [List.getD_eq_getElem?_getD]
    refine ⟨?_, ?_, ?_, ?_, by simpa [hoffset] using hdelivered, fun _ => ⟨hcontinues, hfill⟩⟩
    · rw [hcache]
      exact ha.writeAt hdata fault
    · rw [hcache, SparseCache.totalSize_writeAt]
    · intro x hx
      rw [hcache]
      exact SparseCache.covers_writeAt.1 hx
    · intro x hx
      rw [hcache] at hx
      rcases SparseCache.covers_writeAt.2 hx with hx | ⟨-, hlt, hmax⟩
      · exact .inl hx
      · have hn : (bytes.take n).length ≤ bytes.length := by
          rw [List.length_take]
          omega
        refine .inr ?_
        dsimp only
        omega

theorem filled_streamStep {f : Filler} {c : SharedSparseCache} (ha : c.cache.Agrees D)
    (hf : Continues D f) (fault : Option WriteFault) :
    Filled D f c (f.streamStep c fault).1 (f.streamStep c fault).2 := by
  unfold Filler.streamStep
  split
  · exact filled_of_same ha hf rfl rfl fun _ => ⟨rfl, rfl, rfl⟩
  · exact filled_of_same ha hf rfl rfl fun hd => nomatch hd
  · split
    · exact filled_of_same ha hf rfl rfl fun _ => ⟨rfl, rfl, rfl⟩
    · exact filled_of_same ha hf rfl rfl fun hd => nomatch hd
    · exact filled_chunk ha hf ‹_› fault
  · split
    · exact filled_of_same ha hf rfl rfl fun hd => nomatch hd
    · exact filled_of_same ha hf rfl rfl fun hd => nomatch hd
  · exact filled_of_same ha hf rfl rfl fun _ => ⟨rfl, rfl, rfl⟩
  · exact filled_of_same ha hf rfl rfl fun _ => ⟨rfl, rfl, rfl⟩

/-! ## Every step -/

theorem cache_startFill (c : SharedSparseCache) : c.startFill.2.cache = c.cache := by
  unfold SharedSparseCache.startFill
  split <;> rfl

theorem cache_reset (c : SharedSparseCache) : c.resetAfterLinkLoss.2.cache = c.cache := by
  unfold SharedSparseCache.resetAfterLinkLoss
  split
  · split <;> rfl
  · rfl

theorem fill_reset {c : SharedSparseCache} (h : c.fill = .running) :
    c.resetAfterLinkLoss.2.fill = .running := by
  simp [SharedSparseCache.resetAfterLinkLoss, h]

/-- A pass of a read moves nothing but the cursor of the file. -/
theorem tryRead_frame (c : SharedSparseCache) (thread offset size : Nat)
    (fault : Option IoError) :
    (c.tryRead thread offset size fault).2.cache.file.content = c.cache.file.content ∧
      (c.tryRead thread offset size fault).2.cache.ranges = c.cache.ranges ∧
      (c.tryRead thread offset size fault).2.cache.totalSize = c.cache.totalSize ∧
      (c.tryRead thread offset size fault).2.fill = c.fill := by
  unfold SharedSparseCache.tryRead
  split
  · obtain ⟨hc, hr⟩ := SparseCache.content_readAt (c := c.cache) offset size fault
    exact ⟨hc, hr, SparseCache.totalSize_readAt .., rfl⟩
  · split <;> exact ⟨rfl, rfl, rfl, rfl⟩

/-- A step that leaves the populated bytes as they are. -/
theorem Sound.frame (h : s.Sound D totalSize) (ha : s'.cache.cache.Agrees D)
    (ht : s'.cache.cache.totalSize = s.cache.cache.totalSize)
    (hr : s'.cache.cache.ranges = s.cache.cache.ranges) (hs : s'.streamed = s.streamed)
    (hf : ∀ f, s'.slot = .filling f → Continues D f)
    (hrun : s'.slot ≠ .none → s'.cache.fill = .running) : s'.Sound D totalSize where
  agrees := ha
  total := ht.trans h.total
  streamed := fun x hx => hs ▸ h.streamed x (hr ▸ hx)
  delivered := hs ▸ h.delivered
  filling := hf
  running := hrun

theorem Sound.startFill (h : s.Sound D totalSize) (ha : s.step .startFill = some s') :
    s'.Sound D totalSize ∧
      ∀ x, s.cache.cache.ranges.Covers x → s'.cache.cache.ranges.Covers x := by
  cases ha
  have hcache := cache_startFill s.cache
  refine ⟨h.frame (hcache ▸ h.agrees) (by rw [hcache]) (by rw [hcache]) rfl ?_ ?_, ?_⟩
  · intro f hf
    dsimp only at hf
    split at hf
    · cases hf
    · exact h.filling f hf
  · intro hslot
    dsimp only at hslot ⊢
    unfold SharedSparseCache.startFill at hslot ⊢
    split at hslot
    · rename_i hidle
      rw [if_pos hidle]
    · rename_i hidle
      rw [if_neg hidle]
      exact h.running (by simpa using hslot)
  · intro x hx
    dsimp only
    rw [hcache]
    exact hx

/-- A filler starts on a stream that begins as the object does. -/
theorem Sound.opened {chunks : List Bytes} {cut : Option Error} (h : s.Sound D totalSize)
    (hbegin : chunks.flatten <+: D) (ha : s.step (.opened chunks cut) = some s') :
    s'.Sound D totalSize ∧
      ∀ x, s.cache.cache.ranges.Covers x → s'.cache.cache.ranges.Covers x := by
  simp only [Shared.step] at ha
  split at ha
  · rename_i hslot
    cases ha
    refine ⟨h.frame h.agrees rfl rfl rfl ?_ fun _ => h.running (by simp [hslot]), fun _ hx => hx⟩
    intro f hf
    cases hf
    exact ⟨rfl, chunks, cut, rfl, by simpa [Filler.start] using hbegin.length_le,
      fun _ => by simpa [Filler.start] using hbegin⟩
  · cases ha

theorem Sound.filler {fault : Option WriteFault} (h : s.Sound D totalSize)
    (ha : s.step (.filler fault) = some s') :
    s'.Sound D totalSize ∧
      ∀ x, s.cache.cache.ranges.Covers x → s'.cache.cache.ranges.Covers x := by
  simp only [Shared.step] at ha
  split at ha
  · rename_i f hslot
    cases ha
    have hrun := h.running (by simp [hslot])
    have hfilled := filled_streamStep h.agrees (h.filling f hslot) fault
    refine ⟨⟨hfilled.agrees, hfilled.total.trans h.total, ?_, ?_, ?_, ?_⟩, hfilled.keeps⟩
    · intro x hx
      rcases hfilled.adds x hx with hx | hx
      · exact Nat.lt_of_lt_of_le (h.streamed x hx) (Nat.le_max_left ..)
      · exact Nat.lt_of_lt_of_le hx (Nat.le_max_right ..)
    · exact Nat.max_le.mpr ⟨h.delivered, hfilled.delivered⟩
    · intro f' hf'
      simp only [slotOf] at hf'
      split at hf'
      · rename_i hd
        cases hf'
        exact (hfilled.continues hd).1
      · cases hf'
    · intro hne
      simp only [slotOf] at hne
      split at hne
      · rename_i hd
        exact (hfilled.continues hd).2.trans hrun
      · exact absurd rfl hne
  · cases ha

theorem Sound.read {thread offset size : Nat} {fault : Option IoError} (h : s.Sound D totalSize)
    (ha : s.step (.read thread offset size fault) = some s') :
    s'.Sound D totalSize ∧
      ∀ x, s.cache.cache.ranges.Covers x → s'.cache.cache.ranges.Covers x := by
  simp only [Shared.step] at ha
  split at ha
  · cases ha
  cases ha
  obtain ⟨hc, hr, ht, hf⟩ := tryRead_frame s.cache thread offset size fault
  refine ⟨h.frame ⟨?_, ?_, ?_⟩ ht hr rfl h.filling fun hne => hf.trans (h.running hne), ?_⟩
  · rw [hc, ht, h.agrees.length]
  · intro x hx
    rw [ht]
    exact h.agrees.bound x (hr ▸ hx)
  · intro x hx
    rw [hc]
    exact h.agrees.byte x (hr ▸ hx)
  · intro x hx
    dsimp only
    rw [hr]
    exact hx

theorem Sound.step (h : s.Sound D totalSize) {a : SharedStep} (hok : Streams D s a)
    (ha : s.step a = some s') :
    s'.Sound D totalSize ∧
      ∀ x, s.cache.cache.ranges.Covers x → s'.cache.cache.ranges.Covers x := by
  cases a with
  | startFill => exact h.startFill ha
  | opened chunks cut => exact h.opened hok ha
  | refused failure =>
    simp only [Shared.step] at ha
    split at ha
    · cases ha
      exact ⟨h.frame h.agrees rfl rfl rfl (fun _ hf => nomatch hf) fun hne => absurd rfl hne,
        fun _ hx => hx⟩
    · cases ha
  | filler fault => exact h.filler ha
  | requestStop =>
    cases ha
    exact ⟨h.frame h.agrees rfl rfl rfl h.filling h.running, fun _ hx => hx⟩
  | resetAfterLinkLoss =>
    cases ha
    have hcache := cache_reset s.cache
    refine ⟨h.frame (hcache ▸ h.agrees) (by rw [hcache]) (by rw [hcache]) rfl h.filling
      fun hne => fill_reset (h.running hne), ?_⟩
    intro x hx
    dsimp only
    rw [hcache]
    exact hx
  | read thread offset size fault => exact h.read ha
  | wakeUp thread =>
    cases ha
    exact ⟨h.frame h.agrees rfl rfl rfl h.filling h.running, fun _ hx => hx⟩

/-- No step leaves a thread parked once the fill is over. -/
theorem waits_step (h : s.cache.WaitsForFill) {a : SharedStep} (ha : s.step a = some s') :
    s'.cache.WaitsForFill := by
  cases a with
  | startFill =>
    cases ha
    exact h.startFill
  | opened chunks cut =>
    simp only [Shared.step] at ha
    split at ha <;> cases ha
    exact h
  | refused failure =>
    simp only [Shared.step] at ha
    split at ha <;> cases ha
    exact SharedSparseCache.waitsForFill_of_notified fun _ => rfl
  | filler fault =>
    simp only [Shared.step] at ha
    split at ha <;> cases ha
    exact Filler.waitsForFill_streamStep h _ fault
  | requestStop =>
    cases ha
    exact SharedSparseCache.waitsForFill_of_notified fun _ => rfl
  | resetAfterLinkLoss =>
    cases ha
    exact h.resetAfterLinkLoss
  | read thread offset size fault =>
    simp only [Shared.step] at ha
    split at ha <;> cases ha
    exact h.tryRead thread offset size fault
  | wakeUp thread =>
    cases ha
    exact h.wakeUp thread

/-- What a pass answers, and that nothing was missing then. -/
theorem Sound.answer (h : s.Sound D totalSize) (ht : totalSize ≤ U64_MAX)
    {thread offset size : Nat} {fault : Option IoError} {data : Bytes}
    (hr : (s.cache.tryRead thread offset size fault).1 = some (.ok data)) :
    s.Readable offset size ∧ data = slice D offset (min size (totalSize - offset)) ∧
      data.length = min size (totalSize - offset) ∧
      ∀ i < data.length, offset + i < s.streamed := by
  unfold SharedSparseCache.tryRead at hr
  split at hr
  · rename_i hm
    simp only [Option.some.injEq] at hr
    have hok : (s.cache.cache.readAt offset size fault).1 = .ok data := by
      cases hres : (s.cache.cache.readAt offset size fault).1 with
      | error e => simp [hres, Except.mapError] at hr
      | ok bytes => simpa [hres, Except.mapError] using hr
    obtain ⟨hlen, hbytes⟩ := SparseCache.covers_of_readAt h.agrees (h.total ▸ ht) hm hok
    rw [h.total] at hlen
    have hstreamed : ∀ i < data.length, offset + i < s.streamed :=
      fun i hi => h.streamed _ (hbytes i hi).1
    refine ⟨hm, ?_, hlen, hstreamed⟩
    have hend : offset + data.length ≤ D.length ∨ data.length = 0 := by
      by_cases hz : data.length = 0
      · exact .inr hz
      · have hlast := hstreamed (data.length - 1) (by omega)
        have hle := h.delivered
        exact .inl (by omega)
    refine eq_of_getD 0 (by rw [length_slice]; omega) fun i hi => ?_
    rw [(hbytes i hi).2, getD_slice (by omega)]
  · split at hr <;> simp at hr

/-- A range that can be served is served. -/
theorem Sound.served (h : s.Sound D totalSize) (ht : totalSize ≤ U64_MAX) {offset size : Nat}
    (hr : s.Readable offset size) (thread : Nat) :
    (s.cache.tryRead thread offset size none).1 =
      some (.ok (slice D offset (min size (totalSize - offset)))) := by
  obtain ⟨data, hdata⟩ := SparseCache.readAt_works h.agrees offset size
  have hok : (s.cache.tryRead thread offset size none).1 = some (.ok data) := by
    have hm : s.cache.cache.missingRanges offset size = [] := hr
    unfold SharedSparseCache.tryRead
    rw [if_pos hm]
    dsimp only
    rw [hdata]
    rfl
  rw [hok, (h.answer ht hok).2.1]

end Shared

open Shared Transitions

/-- The states that any interleaving reaches from a state. -/
abbrev SharedRun (D : Bytes) : Shared → Shared → Prop := Run Shared.step (Streams D)

theorem Shared.sound {D : Bytes} {totalSize : Nat} {s : Shared}
    (h : SharedRun D (new totalSize) s) : s.Sound D totalSize :=
  h.invariant (sound_new D totalSize) fun _ _ _ _ ih hok ha => (ih.step hok ha).1

/-- What is populated stays populated. -/
theorem SharedRun.keeps {D : Bytes} {totalSize : Nat} {s s' : Shared} (hs : s.Sound D totalSize)
    (h : SharedRun D s s') : s'.Sound D totalSize ∧
      ∀ x, s.cache.cache.ranges.Covers x → s'.cache.cache.ranges.Covers x := by
  refine h.invariant (I := fun s' => s'.Sound D totalSize ∧
    ∀ x, s.cache.cache.ranges.Covers x → s'.cache.cache.ranges.Covers x) ⟨hs, fun _ hx => hx⟩ ?_
  rintro s₁ a s₂ - ⟨hs₁, hkeeps⟩ hok ha
  obtain ⟨hs₂, hstep⟩ := hs₁.step hok ha
  exact ⟨hs₂, fun x hx => hstep x (hkeeps x hx)⟩

theorem SharedRun.readable {D : Bytes} {totalSize : Nat} (ht : totalSize ≤ U64_MAX) {s s' : Shared}
    (hs : s.Sound D totalSize) (h : SharedRun D s s') {offset size : Nat}
    (hr : s.Readable offset size) : s'.Readable offset size := by
  obtain ⟨hs', hkeeps⟩ := SharedRun.keeps hs h
  have hle : s.cache.cache.totalSize ≤ U64_MAX := hs.total ▸ ht
  have hle' : s'.cache.cache.totalSize ≤ U64_MAX := hs'.total ▸ ht
  have hcovers := (RangeSet.missing_eq_nil_iff hle).mp hr
  refine (RangeSet.missing_eq_nil_iff hle').mpr ?_
  rw [hs'.total, ← hs.total]
  intro x h₁ h₂ h₃
  exact hkeeps x (hcovers x h₁ h₂ h₃)

theorem Shared.waits {D : Bytes} {totalSize : Nat} {s : Shared}
    (h : SharedRun D (new totalSize) s) : s.cache.WaitsForFill :=
  h.invariant (I := fun s => s.cache.WaitsForFill) (SharedSparseCache.waitsForFill_new totalSize)
    fun _ _ _ _ ih _ ha => waits_step ih ha

/-- In every state that readers, fillers, failures and restarts reach in any order:
an answer is the object's slice, of bytes that were streamed, in a range that can be
served; such a range is served in that state and in every later one; and a thread
parks, and is parked, only while a fill runs. -/
theorem waitAndRead_sound {D : Bytes} {totalSize : Nat} (ht : totalSize ≤ U64_MAX) {s : Shared}
    (h : SharedRun D (new totalSize) s) (offset size : Nat) :
    (∀ thread fault data, (s.cache.tryRead thread offset size fault).1 = some (.ok data) →
      s.Readable offset size ∧ data = slice D offset (min size (totalSize - offset)) ∧
      data.length = min size (totalSize - offset) ∧
      ∀ i < data.length, offset + i < s.streamed) ∧
    (s.Readable offset size → ∀ s', SharedRun D s s' → s'.Readable offset size ∧
      ∀ thread, (s'.cache.tryRead thread offset size none).1 =
        some (.ok (slice D offset (min size (totalSize - offset))))) ∧
    (∀ thread fault, (s.cache.tryRead thread offset size fault).1 = none →
      s.cache.fill = .running) ∧
    ∀ thread, s.cache.isParked thread = true → s.cache.fill = .running := by
  have hs := Shared.sound h
  refine ⟨fun thread fault data hr => hs.answer ht hr, fun hr s' hs' => ?_,
    fun thread fault hr => SharedSparseCache.running_of_tryRead hr, Shared.waits h⟩
  have hr' := hs'.readable ht hs hr
  exact ⟨hr', fun thread => (SharedRun.keeps hs hs').1.served ht hr' thread⟩

/-- The stream of a step is one of the object. -/
def streamsCheck (D : Bytes) (_ : Shared) : SharedStep → Bool
  | .opened chunks _ => chunks.flatten.isPrefixOf D
  | _ => true

theorem streams_of_check {D : Bytes} {s : Shared} {a : SharedStep}
    (h : streamsCheck D s a = true) : Streams D s a := by
  cases a with
  | opened chunks cut => exact List.isPrefixOf_iff_prefix.mp h
  | _ => trivial

/-- A reader parks before the first stream, and is woken by its first chunk. The stream
is lost behind it; the fill is reset and starts again. -/
def restarted : List SharedStep :=
  [.startFill, .read 7 1 1 none, .opened [[5, 6]] (some .disconnected)] ++
  List.replicate 2 (.filler none) ++ [.read 7 2 1 none] ++ List.replicate 2 (.filler none) ++
  [.resetAfterLinkLoss, .startFill, .opened [[5], [6, 7]] none, .filler none]

theorem waitAndRead_sound_restarted : ∃ s : Shared, SharedRun [5, 6, 7] (new 3) s ∧
    s.slot ≠ .none ∧ ∀ thread, (s.cache.tryRead thread 1 1 none).1 = some (.ok [6]) := by
  obtain ⟨s, hs, ht⟩ := Run.of_test Shared.step (new 3) (streamsCheck [5, 6, 7])
    (fun _ _ hc => streams_of_check hc) restarted
    (fun s => (match s.slot with | .none => false | _ => true) &&
      s.cache.cache.missingRanges 1 1 == []) (by rfl)
  rw [Bool.and_eq_true, beq_iff_eq] at ht
  refine ⟨s, hs, ?_, ?_⟩
  · intro hnone
    simp [hnone] at ht
  · exact ((waitAndRead_sound (by decide) hs 1 1).2.1 ht.2 s .start).2

end MtpMount
