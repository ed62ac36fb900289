import MtpMount.Downloads

/-!
# Teardown and the tracker of downloads

A filler publishes its failure before it tells the tracker that it has ended. A
reader that recovers in between restarts the fill on the same cache, and the old
filler's `finished` then drops the new download from the tracker as well.

* `running_tracked`: in every schedule in which no `finished` meets a download
  into its cache, every running download is tracked, and none is left when
  `stop_and_wait` returns true;
* `running_untracked`: a schedule in which teardown returns true while a
  download runs.
-/

namespace MtpMount

namespace Downloads

/-- A download into the cache is opening or running. -/
def Busy (s : Downloads) (c : Nat) : Prop :=
  (∃ id r, s.readers.lookup id = some r ∧ r.phase = .openDownload ∧ r.cache = c) ∨
    ∃ id f, s.files.fillers.lookup id = some f ∧ f.downloading = true ∧ f.cache = c

/-- The cache for which the step calls `finished`. -/
def finishes (s : Downloads) : Action → Option Nat
  | .reader id _ _ =>
    (s.readers.lookup id).bind fun r => if r.phase = .deregister then some r.cache else none
  | .filler id _ =>
    (s.files.fillers.lookup id).bind fun f => if f.phase = .deregister then some f.cache else none
  | _ => none

/-- No download into a cache is opening or running when the step calls `finished` for it. -/
def InTime (s : Downloads) (a : Action) : Prop := ∀ c, s.finishes a = some c → ¬ s.Busy c

structure Tracked (s : Downloads) : Prop where
  live : ∀ c, s.Busy c → c ∈ s.files.fills.live
  stopping : s.teardown ≠ .working → s.files.fills.stopping = true
  returned : s.teardown = .returned true → s.files.fills.live = []

variable {s s' : Downloads} {c : Nat}

theorem tracked_new : Tracked .new where
  live := fun c h => by
    rcases h with ⟨id, r, hl, -⟩ | ⟨id, f, hl, -⟩
    · exact nomatch (HashMap.lookup_empty id).symm.trans hl
    · exact nomatch (HashMap.lookup_empty id).symm.trans hl
  stopping := fun h => absurd rfl h
  returned := fun h => nomatch h

/-- The tracker does not change, and no download is added. -/
theorem Tracked.frame (h : s.Tracked) (hb : ∀ c, s'.Busy c → s.Busy c)
    (hf : s'.files.fills = s.files.fills) (ht : s'.teardown = s.teardown) : s'.Tracked where
  live := fun c hc => hf ▸ h.live c (hb c hc)
  stopping := fun hw => hf ▸ h.stopping (ht ▸ hw)
  returned := fun hr => hf ▸ h.returned (ht ▸ hr)

/-- One cache is dropped from the tracker, and nobody downloads into it. -/
theorem Tracked.finished (h : s.Tracked) (hb : ∀ c, s'.Busy c → s.Busy c) (hc : ¬ s.Busy c)
    (hf : s'.files.fills = s.files.fills.finished c) (ht : s'.teardown = s.teardown) :
    s'.Tracked where
  live := fun c' hc' => by
    rw [hf]
    refine List.mem_filter.mpr ⟨h.live c' (hb c' hc'), decide_eq_true ?_⟩
    rintro rfl
    exact hc (hb c' hc')
  stopping := fun hw => by
    rw [hf]
    exact h.stopping (ht ▸ hw)
  returned := fun hr => by
    rw [hf, FillTracker.finished, h.returned (ht ▸ hr), List.filter_nil]

/-- What a reader's step does to the tracker. -/
theorem fills_reader {r : Reader} {f f' : Files} {o : Option Reader} (h : r.Does f o f') :
    f'.fills = f.fills ∨ (r.phase = .register ∧ f'.fills = (f.fills.register r.cache).2) ∨
      (r.phase = .deregister ∧ f'.fills = f.fills.finished r.cache) := by
  cases h with
  | register hp => exact .inr (.inl ⟨hp, rfl⟩)
  | deregister hp => exact .inr (.inr ⟨hp, rfl⟩)
  | look | claim | giveUp | opened | moved => exact .inl rfl

theorem Tracked.reader (h : s.Tracked) {id : Nat} {r : Reader}
    (hr : s.readers.lookup id = some r) {answer : Except Error (List StreamItem)}
    {fault : Option IoError} (hok : s.InTime (.reader id answer fault)) :
    Tracked { s with
      files := (r.step answer fault s.files).2
      readers := putReader s.readers id (r.step answer fault s.files).1 } := by
  have hdoes := r.step_does answer fault s.files
  -- an opening download is one of before, or was just registered
  have hbusy : ∀ c, Busy { s with
      files := (r.step answer fault s.files).2
      readers := putReader s.readers id (r.step answer fault s.files).1 } c →
      s.Busy c ∨ (r.phase = .register ∧ (s.files.fills.register r.cache).1 = true ∧ c = r.cache) := by
    rintro c (⟨id', r', hl, hp, rfl⟩ | ⟨id', f, hl, hd, rfl⟩)
    · rw [lookup_putReader] at hl
      split at hl
      · obtain ⟨hreg, hok⟩ := Reader.phase_of_step_openDownload hl hp
        exact .inr ⟨hreg, hok, (Reader.step_party hl).2.2⟩
      · exact .inl (.inl ⟨id', r', hl, hp, rfl⟩)
    · rcases hdoes.fillers hl with hl | ⟨hp, -, hc⟩
      · exact .inl (.inr ⟨id', f, hl, hd, rfl⟩)
      · exact .inl (.inl ⟨id, r, hr, hp, hc.symm⟩)
  have hquiet : r.phase ≠ .register → ∀ c, Busy { s with
      files := (r.step answer fault s.files).2
      readers := putReader s.readers id (r.step answer fault s.files).1 } c → s.Busy c :=
    fun hne c hc => (hbusy c hc).resolve_right fun h' => hne h'.1
  by_cases hp : r.phase = .register
  · have hstep : (r.step answer fault s.files).2 =
        { s.files with fills := (s.files.fills.register r.cache).2 } := by
      simp only [Reader.step, hp]
    have hreg : (s.files.fills.register r.cache = (false, s.files.fills) ∧
          s.files.fills.stopping = true) ∨
        (s.files.fills.register r.cache =
            (true, { s.files.fills with live := s.files.fills.live ++ [r.cache] }) ∧
          s.files.fills.stopping = false) := by
      unfold FillTracker.register
      cases hs : s.files.fills.stopping <;> simp [hs]
    have hfills : (r.step answer fault s.files).2.fills = (s.files.fills.register r.cache).2 := by
      rw [hstep]
    rcases hreg with ⟨hreg, -⟩ | ⟨hreg, hstop⟩
    · refine h.frame (fun c hc => (hbusy c hc).resolve_right fun h' => ?_) (by rw [hfills, hreg]) rfl
      rw [hreg] at h'
      exact nomatch h'.2.1
    · have hwork : s.teardown = .working := by
        by_contra hne
        rw [h.stopping hne] at hstop
        cases hstop
      refine ⟨fun c hc => ?_, fun hne => absurd hwork hne, fun hret => ?_⟩
      · rw [hfills, hreg]
        rcases hbusy c hc with hc | ⟨-, -, rfl⟩
        · exact List.mem_append_left _ (h.live c hc)
        · exact List.mem_append_right _ List.mem_cons_self
      · exact nomatch hwork.symm.trans hret
  · rcases fills_reader hdoes with hf | ⟨hp', -⟩ | ⟨hp', hf⟩
    · exact h.frame (hquiet hp) hf rfl
    · exact absurd hp' hp
    · exact h.finished (hquiet hp) (hok r.cache (by simp [finishes, hr, hp'])) hf rfl

theorem Tracked.filler (h : s.Tracked) {id : Nat} {fault : Option WriteFault}
    (hok : s.InTime (.filler id fault)) :
    Tracked { s with files := s.files.fillerStep id fault } := by
  have hdoes := s.files.fillerStep_does id fault
  generalize s.files.fillerStep id fault = files at hdoes ⊢
  -- no filler begins to download
  have hbusy : ∀ {o : Option Filler},
      (∀ id', files.fillers.lookup id' = if id' = id then o else s.files.fillers.lookup id') →
      (∀ f, o = some f → f.downloading = true → s.Busy f.cache) →
      ∀ c, Busy { s with files } c → s.Busy c := by
    rintro o hl ho c (hr | ⟨id', f, hf, hd, rfl⟩)
    · exact .inl hr
    · dsimp only at hf
      rw [hl] at hf
      split at hf
      · exact ho f hf hd
      · exact .inr ⟨id', f, hf, hd, rfl⟩
  cases hdoes with
  | gone => exact h
  | @stream filler filler' v hf hd hi hc hends =>
    refine h.frame (hbusy (fun id' => HashMap.lookup_insert ..) fun f hf' _ => ?_) rfl rfl
    cases hf'
    exact .inr ⟨id, filler, hf, hd, hc.symm⟩
  | @deregister filler hf hp =>
    refine h.finished (hbusy (fun id' => HashMap.lookup_insert ..) fun f hf' hd => ?_)
      (hok filler.cache (by simp [finishes, hf, hp])) rfl rfl
    cases hf'
    cases hd
  | cleanUp hf hp =>
    refine h.frame (hbusy (fun id' => HashMap.lookup_erase ..) fun f hf' _ => nomatch hf') ?_ rfl
    unfold Files.fillerCleanUp
    split <;> rfl

theorem Tracked.step (h : s.Tracked) {a : Action} (hok : s.InTime a) (ha : s.step a = some s') :
    s'.Tracked := by
  cases a with
  | openFile inode =>
    cases ha
    exact h.frame (fun _ hc => hc) rfl rfl
  | read inode fh offset size totalSize =>
    simp only [Downloads.step] at ha
    split at ha
    · cases ha
      have hframe : (cacheFor s.files inode totalSize).2.fillers = s.files.fillers ∧
          (cacheFor s.files inode totalSize).2.fills = s.files.fills := by
        unfold cacheFor
        split <;> exact ⟨rfl, rfl⟩
      refine h.frame ?_ hframe.2 rfl
      rintro c (⟨id, r, hl, hp, rfl⟩ | ⟨id, f, hl, hd, rfl⟩)
      · dsimp only at hl
        rw [HashMap.lookup_insert] at hl
        split at hl
        · cases hl
          cases hp
        · exact .inl ⟨id, r, hl, hp, rfl⟩
      · exact .inr ⟨id, f, hframe.1 ▸ hl, hd, rfl⟩
    · cases ha
  | reader id answer fault =>
    obtain ⟨r, hr, -, rfl⟩ := step_reader ha
    exact h.reader hr hok
  | wakeUp id =>
    obtain ⟨r, rfl⟩ := step_wakeUp ha
    exact h.frame (fun _ hc => hc) rfl rfl
  | filler id fault =>
    cases ha
    exact h.filler hok
  | release fh =>
    simp only [Downloads.step] at ha
    split at ha
    · cases ha
    · cases ha
      have hf := Files.closeHandle_frame s.files fh
      refine h.frame ?_ hf.fills rfl
      rintro c (hr | ⟨id, f, hl, hd, rfl⟩)
      · exact .inl hr
      · exact .inr ⟨id, f, hf.fillers ▸ hl, hd, rfl⟩
  | stop =>
    simp only [Downloads.step] at ha
    split at ha
    · cases ha
      have hf := (Files.stopFills_frame s.files).2.1
      refine ⟨?_, fun _ => rfl, fun h => by cases h⟩
      rintro c (hr | ⟨id, f, hl, hd, rfl⟩)
      · exact h.live c (.inl hr)
      · exact h.live _ (.inr ⟨id, f, hf ▸ hl, hd, rfl⟩)
    · cases ha
  | wake timedOut =>
    simp only [Downloads.step] at ha
    split at ha
    · rename_i hw
      have hstop : s.files.fills.stopping = true := h.stopping (by rw [hw]; decide)
      split at ha
      · rename_i hlive
        cases ha
        exact ⟨h.live, fun _ => hstop, fun _ => hlive⟩
      · split at ha
        · cases ha
          exact ⟨h.live, fun _ => hstop, fun h => by cases h⟩
        · cases ha
          exact h
    · cases ha

end Downloads

open Downloads

theorem Schedule.tracked {s : Downloads} (h : Schedule InTime s) : s.Tracked :=
  h.invariant tracked_new fun _ _ _ _ ih hok ha => ih.step hok ha

/-- In every state of a schedule in which no `finished` meets a download into its
cache, every running download is tracked; so none runs once `stop_and_wait` has
returned true. -/
theorem running_tracked {s : Downloads} (h : Schedule InTime s) {id : Nat} {f : Filler}
    (hf : s.files.fillers.lookup id = some f) (hd : f.downloading = true) :
    f.cache ∈ s.files.fills.live ∧ s.teardown ≠ .returned true := by
  have hlive := (Schedule.tracked h).live f.cache (.inr ⟨id, f, hf, hd, rfl⟩)
  refine ⟨hlive, fun hret => ?_⟩
  rw [(Schedule.tracked h).returned hret] at hlive
  cases hlive

/-- Some party downloads into the cache. -/
def Downloads.busy (s : Downloads) (c : Nat) : Bool :=
  s.readers.values.any (fun r => r.phase == .openDownload && r.cache == c) ||
    s.files.fillers.values.any fun f => f.downloading && f.cache == c

theorem Downloads.busy_of {s : Downloads} {c : Nat} (h : s.Busy c) : s.busy c = true := by
  rw [busy, Bool.or_eq_true, List.any_eq_true, List.any_eq_true]
  rcases h with ⟨id, r, hl, hp, hc⟩ | ⟨id, f, hl, hd, hc⟩
  · exact .inl ⟨r, HashMap.mem_values.mpr ⟨id, hl⟩, by simp [hp, hc]⟩
  · exact .inr ⟨f, HashMap.mem_values.mpr ⟨id, hl⟩, by simp [hd, hc]⟩

theorem Downloads.inTime_of_busy {s : Downloads} {a : Action}
    (h : (s.finishes a).all (fun c => !s.busy c) = true) : s.InTime a := by
  intro c hc hbusy
  rw [hc, Option.all_some, busy_of hbusy] at h
  cases h

/-- A reader opens a file and starts its download. -/
def firstRead : List Action :=
  [.openFile 3, .read 3 1 0 4 4, .reader 0 (.ok []) none, .reader 0 (.ok []) none,
    .reader 0 (.ok [.error .disconnected]) none]

/-- The first download loses the link and calls `finished`; only then the reader
recovers, and restarts the fill. -/
def finishedInTime : List Action :=
  firstRead ++ List.replicate 3 (.filler 0 none) ++ List.replicate 5 (.reader 0 (.ok []) none) ++
  [.reader 0 (.ok [.ok [1, 2, 3, 4]]) none]

/-- The second download is tracked, on the cache for which the first one has finished. -/
theorem running_tracked_second : ∃ (s : Downloads) (f f' : Filler),
    s.files.fillers.lookup 0 = some f ∧ f.phase = .cleanUp ∧
    s.files.fillers.lookup 1 = some f' ∧ f'.cache = f.cache ∧ f'.cache ∈ s.files.fills.live := by
  obtain ⟨s, hs, ht⟩ := Transitions.Run.of_test Downloads.step .new
    (fun s a => (s.finishes a).all fun c => !s.busy c) (fun _ _ hc => inTime_of_busy hc)
    finishedInTime
    (fun s => (s.files.fillers.lookup 0).any fun (f : Filler) =>
      (s.files.fillers.lookup 1).any fun (f' : Filler) =>
        decide (f.phase = .cleanUp ∧ f'.cache = f.cache ∧ f'.downloading = true)) (by rfl)
  obtain ⟨f, hf, ht⟩ := (Option.any_eq_true _ _).mp ht
  obtain ⟨f', hf', ht⟩ := (Option.any_eq_true _ _).mp ht
  obtain ⟨hp, hc, hd⟩ := of_decide_eq_true ht
  exact ⟨s, f, f', hf, hp, hf', hc, (running_tracked hs hf' hd).1⟩

/-- The first download loses the link; the reader recovers and restarts the fill
before the old filler calls `finished`, which then drops the new download. -/
def lateFinished : List Action :=
  firstRead ++ [.filler 0 none, .filler 0 none, .reader 0 (.ok []) none, .reader 0 (.ok []) none,
    .reader 0 (.ok []) none, .reader 0 (.ok []) none, .reader 0 (.ok []) none,
    .reader 0 (.ok [.ok [1, 2, 3, 4]]) none, .filler 0 none, .stop, .wake false]

/-- Teardown returns true while the restarted download runs untracked. -/
theorem running_untracked : ∃ (s : Downloads) (f : Filler), Schedule (fun _ _ => True) s ∧
    s.files.fillers.lookup 1 = some f ∧ f.downloading = true ∧
    f.cache ∉ s.files.fills.live ∧ s.teardown = .returned true := by
  obtain ⟨s, hs, ht⟩ := Transitions.Run.of_test Downloads.step .new
    (fun _ _ => true) (fun _ _ _ => trivial) lateFinished
    (fun s => (s.files.fillers.lookup 1).any fun f =>
      f.downloading && decide (f.cache ∉ s.files.fills.live ∧ s.teardown = .returned true))
    (by rfl)
  obtain ⟨f, hf, ht⟩ := (Option.any_eq_true _ _).mp ht
  obtain ⟨hd, ht⟩ := (Bool.and_eq_true _ _).mp ht
  exact ⟨s, f, hs, hf, hd, of_decide_eq_true ht⟩

end MtpMount
