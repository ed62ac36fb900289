import Mathlib.Data.Prod.Lex
import MtpMount.Downloads
import MtpMount.Lib.Executions

/-!
# Waiting reads

A `read` on the whole-object path waits until its range has come or the fill of
its cache is over. Where neither is so yet, it parks, and takes no step before it is
woken. Whatever other reads, closes and teardown do meanwhile, the fill is in the
hands of one party, which is not parked and has finitely many steps left, and who
ends a fill wakes all that wait for it.

* `Driven`: a fill that is `Running` has a party that is to end it;
* `Waiting`: whoever is parked waits for a fill that is `Running`;
* `fill_ends`: in every endless schedule in which no filler and no reader that is
  not parked is starved, every fill comes to its end;
* `read_answered`: there every read is answered, if from some time on no link
  loss is recovered from.
-/

namespace MtpMount

open Transitions

/-- What a reader that holds the slot has left to do before the device answers. -/
def Reader.work (r : Reader) : Nat ×ₗ Nat :=
  toLex (1, match r.phase with
    | .register => 2
    | .openDownload => 1
    | _ => 0)

/-- What a filler has left to do: four for each item of the stream, and its way
through the loop. -/
def Filler.work (f : Filler) : Nat ×ₗ Nat :=
  toLex (0, 4 * f.stream.length + match f.phase with
    | .checkStop => 3
    | .nextChunk => 2
    | _ => 1)

/-- The action is a step of the party, a reader (`inl`) or a filler (`inr`). -/
def Action.IsOf : Nat ⊕ Nat → Action → Prop
  | .inl id, .reader id' _ _ => id' = id
  | .inr id, .filler id' _ => id' = id
  | _, _ => False

/-- The fill has come to its end, good or bad. -/
def FillState.isOver : FillState → Bool
  | .complete | .failed _ => true
  | .idle | .running => false

/-! ## One step of a party -/

/-- A reader with the slot ends the fill, has less to do, or hands it to a filler. -/
theorem Reader.moves (r : Reader) (hc : r.claims = true) (answer : Except Error (List StreamItem))
    (fault : Option IoError) (f : Files) :
    ((r.step answer fault f).2.cacheAt r.cache).fill ≠ .running ∨
      (∃ r', (r.step answer fault f).1 = some r' ∧ r'.claims = true ∧ r'.cache = r.cache ∧
        r'.work < r.work) ∨
      ∃ stream, (r.step answer fault f).2 = f.spawnFiller r.inode r.cache stream := by
  have hfail : ∀ failure, ((f.setCache r.cache ((f.cacheAt r.cache).fail failure)).cacheAt
      r.cache).fill ≠ .running := by
    intro failure
    rw [Files.cacheAt_setCache, if_pos rfl]
    exact nofun
  unfold Reader.claims at hc
  cases hp : r.phase with
  | register =>
    simp only [Reader.step, hp]
    refine .inr (.inl ⟨_, rfl, ?_, rfl, ?_⟩)
    · cases (f.fills.register r.cache).1 <;> rfl
    · unfold Reader.work
      rw [hp]
      cases (f.fills.register r.cache).1
      · exact Prod.Lex.right _ Nat.two_pos
      · exact Prod.Lex.right _ Nat.one_lt_two
  | refused =>
    simp only [Reader.step, hp]
    exact .inl (hfail _)
  | openDownload =>
    cases answer with
    | error e =>
      refine .inr (.inl ⟨r.goTo (.openFailed e), by simp only [Reader.step, hp], rfl, rfl, ?_⟩)
      unfold Reader.work
      rw [hp]
      exact Prod.Lex.right _ Nat.zero_lt_one
    | ok stream => exact .inr (.inr ⟨stream, by simp only [Reader.step, hp]⟩)
  | openFailed e =>
    simp only [Reader.step, hp]
    exact .inl (hfail _)
  | startFill | deregister | wait | parked | recover | reset => simp [hp] at hc

/-- A filler ends the fill or has less to do. -/
theorem Filler.moves (f : Filler) (hd : f.downloading = true) (c : SharedSparseCache)
    (fault : Option WriteFault) :
    (f.streamStep c fault).2.fill ≠ .running ∨
      ((f.streamStep c fault).1.downloading = true ∧ (f.streamStep c fault).1.work < f.work) := by
  have hless : ∀ {f' : Filler} {a b : Nat}, f'.work = toLex (0, a) → f.work = toLex (0, b) →
      a < b → f'.work < f.work := by
    intro f' a b ha hb hlt
    rw [ha, hb]
    exact Prod.Lex.right _ hlt
  cases hp : f.phase with
  | checkStop =>
    refine .inr ?_
    unfold Filler.streamStep
    simp only [hp]
    cases c.stopRequested
    · exact ⟨rfl, hless rfl rfl (by simp [hp])⟩
    · exact ⟨rfl, hless rfl rfl (by simp [hp])⟩
  | cancel =>
    unfold Filler.streamStep
    simp only [hp]
    exact .inl nofun
  | nextChunk =>
    unfold Filler.streamStep
    simp only [hp]
    split
    · exact .inr ⟨rfl, hless rfl rfl (by simp [hp])⟩
    · exact .inl nofun
    · rename_i bytes rest hs
      exact .inr ⟨rfl, hless rfl rfl (by simp [hp, hs]; omega)⟩
  | ended =>
    refine .inl (Filler.fill_of_ended hd ?_)
    unfold Filler.streamStep
    simp only [hp]
    split <;> rfl
  | deregister | cleanUp =>
    rw [Filler.downloading, hp] at hd
    cases hd

/-- What a reader's step does to a fill: it claims or fails that of its own cache,
or makes it eligible again. -/
theorem Reader.fill_step (r : Reader) (answer : Except Error (List StreamItem))
    (fault : Option IoError) (f : Files) (c : Nat) :
    ((r.step answer fault f).2.cacheAt c).fill = (f.cacheAt c).fill ∨
      r.cache = c ∧
        ((f.cacheAt c).fill = .idle ∧ (r.step answer fault f).1 = some (r.goTo .register) ∨
          ((r.step answer fault f).2.cacheAt c).fill.isOver = true ∨
          r.phase = .reset ∧ ((r.step answer fault f).2.cacheAt c).fill = .idle) := by
  -- a step that changes its own cache only
  have hset : ∀ {v : SharedSparseCache} {P : Prop},
      (v.fill = (f.cacheAt r.cache).fill ∨ (r.cache = c → P)) →
      ((f.setCache r.cache v).cacheAt c).fill = (f.cacheAt c).fill ∨ r.cache = c ∧ P := by
    intro v P hv
    rw [Files.cacheAt_setCache]
    split
    · rename_i hc
      rcases hv with hv | hP
      · rw [hv, hc]
        exact .inl rfl
      · exact .inr ⟨hc.symm, hP hc.symm⟩
    · exact .inl rfl
  have hfail : ∀ failure, ((f.setCache r.cache ((f.cacheAt r.cache).fail failure)).cacheAt
      r.cache).fill.isOver = true := by
    intro failure
    rw [Files.cacheAt_setCache, if_pos rfl]
    rfl
  unfold Reader.step
  split <;> rename_i hp <;> dsimp only
  · refine hset ?_
    cases hs : (f.cacheAt r.cache).startFill.1 with
    | true => exact .inr fun hc => .inl ⟨hc ▸ (SharedSparseCache.fill_startFill hs).1, rfl⟩
    | false => exact .inl (by rw [SharedSparseCache.startFill_of_false hs])
  · exact .inl rfl
  · exact hset (.inr fun hc => .inr (.inl (by subst hc; exact hfail _)))
  · split <;> exact .inl rfl
  · exact hset (.inr fun hc => .inr (.inl (by subst hc; exact hfail _)))
  · exact .inl rfl
  · exact hset (.inl (SharedSparseCache.fill_tryRead ..))
  · exact hset (.inl (SharedSparseCache.fill_tryRead ..))
  · split <;> exact .inl rfl
  · refine hset ?_
    unfold SharedSparseCache.resetAfterLinkLoss
    split
    · split
      · refine .inr fun hc => .inr (.inr ⟨hp, ?_⟩)
        rw [Files.cacheAt_setCache, if_pos hc.symm]
      · exact .inl rfl
    · exact .inl rfl

/-- A step of a filler leaves a fill as it is or ends it. -/
theorem Files.fill_fillerStep (f : Files) (id : Nat) (fault : Option WriteFault) (c : Nat) :
    ((f.fillerStep id fault).cacheAt c).fill = (f.cacheAt c).fill ∨
      ((f.fillerStep id fault).cacheAt c).fill.isOver = true := by
  unfold fillerStep
  split
  · exact .inl rfl
  · rename_i filler hf
    split
    · exact .inl rfl
    · refine .inl (congrArg SharedSparseCache.fill ?_)
      show (f.fillerCleanUp filler.inode).cacheAt c = f.cacheAt c
      unfold fillerCleanUp
      split <;> rfl
    · show ((f.setCache filler.cache _).cacheAt c).fill = _ ∨
        ((f.setCache filler.cache _).cacheAt c).fill.isOver = true
      rw [Files.cacheAt_setCache]
      split
      · rename_i hc
        rw [hc]
        unfold Filler.streamStep
        split
        · exact .inl rfl
        · exact .inr rfl
        · split
          · exact .inl rfl
          · exact .inr rfl
          · exact .inl (filler.fill_writeChunk ..)
        · split
          · exact .inr rfl
          · refine .inr ?_
            unfold SharedSparseCache.finish
            dsimp only
            split <;> rfl
        · exact .inl rfl
        · exact .inl rfl
      · exact .inl rfl

theorem Files.nextFiller_stopFills (f : Files) : f.stopFills.nextFiller = f.nextFiller := by
  have hfold : ∀ (live : List Nat) (g : Files),
      (live.foldl (fun f c => f.setCache c (f.cacheAt c).requestStop) g).nextFiller =
        g.nextFiller := by
    intro live
    induction live with
    | nil => exact fun _ => rfl
    | cons c live ih => exact fun g => ih _
  exact hfold f.fills.live f

namespace Downloads

/-- The party holds the fill slot of the cache and has so much left to do. -/
def InCharge (s : Downloads) (c : Nat) : Nat ⊕ Nat → Nat ×ₗ Nat → Prop
  | .inl id, w => ∃ r, s.readers.lookup id = some r ∧ r.claims = true ∧ r.cache = c ∧ r.work = w
  | .inr id, w => ∃ f, s.files.fillers.lookup id = some f ∧ f.downloading = true ∧ f.cache = c ∧
      f.work = w

/-- The fill of the cache is under way. -/
def Running (s : Downloads) (c : Nat) : Prop := (s.files.cacheAt c).fill = .running

/-- Parties have numbers that were given out, and each fill under way has one in charge. -/
structure Driven (s : Downloads) : Prop where
  reader : ∀ id r, s.readers.lookup id = some r → id < s.nextReader
  filler : ∀ id f, s.files.fillers.lookup id = some f → id < s.files.nextFiller
  charge : ∀ c, s.Running c → ∃ p w, s.InCharge c p w

variable {s s' : Downloads} {c : Nat}

theorem driven_new : Driven .new where
  reader := fun id _ h => nomatch (HashMap.lookup_empty id).symm.trans h
  filler := fun id _ h => nomatch (HashMap.lookup_empty id).symm.trans h
  charge := fun _ h => nomatch h

/-! ## The party in charge moves -/

theorem InCharge.moves {p : Nat ⊕ Nat} {w : Nat ×ₗ Nat} (h : s.InCharge c p w) {a : Action}
    (ha : s.step a = some s') (hp : a.IsOf p) :
    ¬ s'.Running c ∨ ∃ p' w', w' < w ∧ s'.InCharge c p' w' := by
  cases p with
  | inl id =>
    obtain ⟨r, hr, hc, rfl, rfl⟩ := h
    cases a with
    | reader id' answer fault =>
      cases (show id' = id from hp)
      obtain ⟨r', hr', -, rfl⟩ := step_reader ha
      cases hr.symm.trans hr'
      rcases r.moves hc answer fault s.files with hq | ⟨r', hr', hc', hcache, hw⟩ | ⟨stream, hf⟩
      · exact .inl hq
      · refine .inr ⟨.inl id, r'.work, hw, r', ?_, hc', hcache, rfl⟩
        dsimp only
        rw [lookup_putReader, if_pos rfl, hr']
      · refine .inr ⟨.inr s.files.nextFiller, (Filler.start r.inode r.cache stream).work,
          Prod.Lex.left _ _ Nat.zero_lt_one, _, ?_, rfl, rfl, rfl⟩
        dsimp only
        rw [hf, Files.spawnFiller, HashMap.lookup_insert, if_pos rfl]
    | _ => exact hp.elim
  | inr id =>
    obtain ⟨f, hf, hd, rfl, rfl⟩ := h
    cases a with
    | filler id' fault =>
      cases (show id' = id from hp)
      cases ha
      have hstep : s.files.fillerStep id fault =
          { s.files.setCache f.cache (f.streamStep (s.files.cacheAt f.cache) fault).2 with
            fillers := s.files.fillers.insert id
              (f.streamStep (s.files.cacheAt f.cache) fault).1 } := by
        unfold Files.fillerStep
        rw [hf]
        dsimp only
        split <;> rename_i hph
        · rw [Filler.downloading, hph] at hd
          cases hd
        · rw [Filler.downloading, hph] at hd
          cases hd
        · rfl
      rcases f.moves hd (s.files.cacheAt f.cache) fault with hq | ⟨hd', hw⟩
      · refine .inl ?_
        unfold Running
        rw [hstep]
        show ((s.files.setCache f.cache _).cacheAt f.cache).fill ≠ .running
        rwa [Files.cacheAt_setCache, if_pos rfl]
      · refine .inr ⟨.inr id, _, hw, _, ?_, hd', (f.streamStep_cases _ fault).2.1, rfl⟩
        rw [hstep, HashMap.lookup_insert, if_pos rfl]
    | _ => exact hp.elim

/-! ## The others move -/

/-- A step that no reader or filler takes. -/
structure Quiet (s s' : Downloads) : Prop where
  readers : s'.readers = s.readers ∧ s'.nextReader = s.nextReader ∨
    ∃ r, s'.readers = s.readers.insert s.nextReader r ∧ s'.nextReader = s.nextReader + 1
  fillers : s'.files.fillers = s.files.fillers
  nextFiller : s'.files.nextFiller = s.files.nextFiller
  nextCache : s.files.nextCache ≤ s'.files.nextCache
  running : ∀ c, s'.Running c → s.Running c
  kept : ∀ c < s.files.nextCache, (s'.files.cacheAt c).fill = (s.files.cacheAt c).fill

/-- The fills are not touched. -/
theorem Quiet.of_fills (hr : s'.readers = s.readers) (hn : s'.nextReader = s.nextReader)
    (hf : s'.files.fillers = s.files.fillers) (hnf : s'.files.nextFiller = s.files.nextFiller)
    (hnc : s'.files.nextCache = s.files.nextCache)
    (hc : ∀ c, (s'.files.cacheAt c).fill = (s.files.cacheAt c).fill) : Quiet s s' :=
  ⟨.inl ⟨hr, hn⟩, hf, hnf, Nat.le_of_eq hnc.symm, fun c h => (hc c).symm.trans h, fun c _ => hc c⟩

/-- Who can take a step, and what it does. -/
theorem step_cases {a : Action} (ha : s.step a = some s') :
    (∃ id r answer fault, a = .reader id answer fault ∧ s.readers.lookup id = some r ∧
      s' = { s with
        files := (r.step answer fault s.files).2
        readers := putReader s.readers id (r.step answer fault s.files).1 }) ∨
    (∃ id fault, a = .filler id fault ∧ s' = { s with files := s.files.fillerStep id fault }) ∨
    Quiet s s' := by
  cases a with
  | reader id answer fault =>
    obtain ⟨r, hr, -, hs⟩ := step_reader ha
    exact .inl ⟨id, r, answer, fault, rfl, hr, hs⟩
  | wakeUp id =>
    obtain ⟨r, rfl⟩ := step_wakeUp ha
    exact .inr (.inr (.of_fills rfl rfl rfl rfl rfl (fill_wakeUp s.files r.cache r.thread)))
  | filler id fault =>
    cases ha
    exact .inr (.inl ⟨id, fault, rfl, rfl⟩)
  | openFile inode =>
    cases ha
    exact .inr (.inr (.of_fills rfl rfl rfl rfl rfl fun _ => rfl))
  | read inode fh offset size totalSize =>
    simp only [Downloads.step] at ha
    split at ha
    · cases ha
      rcases cacheFor_cases s.files inode totalSize with ⟨c, -, hc⟩ | ⟨-, hc⟩
      · rw [hc]
        exact .inr (.inr ⟨.inr ⟨_, rfl, rfl⟩, rfl, rfl, Nat.le_refl _, fun _ h => h, fun _ _ => rfl⟩)
      · rw [hc]
        refine .inr (.inr ⟨.inr ⟨_, rfl, rfl⟩, rfl, rfl, Nat.le_succ _, fun c h => ?_, fun c h =>
          congrArg SharedSparseCache.fill (cacheAt_addCache s.files inode totalSize c h)⟩)
        -- a new cache is idle
        unfold Running at h ⊢
        dsimp only at h
        rw [Files.addCache, Files.cacheAt, HashMap.lookup_insert] at h
        split at h
        · cases h
        · exact h
    · cases ha
  | release fh =>
    simp only [Downloads.step] at ha
    split at ha
    · cases ha
    · cases ha
      have hf := Files.closeHandle_frame s.files fh
      exact .inr (.inr (.of_fills rfl rfl hf.fillers hf.nextFiller hf.nextCache fun c =>
        congrArg SharedSparseCache.fill (hf.cacheAt c)))
  | stop =>
    simp only [Downloads.step] at ha
    split at ha
    · cases ha
      obtain ⟨hs, hf, hc⟩ := Files.stopFills_frame s.files
      exact .inr (.inr (.of_fills rfl rfl hf s.files.nextFiller_stopFills hs.nextCache hc))
    · cases ha
  | wake timedOut =>
    simp only [Downloads.step] at ha
    split at ha
    · split at ha
      · cases ha
        exact .inr (.inr (.of_fills rfl rfl rfl rfl rfl fun _ => rfl))
      · split at ha
        · cases ha
          exact .inr (.inr (.of_fills rfl rfl rfl rfl rfl fun _ => rfl))
        · cases ha
          exact .inr (.inr (.of_fills rfl rfl rfl rfl rfl fun _ => rfl))
    · cases ha

/-- A filler that a reader's step did not spawn. -/
theorem lookup_fillers_reader {r : Reader} {f f' : Files} {o : Option Reader} (h : r.Does f o f')
    {id : Nat} (hid : id < f.nextFiller) : f'.fillers.lookup id = f.fillers.lookup id := by
  cases h with
  | opened => exact (HashMap.lookup_insert ..).trans (if_neg (Nat.ne_of_lt hid))
  | look | claim | giveUp | register | moved | deregister => rfl

theorem lookup_fillers_filler {f f' : Files} {id id' : Nat} (h : f.FillerDoes id' f')
    (hne : id ≠ id') : f'.fillers.lookup id = f.fillers.lookup id := by
  cases h with
  | gone => rfl
  | stream | deregister => exact (HashMap.lookup_insert ..).trans (if_neg hne)
  | cleanUp => exact (HashMap.lookup_erase ..).trans (if_neg hne)

/-- A reader stays where it is while others move. -/
theorem lookup_readers_step (hd : s.Driven) {id : Nat} {r : Reader}
    (hr : s.readers.lookup id = some r) {a : Action} (ha : s.step a = some s')
    (hp : ¬ a.IsOf (.inl id)) : s'.readers.lookup id = some r := by
  obtain ⟨id', r', answer, fault, rfl, -, rfl⟩ | ⟨id', fault, rfl, rfl⟩ | hq := step_cases ha
  · dsimp only
    rw [lookup_putReader, if_neg fun he => hp he.symm, hr]
  · exact hr
  · rcases hq.readers with ⟨he, -⟩ | ⟨r', he, -⟩
    · rw [he, hr]
    · rw [he, HashMap.lookup_insert, if_neg (Nat.ne_of_lt (hd.reader id r hr)), hr]

/-- What a step does to a reader: nothing, or it is the reader's own. -/
theorem reader_step (hd : s.Driven) {id : Nat} {r : Reader} (hr : s.readers.lookup id = some r)
    {a : Action} (ha : s.step a = some s') :
    (¬ a.IsOf (.inl id) ∧ s'.readers.lookup id = some r) ∨
      ∃ answer fault, a = .reader id answer fault ∧ s' = { s with
        files := (r.step answer fault s.files).2
        readers := putReader s.readers id (r.step answer fault s.files).1 } := by
  by_cases hp : a.IsOf (.inl id)
  · cases a with
    | reader id' answer fault =>
      cases (show id' = id from hp)
      obtain ⟨r', hr', -, hs⟩ := step_reader ha
      cases hr.symm.trans hr'
      exact .inr ⟨answer, fault, rfl, hs⟩
    | _ => exact hp.elim
  · exact .inl ⟨hp, lookup_readers_step hd hr ha hp⟩

/-- A party keeps its charge while others move. -/
theorem InCharge.waits (hd : s.Driven) {p : Nat ⊕ Nat} {w : Nat ×ₗ Nat} (h : s.InCharge c p w)
    {a : Action} (ha : s.step a = some s') (hp : ¬ a.IsOf p) : s'.InCharge c p w := by
  cases p with
  | inl id =>
    obtain ⟨r, hr, h⟩ := h
    exact ⟨r, lookup_readers_step hd hr ha hp, h⟩
  | inr id =>
    obtain ⟨f, hf, h⟩ := h
    refine ⟨f, ?_, h⟩
    obtain ⟨id', r', answer, fault, rfl, -, rfl⟩ | ⟨id', fault, rfl, rfl⟩ | hq := step_cases ha
    · dsimp only
      rw [lookup_fillers_reader (r'.step_does answer fault s.files) (hd.filler id f hf), hf]
    · dsimp only
      rw [lookup_fillers_filler (s.files.fillerStep_does id' fault) fun he => hp he.symm, hf]
    · rw [hq.fillers, hf]

/-! ## A fill has someone in charge -/

/-- A fill that begins has a reader in charge. -/
theorem running_cases {a : Action} (ha : s.step a = some s') (h : s'.Running c) :
    s.Running c ∨ ∃ p w, s'.InCharge c p w := by
  obtain ⟨id, r, answer, fault, rfl, -, rfl⟩ | ⟨id, fault, rfl, rfl⟩ | hq := step_cases ha
  · unfold Running at h ⊢
    dsimp only at h
    rcases r.fill_step answer fault s.files c with hf | ⟨hc, ⟨-, hr⟩ | hover | ⟨-, hidle⟩⟩
    · exact .inl (hf.symm.trans h)
    · refine .inr ⟨.inl id, _, r.goTo .register, ?_, rfl, hc, rfl⟩
      dsimp only
      rw [lookup_putReader, if_pos rfl, hr]
    · rw [h] at hover
      cases hover
    · exact nomatch hidle.symm.trans h
  · unfold Running at h ⊢
    dsimp only at h
    rcases s.files.fill_fillerStep id fault c with hf | hover
    · exact .inl (hf.symm.trans h)
    · rw [h] at hover
      cases hover
  · exact .inl (hq.running c h)

theorem Driven.step (h : s.Driven) {a : Action} (ha : s.step a = some s') : s'.Driven where
  reader := fun id r hr => by
    obtain ⟨id', r', answer, fault, rfl, hr', rfl⟩ | ⟨id', fault, rfl, rfl⟩ | hq := step_cases ha
    · dsimp only at hr
      rw [lookup_putReader] at hr
      split at hr
      · rename_i he
        rw [he]
        exact h.reader id' r' hr'
      · exact h.reader id r hr
    · exact h.reader id r hr
    · rcases hq.readers with ⟨he, hn⟩ | ⟨r', he, hn⟩
      · rw [hn]
        exact h.reader id r (he ▸ hr)
      · rw [he, HashMap.lookup_insert] at hr
        rw [hn]
        split at hr
        · omega
        · exact Nat.lt_succ_of_lt (h.reader id r hr)
  filler := fun id f hf => by
    obtain ⟨id', r', answer, fault, rfl, hr', rfl⟩ | ⟨id', fault, rfl, rfl⟩ | hq := step_cases ha
    · have hdoes := r'.step_does answer fault s.files
      generalize r'.step answer fault s.files = res at hdoes hf ⊢
      obtain ⟨o, files⟩ := res
      dsimp only at hdoes hf ⊢
      cases hdoes with
      | opened =>
        rw [Files.spawnFiller, HashMap.lookup_insert] at hf
        show id < s.files.nextFiller + 1
        split at hf
        · omega
        · exact Nat.lt_succ_of_lt (h.filler id f hf)
      | look | claim | giveUp | register | moved | deregister => exact h.filler id f hf
    · have hdoes := s.files.fillerStep_does id' fault
      generalize s.files.fillerStep id' fault = files at hdoes hf
      cases hdoes with
      | gone => exact h.filler id f hf
      | stream hl | deregister hl =>
        dsimp only at hf
        rw [HashMap.lookup_insert] at hf
        split at hf
        · rename_i he
          exact he ▸ h.filler id' _ hl
        · exact h.filler id f hf
      | @cleanUp filler hl =>
        have hnext : (s.files.fillerCleanUp filler.inode).nextFiller = s.files.nextFiller := by
          unfold Files.fillerCleanUp
          split <;> rfl
        dsimp only at hf ⊢
        rw [HashMap.lookup_erase] at hf
        split at hf
        · cases hf
        · exact hnext ▸ h.filler id f hf
    · rw [hq.nextFiller]
      exact h.filler id f (hq.fillers ▸ hf)
  charge := fun c hc => by
    rcases running_cases ha hc with hrun | hnew
    · obtain ⟨p, w, hp⟩ := h.charge c hrun
      by_cases hmine : a.IsOf p
      · rcases hp.moves ha hmine with hno | ⟨p', w', -, hp'⟩
        · exact absurd hc hno
        · exact ⟨p', w', hp'⟩
      · exact ⟨p, w, hp.waits h ha hmine⟩
    · exact hnew

/-! ## Without a recovery -/

/-- No reader is about to make a failed fill eligible again. -/
def NoReset (s : Downloads) : Prop := ∀ id r, s.readers.lookup id = some r → r.phase ≠ .reset

/-- The fill of a cache only goes on from `Idle` to `Running` to its end. -/
theorem fill_cases (hno : s.NoReset) (hc : c < s.files.nextCache) {a : Action}
    (ha : s.step a = some s') :
    c < s'.files.nextCache ∧ ((s'.files.cacheAt c).fill = (s.files.cacheAt c).fill ∨
      (s.files.cacheAt c).fill = .idle ∨ (s'.files.cacheAt c).fill.isOver = true) := by
  obtain ⟨id, r, answer, fault, rfl, hr, rfl⟩ | ⟨id, fault, rfl, rfl⟩ | hq := step_cases ha
  · refine ⟨?_, ?_⟩
    · have hnext := (r.step_does answer fault s.files).same.nextCache
      exact hnext ▸ hc
    · rcases r.fill_step answer fault s.files c with hf | ⟨-, ⟨hidle, -⟩ | hover | ⟨hp, -⟩⟩
      · exact .inl hf
      · exact .inr (.inl hidle)
      · exact .inr (.inr hover)
      · exact absurd hp (hno id r hr)
  · refine ⟨?_, ?_⟩
    · have hnext : (s.files.fillerStep id fault).nextCache = s.files.nextCache := by
        have hdoes := s.files.fillerStep_does id fault
        generalize s.files.fillerStep id fault = files at hdoes
        cases hdoes with
        | gone | stream | deregister => rfl
        | @cleanUp filler =>
          show (s.files.fillerCleanUp filler.inode).nextCache = _
          unfold Files.fillerCleanUp
          split <;> rfl
      exact hnext ▸ hc
    · rcases s.files.fill_fillerStep id fault c with hf | hover
      · exact .inl hf
      · exact .inr (.inr hover)
  · exact ⟨Nat.lt_of_lt_of_le hc hq.nextCache, .inl (hq.kept c hc)⟩

end Downloads

/-- How many steps a reader takes at most while no fill goes on. -/
def ReaderPhase.turns : ReaderPhase → Nat
  | .register => 5
  | .openDownload => 4
  | .refused | .openFailed _ => 3
  | .startFill | .deregister => 2
  | .wait | .parked => 1
  | .recover | .reset => 0

/-- Where no fill goes on, a pass does not park: it is answered, or a recovery follows. -/
theorem Reader.afterWait_answers {r : Reader} {fault : Option IoError} {c : SharedSparseCache}
    (hbefore : c.fill ≠ .running) :
    r.afterWait (c.tryRead r.thread r.offset r.size fault).1 = none ∨
      ∃ r', r.afterWait (c.tryRead r.thread r.offset r.size fault).1 = some r' ∧
        r'.phase.turns < 1 := by
  cases ht : (c.tryRead r.thread r.offset r.size fault).1 with
  | none => exact absurd (SharedSparseCache.running_of_tryRead ht) hbefore
  | some result =>
    cases result with
    | ok bytes => exact .inl rfl
    | error failure =>
      unfold Reader.afterWait
      dsimp only
      split
      · exact .inr ⟨_, rfl, Nat.zero_lt_one⟩
      · exact .inl rfl

/-- A reader whose cache has no fill before or after its step has replied or is
closer to that. -/
theorem Reader.answers {r : Reader} {answer : Except Error (List StreamItem)}
    {fault : Option IoError} {f : Files} (hbefore : (f.cacheAt r.cache).fill ≠ .running)
    (hafter : ((r.step answer fault f).2.cacheAt r.cache).fill ≠ .running)
    (hreset : r.phase ≠ .reset)
    (hreset' : ∀ r', (r.step answer fault f).1 = some r' → r'.phase ≠ .reset) :
    (r.step answer fault f).1 = none ∨
      ∃ r', (r.step answer fault f).1 = some r' ∧ r'.phase.turns < r.phase.turns := by
  cases hp : r.phase with
  | startFill =>
    simp only [Reader.step, hp, Files.cacheAt_setCache, if_pos] at hafter ⊢
    cases hs : (f.cacheAt r.cache).startFill.1 with
    | true => exact absurd (SharedSparseCache.fill_startFill hs).2 hafter
    | false => exact .inr ⟨_, rfl, (by decide : 1 < 2)⟩
  | register =>
    simp only [Reader.step, hp]
    refine .inr ⟨_, rfl, ?_⟩
    cases (f.fills.register r.cache).1
    · exact (by decide : 3 < 5)
    · exact (by decide : 4 < 5)
  | refused =>
    simp only [Reader.step, hp]
    exact .inr ⟨_, rfl, (by decide : 1 < 3)⟩
  | openDownload =>
    cases answer with
    | error e =>
      simp only [Reader.step, hp]
      exact .inr ⟨_, rfl, Nat.lt_succ_self 3⟩
    | ok stream =>
      simp only [Reader.step, hp]
      exact .inr ⟨_, rfl, (by decide : 1 < 4)⟩
  | openFailed e =>
    simp only [Reader.step, hp]
    exact .inr ⟨_, rfl, Nat.lt_succ_self 2⟩
  | deregister =>
    simp only [Reader.step, hp]
    exact .inr ⟨_, rfl, (by decide : 1 < 2)⟩
  | wait => simpa [Reader.step, hp, ReaderPhase.turns] using Reader.afterWait_answers hbefore
  | parked => simpa [Reader.step, hp, ReaderPhase.turns] using Reader.afterWait_answers hbefore
  | recover =>
    cases answer with
    | error e =>
      simp only [Reader.step, hp]
      exact .inl trivial
    | ok stream =>
      simp only [Reader.step, hp] at hreset'
      exact absurd rfl (hreset' _ rfl)
  | reset => exact absurd hp hreset

/-! ## Who is parked -/

/-- No step of a reader leaves a thread parked once the fill is over. -/
theorem Reader.waits_step {f : Files} (h : ∀ c, (f.cacheAt c).WaitsForFill) (r : Reader)
    (answer : Except Error (List StreamItem)) (fault : Option IoError) (c : Nat) :
    ((r.step answer fault f).2.cacheAt c).WaitsForFill := by
  have hset : ∀ {v : SharedSparseCache}, v.WaitsForFill →
      ((f.setCache r.cache v).cacheAt c).WaitsForFill := by
    intro v hv
    rw [Files.cacheAt_setCache]
    split
    · exact hv
    · exact h c
  unfold Reader.step
  split <;> dsimp only
  · exact hset (h r.cache).startFill
  · exact h c
  · exact hset (SharedSparseCache.waitsForFill_of_notified fun _ => rfl)
  · split <;> exact h c
  · exact hset (SharedSparseCache.waitsForFill_of_notified fun _ => rfl)
  · exact h c
  · exact hset ((h r.cache).tryRead r.thread r.offset r.size fault)
  · exact hset ((h r.cache).tryRead r.thread r.offset r.size fault)
  · split <;> exact h c
  · exact hset (h r.cache).resetAfterLinkLoss

theorem Files.waits_fillerStep {f : Files} (h : ∀ c, (f.cacheAt c).WaitsForFill) (id : Nat)
    (fault : Option WriteFault) (c : Nat) : ((f.fillerStep id fault).cacheAt c).WaitsForFill := by
  unfold fillerStep
  split
  · exact h c
  · rename_i filler hf
    split
    · exact h c
    · have hcache : (f.fillerCleanUp filler.inode).cacheAt c = f.cacheAt c := by
        unfold fillerCleanUp
        split <;> rfl
      exact hcache.symm ▸ h c
    · show ((f.setCache filler.cache _).cacheAt c).WaitsForFill
      rw [Files.cacheAt_setCache]
      split
      · exact Filler.waitsForFill_streamStep (h filler.cache) filler fault
      · exact h c

theorem Files.waits_stopFills {f : Files} (h : ∀ c, (f.cacheAt c).WaitsForFill) (c : Nat) :
    (f.stopFills.cacheAt c).WaitsForFill := by
  have hfold : ∀ (live : List Nat) (g : Files), (∀ c, (g.cacheAt c).WaitsForFill) →
      ((live.foldl (fun f c => f.setCache c (f.cacheAt c).requestStop) g).cacheAt c).WaitsForFill := by
    intro live
    induction live with
    | nil => exact fun g hg => hg c
    | cons c' live ih =>
      intro g hg
      refine ih _ fun c => ?_
      rw [Files.cacheAt_setCache]
      split
      · exact SharedSparseCache.waitsForFill_of_notified fun _ => rfl
      · exact hg c
  exact hfold f.fills.live f h

namespace Downloads

/-- Whoever is parked waits for a fill that is `Running`. -/
def Waiting (s : Downloads) : Prop := ∀ c, (s.files.cacheAt c).WaitsForFill

variable {s s' : Downloads}

theorem waiting_new : Waiting .new := fun _ => SharedSparseCache.waitsForFill_new 0

theorem Waiting.step (h : s.Waiting) {a : Action} (ha : s.step a = some s') : s'.Waiting := by
  intro c
  cases a with
  | openFile inode =>
    cases ha
    exact h c
  | read inode fh offset size totalSize =>
    simp only [Downloads.step] at ha
    split at ha
    · cases ha
      rcases cacheFor_cases s.files inode totalSize with ⟨c', -, hc⟩ | ⟨-, hc⟩
      · rw [hc]
        exact h c
      · rw [hc]
        show ((s.files.caches.insert s.files.nextCache (.new totalSize)).lookup c |>.getD
          (.new 0)).WaitsForFill
        rw [HashMap.lookup_insert]
        split
        · exact SharedSparseCache.waitsForFill_new totalSize
        · exact h c
    · cases ha
  | reader id answer fault =>
    obtain ⟨r, -, -, rfl⟩ := step_reader ha
    exact r.waits_step h answer fault c
  | wakeUp id =>
    obtain ⟨r, rfl⟩ := step_wakeUp ha
    dsimp only
    rw [Files.cacheAt_setCache]
    split
    · exact (h r.cache).wakeUp r.thread
    · exact h c
  | filler id fault =>
    cases ha
    exact Files.waits_fillerStep h id fault c
  | release fh =>
    simp only [Downloads.step] at ha
    split at ha
    · cases ha
    · cases ha
      exact (Files.closeHandle_frame s.files fh).cacheAt c ▸ h c
  | stop =>
    simp only [Downloads.step] at ha
    split at ha
    · cases ha
      exact Files.waits_stopFills h c
    · cases ha
  | wake timedOut =>
    simp only [Downloads.step] at ha
    split at ha
    · split at ha
      · cases ha
        exact h c
      · split at ha
        · cases ha
          exact h c
        · cases ha
          exact h c
    · cases ha

/-- A reader whose cache is not filled is not parked. -/
theorem Waiting.awake (h : s.Waiting) {r : Reader} (hr : ¬ s.Running r.cache) :
    r.blocked s.files = false := by
  unfold Reader.blocked
  cases hp : (s.files.cacheAt r.cache).isParked r.thread with
  | false => exact Bool.and_false _
  | true => exact absurd (h r.cache r.thread hp) hr

/-- A reader with the slot is not parked. -/
theorem blocked_of_claims {r : Reader} (h : r.claims = true) (f : Files) : r.blocked f = false := by
  unfold Reader.claims at h
  unfold Reader.blocked
  cases hp : r.phase with
  | register | refused | openDownload | openFailed => rfl
  | startFill | deregister | wait | parked | recover | reset => simp [hp] at h

end Downloads

/-! ## Endless schedules -/

/-- The party can take a step: a reader that has not replied and is not parked, a task
that has not ended. -/
def Downloads.Ready (s : Downloads) : Nat ⊕ Nat → Prop
  | .inl id => ∃ r, s.readers.lookup id = some r ∧ r.blocked s.files = false
  | .inr id => (s.files.fillers.lookup id).isSome = true

/-- A schedule that goes on for ever and starves no party that can take a step. -/
structure Endless (x : Execution Downloads.step) : Prop where
  start : x.state 0 = .new
  fair : x.Fair Action.IsOf Downloads.Ready

variable {x : Execution Downloads.step}

theorem driven_of_start (h : x.state 0 = .new) (n : Nat) : (x.state n).Driven :=
  x.invariant (h ▸ Downloads.driven_new) (fun _ _ _ hd ha => hd.step ha) n

theorem Endless.driven (h : Endless x) (n : Nat) : (x.state n).Driven := driven_of_start h.start n

theorem Endless.slots (h : Endless x) (n : Nat) : (x.state n).Slots :=
  x.invariant (h.start ▸ Downloads.slots_new) (fun _ _ _ hs ha => hs.step ha) n

theorem Endless.waiting (h : Endless x) (n : Nat) : (x.state n).Waiting :=
  x.invariant (h.start ▸ Downloads.waiting_new) (fun _ _ _ hw ha => hw.step ha) n

/-- Every fill comes to its end. -/
theorem fill_ends (h : Endless x) (n c : Nat) : ∃ m, n ≤ m ∧ ¬ (x.state m).Running c := by
  by_cases hrun : (x.state n).Running c
  · obtain ⟨p, w, hp⟩ := (h.driven n).charge c hrun
    refine Execution.response Action.IsOf (fun s p w => s.InCharge c p w)
      (Q := fun s => ¬ s.Running c) (fun n p hw => h.fair n p ?_)
      (fun n p w hc hmine => hc.waits (h.driven n) (x.next n) hmine)
      (fun n p w hc hmine => hc.moves (x.next n) hmine) hp
    obtain ⟨w, hw⟩ := hw
    cases p with
    | inl id =>
      obtain ⟨r, hr, hc, -⟩ := hw
      exact ⟨r, hr, Downloads.blocked_of_claims hc _⟩
    | inr id =>
      obtain ⟨f, hf, -⟩ := hw
      exact Option.isSome_iff_exists.mpr ⟨f, hf⟩
  · exact ⟨n, Nat.le_refl n, hrun⟩

/-- Once nothing is recovered any more, a cache is filled at most once. -/
theorem fill_stops (h : Endless x) {n c : Nat} (hc : c < (x.state n).files.nextCache)
    (hno : ∀ m, n ≤ m → (x.state m).NoReset) :
    ∃ k, n ≤ k ∧ ∀ m, k ≤ m → ¬ (x.state m).Running c := by
  have hcache : ∀ m, n ≤ m → c < (x.state m).files.nextCache := by
    intro m hm
    induction m, hm using Nat.le_induction with
    | base => exact hc
    | succ m hm ih => exact (Downloads.fill_cases (hno m hm) ih (x.next m)).1
  have hstep := fun m hm => (Downloads.fill_cases (hno m hm) (hcache m hm) (x.next m)).2
  by_cases hnone : ∀ m, n ≤ m → ¬ (x.state m).Running c
  · exact ⟨n, Nat.le_refl n, hnone⟩
  · push Not at hnone
    obtain ⟨j, hj, hrun⟩ := hnone
    obtain ⟨k, hk, hend⟩ := fill_ends h j c
    have hstarted : ∀ m, j ≤ m → ((x.state m).files.cacheAt c).fill ≠ .idle := by
      intro m hm
      induction m, hm using Nat.le_induction with
      | base =>
        intro hidle
        exact nomatch hrun.symm.trans hidle
      | succ m hm ih =>
        rcases hstep m (Nat.le_trans hj hm) with hf | hidle | hover
        · rw [hf]
          exact ih
        · exact absurd hidle ih
        · intro hidle
          rw [hidle] at hover
          cases hover
    have hover : ∀ m, k ≤ m → ((x.state m).files.cacheAt c).fill.isOver = true := by
      intro m hm
      induction m, hm using Nat.le_induction with
      | base =>
        cases hf : ((x.state k).files.cacheAt c).fill with
        | idle => exact absurd hf (hstarted k hk)
        | running => exact absurd hf hend
        | complete | failed => rfl
      | succ m hm ih =>
        rcases hstep m (Nat.le_trans hj (Nat.le_trans hk hm)) with hf | hidle | hover
        · rw [hf]
          exact ih
        · rw [hidle] at ih
          cases ih
        · exact hover
    refine ⟨k, Nat.le_trans hj hk, fun m hm hrun => ?_⟩
    have hm := hover m hm
    rw [show ((x.state m).files.cacheAt c).fill = .running from hrun] at hm
    cases hm

/-- Every read on the whole-object path is answered, whatever the device sends,
the other reads do and teardown stops, if no filler and no reader that is not parked
is starved and from some time on no link loss is recovered from. -/
theorem read_answered (h : Endless x) (hloss : ∃ k, ∀ m, k ≤ m → (x.state m).NoReset) {n id : Nat}
    {r : Reader} (hr : (x.state n).readers.lookup id = some r) :
    ∃ m, n ≤ m ∧ (x.state m).readers.lookup id = none := by
  obtain ⟨k, hk⟩ := hloss
  by_contra hpending
  push Not at hpending
  -- the reader stays, on one cache
  have hstays : ∀ m, n ≤ m → ∃ r', (x.state m).readers.lookup id = some r' ∧ r'.cache = r.cache := by
    intro m hm
    induction m, hm using Nat.le_induction with
    | base => exact ⟨r, hr, rfl⟩
    | succ m hm ih =>
      obtain ⟨r', hr', hc⟩ := ih
      obtain ⟨r'', hr''⟩ := Option.ne_none_iff_exists'.mp (hpending (m + 1) (by omega))
      refine ⟨r'', hr'', ?_⟩
      rcases Downloads.reader_step (h.driven m) hr' (x.next m) with ⟨-, hs⟩ | ⟨answer, fault, -, hs⟩
      · cases hs.symm.trans hr''
        exact hc
      · rw [hs] at hr''
        dsimp only at hr''
        rw [Downloads.lookup_putReader, if_pos rfl] at hr''
        exact (Reader.step_party hr'').2.2.trans hc
  -- from some time on its cache is not filled
  have hcache : r.cache < (x.state (max n k)).files.nextCache := by
    obtain ⟨r', hr', hc⟩ := hstays (max n k) (Nat.le_max_left n k)
    exact hc ▸ (h.slots (max n k)).read id r' hr'
  obtain ⟨j, hj, hquiet⟩ := fill_stops h hcache fun m hm => hk m (by omega)
  obtain ⟨r', hr', hc'⟩ := hstays j (by omega)
  have hcaches : ∀ {n r''}, (x.state (j + n)).readers.lookup id = some r'' →
      r''.cache = r.cache := by
    intro n r'' hr''
    obtain ⟨r₁, hr₁, hc₁⟩ := hstays (j + n) (by omega)
    cases hr''.symm.trans hr₁
    exact hc₁
  obtain ⟨m, -, hm⟩ := Execution.response (x := x.drop j) (p := ()) (w := r'.phase.turns) (n := 0)
    (fun _ a => a.IsOf (.inl id))
    (fun s _ w => ∃ r'', s.readers.lookup id = some r'' ∧ r''.phase.turns = w)
    (Q := fun _ => False)
    (fun n _ hw => by
      obtain ⟨w, r'', hr'', -⟩ := hw
      -- nobody is parked where nothing is filled
      have hawake := (h.waiting (j + n)).awake (r := r'')
        (hcaches hr'' ▸ hquiet (j + n) (by omega))
      exact h.fair.drop j n (.inl id) ⟨r'', hr'', hawake⟩)
    (fun n _ w hw hmine => by
      obtain ⟨r'', hr'', rfl⟩ := hw
      exact ⟨r'', Downloads.lookup_readers_step (h.driven (j + n)) hr'' (x.next (j + n)) hmine, rfl⟩)
    (fun n _ w hw hmine => by
      obtain ⟨r'', hr'', rfl⟩ := hw
      have hcc := hcaches hr''
      rcases Downloads.reader_step (h.driven (j + n)) hr'' (x.next (j + n)) with
        ⟨hno, -⟩ | ⟨answer, fault, -, hs⟩
      · exact absurd hmine hno
      · have hlookup : (x.state (j + n + 1)).readers.lookup id =
            (r''.step answer fault (x.state (j + n)).files).1 := by
          rw [hs]
          dsimp only
          rw [Downloads.lookup_putReader, if_pos rfl]
        have hafter := hquiet (j + n + 1) (by omega)
        unfold Downloads.Running at hafter
        rw [hs, ← hcc] at hafter
        rcases Reader.answers (r := r'') (hcc ▸ hquiet (j + n) (by omega)) hafter
            (hk (j + n) (by omega) id r'' hr'')
            (fun r₁ hr₁ => hk (j + n + 1) (by omega) id r₁ (hlookup.trans hr₁)) with
          hnone | ⟨r₁, hr₁, hlt⟩
        · exact absurd (hlookup.trans hnone) (hpending (j + n + 1) (by omega))
        · exact .inr ⟨(), _, hlt, r₁, hlookup.trans hr₁, rfl⟩)
    ⟨r', hr', rfl⟩
  exact hm

/-- A file of two bytes is opened, and a read of its second byte parks. The first chunk
wakes it too early, and it parks again. -/
def readTwoBytes : List Action :=
  [.openFile 3, .read 3 1 1 1 2] ++ List.replicate 2 (.reader 0 (.ok []) none) ++
  [.reader 0 (.ok [.ok [1], .ok [2]]) none, .reader 0 (.ok []) none] ++
  List.replicate 2 (.filler 0 none) ++ [.reader 0 (.ok []) none] ++
  List.replicate 7 (.filler 0 none) ++ [.reader 0 (.ok []) none]

/-- The read parks, and is answered. -/
theorem read_answered_parked : ∃ x, Endless x ∧
    (x.state 6).readers.lookup 0 = some ⟨3, 1, 0, 0, 1, 1, 1, .parked⟩ ∧
    ((x.state 6).files.cacheAt 0).isParked 0 = true ∧
    ∃ m, 6 ≤ m ∧ (x.state m).readers.lookup 0 = none := by
  obtain ⟨s, hr, ht⟩ := (Option.any_eq_true _ _).mp
    (show (Transitions.runSteps Downloads.step (fun _ _ => true) .new readTwoBytes).any
      (fun s => decide (s.readers.lookup 0 = none ∧ s.files.fillers.lookup 0 = none)) = true by rfl)
  obtain ⟨hreader, hfiller⟩ := of_decide_eq_true ht
  obtain ⟨x, hlabel, hstates, hend⟩ := Execution.of_script (l := .filler 0 none) readTwoBytes hr (by
    simp only [Downloads.step, Files.fillerStep, hfiller])
  have hstart : x.state 0 = .new := (Option.some.inj (hstates 0 (Nat.zero_le _))).symm
  -- there are one reader and one filler
  have hone : ∀ n, (x.state n).nextReader ≤ 1 ∧ (x.state n).files.nextFiller ≤ 1 := by
    have hall : (List.range 18).all (fun n => (Transitions.runSteps Downloads.step (fun _ _ => true)
        .new (readTwoBytes.take n)).any fun s =>
          decide (s.nextReader ≤ 1 ∧ s.files.nextFiller ≤ 1)) = true := by rfl
    have hle : ∀ n ≤ 17, (x.state n).nextReader ≤ 1 ∧ (x.state n).files.nextFiller ≤ 1 := by
      intro n hn
      have := List.all_eq_true.mp hall n (List.mem_range.mpr (by omega))
      rw [hstates n hn, Option.any_some] at this
      exact of_decide_eq_true this
    intro n
    rcases Nat.le_total n 17 with hn | hn
    · exact hle n hn
    · rw [hend n hn, ← hend 17 (Nat.le_refl 17)]
      exact hle 17 (Nat.le_refl 17)
  have hnoReader : ∀ n, 17 ≤ n → ∀ id, (x.state n).readers.lookup id = none := by
    intro n hn id
    by_contra hne
    obtain ⟨r, hr'⟩ := Option.ne_none_iff_exists'.mp hne
    have hlt := (driven_of_start hstart n).reader id r hr'
    obtain rfl : id = 0 := by have := (hone n).1; omega
    rw [hend n hn, hreader] at hr'
    cases hr'
  have hfair : x.Fair Action.IsOf Downloads.Ready := by
    intro n p hp
    cases p with
    | inl id =>
      obtain ⟨r, hr', -⟩ := hp
      have hlt := (driven_of_start hstart n).reader id r hr'
      obtain rfl : id = 0 := by have := (hone n).1; omega
      refine ⟨16, ?_, by rw [hlabel]; rfl⟩
      by_contra hn
      cases (hnoReader n (by omega) 0).symm.trans hr'
    | inr id =>
      obtain ⟨f, hf⟩ := Option.isSome_iff_exists.mp hp
      have hlt := (driven_of_start hstart n).filler id f hf
      obtain rfl : id = 0 := by have := (hone n).2; omega
      refine ⟨max n 17, Nat.le_max_left n 17, ?_⟩
      rw [hlabel]
      dsimp only
      rw [List.getD_eq_default _ _ (Nat.le_max_right n 17)]
      rfl
  have hx : Endless x := ⟨hstart, hfair⟩
  obtain ⟨hwait, hparked⟩ :
      (x.state 6).readers.lookup 0 = some ⟨3, 1, 0, 0, 1, 1, 1, .parked⟩ ∧
        ((x.state 6).files.cacheAt 0).isParked 0 = true := by
    have h6 := hstates 6 (by decide)
    rw [← Option.some.inj h6]
    exact ⟨rfl, rfl⟩
  exact ⟨x, hx, hwait, hparked,
    read_answered hx ⟨17, fun m hm id r hr' => by cases (hnoReader m hm id).symm.trans hr'⟩ hwait⟩

end MtpMount
