import MtpMount.RangedRead

/-!
# Reads after a re-listing

The cache of an open file has the size that the table held when the cache was
made. A re-listing may change the size in the table, and a read clips at both.

* `readObject_length`: a read gives what lies below the end of the cache;
* `read_exact_iff`: over a run, which reads come out shorter than the table says.
-/

namespace MtpMount

open Interaction

variable {E : Type} {R : Answers Call Answer E} {G : E → Call → Prop}

/-- The size of the cache that a read of the inode finds. -/
def MtpFs.cachedSize (fs : MtpFs) (ino : Nat) : Option Nat :=
  (fs.files.readCache.lookup ino).map fun c => (fs.files.cacheAt c).cache.totalSize

/-! ## A cache keeps its size -/

/-- The cache `c` has this size. -/
def HasTotal (total c : Nat) (fs : MtpFs) (_ : E) : Prop :=
  (fs.files.cacheAt c).cache.totalSize = total

theorem hasTotal_setCache {total c : Nat} {fs : MtpFs} {e : E} {v : SharedSparseCache}
    (hv : v.cache.totalSize = (fs.files.cacheAt c).cache.totalSize) (h : HasTotal total c fs e) :
    HasTotal total c { fs with files := fs.files.setCache c v } e := by
  unfold HasTotal
  rw [Files.cacheAt_setCache, if_pos rfl, hv]
  exact h

theorem askingInvariant_hasTotal (total c : Nat) :
    AskingInvariant R (fun _ _ => True) (HasTotal total c) (fun _ _ => True) where
  link := fun fs => queries_const (fun _ _ _ => trivial)
    ((fs.files.cacheAt c).cache.totalSize = total)
  filler := fun id fault h => (Files.totalSize_fillerStep _ id fault c).trans h
  dropCaches := fun _ h => h

theorem cacheInvariant_hasTotal (total ino : Nat) :
    CacheInvariant R (fun _ _ => True) ino (HasTotal total) (HasTotal total) (fun _ _ => True) where
  having := askingInvariant_hasTotal total
  claimed := askingInvariant_hasTotal total
  cache := fun _ _ hv h => hasTotal_setCache hv h
  claim := fun {fs e c} hs h => by
    refine hasTotal_setCache ?_ h
    unfold SharedSparseCache.startFill
    split <;> rfl
  register := fun h => h
  giveUp := fun _ h => hasTotal_setCache rfl h
  finished := fun h => h
  spawnFiller := fun _ h => h

/-! ## What a read gives -/

section Length

variable {total ino c : Nat} {fs : MtpFs} {e : E}

theorem waitAndRead_length (offset size : Nat) (h : HasTotal total c fs e) :
    Attempt.wp R (fun _ _ => True) (waitAndRead c offset size)
      (fun r fs' e' => HasTotal total c fs' e' ∧
        ∀ data, r = .ok data → data.length = min size (total - offset))
      (fun _ fs' e' => HasTotal total c fs' e') fs e := by
  unfold waitAndRead
  rw [Attempt.wp_bind]
  refine Attempt.wp_mono (runBackground_wp (askingInvariant_hasTotal total c) h) ?_ fun _ _ _ h => h
  intro _ fs₁ e₁ h₁
  rw [Attempt.wp_bind]
  refine tell_wp.mpr ⟨trivial, fun fault e₂ _ => ?_⟩
  rw [Attempt.wp_bind, onCache_wp]
  have hread : ∀ data, ((fs₁.files.cacheAt c).tryRead sessionThread offset size fault).1 =
        some (.ok data) →
      data.length = min size ((fs₁.files.cacheAt c).cache.totalSize - offset) :=
    fun _ => SharedSparseCache.length_tryRead
  have hsize := (fs₁.files.cacheAt c).totalSize_tryRead sessionThread offset size fault
  split
  · rename_i r heq
    refine ⟨hasTotal_setCache hsize h₁, fun data hr => ?_⟩
    rw [← h₁]
    exact hread data (heq.trans (congrArg some hr))
  · exact (Attempt.wp_lift _).mpr (wp_hangs.mpr trivial)

/-- A turn gives the right number of bytes when its retry does. -/
theorem readFullTurn_length (offset size : Nat) {retry : FsM Bytes}
    (hretry : ∀ fs e, HasTotal total c fs e → Attempt.wp R (fun _ _ => True) retry
      (fun data _ _ => data.length = min size (total - offset)) (fun _ _ _ => True) fs e)
    (h : HasTotal total c fs e) :
    Attempt.wp R (fun _ _ => True) (readFullTurn ino c offset size retry)
      (fun data _ _ => data.length = min size (total - offset)) (fun _ _ _ => True) fs e := by
  unfold readFullTurn
  rw [Attempt.wp_bind]
  refine Attempt.wp_mono (keeps_ensureFullFillRunning (cacheInvariant_hasTotal total ino) fs e h) ?_
    fun _ _ _ _ => trivial
  intro _ fs₁ e₁ h₁
  rw [Attempt.wp_bind]
  refine Attempt.wp_mono (waitAndRead_length offset size h₁) ?_ fun _ _ _ _ => trivial
  rintro (failure | data) fs₂ e₂ ⟨h₂, hdata⟩
  · dsimp only
    split
    · exact hretry fs₂ e₂ h₂
    · trivial
  · exact hdata data rfl

theorem readFull_length (offset size retries : Nat) (h : HasTotal total c fs e) :
    Attempt.wp R (fun _ _ => True) (readFull ino c offset size retries)
      (fun data _ _ => data.length = min size (total - offset)) (fun _ _ _ => True) fs e := by
  induction retries generalizing fs e with
  | zero => exact readFullTurn_length offset size (fun _ _ _ => trivial) h
  | succ n ih =>
    refine readFullTurn_length offset size (fun fs₁ e₁ h₁ => ?_) h
    have hasks := askingInvariant_hasTotal (R := R) total c
    rw [Attempt.wp_bind]
    refine Attempt.wp_mono (runBackground_wp hasks h₁) ?_ fun _ _ _ h => h
    intro _ fs₂ e₂ h₂
    rw [Attempt.wp_bind, orIoError_wp]
    refine Attempt.wp_mono (keeps_recoverFullFillLink (hasks.link fs₂).toResolving ino _ _ h₂) ?_
      fun _ _ _ _ => trivial
    intro _ l e₃ h₃
    rw [Attempt.wp_bind]
    refine Attempt.wp_mono (runBackground_wp hasks h₃) ?_ fun _ _ _ h => h
    intro _ fs₄ e₄ h₄
    rw [Attempt.wp_bind, onCache_wp]
    split
    · exact ih (hasTotal_setCache (SharedSparseCache.totalSize_resetAfterLinkLoss _) h₄)
    · trivial

theorem readRanged_length (entrySize offset size : Nat) (h : HasTotal total c fs e) :
    Attempt.wp R (fun _ _ => True) (readRanged ino c entrySize offset size)
      (fun data _ _ => data.length = min size (total - offset)) (fun _ _ _ => True) fs e := by
  unfold readRanged
  rw [Attempt.wp_bind, Attempt.wp_get, Attempt.wp_bind]
  refine Attempt.wp_mono (keeps_fetchRanges (cacheInvariant_hasTotal total ino) entrySize _ fs e h) ?_
    fun _ _ _ _ => trivial
  intro _ fs₁ e₁ h₁
  rw [Attempt.wp_bind, Attempt.wp_get, Attempt.wp_bind, refuseIf_wp]
  refine ⟨fun _ => trivial, fun _ => ?_⟩
  rw [Attempt.wp_bind]
  refine tell_wp.mpr ⟨trivial, fun fault e₂ _ => ?_⟩
  rw [Attempt.wp_bind, onCache_wp]
  have hread : ∀ data, ((fs₁.files.cacheAt c).cache.readAt offset size fault).1 = .ok data →
      data.length = min size ((fs₁.files.cacheAt c).cache.totalSize - offset) :=
    fun _ => SparseCache.length_readAt
  split
  · rename_i data heq
    have hlen := hread data heq
    rw [h₁] at hlen
    exact hlen
  · trivial

/-- A read gives what lies below the end of the cache it finds, or of the file when
there is none yet. -/
theorem readObject_length {entry : InodeEntry} {offset size : Nat}
    (he : fs.link.inodes.get ino = some entry) (hsize : 0 < size) (ho : offset < entry.size) :
    Attempt.wp R (fun _ _ => True) (readObject ino offset size)
      (fun data _ _ => data.length = min size ((fs.cachedSize ino).getD entry.size - offset))
      (fun _ _ _ => True) fs e := by
  have hmade : Attempt.wp R (fun _ _ => True) (cacheFor ino entry.size)
      (fun c fs' e' => HasTotal ((fs.cachedSize ino).getD entry.size) c fs' e')
      (fun _ _ _ => True) fs e := by
    unfold cacheFor MtpFs.cachedSize
    rw [Attempt.wp_bind, Attempt.wp_get]
    cases hc : fs.files.readCache.lookup ino with
    | some c => exact rfl
    | none =>
      dsimp only
      rw [Attempt.wp_bind]
      refine tell_wp.mpr ⟨trivial, fun fault e₁ _ => ?_⟩
      rw [Attempt.wp_bind, refuseIf_wp]
      refine ⟨fun _ => trivial, fun _ => ?_⟩
      rw [onFiles_wp]
      unfold HasTotal Files.addCache Files.cacheAt
      dsimp only
      rw [HashMap.lookup_insert, if_pos rfl]
      rfl
  unfold readObject
  rw [Attempt.wp_bind, Attempt.wp_get]
  simp only [he]
  rw [Attempt.wp_bind, refuseIf_wp]
  refine ⟨fun _ => trivial, fun _ => ?_⟩
  rw [if_neg (by omega), Attempt.wp_bind]
  refine Attempt.wp_mono hmade ?_ fun _ _ _ _ => trivial
  intro c fs₁ e₁ h₁
  split
  · trivial
  · exact readFull_length offset size 1 h₁
  · exact readRanged_length entry.size offset size h₁

end Length

/-! ## The reads of a run -/

/-- What a run of the mount does: every callback with the state it finds and its reply. -/
inductive Callbacks (R : Answers Call Answer E) (fs₀ : MtpFs) (e₀ : E) :
    List (MtpFs × Callback × Reply) → MtpFs → E → Prop
  | start : Callbacks R fs₀ e₀ [] fs₀ e₀
  | next {steps : List (MtpFs × Callback × Reply)} {fs fs' : MtpFs} {e e' : E} {c : Callback}
      {r : Reply} : Callbacks R fs₀ e₀ steps fs e → Prog.Ends R (dispatch c fs) e (r, fs') e' →
      Callbacks R fs₀ e₀ (steps ++ [(fs, c, r)]) fs' e'

/-- Every run is one, whatever the callbacks were allowed by. -/
theorem Callbacks.of_served {ok : List (Callback × Reply) → MtpFs → E → Callback → Prop}
    {fs₀ fs : MtpFs} {e₀ e : E} {h : List (Callback × Reply)}
    (hs : Served R dispatch ok fs₀ e₀ h fs e) :
    ∃ steps, Callbacks R fs₀ e₀ steps fs e ∧ steps.map Prod.snd = h := by
  induction hs with
  | start => exact ⟨[], .start, rfl⟩
  | next _ _ hend ih =>
    obtain ⟨steps, hc, rfl⟩ := ih
    exact ⟨_, hc.next hend, List.map_append⟩

theorem Callbacks.mem {fs₀ fs' : MtpFs} {e₀ e' : E} {steps : List (MtpFs × Callback × Reply)}
    (h : Callbacks R fs₀ e₀ steps fs' e') {fs : MtpFs} {c : Callback} {r : Reply}
    (hmem : (fs, c, r) ∈ steps) : ∃ e fs₁ e₁, Prog.Ends R (dispatch c fs) e (r, fs₁) e₁ := by
  induction h with
  | start => cases hmem
  | next _ hend ih =>
    rcases List.mem_append.mp hmem with hmem | hmem
    · exact ih hmem
    · cases List.mem_singleton.mp hmem
      exact ⟨_, _, _, hend⟩

/-- A request that is clipped at two ends comes out the same when they agree or it
reaches neither. -/
theorem clip_eq_iff {total entrySize offset size : Nat} (hsize : 0 < size) (ho : offset < entrySize) :
    min size (total - offset) = min size (entrySize - offset) ↔
      total = entrySize ∨ offset + size ≤ total ∧ offset + size ≤ entrySize := by
  omega

/-- A phone on which the file `a` has grown to five bytes since it was listed. -/
def grownPhone (_ : List Event) : (c : Call) → Option (Answer c)
  | .listObjects .. => some (.ok [⟨⟨7⟩, "a", false, 5, none⟩])
  | .readRange .. => some (.ok [1, 2, 3])
  | c => undisturbed c

/-- The file is opened and read, and its folder is listed again. -/
def rereading : List Callback :=
  [.openFile 3 .readOnly, .read 3 1 0 3, .lookup 2 (some "a")]

/-- One more read of that run, with what was tested of the state before it. -/
theorem Callbacks.reread (size : Nat) (bytes : Bytes)
    (ht : (Interaction.serveAll (script grownPhone) dispatch [] rereading listedCard []).any
      (fun t => ((dispatch (.read 3 1 0 size) t.2.1).runWith (script grownPhone) t.2.2).any fun r =>
        decide (r.1.1 = .data bytes ∧ t.2.1.writeBuf.isOpen 1 = false ∧
          (t.2.1.link.inodes.get 3).map InodeEntry.size = some 5)) = true) :
    ∃ steps fs e, Callbacks AnyAnswer listedCard [] steps fs e ∧
      ∃ s entry, (s, .read 3 1 0 size, .data bytes) ∈ steps ∧ s.writeBuf.isOpen 1 = false ∧
        s.link.inodes.get 3 = some entry ∧ entry.size = 5 := by
  obtain ⟨⟨h, fs, tr⟩, hrun, ht⟩ := (Option.any_eq_true _ _).mp ht
  obtain ⟨⟨⟨r, fs'⟩, tr'⟩, hread, ht⟩ := (Option.any_eq_true _ _).mp ht
  obtain ⟨rfl, hbuf, hsome⟩ := of_decide_eq_true ht
  obtain ⟨entry, he, hsize⟩ := Option.map_eq_some_iff.mp hsome
  have hserved : MountRun AnyAnswer listedCard h fs tr :=
    Served.serveAll (anyAnswer_of_script grownPhone) (fun _ _ _ _ _ => trivial) .start hrun
  obtain ⟨steps, hsteps, -⟩ := Callbacks.of_served hserved
  exact ⟨_, fs', tr', hsteps.next (Prog.runWith_ends (anyAnswer_of_script grownPhone) hread), fs,
    entry, List.mem_append_right _ List.mem_cons_self, hbuf, he, hsize⟩

/-- Which reads of a run are as long as the table says: those that find no cache, or
one of the size in the table, or one that reaches as far as the request where the
file does too. -/
theorem read_exact_iff {fs₀ fs' : MtpFs} {e₀ e' : E} {steps : List (MtpFs × Callback × Reply)}
    (h : Callbacks R fs₀ e₀ steps fs' e') {fs : MtpFs} {ino fh offset size : Nat} {bytes : Bytes}
    (hread : (fs, .read ino fh offset size, .data bytes) ∈ steps)
    (hbuf : fs.writeBuf.isOpen fh = false) {entry : InodeEntry}
    (he : fs.link.inodes.get ino = some entry) (hsize : 0 < size) (ho : offset < entry.size) :
    bytes.length = min size (entry.size - offset) ↔ ∀ total, fs.cachedSize ino = some total →
      total = entry.size ∨ offset + size ≤ total ∧ offset + size ≤ entry.size := by
  obtain ⟨e, fs₁, e₁, hend⟩ := h.mem hread
  have hwp : Act.wp R (fun _ _ => True) (dispatch (.read ino fh offset size))
      (fun r _ _ => ∀ data, r = .data data →
        data.length = min size ((fs.cachedSize ino).getD entry.size - offset)) fs e := by
    refine dispatch_wp.mpr ?_
    show Attempt.wp R _ (readFile ino fh offset size) _ _ fs e
    unfold readFile
    rw [Attempt.wp_bind, Attempt.wp_get, hbuf, if_neg Bool.false_ne_true, Attempt.wp_map]
    refine Attempt.wp_mono (readObject_length he hsize ho) ?_ ?_
    · rintro data _ _ hlen data' hdata
      cases hdata
      exact hlen
    · rintro err _ _ _ data hdata
      cases hdata
  have hlen := Act.wp_ends hwp hend
  rw [hlen bytes rfl]
  cases hc : fs.cachedSize ino with
  | none => simp
  | some total =>
    rw [Option.getD_some, clip_eq_iff hsize ho]
    constructor
    · rintro hfits total' heq
      cases heq
      exact hfits
    · exact fun hfits => hfits total rfl

/-- A read of what the cache has. -/
theorem read_exact_iff_within : ∃ steps fs e, Callbacks AnyAnswer listedCard [] steps fs e ∧
    ∃ s bytes, (s, .read 3 1 0 2, .data bytes) ∈ steps ∧
      (bytes.length = 2 ↔ ∀ total, s.cachedSize 3 = some total →
        total = 5 ∨ 0 + 2 ≤ total ∧ 0 + 2 ≤ 5) := by
  obtain ⟨steps, fs, e, hrun, s, entry, hread, hbuf, he, hsize⟩ :=
    Callbacks.reread 2 [1, 2] (by rfl)
  have hiff := read_exact_iff hrun hread hbuf he (by decide) (by rw [hsize]; decide)
  rw [hsize] at hiff
  exact ⟨steps, fs, e, hrun, s, [1, 2], hread, hiff⟩

/-- A read of the whole file ends where the cache does. -/
theorem read_short : ∃ steps fs e, Callbacks AnyAnswer listedCard [] steps fs e ∧
    ∃ s bytes entry, (s, .read 3 1 0 5, .data bytes) ∈ steps ∧ s.writeBuf.isOpen 1 = false ∧
      s.link.inodes.get 3 = some entry ∧ 0 < entry.size ∧
      bytes.length ≠ min 5 (entry.size - 0) := by
  obtain ⟨steps, fs, e, hrun, s, entry, hread, hbuf, he, hsize⟩ :=
    Callbacks.reread 5 [1, 2, 3] (by rfl)
  refine ⟨steps, fs, e, hrun, s, [1, 2, 3], entry, hread, hbuf, he, ?_, ?_⟩
  · rw [hsize]
    decide
  · rw [hsize]
    decide

end MtpMount
