import MtpMount.Error
import MtpMount.Lib.Interaction
import MtpMount.Mounts

/-!
# Taking mounts down

What the daemon asks of the operating system, and the functions that take a mount
down on it. Between two requests others may act: mounts go away late or by hand,
and time passes. What the requests to unmount do and report is left open. Looking is
trusted: `lstat` at a mount, `stat` at the root, and a listing of the root if it does
not fail.

* `isMountpoint_wp`: a path that is found not to be a mount point is not mounted;
* `forceUnmount_wp`: whatever it reports, nothing is mounted that was not;
* `waitUntilUnmounted_wp`: the wait ends, and when it says so the path is free;
* `cleanStaleMounts_wp`: what the sweep leaves mounted it warns of, or it could not read
  the root and warns of that.
-/

namespace MtpMount

open Interaction

namespace Os

/-! ## The requests -/

inductive OsError where
  | noEntry
  | notConnected
  | invalidInput
  | os (code : Nat)
  deriving DecidableEq, Repr

structure Metadata where
  isDir : Bool
  dev : Nat
  deriving DecidableEq, Repr

structure DirEntry where
  name : String
  /-- `file_type`, as whether it is a directory. -/
  isDir : Except OsError Bool

inductive Level where
  | debug
  | info
  | warn
  | error
  deriving DecidableEq, Repr

/-- What the daemon logs, by what it says. -/
inductive Message where
  | fallingBack (path : PathBuf) (e : OsError)
  | helperExited (helper : String) (path : PathBuf)
  | helperNotRun (helper : String) (e : OsError)
  | cantCheck (root : PathBuf) (e : OsError)
  | cleaning (path : PathBuf)
  | cantUnmountLeftover (path : PathBuf) (e : OsError)
  | leftoverMounted (path : PathBuf)
  | leaving (path : PathBuf) (e : OsError)
  | cleanedUp (path : PathBuf)
  | watching (root : PathBuf)
  | cantCreateRoot (root : PathBuf) (e : OsError)
  | alreadyMounted (label : String) (path : PathBuf)
  | cantCreate (path : PathBuf) (e : OsError)
  | cantOpen (label : String) (e : Error)
  | cantMount (label : String) (path : PathBuf) (e : OsError)
  | mounted (label : String) (path : PathBuf)
  | nothingMounted (key reason : String)
  | unmounting (label : String) (path : PathBuf) (reason : String)
  | cantUnmount (path : PathBuf) (e : OsError)
  | downloadFinishing (label : String) (seconds : Nat)
  | stillThere (label : String) (path : PathBuf) (e : OsError)
  | stillMounted (path : PathBuf) (seconds : Nat)
  | shuttingDown (reason : String)
  | stopped
  deriving DecidableEq, Repr

inductive Call where
  | readDir (path : PathBuf)
  /-- Does not follow links. -/
  | symlinkMetadata (path : PathBuf)
  | metadata (path : PathBuf)
  /-- `umount2(MNT_DETACH)`. -/
  | detach (path : PathBuf)
  /-- Runs a `fusermount` with `-u -q -z`. -/
  | helper (name : String) (path : PathBuf)
  | removeDir (path : PathBuf)
  | createDirAll (path : PathBuf)
  | now
  | sleep (millis : Nat)
  | log (level : Level) (message : Message)
  | startRuntime
  | spawnHotplugWatch
  | openDevice (ident : DeviceIdent)
  | spawnMount (path : PathBuf)
  /-- Sets the stop flag of the session's watcher. -/
  | stopWatcher (session : Nat)
  /-- Stops the session's downloads and waits for them. -/
  | stopFills (session : Nat) (millis : Nat)
  /-- `umount_and_join`, on a thread of its own. -/
  | umountAndJoin (session : Nat)
  /-- Never comes back. -/
  | hang

abbrev Answer : Call → Type
  | .readDir _ => Except OsError (List (Except OsError DirEntry))
  | .symlinkMetadata _ | .metadata _ => Except OsError Metadata
  | .detach _ | .removeDir _ | .createDirAll _ | .spawnMount _ => Except OsError Unit
  -- whether the exit status is a success
  | .helper .. => Except OsError Bool
  | .now => Nat
  | .sleep _ | .log .. | .stopWatcher _ | .umountAndJoin _ => Unit
  | .startRuntime | .spawnHotplugWatch => Except OsError Unit
  | .openDevice _ => Except Error Unit
  -- whether they ended in time
  | .stopFills .. => Bool
  | .hang => Empty

variable {σ : Type}

def call (c : Call) : Act Call Answer σ (Answer c) := perform c

def log (level : Level) (message : Message) : Act Call Answer σ Unit := call (.log level message)

/-! ## The functions -/

/-- None for the root directory and for the empty path. -/
def parent (path : PathBuf) : Option PathBuf :=
  if path = [] ∨ path = [.rootDir] then none else some path.dropLast

/-- Whether a filesystem is mounted on the path. -/
def isMountpoint (path : PathBuf) : Act Call Answer σ Bool := do
  match ← call (.symlinkMetadata path) with
  | .error e => return e = .notConnected
  | .ok metadata =>
    if !metadata.isDir then
      return false
    match parent path with
    | none => return false
    | some parent =>
      match ← call (.metadata parent) with
      | .ok parent => return parent.dev ≠ metadata.dev
      | .error _ => return false

def hasNul (path : PathBuf) : Bool :=
  path.any fun
    | .normal name => name.toList.contains (Char.ofNat 0)
    | _ => false

/-- Whether one of the helpers reports success; the later ones are not run then. -/
def runHelpers (path : PathBuf) : List String → Act Call Answer σ Bool
  | [] => return false
  | helper :: helpers => do
    match ← call (.helper helper path) with
    | .ok true => return true
    | .ok false => log .debug (.helperExited helper path)
    | .error e => log .debug (.helperNotRun helper e)
    runHelpers path helpers

/-- Unmounts whether or not anything is using the mount: the system call first, then the
setuid helpers. -/
def forceUnmount (path : PathBuf) : Act Call Answer σ (Except OsError Unit) := do
  if hasNul path then
    return .error .invalidInput
  match ← call (.detach path) with
  | .ok () => return .ok ()
  | .error syscallError =>
    log .debug (.fallingBack path syscallError)
    if ← runHelpers path ["fusermount3", "fusermount"] then
      return .ok ()
    if ← isMountpoint path then
      return .error syscallError
    return .ok ()

/-- In milliseconds, as all times here. -/
def POLL_INTERVAL : Nat := 20

/-- The loop of `waitUntilUnmounted`. -/
def pollMount (path : PathBuf) (deadline : Nat) : Nat → Act Call Answer σ Bool
  | 0 => call .hang >>= nofun
  | fuel + 1 => do
    if !(← isMountpoint path) then
      return true
    if (← call .now) ≥ deadline then
      return false
    call (.sleep POLL_INTERVAL)
    pollMount path deadline fuel

/-- Asks again until the path is no mount point any more, or the time is up. -/
def waitUntilUnmounted (path : PathBuf) (timeout : Nat) : Act Call Answer σ Bool := do
  let now ← call .now
  pollMount path (now + timeout) (timeout / POLL_INTERVAL + 2)

def SWEEP_TIMEOUT : Nat := 5000

/-- Logs the error, if it is one. -/
def report (level : Level) (message : OsError → Message) : Except OsError Unit → Act Call Answer σ Unit
  | .error e => log level (message e)
  | .ok () => return

/-- A directory with files in it stays. -/
def removeLeftover (path : PathBuf) : Act Call Answer σ Unit := do
  report .debug (.leaving path) (← call (.removeDir path))

/-- The sweep at one entry of the root. -/
def sweepEntry (root : PathBuf) (cleaned : List PathBuf) (entry : DirEntry) :
    Act Call Answer σ (List PathBuf) := do
  if !entry.isDir.toOption.getD false then
    return cleaned
  let path := root.join entry.name
  let mut cleaned := cleaned
  if ← isMountpoint path then
    log .info (.cleaning path)
    if let .error e := ← forceUnmount path then
      log .warn (.cantUnmountLeftover path e)
      return cleaned
    if !(← waitUntilUnmounted path SWEEP_TIMEOUT) then
      log .warn (.leftoverMounted path)
      return cleaned
    cleaned := cleaned ++ [path]
  removeLeftover path
  return cleaned

def sweep (root : PathBuf) : List DirEntry → List PathBuf → Act Call Answer σ (List PathBuf)
  | [], cleaned => return cleaned
  | entry :: entries, cleaned => do
    let cleaned ← sweepEntry root cleaned entry
    sweep root entries cleaned

/-- Takes down what a daemon before this one left mounted, one level below its root. -/
def cleanStaleMounts (root : PathBuf) : Act Call Answer σ (List PathBuf) := do
  match ← call (.readDir root) with
  | .error .noEntry => return []
  | .error e =>
    log .warn (.cantCheck root e)
    return []
  | .ok entries => sweep root (entries.filterMap Except.toOption) []

/-! ## The kernel -/

structure Kernel where
  /-- What is mounted one level below the mount root. -/
  mounts : List PathBuf
  clock : Nat
  /-- What the daemon has logged, oldest first. -/
  log : List (Level × Message)

/-- The message says that the path stays mounted, or may. -/
def Message.warns (path : PathBuf) : Message → Bool
  | .cantUnmountLeftover p _ | .leftoverMounted p | .stillMounted p _ => p = path
  | _ => false

/-- The message says that nobody looks for what was left at the path: the root it is
under cannot be read. -/
def Message.passesOver (path : PathBuf) : Message → Bool
  | .cantCheck root _ => path.dropLast = root
  | _ => false

/-- The message says that the path is mounted from now on. -/
def Message.announces (path : PathBuf) : Message → Bool
  | .mounted _ p => p = path
  | _ => false

/-- Whether this has been said of the path, after one more message. -/
def toldAfter (kind : PathBuf → Message → Bool) (path : PathBuf) (told : Bool)
    (entry : Level × Message) : Bool :=
  !entry.2.announces path && (told || kind path entry.2)

namespace Kernel

/-- The daemon has said this of the path, and has not mounted on it since. -/
def told (k : Kernel) (kind : PathBuf → Message → Bool) (path : PathBuf) : Bool :=
  k.log.foldl (toldAfter kind path) false

/-- It was warned that the path stays mounted. -/
def warned (k : Kernel) (path : PathBuf) : Bool := k.told Message.warns path

/-- It was warned of the root that the path is under, which could not be read. The daemon
has not mounted on the path, so what is mounted there was left from before. -/
def passedOver (k : Kernel) (path : PathBuf) : Bool := k.told Message.passesOver path

/-- What is said of a mount that is not in the map. -/
def Disclosed (k : Kernel) (path : PathBuf) : Prop := k.warned path = true ∨ k.passedOver path = true

/-- What others may do: take mounts down, and take time. -/
structure Passes (k k' : Kernel) : Prop where
  mounts : k'.mounts ⊆ k.mounts
  clock : k.clock ≤ k'.clock
  log : k'.log = k.log

/-- The answers to a request. `dev` is the device number of the filesystem that the
root is on. -/
def Serves (root : PathBuf) (dev : Nat) (k : Kernel) : (c : Call) → Answer c → Kernel → Prop
  | .readDir path, answer, k' => k' = k ∧ (path = root → match answer with
    -- a mount point is listed as a directory, also when nothing serves it
    | .ok entries => ∀ p ∈ k.mounts, ∃ name, p = root.join name ∧ .ok ⟨name, .ok true⟩ ∈ entries
    | .error e => e = .noEntry → k.mounts = [])
  | .symlinkMetadata path, answer, k' => k' = k ∧ (path ∈ k.mounts →
      answer = .error .notConnected ∨ ∃ d, answer = .ok ⟨true, d⟩ ∧ d ≠ dev)
  | .metadata path, answer, k' => k' = k ∧ (path = root → k.mounts ≠ [] →
      answer = .ok ⟨true, dev⟩)
  | .now, answer, k' => answer = k.clock ∧ k' = k
  | .sleep millis, _, k' => k' = { k with clock := k.clock + millis }
  | .log level message, _, k' => k' = { k with log := k.log ++ [(level, message)] }
  | .spawnMount path, answer, k' =>
    k' = if answer.isOk then { k with mounts := path :: k.mounts } else k
  | .detach _, _, k' | .helper .., _, k' | .umountAndJoin _, _, k' => k.Passes k'
  | _, _, k' => k' = k

/-- Others act, then the request is served. -/
def Answers (root : PathBuf) (dev : Nat) : Interaction.Answers Call Answer Kernel :=
  fun k c answer k' => ∃ k₁, k.Passes k₁ ∧ k₁.Serves root dev c answer k'

/-- Nothing hangs, and nothing is changed but at the root and one level below it. -/
def Permits (root : PathBuf) (_ : Kernel) : Call → Prop
  | .hang => False
  | .detach path | .helper _ path | .spawnMount path => ∃ name, path = root.join name
  | .removeDir path | .createDirAll path => path = root ∨ ∃ name, path = root.join name
  | _ => True

/-- What requests that mount nothing leave: no new mounts, and no fewer warnings. -/
structure Later (k k' : Kernel) : Prop where
  mounts : k'.mounts ⊆ k.mounts
  clock : k.clock ≤ k'.clock
  told : ∀ kind p, k.told kind p = true → k'.told kind p = true

variable {k k' k₁ : Kernel}

theorem Later.refl (k : Kernel) : k.Later k := ⟨fun _ h => h, Nat.le_refl _, fun _ _ h => h⟩

theorem Later.trans (h : k.Later k₁) (h' : k₁.Later k') : k.Later k' where
  mounts := fun _ hp => h.mounts (h'.mounts hp)
  clock := Nat.le_trans h.clock h'.clock
  told := fun kind p hp => h'.told kind p (h.told kind p hp)

theorem Passes.later (h : k.Passes k') : k.Later k' where
  mounts := h.mounts
  clock := h.clock
  told := fun kind p hp => by rwa [told, h.log]

theorem Later.disclosed (h : k.Later k') {p : PathBuf} (hp : k.Disclosed p) : k'.Disclosed p :=
  hp.imp (h.told _ p) (h.told _ p)

theorem Passes.of_eq (h : k' = k) : k.Passes k' := h ▸ ⟨fun _ hp => hp, Nat.le_refl _, rfl⟩

theorem Passes.trans (h : k.Passes k₁) (h' : k₁.Passes k') : k.Passes k' where
  mounts := fun _ hp => h.mounts (h'.mounts hp)
  clock := Nat.le_trans h.clock h'.clock
  log := h'.log.trans h.log

theorem told_log (k : Kernel) (kind : PathBuf → Message → Bool) (path : PathBuf)
    (entry : Level × Message) :
    told { k with log := k.log ++ [entry] } kind path = toldAfter kind path (k.told kind path) entry := by
  rw [told, List.foldl_append]
  rfl

end Kernel

open Kernel

/-! ## What the functions leave -/

theorem parent_join (root : PathBuf) (name : String) : parent (root.join name) = some root := by
  have hne : root.join name ≠ [] ∧ root.join name ≠ [.rootDir] := by
    cases root <;> simp [PathBuf.join]
  rw [parent, if_neg (by simp [hne]), PathBuf.join, List.dropLast_concat]

section Rules

variable {root : PathBuf} {dev : Nat} {s : σ} {k : Kernel}

theorem wp_call {c : Call} {Q : Answer c → σ → Kernel → Prop} :
    Act.wp (Answers root dev) (Permits root) (call c) Q s k ↔
      Permits root k c ∧ ∀ a k', Answers root dev k c a k' → Q a s k' := Iff.rfl

/-- A message that announces no mount. -/
theorem log_wp {level : Level} {message : Message} {Q : Unit → σ → Kernel → Prop}
    (hm : ∀ p, message.announces p = false)
    (h : ∀ k', k.Later k' → (∀ kind p, kind p message = true → k'.told kind p = true) → Q () s k') :
    Act.wp (Answers root dev) (Permits root) (log level message) Q s k := by
  refine wp_call.mpr ⟨trivial, ?_⟩
  rintro ⟨⟩ _ ⟨k₁, hp, rfl⟩
  have hlog : ∀ kind p, told { k₁ with log := k₁.log ++ [(level, message)] } kind p =
      (k₁.told kind p || kind p message) := by
    intro kind p
    rw [told_log, toldAfter, hm p]
    rfl
  refine h _ (hp.later.trans ⟨fun _ hp => hp, Nat.le_refl _, fun kind p hw => ?_⟩) fun kind p hw => ?_
  · rw [hlog, hw, Bool.true_or]
  · rw [hlog, hw, Bool.or_true]

theorem report_wp {level : Level} {message : OsError → Message} {r : Except OsError Unit}
    {Q : Unit → σ → Kernel → Prop} (hm : ∀ e p, (message e).announces p = false)
    (h : ∀ k', k.Later k' → Q () s k') :
    Act.wp (Answers root dev) (Permits root) (report level message r) Q s k := by
  cases r with
  | ok _ => exact h k (.refl k)
  | error e => exact log_wp (hm e) fun k' hk' _ => h k' hk'

/-- A request that at most takes mounts down. -/
theorem call_wp {c : Call} {Q : Answer c → σ → Kernel → Prop} (hc : Permits root k c)
    (hs : ∀ k₁ a k', Serves root dev k₁ c a k' → k₁.Passes k')
    (h : ∀ a k', k.Later k' → Q a s k') :
    Act.wp (Answers root dev) (Permits root) (call c) Q s k :=
  wp_call.mpr ⟨hc, fun a k' ⟨k₁, hp, hserves⟩ => h a k' (hp.trans (hs k₁ a k' hserves)).later⟩

/-- Only a path where nothing is mounted is found to be no mount point. -/
theorem isMountpoint_wp {name : String} {Q : Bool → σ → Kernel → Prop}
    (h : ∀ b k', k.Later k' → (b = false → root.join name ∉ k'.mounts) → Q b s k') :
    Act.wp (Answers root dev) (Permits root) (isMountpoint (root.join name)) Q s k := by
  rw [isMountpoint, Act.wp_bind]
  refine wp_call.mpr ⟨trivial, ?_⟩
  rintro answer _ ⟨k₁, hp, rfl, hanswer⟩
  cases answer with
  | error e =>
    refine h _ _ hp.later fun hb hm => ?_
    rcases hanswer hm with he | ⟨d, hd, -⟩
    · cases he
      simp at hb
    · cases hd
  | ok metadata =>
    dsimp only
    split
    · rename_i hdir
      refine h _ _ hp.later fun _ hm => ?_
      rcases hanswer hm with he | ⟨d, hd, -⟩
      · cases he
      · cases hd
        cases hdir
    · rw [parent_join]
      dsimp only
      rw [Act.wp_bind]
      refine wp_call.mpr ⟨trivial, ?_⟩
      rintro answer k₂ ⟨_, hp₂, rfl, hroot⟩
      -- where the path is mounted still, the root is there and is told apart from it
      have hmounted : root.join name ∈ k₂.mounts →
          answer = .ok ⟨true, dev⟩ ∧ dev ≠ metadata.dev := by
        intro hm
        refine ⟨hroot rfl (List.ne_nil_of_mem hm), ?_⟩
        rcases hanswer (hp₂.mounts hm) with he | ⟨d, hd, hne⟩
        · cases he
        · cases hd
          exact hne.symm
      cases answer with
      | error e =>
        refine h _ _ (hp.later.trans hp₂.later) fun _ hm => ?_
        cases (hmounted hm).1
      | ok parent =>
        refine h _ _ (hp.later.trans hp₂.later) fun hb hm => ?_
        obtain ⟨hok, hne⟩ := hmounted hm
        cases hok
        simp [hne] at hb

theorem runHelpers_wp {name : String} {helpers : List String} {Q : Bool → σ → Kernel → Prop}
    (h : ∀ b k', k.Later k' → Q b s k') :
    Act.wp (Answers root dev) (Permits root) (runHelpers (root.join name) helpers) Q s k := by
  induction helpers generalizing k with
  | nil => exact h _ _ (.refl k)
  | cons helper helpers ih =>
    rw [runHelpers, Act.wp_bind]
    refine call_wp ⟨name, rfl⟩ (fun _ _ _ hs => hs) fun answer k₁ h₁ => ?_
    have hrest : ∀ message : Message, (∀ p, message.announces p = false) →
        Act.wp (Answers root dev) (Permits root)
          (log .debug message >>= fun _ => runHelpers (root.join name) helpers) Q s k₁ := by
      intro message hm
      rw [Act.wp_bind]
      exact log_wp hm fun k₂ h₂ _ => ih fun b k₃ h₃ => h b k₃ ((h₁.trans h₂).trans h₃)
    rcases answer with e | success
    · exact hrest _ fun _ => rfl
    · cases success with
      | false => exact hrest _ fun _ => rfl
      | true => exact h true k₁ h₁

theorem forceUnmount_wp {name : String} {Q : Except OsError Unit → σ → Kernel → Prop}
    (h : ∀ r k', k.Later k' → Q r s k') :
    Act.wp (Answers root dev) (Permits root) (forceUnmount (root.join name)) Q s k := by
  rw [forceUnmount]
  split
  · exact h _ _ (.refl k)
  · rw [Act.wp_bind]
    refine call_wp ⟨name, rfl⟩ (fun _ _ _ hs => hs) fun answer k₁ h₁ => ?_
    cases answer with
    | ok _ => exact h _ _ h₁
    | error e =>
      dsimp only
      rw [Act.wp_bind]
      refine log_wp (fun _ => rfl) fun k₂ h₂ _ => ?_
      rw [Act.wp_bind]
      refine runHelpers_wp fun b k₃ h₃ => ?_
      have h₃ := (h₁.trans h₂).trans h₃
      cases b with
      | true => exact h _ _ h₃
      | false =>
        rw [if_neg (by decide), Act.wp_bind]
        refine isMountpoint_wp fun b k₄ h₄ _ => ?_
        cases b with
        | true => exact h _ _ (h₃.trans h₄)
        | false => exact h _ _ (h₃.trans h₄)

/-- The fuel reaches to the deadline. -/
theorem pollMount_wp {name : String} {deadline fuel : Nat} {Q : Bool → σ → Kernel → Prop}
    (hpos : 0 < fuel) (hfuel : deadline + POLL_INTERVAL ≤ k.clock + fuel * POLL_INTERVAL)
    (h : ∀ b k', k.Later k' → (b = true → root.join name ∉ k'.mounts) → Q b s k') :
    Act.wp (Answers root dev) (Permits root) (pollMount (root.join name) deadline fuel) Q s k := by
  induction fuel generalizing k with
  | zero => cases hpos
  | succ fuel ih =>
    rw [pollMount, Act.wp_bind]
    refine isMountpoint_wp fun b k₁ h₁ hfree => ?_
    cases b with
    | false => exact h _ _ h₁ fun _ => hfree rfl
    | true =>
      rw [if_neg (by decide), Act.wp_bind]
      refine wp_call.mpr ⟨trivial, ?_⟩
      rintro now k₂ ⟨_, hp₂, rfl, rfl⟩
      have h₂ := h₁.trans hp₂.later
      split
      · exact h _ _ h₂ nofun
      · rename_i hnow
        rw [Act.wp_bind]
        refine wp_call.mpr ⟨trivial, ?_⟩
        rintro ⟨⟩ _ ⟨k₃, hp₃, rfl⟩
        have hearly : k₂.clock < deadline := Nat.lt_of_not_le hnow
        have hlate := hp₃.clock
        have hclock := h₂.clock
        have hslept : k.Later { k₃ with clock := k₃.clock + POLL_INTERVAL } :=
          (h₂.trans hp₃.later).trans
            ⟨fun _ hm => hm, Nat.le_add_right _ _, fun _ _ hw => hw⟩
        rw [Nat.add_mul] at hfuel
        refine ih ?_ ?_ fun b k' hk' => h b k' (hslept.trans hk')
        · refine Nat.pos_of_ne_zero fun hzero => ?_
          subst hzero
          omega
        · dsimp only
          omega

theorem waitUntilUnmounted_wp {name : String} {timeout : Nat} {Q : Bool → σ → Kernel → Prop}
    (h : ∀ b k', k.Later k' → (b = true → root.join name ∉ k'.mounts) → Q b s k') :
    Act.wp (Answers root dev) (Permits root) (waitUntilUnmounted (root.join name) timeout) Q s k := by
  rw [waitUntilUnmounted, Act.wp_bind]
  refine wp_call.mpr ⟨trivial, ?_⟩
  rintro now k₁ ⟨_, hp, rfl, rfl⟩
  refine pollMount_wp (Nat.succ_pos _) ?_ fun b k' hk' => h b k' (hp.later.trans hk')
  rw [POLL_INTERVAL]
  omega

/-! ## The sweep -/

/-- An entry of a listing is dealt with when it is no directory, or nothing is mounted on
it that was not warned of. -/
def Settled (root : PathBuf) (k : Kernel) (entry : DirEntry) : Prop :=
  entry.isDir = .ok true → root.join entry.name ∈ k.mounts → k.warned (root.join entry.name) = true

theorem Settled.later {entry : DirEntry} {k' : Kernel} (h : Settled root k entry)
    (hk : k.Later k') : Settled root k' entry :=
  fun hdir hm => hk.told _ _ (h hdir (hk.mounts hm))

theorem removeLeftover_wp {name : String} {Q : Unit → σ → Kernel → Prop}
    (h : ∀ k', k.Later k' → Q () s k') :
    Act.wp (Answers root dev) (Permits root) (removeLeftover (root.join name)) Q s k := by
  rw [removeLeftover, Act.wp_bind]
  refine call_wp (.inr ⟨name, rfl⟩) (fun _ _ _ hs => .of_eq hs) fun answer k₁ h₁ => ?_
  exact report_wp (fun _ _ => rfl) fun k₂ h₂ => h k₂ (h₁.trans h₂)

theorem sweepEntry_wp {entry : DirEntry} {cleaned : List PathBuf}
    {Q : List PathBuf → σ → Kernel → Prop}
    (h : ∀ cleaned' k', k.Later k' → Settled root k' entry →
      (∀ p ∈ cleaned', p ∈ cleaned ∨ p ∉ k'.mounts) → Q cleaned' s k') :
    Act.wp (Answers root dev) (Permits root) (sweepEntry root cleaned entry) Q s k := by
  rw [sweepEntry]
  split
  · rename_i hdir
    refine h _ _ (.refl k) (fun hok => ?_) fun p hp => .inl hp
    rw [hok] at hdir
    cases hdir
  · have hrest : ∀ (cleaned' : List PathBuf) (k₁ : Kernel), k.Later k₁ →
        root.join entry.name ∉ k₁.mounts → (∀ p ∈ cleaned', p ∈ cleaned ∨ p ∉ k₁.mounts) →
        Act.wp (Answers root dev) (Permits root)
          (removeLeftover (root.join entry.name) >>= fun _ => pure cleaned') Q s k₁ := by
      intro cleaned' k₁ h₁ hfree hcleaned
      rw [Act.wp_bind]
      refine removeLeftover_wp fun k₂ h₂ => ?_
      exact h cleaned' k₂ (h₁.trans h₂) (fun _ hm => absurd (h₂.mounts hm) hfree) fun p hp =>
        (hcleaned p hp).imp_right fun hm hm' => hm (h₂.mounts hm')
    rw [Act.wp_bind]
    refine isMountpoint_wp fun b k₁ h₁ hfree => ?_
    cases b with
    | false =>
      rw [if_neg (by decide)]
      exact hrest cleaned k₁ h₁ (hfree rfl) fun p hp => .inl hp
    | true =>
      rw [if_pos rfl, Act.wp_bind]
      refine log_wp (fun _ => rfl) fun k₂ h₂ _ => ?_
      rw [Act.wp_bind]
      refine forceUnmount_wp fun r k₃ h₃ => ?_
      have h₃ := (h₁.trans h₂).trans h₃
      cases r with
      | error e =>
        dsimp only
        rw [Act.wp_bind]
        refine log_wp (fun _ => rfl) fun k₄ h₄ hwarns => ?_
        exact h _ _ (h₃.trans h₄) (fun _ _ => hwarns Message.warns _ (decide_eq_true rfl)) fun p hp => .inl hp
      | ok _ =>
        dsimp only
        rw [Act.wp_bind]
        refine waitUntilUnmounted_wp fun b k₄ h₄ hgone => ?_
        have h₄ := h₃.trans h₄
        cases b with
        | false =>
          rw [if_pos (by decide), Act.wp_bind]
          refine log_wp (fun _ => rfl) fun k₅ h₅ hwarns => ?_
          exact h _ _ (h₄.trans h₅) (fun _ _ => hwarns Message.warns _ (decide_eq_true rfl)) fun p hp => .inl hp
        | true =>
          rw [if_neg (by decide)]
          refine hrest _ k₄ h₄ (hgone rfl) fun p hp => ?_
          rcases List.mem_append.mp hp with hp | hp
          · exact .inl hp
          · rw [List.mem_singleton.mp hp]
            exact .inr (hgone rfl)

theorem sweep_wp {entries : List DirEntry} {cleaned : List PathBuf}
    {Q : List PathBuf → σ → Kernel → Prop}
    (h : ∀ cleaned' k', k.Later k' → (∀ entry ∈ entries, Settled root k' entry) →
      (∀ p ∈ cleaned', p ∈ cleaned ∨ p ∉ k'.mounts) → Q cleaned' s k') :
    Act.wp (Answers root dev) (Permits root) (sweep root entries cleaned) Q s k := by
  induction entries generalizing cleaned k with
  | nil => exact h _ _ (.refl k) (fun _ he => nomatch he) fun p hp => .inl hp
  | cons entry entries ih =>
    rw [sweep, Act.wp_bind]
    refine sweepEntry_wp fun cleaned₁ k₁ h₁ hsettled hcleaned => ?_
    refine ih fun cleaned₂ k₂ h₂ hrest hcleaned₂ => ?_
    refine h cleaned₂ k₂ (h₁.trans h₂) (fun e he => ?_) fun p hp => ?_
    · rcases List.mem_cons.mp he with rfl | he
      · exact hsettled.later h₂
      · exact hrest e he
    · rcases hcleaned₂ p hp with hp | hp
      · exact (hcleaned p hp).imp_right fun hm hm' => hm (h₂.mounts hm')
      · exact .inr hp

/-- Everything mounted is one level below the root. -/
def Under (root : PathBuf) (k : Kernel) : Prop := ∀ p ∈ k.mounts, ∃ name, p = root.join name

/-- All that is still mounted after the sweep was warned of, by its name or by that of the
root, and none of what the sweep reports as cleaned is. -/
theorem cleanStaleMounts_wp (hk : Under root k) {Q : List PathBuf → σ → Kernel → Prop}
    (h : ∀ cleaned k', k.Later k' → (∀ p ∈ k'.mounts, k'.Disclosed p) →
      (∀ p ∈ cleaned, p ∉ k'.mounts) → Q cleaned s k') :
    Act.wp (Answers root dev) (Permits root) (cleanStaleMounts root) Q s k := by
  rw [cleanStaleMounts, Act.wp_bind]
  refine wp_call.mpr ⟨trivial, ?_⟩
  rintro answer k₁ ⟨_, hp, rfl, hlisted⟩
  have hlisted := hlisted rfl
  have hnone : ∀ p ∈ ([] : List PathBuf), p ∉ k₁.mounts := fun _ hp => nomatch hp
  rcases answer with e | entries
  · have hwarned : Act.wp (Answers root dev) (Permits root)
        (log .warn (.cantCheck root e) >>= fun _ => pure []) Q s k₁ := by
      rw [Act.wp_bind]
      refine log_wp (fun _ => rfl) fun k₂ h₂ hwarns => ?_
      refine h [] k₂ (hp.later.trans h₂) (fun p hm => .inr (hwarns _ p ?_)) fun _ hp => nomatch hp
      obtain ⟨name, rfl⟩ := hk p (hp.mounts (h₂.mounts hm))
      rw [PathBuf.join, Message.passesOver, List.dropLast_concat, decide_eq_true rfl]
    cases e with
    | noEntry => exact h [] k₁ hp.later (fun p hm => by rw [hlisted rfl] at hm; cases hm) hnone
    | notConnected => exact hwarned
    | invalidInput => exact hwarned
    | os code => exact hwarned
  · refine sweep_wp fun cleaned k₂ h₂ hsettled hcleaned => ?_
    refine h cleaned k₂ (hp.later.trans h₂) (fun p hm => ?_) fun p hm =>
      (hcleaned p hm).resolve_left (List.not_mem_nil)
    obtain ⟨name, rfl, hentry⟩ := hlisted p (h₂.mounts hm)
    exact .inl (hsettled ⟨name, .ok true⟩ (List.mem_filterMap.mpr ⟨_, hentry, rfl⟩) rfl hm)

end Rules

end Os

end MtpMount
