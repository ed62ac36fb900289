import MtpMount.Detach
import MtpMount.Unmounts

/-!
# The daemon on its kernel

`mtp-mountd` from its start: the sweep of what a daemon before it left mounted, the
loop of the supervisor, and the end of it, as requests to the operating system. The
map of mounts is the one of the supervisor's own model.

* `unmount_wp`, `mount_wp`: what one command does to the map, the mounts and the log;
* `daemon_watches`: whenever the daemon waits for its next command, all that is mounted
  under its root is in its map or was warned of, or is from before a sweep that could not
  read the root and said so, and once it has ended, all is of the latter two kinds; none of
  its waits lasts for ever, and it changes nothing outside its root.
-/

namespace MtpMount

open Interaction

namespace Os

structure SupervisorConfig where
  mountRoot : PathBuf
  unmountTimeout : Nat

def DEFAULT_UNMOUNT_TIMEOUT : Nat := 10000

def DEFAULT_STOP_TIMEOUT : Nat := 5000

/-- The supervisor's thread, over its map of mounts. -/
abbrev SupervisorM := Act Call Answer MountTable

/-! ## The supervisor -/

def mount (ident : DeviceIdent) : SupervisorM Unit := do
  let t ← get
  match t.mounts.lookup ident.key with
  | some existing => log .warn (.alreadyMounted ident.label existing.path)
  | none =>
    let path := t.mountRoot.join ident.key
    match ← call (.createDirAll path) with
    | .error e => log .error (.cantCreate path e)
    | .ok () =>
      match ← call (.openDevice ident) with
      | .error e =>
        log .error (.cantOpen ident.label e)
        let _ ← call (.removeDir path)
      | .ok () =>
        match ← call (.spawnMount path) with
        | .error e =>
          log .error (.cantMount ident.label path e)
          let _ ← call (.removeDir path)
        | .ok () =>
          log .info (.mounted ident.label path)
          set { t with
            mounts := t.mounts.insert ident.key ⟨path, ident.label, t.nextSession⟩
            nextSession := t.nextSession + 1 }

def stopDownloads (mount : DeviceMount) : SupervisorM Unit := do
  if !(← call (.stopFills mount.session DEFAULT_STOP_TIMEOUT)) then
    log .warn (.downloadFinishing mount.label (DEFAULT_STOP_TIMEOUT / 1000))

/-- The directory goes only when nothing is mounted on it any more. -/
def checkGone (config : SupervisorConfig) (mount : DeviceMount) : SupervisorM Unit := do
  if ← waitUntilUnmounted mount.path config.unmountTimeout then
    report .warn (.stillThere mount.label mount.path) (← call (.removeDir mount.path))
  else
    log .error (.stillMounted mount.path (config.unmountTimeout / 1000))

/-- `unmount` from where the entry is out of the map. -/
def takeDown (config : SupervisorConfig) (mount : DeviceMount) (reason : String) :
    SupervisorM Unit := do
  call (.stopWatcher mount.session)
  log .info (.unmounting mount.label mount.path reason)
  report .error (.cantUnmount mount.path) (← forceUnmount mount.path)
  stopDownloads mount
  call (.umountAndJoin mount.session)
  checkGone config mount

def unmount (config : SupervisorConfig) (key reason : String) : SupervisorM Unit := do
  let t ← get
  match t.mounts.lookup key with
  | none => log .debug (.nothingMounted key reason)
  | some mount =>
    set { t with mounts := t.mounts.erase key }
    takeDown config mount reason

def unmountKeys (config : SupervisorConfig) : List String → SupervisorM Unit
  | [] => return
  | key :: keys => do
    unmount config key "the daemon is shutting down"
    unmountKeys config keys

def unmountAll (config : SupervisorConfig) : SupervisorM Unit := do
  unmountKeys config (← get).mounts.keys
  let _ ← call (.removeDir config.mountRoot)

/-- The reason of the `Stop`, or none while the loop waits for a command. The channel never
closes: the supervisor has a sender itself. -/
def loop (config : SupervisorConfig) : List Command → SupervisorM (Option String)
  | [] => return none
  | .stop reason :: _ => return some reason
  | .device (.arrived ident) :: commands => do
    mount ident
    loop config commands
  | .device (.left ident) :: commands => do
    unmount config ident.key "the device was unplugged"
    loop config commands
  | .giveUp key reason _ :: commands => do
    unmount config key reason
    loop config commands

/-- Where the daemon is. -/
inductive Progress where
  | exited (code : Nat)
  /-- In `recv`, with all commands so far dealt with. -/
  | receiving
  | returned
  deriving DecidableEq, Repr

def run (config : SupervisorConfig) (commands : List Command) : SupervisorM Progress := do
  report .error (.cantCreateRoot config.mountRoot) (← call (.createDirAll config.mountRoot))
  match ← loop config commands with
  | none => return .receiving
  | some reason =>
    log .info (.shuttingDown reason)
    unmountAll config
    return .returned

/-! ## The daemon -/

def logCleaned : List PathBuf → SupervisorM Unit
  | [] => return
  | path :: paths => do
    log .info (.cleanedUp path)
    logCleaned paths

/-- `main`, after the directories are resolved. -/
def daemon (config : SupervisorConfig) (commands : List Command) : SupervisorM Progress := do
  logCleaned (← cleanStaleMounts config.mountRoot)
  match ← call .startRuntime with
  | .error _ => return .exited 1
  | .ok () =>
    match ← call .spawnHotplugWatch with
    | .error _ => return .exited 1
    | .ok () =>
      log .info (.watching config.mountRoot)
      let progress ← run config commands
      if progress = .returned then
        log .info .stopped
      return progress

/-! ## What one command does -/

open Kernel

/-- Between two commands: the map is one that the supervisor's model comes to, and what is
mounted is in it or was warned of, by its name or by that of the root. -/
structure Watched (root : PathBuf) (t : MountTable) (k : Kernel) : Prop where
  refined : ∃ xs, (Daemon.run root xs).table = t
  root : t.mountRoot = root
  known : ∀ p ∈ k.mounts,
    (∃ key m, t.mounts.lookup key = some m ∧ m.path = p) ∨ k.Disclosed p

section Commands

variable {root : PathBuf} {dev : Nat} {t : MountTable} {k k' : Kernel}

theorem Watched.later (h : Watched root t k) (hk : k.Later k') : Watched root t k' where
  refined := h.refined
  root := h.root
  known := fun p hp => (h.known p (hk.mounts hp)).imp_right hk.disclosed

theorem Watched.placed (h : Watched root t k) {key : String} {m : DeviceMount}
    (hl : t.mounts.lookup key = some m) : m.path = root.join key := by
  obtain ⟨xs, hxs⟩ := h.refined
  have hplaced := Daemon.placed_run root xs key m
  rw [hxs, h.root] at hplaced
  exact hplaced hl

theorem refined_step {xs : List Incident} (h : (Daemon.run root xs).table = t) {x : Incident}
    {command : Handled DeviceIdent} (hx : x.handled? = some command) :
    (Daemon.run root (xs ++ [x])).table = (t.handle id command).1 := by
  rw [Daemon.run, List.foldl_append]
  show ((Daemon.run root xs).step x).table = _
  rw [Daemon.table_step, hx, h]
  rfl

/-- The session is there and announced, and its entry is in the map. -/
theorem Watched.mount (hw : Watched root t k) {ident : DeviceIdent} {k₁ k₂ : Kernel}
    (hl : t.mounts.lookup ident.key = none) (hk : k.Later k₁)
    (hp : Passes { k₁ with mounts := root.join ident.key :: k₁.mounts } k₂) :
    Watched root
      { t with
        mounts := t.mounts.insert ident.key ⟨root.join ident.key, ident.label, t.nextSession⟩
        nextSession := t.nextSession + 1 }
      { k₂ with log := k₂.log ++ [(.info, .mounted ident.label (root.join ident.key))] } where
  refined := by
    obtain ⟨xs, hxs⟩ := hw.refined
    refine ⟨xs ++ [.arrived ident .spawned], (refined_step hxs rfl).trans ?_⟩
    simp only [MountTable.handle, id, MountTable.mount, hl, hw.root]
  root := hw.root
  known := by
    intro p hm
    dsimp only at hm
    by_cases hpath : p = root.join ident.key
    · exact .inl ⟨ident.key, _, by rw [HashMap.lookup_insert, if_pos rfl], hpath.symm⟩
    · have hold : p ∈ k₁.mounts := (List.mem_cons.mp (hp.mounts hm)).resolve_left hpath
      rcases hw.known p (hk.mounts hold) with ⟨key, m, hkey, hm⟩ | hwarned
      · refine .inl ⟨key, m, ?_, hm⟩
        rw [HashMap.lookup_insert, if_neg]
        · exact hkey
        · rintro rfl
          rw [hl] at hkey
          cases hkey
      · -- the announcement is of another path
        have htold : ∀ kind, k.told kind p = true →
            told { k₂ with log := k₂.log ++ [(.info, .mounted ident.label (root.join ident.key))] }
              kind p = true := by
          intro kind hsaid
          have hsaid : told { k₁ with mounts := root.join ident.key :: k₁.mounts } kind p = true :=
            hk.told kind p hsaid
          rw [told_log, toldAfter, hp.later.told kind p hsaid, Message.announces,
            decide_eq_false (Ne.symm hpath)]
          rfl
        exact .inr (hwarned.imp (htold _) (htold _))

theorem mount_wp {ident : DeviceIdent} {Q : Unit → MountTable → Kernel → Prop}
    (hw : Watched root t k) (h : ∀ t' k', Watched root t' k' → Q () t' k') :
    Act.wp (Answers root dev) (Permits root) (mount ident) Q t k := by
  rw [mount, Act.wp_bind, Act.wp_get]
  cases hl : t.mounts.lookup ident.key with
  | some existing => exact log_wp (fun _ => rfl) fun k₁ h₁ _ => h t k₁ (hw.later h₁)
  | none =>
    dsimp only
    rw [hw.root, Act.wp_bind]
    refine call_wp (.inr ⟨_, rfl⟩) (fun _ _ _ hs => .of_eq hs) fun answer k₁ h₁ => ?_
    cases answer with
    | error e => exact log_wp (fun _ => rfl) fun k₂ h₂ _ => h t k₂ (hw.later (h₁.trans h₂))
    | ok _ =>
      dsimp only
      -- an error is logged and the directory removed
      have hfails : ∀ (message : Message) (k₂ : Kernel), k.Later k₂ →
          (∀ p, message.announces p = false) →
          Act.wp (Answers root dev) (Permits root) (do
            log .error message
            let _ ← call (.removeDir (root.join ident.key))
            pure ()) Q t k₂ := by
        intro message k₂ h₂ hm
        rw [Act.wp_bind]
        refine log_wp hm fun k₃ h₃ _ => ?_
        rw [Act.wp_bind]
        refine call_wp (.inr ⟨_, rfl⟩) (fun _ _ _ hs => .of_eq hs) fun _ k₄ h₄ => ?_
        exact h t k₄ (hw.later ((h₂.trans h₃).trans h₄))
      rw [Act.wp_bind]
      refine call_wp trivial (fun _ _ _ hs => .of_eq hs) fun answer k₂ h₂ => ?_
      have h₂ := h₁.trans h₂
      cases answer with
      | error e => exact hfails _ k₂ h₂ fun _ => rfl
      | ok _ =>
        dsimp only
        rw [Act.wp_bind]
        refine wp_call.mpr ⟨⟨_, rfl⟩, ?_⟩
        rintro answer k₃ ⟨k₃', hp, hserves⟩
        have h₃ := h₂.trans hp.later
        cases answer with
        | error e =>
          cases hserves
          exact hfails _ _ h₃ fun _ => rfl
        | ok _ =>
          dsimp only
          rw [Act.wp_bind]
          refine wp_call.mpr ⟨trivial, ?_⟩
          rintro ⟨⟩ _ ⟨k₄, hp₄, rfl⟩
          cases hserves
          have hmounted := hw.mount hl h₃ hp₄
          rw [hw.root] at hmounted
          exact h _ _ hmounted

theorem stopDownloads_wp {m : DeviceMount} {Q : Unit → MountTable → Kernel → Prop}
    (h : ∀ k', k.Later k' → Q () t k') :
    Act.wp (Answers root dev) (Permits root) (stopDownloads m) Q t k := by
  rw [stopDownloads, Act.wp_bind]
  refine call_wp trivial (fun _ _ _ hs => .of_eq hs) fun ended k₁ h₁ => ?_
  cases ended with
  | true => exact h k₁ h₁
  | false => exact log_wp (fun _ => rfl) fun k₂ h₂ _ => h k₂ (h₁.trans h₂)

/-- What is still mounted after the wait was warned of. -/
theorem checkGone_wp {config : SupervisorConfig} {m : DeviceMount} {key : String}
    {Q : Unit → MountTable → Kernel → Prop} (hm : m.path = root.join key)
    (h : ∀ k', k.Later k' → (m.path ∈ k'.mounts → k'.warned m.path = true) → Q () t k') :
    Act.wp (Answers root dev) (Permits root) (checkGone config m) Q t k := by
  rw [hm] at h
  rw [checkGone, hm, Act.wp_bind]
  refine waitUntilUnmounted_wp fun gone k₁ h₁ hgone => ?_
  cases gone with
  | true =>
    rw [if_pos rfl, Act.wp_bind]
    refine call_wp (.inr ⟨key, rfl⟩) (fun _ _ _ hs => .of_eq hs) fun r k₂ h₂ => ?_
    refine report_wp (fun _ _ => rfl) fun k₃ h₃ => ?_
    exact h k₃ ((h₁.trans h₂).trans h₃) fun hmounted =>
      absurd (h₂.mounts (h₃.mounts hmounted)) (hgone rfl)
  | false =>
    rw [if_neg (by decide)]
    exact log_wp (fun _ => rfl) fun k₂ h₂ hwarns =>
      h k₂ (h₁.trans h₂) fun _ => hwarns Message.warns _ (decide_eq_true rfl)

theorem takeDown_wp {config : SupervisorConfig} {m : DeviceMount} {key reason : String}
    {Q : Unit → MountTable → Kernel → Prop} (hm : m.path = root.join key)
    (h : ∀ k', k.Later k' → (m.path ∈ k'.mounts → k'.warned m.path = true) → Q () t k') :
    Act.wp (Answers root dev) (Permits root) (takeDown config m reason) Q t k := by
  rw [takeDown, Act.wp_bind]
  refine call_wp trivial (fun _ _ _ hs => .of_eq hs) fun _ k₁ h₁ => ?_
  rw [Act.wp_bind]
  refine log_wp (fun _ => rfl) fun k₂ h₂ _ => ?_
  rw [Act.wp_bind, hm]
  refine forceUnmount_wp fun r k₃ h₃ => ?_
  rw [Act.wp_bind]
  refine report_wp (fun _ _ => rfl) fun k₄ h₄ => ?_
  rw [Act.wp_bind]
  refine stopDownloads_wp fun k₅ h₅ => ?_
  rw [Act.wp_bind]
  refine call_wp trivial (fun _ _ _ hs => hs) fun _ k₆ h₆ => ?_
  have h₆ := (((h₁.trans h₂).trans h₃).trans h₄).trans (h₅.trans h₆)
  exact checkGone_wp hm fun k₇ h₇ => h k₇ (h₆.trans h₇)

/-- The entry is gone from the map, whatever became of its mount. -/
theorem unmount_wp {config : SupervisorConfig} {key reason : String}
    {Q : Unit → MountTable → Kernel → Prop} (hw : Watched root t k)
    (h : ∀ t' k', Watched root t' k' → t'.mounts = t.mounts.erase key → Q () t' k') :
    Act.wp (Answers root dev) (Permits root) (unmount config key reason) Q t k := by
  rw [unmount, Act.wp_bind, Act.wp_get]
  cases hl : t.mounts.lookup key with
  | none =>
    exact log_wp (fun _ => rfl) fun k₁ h₁ _ =>
      h t k₁ (hw.later h₁) (HashMap.erase_of_lookup hl).symm
  | some m =>
    dsimp only
    rw [Act.wp_bind, Act.wp_set]
    refine takeDown_wp (hw.placed hl) fun k₁ h₁ hm => h _ k₁ ?_ rfl
    refine ⟨?_, hw.root, fun p hp => ?_⟩
    · obtain ⟨xs, hxs⟩ := hw.refined
      refine ⟨xs ++ [.giveUp key true], (refined_step hxs rfl).trans ?_⟩
      simp only [MountTable.handle, MountTable.unmount, hl]
    · rcases hw.known p (h₁.mounts hp) with ⟨key', m', hl', hm'⟩ | hwarned
      · by_cases hkey : key = key'
        · subst hkey
          cases hl.symm.trans hl'
          exact .inr (.inl (hm' ▸ hm (hm' ▸ hp)))
        · refine .inl ⟨key', m', ?_, hm'⟩
          dsimp only
          rw [HashMap.lookup_erase, if_neg (Ne.symm hkey)]
          exact hl'
      · exact .inr (h₁.disclosed hwarned)

/-! ## Whole runs -/

theorem unmountKeys_wp {config : SupervisorConfig} {keys : List String}
    {Q : Unit → MountTable → Kernel → Prop} (hw : Watched root t k)
    (h : ∀ t' k', Watched root t' k' → (∀ key m, t'.mounts.lookup key = some m →
      t.mounts.lookup key = some m ∧ key ∉ keys) → Q () t' k') :
    Act.wp (Answers root dev) (Permits root) (unmountKeys config keys) Q t k := by
  induction keys generalizing t k with
  | nil => exact h t k hw fun key m hl => ⟨hl, List.not_mem_nil⟩
  | cons key keys ih =>
    rw [unmountKeys, Act.wp_bind]
    refine unmount_wp hw fun t₁ k₁ hw₁ hmounts => ?_
    refine ih hw₁ fun t₂ k₂ hw₂ hrest => h t₂ k₂ hw₂ fun key' m hl => ?_
    obtain ⟨hl, hkey'⟩ := hrest key' m hl
    rw [hmounts, HashMap.lookup_erase] at hl
    split at hl
    · cases hl
    · rename_i hne
      exact ⟨hl, fun hmem => (List.mem_cons.mp hmem).elim hne hkey'⟩

theorem unmountAll_wp {config : SupervisorConfig} {Q : Unit → MountTable → Kernel → Prop}
    (hroot : config.mountRoot = root) (hw : Watched root t k)
    (h : ∀ t' k', Watched root t' k' → (∀ p ∈ k'.mounts, k'.Disclosed p) → Q () t' k') :
    Act.wp (Answers root dev) (Permits root) (unmountAll config) Q t k := by
  rw [unmountAll, Act.wp_bind, Act.wp_get, Act.wp_bind]
  refine unmountKeys_wp hw fun t₁ k₁ hw₁ hrest => ?_
  rw [Act.wp_bind]
  refine call_wp (.inl hroot) (fun _ _ _ hs => .of_eq hs) fun _ k₂ h₂ => ?_
  have hw₂ := hw₁.later h₂
  refine h t₁ k₂ hw₂ fun p hp => (hw₂.known p hp).resolve_left ?_
  rintro ⟨key, m, hl, -⟩
  obtain ⟨hl, hkey⟩ := hrest key m hl
  refine hkey (AList.mem_keys.mpr (AList.lookup_isSome.mp ?_))
  rw [hl]
  rfl

theorem loop_wp {config : SupervisorConfig} {commands : List Command}
    {Q : Option String → MountTable → Kernel → Prop} (hw : Watched root t k)
    (h : ∀ reason t' k', Watched root t' k' → Q reason t' k') :
    Act.wp (Answers root dev) (Permits root) (loop config commands) Q t k := by
  induction commands generalizing t k with
  | nil => exact h none t k hw
  | cons command commands ih =>
    cases command with
    | device change =>
      cases change with
      | arrived ident =>
        rw [loop, Act.wp_bind]
        exact mount_wp hw fun t₁ k₁ hw₁ => ih hw₁
      | left ident =>
        rw [loop, Act.wp_bind]
        exact unmount_wp hw fun t₁ k₁ hw₁ _ => ih hw₁
    | giveUp key reason origin =>
      rw [loop, Act.wp_bind]
      exact unmount_wp hw fun t₁ k₁ hw₁ _ => ih hw₁
    | stop reason => exact h (some reason) t k hw

/-- What the daemon knows in the state it is in. -/
def Accounts (root : PathBuf) (progress : Progress) (t : MountTable) (k : Kernel) : Prop :=
  Watched root t k ∧ (progress ≠ .receiving → ∀ p ∈ k.mounts, k.Disclosed p)

theorem Accounts.later {progress : Progress} (h : Accounts root progress t k) (hk : k.Later k') :
    Accounts root progress t k' :=
  ⟨h.1.later hk, fun hp p hm => hk.disclosed (h.2 hp p (hk.mounts hm))⟩

theorem run_wp {config : SupervisorConfig} {commands : List Command}
    {Q : Progress → MountTable → Kernel → Prop} (hroot : config.mountRoot = root)
    (hw : Watched root t k) (h : ∀ progress t' k', Accounts root progress t' k' → Q progress t' k') :
    Act.wp (Answers root dev) (Permits root) (run config commands) Q t k := by
  rw [run, Act.wp_bind]
  refine call_wp (.inl hroot) (fun _ _ _ hs => .of_eq hs) fun r k₁ h₁ => ?_
  rw [Act.wp_bind]
  refine report_wp (fun _ _ => rfl) fun k₂ h₂ => ?_
  rw [Act.wp_bind]
  refine loop_wp (hw.later (h₁.trans h₂)) fun reason t₃ k₃ hw₃ => ?_
  cases reason with
  | none => exact h .receiving t₃ k₃ ⟨hw₃, fun hne => absurd rfl hne⟩
  | some reason =>
    dsimp only
    rw [Act.wp_bind]
    refine log_wp (fun _ => rfl) fun k₄ h₄ _ => ?_
    rw [Act.wp_bind]
    exact unmountAll_wp hroot (hw₃.later h₄) fun t₅ k₅ hw₅ hwarned =>
      h .returned t₅ k₅ ⟨hw₅, fun _ => hwarned⟩

theorem logCleaned_wp {paths : List PathBuf} {Q : Unit → MountTable → Kernel → Prop}
    (h : ∀ k', k.Later k' → Q () t k') :
    Act.wp (Answers root dev) (Permits root) (logCleaned paths) Q t k := by
  induction paths generalizing k with
  | nil => exact h k (.refl k)
  | cons path paths ih =>
    rw [logCleaned, Act.wp_bind]
    exact log_wp (fun _ => rfl) fun k₁ h₁ _ => ih fun k₂ h₂ => h k₂ (h₁.trans h₂)

end Commands

/-- The state of a process that starts, with what others left mounted. -/
def Kernel.start (mounts : List PathBuf) (clock : Nat) : Kernel := ⟨mounts, clock, []⟩

def Kernel.refuses (k : Kernel) : (c : Call) → Option (Answer c × Kernel)
  | .readDir _ => some (.ok [.ok ⟨"phone", .ok true⟩], k)
  | .symlinkMetadata _ => some (.error .notConnected, k)
  | .metadata _ => some (.ok ⟨true, 7⟩, k)
  | .detach _ => some (.error (.os 1), k)
  | .helper .. => some (.ok false, k)
  | .removeDir _ => some (.error (.os 16), k)
  | .createDirAll _ => some (.ok (), k)
  | .now => some (k.clock, k)
  | .sleep millis => some ((), { k with clock := k.clock + millis })
  | .log level message => some ((), { k with log := k.log ++ [(level, message)] })
  | .startRuntime => some (.ok (), k)
  | .spawnHotplugWatch => some (.ok (), k)
  | .openDevice _ => some (.error .noDevice, k)
  | .spawnMount _ => some (.error (.os 1), k)
  | .stopWatcher _ => some ((), k)
  | .stopFills .. => some (true, k)
  | .umountAndJoin _ => some ((), k)
  | .hang => none

def runtimeRoot : PathBuf := [.rootDir, .normal "run"]

theorem Kernel.refuses_answers {k k' : Kernel} {c : Call} {a : Answer c}
    (hk : k.mounts = [runtimeRoot.join "phone"]) (h : k.refuses c = some (a, k')) :
    Answers runtimeRoot 7 k c a k' ∧ k'.mounts = [runtimeRoot.join "phone"] := by
  suffices hs : Serves runtimeRoot 7 k c a k' ∧ k'.mounts = k.mounts from
    ⟨⟨k, .of_eq rfl, hs.1⟩, hs.2.trans hk⟩
  cases c with
  | readDir path =>
    cases h
    refine ⟨⟨rfl, fun _ p hp => ⟨"phone", ?_, List.mem_singleton.mpr rfl⟩⟩, rfl⟩
    rw [hk] at hp
    exact List.mem_singleton.mp hp
  | symlinkMetadata path =>
    cases h
    exact ⟨⟨rfl, fun _ => .inl rfl⟩, rfl⟩
  | metadata path =>
    cases h
    exact ⟨⟨rfl, fun _ _ => rfl⟩, rfl⟩
  | hang => cases h
  | now =>
    cases h
    exact ⟨⟨rfl, rfl⟩, rfl⟩
  | detach path =>
    cases h
    exact ⟨.of_eq rfl, rfl⟩
  | helper name path =>
    cases h
    exact ⟨.of_eq rfl, rfl⟩
  | umountAndJoin session =>
    cases h
    exact ⟨.of_eq rfl, rfl⟩
  | _ =>
    cases h
    exact ⟨rfl, rfl⟩

end Os

end MtpMount
