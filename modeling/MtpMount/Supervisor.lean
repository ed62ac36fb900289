import MtpMount.Lib.HashMap
import MtpMount.Lib.Transitions

/-!
# The supervisor

The loop that owns every mount of the daemon, the watcher thread of each mount,
and the sessions that give up, under every schedule. A step is what one thread
does up to its next access to something shared: the channel, the map of mounts,
a shutdown slot or a stop flag.

* `giveUp_own`: in every run in which no watcher sends a give-up while another
  mount has its key, and no device is mounted on a key with an older give-up in
  the channel, a give-up takes down the mount that raised it;
* `giveUp_later`: a run in which it takes down a later mount.
-/

namespace MtpMount

/-- A device the daemon knows about. -/
structure DeviceIdent where
  /-- Identity and directory name in one. -/
  key : String
  label : String
  serial : Option String
  deriving DecidableEq, Repr

inductive DeviceChange where
  | arrived (ident : DeviceIdent)
  | left (ident : DeviceIdent)
  deriving DecidableEq, Repr

/-- Everything the supervisor reacts to. -/
inductive Command where
  | device (change : DeviceChange)
  /-- `origin` is the session that gave up; the program's command has no such
  field and its handling below never reads it. -/
  | giveUp (key reason : String) (origin : Nat)
  | stop (reason : String)
  deriving DecidableEq, Repr

/-- Where the give-up watcher of a mount is. -/
inductive Watcher where
  /-- In `wait_timeout` on the shutdown slot. -/
  | waiting
  /-- Has a reason, about to send it. -/
  | forwarding (reason : String)
  /-- Timed out, about to look at its stop flag. -/
  | checkStop
  | ended
  deriving DecidableEq, Repr

/-- A spawned session: what its threads share. -/
structure Session where
  key : String
  /-- The slot of its `Shutdown`. -/
  reason : Option String
  watcherStop : Bool
  watcher : Watcher
  /-- Its thread has ended; until then a callback may still give up. -/
  joined : Bool
  deriving DecidableEq, Repr

namespace Session

def spawn (key : String) : Session := ⟨key, none, false, .waiting, false⟩

/-- `Shutdown::request`: the first reason wins. -/
def request (s : Session) (reason : String) : Session :=
  { s with reason := s.reason.or (some reason) }

end Session

/-- One device's mount. -/
structure ActiveMount where
  label : String
  session : Nat
  deriving DecidableEq, Repr

/-- How the part of `mount` that opens the device and spawns the session ends. -/
inductive Outcome where
  | noMountPoint
  | notOpened
  | notSpawned
  | spawned
  deriving DecidableEq, Repr

/-- Where the supervisor's thread is. -/
inductive Phase where
  /-- In `recv`. -/
  | receiving
  /-- In `mount`, opening the device. -/
  | opening (ident : DeviceIdent)
  /-- In `mount`, the session runs, about to enter it in `mounts`. -/
  | entering (ident : DeviceIdent) (session : Nat)
  /-- In `unmount` for the command, the entry is out of `mounts`. -/
  | unmounting (session : Nat) (cause : Command)
  /-- In `unmount`, the stop flag is set; detaching and cancelling downloads. -/
  | detaching (session : Nat) (cause : Command)
  /-- In `unmount_all`. -/
  | closing (reason : String)
  | returned
  deriving DecidableEq, Repr

namespace Command

/-- The session whose give-up on the key this is. -/
def raisedBy (key : String) : Command → Option Nat
  | .giveUp k _ origin => if k = key then some origin else none
  | _ => none

end Command

namespace Watcher

def isForwarding : Watcher → Bool
  | .forwarding _ => true
  | _ => false

end Watcher

namespace Phase

/-- The device and the session that are being entered in `mounts`. -/
def entered : Phase → Option (DeviceIdent × Nat)
  | .entering ident session => some (ident, session)
  | _ => none

/-- The session being taken down, and the command that it is taken down for. -/
def takesDown : Phase → Option (Nat × Command)
  | .unmounting session cause | .detaching session cause => some (session, cause)
  | _ => none

end Phase

structure Supervisor where
  mounts : HashMap String ActiveMount
  sessions : HashMap Nat Session
  nextSession : Nat
  /-- The channel, oldest command first. -/
  commands : List Command
  phase : Phase

/-- Which thread goes next, and what the outside does. -/
inductive Turn where
  | hotplug (change : DeviceChange)
  /-- A signal asks the daemon to stop. -/
  | signal (reason : String)
  /-- A callback of the session gives up on the device. -/
  | request (session : Nat) (reason : String)
  | watcher (session : Nat)
  /-- The thread of an unmounted session ends. -/
  | join (session : Nat)
  | supervisor (outcome : Outcome)
  deriving DecidableEq, Repr

namespace Supervisor

def new : Supervisor := ⟨∅, ∅, 0, [], .receiving⟩

def send (s : Supervisor) (c : Command) : Supervisor := { s with commands := s.commands ++ [c] }

def setSession (s : Supervisor) (id : Nat) (v : Session) : Supervisor :=
  { s with sessions := s.sessions.insert id v }

/-- `unmount` up to the stop flag: takes the entry out, if there is one. -/
def unmount (s : Supervisor) (key : String) (cause : Command) : Supervisor :=
  match s.mounts.lookup key with
  | none => s
  | some mount => { s with mounts := s.mounts.erase key, phase := .unmounting mount.session cause }

/-- The loop of `run` has a command. -/
def handle (s : Supervisor) : Command → Supervisor
  | .device (.arrived ident) =>
    match s.mounts.lookup ident.key with
    | some _ => s
    | none => { s with phase := .opening ident }
  | .device (.left ident) => s.unmount ident.key (.device (.left ident))
  | .giveUp key reason origin => s.unmount key (.giveUp key reason origin)
  | .stop reason => { s with phase := .closing reason }

/-- A step of the supervisor's thread. -/
def supervisorStep (s : Supervisor) (outcome : Outcome) : Option Supervisor :=
  match s.phase with
  | .receiving =>
    match s.commands with
    | [] => none
    | c :: cs => some ({ s with commands := cs }.handle c)
  | .opening ident =>
    match outcome with
    | .spawned =>
      some { s with
        sessions := s.sessions.insert s.nextSession (.spawn ident.key)
        nextSession := s.nextSession + 1
        phase := .entering ident s.nextSession }
    | _ => some { s with phase := .receiving }
  | .entering ident session =>
    some { s with
      mounts := s.mounts.insert ident.key ⟨ident.label, session⟩
      phase := .receiving }
  | .unmounting session cause =>
    some { s with
      sessions := s.sessions.update session fun v => { v with watcherStop := true }
      phase := .detaching session cause }
  | .detaching _ cause =>
    match cause with
    | .stop reason => some { s with phase := .closing reason }
    | _ => some { s with phase := .receiving }
  | .closing reason =>
    -- the keys were listed before; nothing is mounted in between
    match s.mounts.keys with
    | [] => some { s with phase := .returned }
    | key :: _ => some (s.unmount key (.stop reason))
  | .returned => none

/-- A step of the watcher of a session: it looks at the reason first, and at its
stop flag only after a wait that timed out. -/
def watcherStep (s : Supervisor) (id : Nat) (v : Session) : Option Supervisor :=
  match v.watcher with
  | .waiting =>
    match v.reason with
    | some reason => some (s.setSession id { v with watcher := .forwarding reason })
    | none => some (s.setSession id { v with watcher := .checkStop })
  | .forwarding reason =>
    some ((s.setSession id { v with watcher := .ended }).send (.giveUp v.key reason id))
  | .checkStop =>
    some (s.setSession id { v with watcher := if v.watcherStop then .ended else .waiting })
  | .ended => none

def step (s : Supervisor) : Turn → Option Supervisor
  | .hotplug change => some (s.send (.device change))
  | .signal reason => some (s.send (.stop reason))
  | .request id reason =>
    match s.sessions.lookup id with
    | none => none
    | some v => if v.joined then none else some (s.setSession id (v.request reason))
  | .watcher id =>
    match s.sessions.lookup id with
    | none => none
    | some v => s.watcherStep id v
  | .join id =>
    match s.sessions.lookup id with
    | none => none
    -- joined by the thread that `unmount` spawns after the stop flag is set
    | some v => if v.watcherStop then some (s.setSession id { v with joined := true }) else none
  | .supervisor outcome => s.supervisorStep outcome

/-! ## What a give-up takes down -/

/-- A watcher sends only while no other mount has its key, and a device is
mounted only while no other session's give-up is in the channel with its key. -/
def Timely (s : Supervisor) : Turn → Prop
  | .watcher id => ∀ v ∈ s.sessions.lookup id, v.watcher.isForwarding = true →
      ∀ mount ∈ s.mounts.lookup v.key, mount.session = id
  | .supervisor _ => ∀ e ∈ s.phase.entered, ∀ c ∈ s.commands,
      ∀ origin ∈ c.raisedBy e.1.key, origin = e.2
  | _ => True

instance (s : Supervisor) (t : Turn) : Decidable (s.Timely t) :=
  match t with
  | .watcher _ => inferInstanceAs (Decidable (∀ v ∈ s.sessions.lookup _, _))
  | .supervisor _ => inferInstanceAs (Decidable (∀ e ∈ s.phase.entered, _))
  | .hotplug _ | .signal _ | .request .. | .join _ => inferInstanceAs (Decidable True)

/-- A give-up in the channel can only meet the mount that raised it. -/
structure Owned (s : Supervisor) : Prop where
  queued : ∀ c ∈ s.commands, ∀ key, ∀ origin ∈ c.raisedBy key,
    ∀ mount ∈ s.mounts.lookup key, mount.session = origin
  taken : ∀ session key reason origin,
    s.phase.takesDown = some (session, .giveUp key reason origin) → session = origin

variable {s s' : Supervisor}

theorem owned_new : Owned .new where
  queued := fun _ h => nomatch h
  taken := fun _ _ _ _ h => nomatch h

/-- Commands may have been taken, and sessions changed. -/
theorem Owned.frame (h : s.Owned) (hc : ∀ c ∈ s'.commands, c ∈ s.commands)
    (hm : s'.mounts = s.mounts) (hp : s'.phase.takesDown = none ∨ s'.phase = s.phase) :
    s'.Owned where
  queued := fun c hc' key origin ho mount hl => h.queued c (hc c hc') key origin ho mount (hm ▸ hl)
  taken := fun session key reason origin ht => by
    rcases hp with hp | hp
    · rw [hp] at ht
      cases ht
    · exact h.taken session key reason origin (hp ▸ ht)

theorem Owned.send (h : s.Owned) {c : Command} (hc : ∀ key, ∀ origin ∈ c.raisedBy key,
    ∀ mount ∈ s.mounts.lookup key, mount.session = origin) : (s.send c).Owned where
  queued := fun c' hc' => by
    rcases List.mem_append.mp hc' with hc' | hc'
    · exact h.queued c' hc'
    · rw [List.mem_singleton.mp hc']
      exact hc
  taken := h.taken

theorem Owned.setSession (h : s.Owned) (id : Nat) (v : Session) : (s.setSession id v).Owned :=
  h.frame (fun _ hc => hc) rfl (.inr rfl)

/-- Taking a mount down is right when the command is a give-up of its session. -/
theorem Owned.unmount (h : s.Owned) {key : String} {cause : Command}
    (hc : ∀ k reason origin, cause = .giveUp k reason origin →
      ∀ mount ∈ s.mounts.lookup key, mount.session = origin) : (s.unmount key cause).Owned := by
  unfold Supervisor.unmount
  split
  · exact h
  · rename_i mount hl
    refine ⟨fun c hc' k origin ho mount' hl' => ?_, fun session k reason origin ht => ?_⟩
    · dsimp only at hl'
      rw [HashMap.lookup_erase] at hl'
      split at hl'
      · cases hl'
      · exact h.queued c hc' k origin ho mount' hl'
    · simp only [Phase.takesDown, Option.some.injEq, Prod.mk.injEq] at ht
      obtain ⟨rfl, hcause⟩ := ht
      exact hc k reason origin hcause mount hl

theorem Owned.handle (h : s.Owned) {c : Command}
    (hc : ∀ key, ∀ origin ∈ c.raisedBy key, ∀ mount ∈ s.mounts.lookup key, mount.session = origin) :
    (s.handle c).Owned := by
  cases c with
  | device change =>
    cases change with
    | arrived ident =>
      simp only [Supervisor.handle]
      split
      · exact h
      · exact h.frame (fun _ hc => hc) rfl (.inl rfl)
    | left ident =>
      refine h.unmount ?_
      rintro k reason origin ⟨⟩
  | giveUp key reason origin =>
    refine h.unmount ?_
    rintro _ _ _ ⟨⟩
    exact hc key origin (if_pos rfl)
  | stop reason => exact h.frame (fun _ hc => hc) rfl (.inl rfl)

theorem Owned.supervisorStep (h : s.Owned) {outcome : Outcome}
    (hok : s.Timely (.supervisor outcome)) (hs : s.supervisorStep outcome = some s') : s'.Owned := by
  unfold Supervisor.supervisorStep at hs
  split at hs
  · rename_i hp
    split at hs
    · cases hs
    · rename_i c cs hc
      cases hs
      have hrest : Owned { s with commands := cs } :=
        h.frame (fun c' hc' => hc ▸ List.mem_cons_of_mem c hc') rfl (.inr rfl)
      exact hrest.handle (h.queued c (hc ▸ List.mem_cons_self))
  · split at hs
    · cases hs
      exact h.frame (fun _ hc => hc) rfl (.inl rfl)
    · cases hs
      exact h.frame (fun _ hc => hc) rfl (.inl rfl)
  · rename_i ident session hp
    cases hs
    have hentered : (ident, session) ∈ s.phase.entered := by
      rw [hp]
      rfl
    refine ⟨fun c hc key origin ho mount hl => ?_, fun _ _ _ _ ht => nomatch ht⟩
    dsimp only at hl
    rw [HashMap.lookup_insert] at hl
    split at hl
    · rename_i hkey
      cases hl
      exact (hok _ hentered c hc origin (hkey ▸ ho)).symm
    · exact h.queued c hc key origin ho mount hl
  · rename_i session cause hp
    cases hs
    refine ⟨h.queued, fun session' key reason origin ht => ?_⟩
    exact h.taken session' key reason origin (by rw [hp]; exact ht)
  · split at hs
    · cases hs
      exact h.frame (fun _ hc => hc) rfl (.inl rfl)
    · cases hs
      exact h.frame (fun _ hc => hc) rfl (.inl rfl)
  · split at hs
    · cases hs
      exact h.frame (fun _ hc => hc) rfl (.inl rfl)
    · cases hs
      refine h.unmount ?_
      rintro k reason origin ⟨⟩
  · cases hs

theorem Owned.watcherStep (h : s.Owned) {id : Nat} {v : Session}
    (hv : s.sessions.lookup id = some v) (hok : s.Timely (.watcher id))
    (hs : s.watcherStep id v = some s') : s'.Owned := by
  unfold Supervisor.watcherStep at hs
  split at hs
  · split at hs
    · cases hs
      exact h.setSession id _
    · cases hs
      exact h.setSession id _
  · rename_i reason hw
    cases hs
    refine (h.setSession id _).send fun key origin ho => ?_
    simp only [Command.raisedBy, Option.mem_def] at ho
    split at ho
    · rename_i hkey
      cases ho
      rw [← hkey]
      exact hok v hv (by rw [hw]; rfl)
    · cases ho
  · cases hs
    exact h.setSession id _
  · cases hs

theorem Owned.step (h : s.Owned) {t : Turn} (hok : s.Timely t) (hs : s.step t = some s') :
    s'.Owned := by
  cases t with
  | hotplug change =>
    cases hs
    exact h.send fun _ _ ho => nomatch ho
  | signal reason =>
    cases hs
    exact h.send fun _ _ ho => nomatch ho
  | request id reason =>
    simp only [Supervisor.step] at hs
    split at hs
    · cases hs
    · split at hs
      · cases hs
      · cases hs
        exact h.setSession id _
  | watcher id =>
    simp only [Supervisor.step] at hs
    split at hs
    · cases hs
    · rename_i v hv
      exact h.watcherStep hv hok hs
  | join id =>
    simp only [Supervisor.step] at hs
    split at hs
    · cases hs
    · split at hs
      · cases hs
        exact h.setSession id _
      · cases hs
  | supervisor outcome => exact h.supervisorStep hok hs

end Supervisor

open Supervisor

/-- The states that the daemon reaches by turns that were all allowed. -/
abbrev DaemonRun (allowed : Supervisor → Turn → Prop) : Supervisor → Prop :=
  Transitions.Run Supervisor.step allowed .new

/-- In every run whose turns are timely, what is taken down for a give-up is the
mount of the session that raised it. -/
theorem giveUp_own {s : Supervisor} (h : DaemonRun Timely s) {session origin : Nat}
    {key reason : String} (ht : s.phase.takesDown = some (session, .giveUp key reason origin)) :
    session = origin :=
  (h.invariant owned_new fun _ _ _ _ ih hok hs => ih.step hok hs).taken session key reason origin ht

/-- A phone is mounted. -/
def phone : DeviceIdent := ⟨"phone", "Phone", some "1"⟩

def mountPhone : List Turn :=
  [.hotplug (.arrived phone), .supervisor .spawned, .supervisor .spawned, .supervisor .spawned]

theorem giveUp_own_phone : ∃ (s : Supervisor) (session : Nat), DaemonRun Timely s ∧
    s.phase.takesDown = some (session, .giveUp "phone" "gone" 0) ∧ session = 0 := by
  obtain ⟨s, hs, ht⟩ := Transitions.Run.of_test Supervisor.step .new
    (fun s t => decide (s.Timely t)) (fun _ _ h => of_decide_eq_true h)
    (mountPhone ++ [.request 0 "gone", .watcher 0, .watcher 0, .supervisor .spawned])
    (fun s => decide (s.phase.takesDown.map Prod.snd = some (.giveUp "phone" "gone" 0)))
    (by rfl)
  obtain ⟨⟨session, c⟩, hp, rfl⟩ := Option.map_eq_some_iff.mp (of_decide_eq_true ht)
  exact ⟨s, session, hs, hp, giveUp_own hs hp⟩

/-- The phone leaves while a callback of its mount still runs, and comes back; the
callback gives up, and the watcher forwards it without a look at its stop flag. -/
def staleGiveUp : List Turn :=
  mountPhone ++
  [.hotplug (.left phone), .supervisor .spawned, .supervisor .spawned, .supervisor .spawned,
    .request 0 "gone"] ++
  mountPhone ++ [.watcher 0, .watcher 0, .supervisor .spawned]

/-- The give-up of the first mount takes the second one down. -/
theorem giveUp_later : ∃ s : Supervisor, DaemonRun (fun _ _ => True) s ∧
    s.phase.takesDown = some (1, .giveUp "phone" "gone" 0) := by
  obtain ⟨s, hs, ht⟩ := Transitions.Run.of_test Supervisor.step .new
    (fun _ _ => true) (fun _ _ _ => trivial) staleGiveUp
    (fun s => decide (s.phase.takesDown = some (1, .giveUp "phone" "gone" 0))) (by rfl)
  exact ⟨s, hs, of_decide_eq_true ht⟩

end MtpMount
