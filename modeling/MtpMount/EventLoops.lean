import MtpMount.FsRules

/-!
# The event loops

One task for each session that the mount took over. It polls the events of its
own device and takes the lock to handle one, if it is of a kind that it does more with
than log it; it looks at the mount's epoch only
before a poll. So a loop may be past that look when a reconnect moves the mount
on, and then handles an event of a device that is gone. A reconnect stores the new
device first and counts the epoch up after that, and the loops go on in between.

* `superseded_loop`: under every order of steps, a loop whose epoch a reconnect
  ended takes at most three more steps, and handles at most one more event;
* what is handled under the lock in time is of the device that the mount is on, and so
  are the other steps, but for those between the two stores of a reconnect;
* `superseded_loop_late`: a run in which the one late event is handled.
-/

namespace MtpMount

open Interaction

/-- What a poll of `next_event` for 200 ms comes to. -/
inductive NextEvent where
  | event (e : DeviceEvent)
  /-- The device timed out, or the 200 ms are over. -/
  | quiet
  | failed (e : Error)
  deriving DecidableEq, Repr

/-- Where the task of an event loop is. -/
inductive LoopPhase where
  /-- About to compare the epochs. -/
  | check
  | poll
  /-- Has an event; `handle_event` is next. -/
  | handle (e : DeviceEvent)
  | ended
  deriving DecidableEq, Repr

structure EventLoop where
  device : MtpDevice
  epoch : Nat
  phase : LoopPhase
  deriving DecidableEq, Repr

/-- `handle_event` takes the lock for it. The others it only logs. -/
def DeviceEvent.needsLock : DeviceEvent → Bool
  | .other => false
  | _ => true

def LoopPhase.event? : LoopPhase → Option DeviceEvent
  | .handle e => some e
  | _ => none

namespace EventLoop

/-- A step that needs no lock; `next` is what a poll comes to. -/
def step (loop : EventLoop) (current : Nat) (next : NextEvent) : Option EventLoop :=
  match loop.phase with
  | .check => some { loop with phase := if current ≠ loop.epoch then .ended else .poll }
  | .poll => some { loop with phase := match next with
      | .event e => .handle e
      | .quiet => .check
      | .failed _ => .ended }
  | .handle e => if e.needsLock then none else some { loop with phase := .check }
  | .ended => none

end EventLoop

/-- One step of a loop, next to what the mount was on when it was taken. -/
structure LoopStep where
  loop : Nat
  device : MtpDevice
  epoch : Nat
  mounted : MtpDevice
  /-- The device before, if the epoch is still to be counted up. -/
  replaced : Option MtpDevice
  current : Nat
  handled : Option DeviceEvent
  deriving DecidableEq, Repr

/-- The mount had moved on. -/
def LoopStep.isLate (s : LoopStep) : Bool := s.epoch != s.current

/-- The loops with all that they did, and what they read of the mount. -/
structure Loops where
  loops : List EventLoop
  mounted : MtpDevice
  /-- The device that `mounted` has taken the place of, until the epoch is counted up. -/
  replaced : Option MtpDevice
  current : Nat
  log : List LoopStep
  deriving DecidableEq, Repr

namespace Loops

/-- Before `init`. -/
def new (device : MtpDevice) : Loops := ⟨[], device, none, 0, []⟩

def record (e : Loops) (n : Nat) (loop loop' : EventLoop) (handled : Option DeviceEvent) : Loops :=
  { e with
    loops := e.loops.set n loop'
    log := e.log ++ [⟨n, loop.device, loop.epoch, e.mounted, e.replaced, e.current, handled⟩] }

/-- The loop takes a step without the lock. -/
def advance (e : Loops) (n : Nat) (next : NextEvent) : Option Loops :=
  e.loops[n]?.bind fun loop =>
    (loop.step e.current next).map fun loop' => e.record n loop loop' loop.phase.event?

/-- The loop gets the lock, and goes on to its next look at the epoch. -/
def handle (e : Loops) (n : Nat) : Option (DeviceEvent × Loops) :=
  e.loops[n]?.bind fun loop =>
    match loop.phase with
    | .handle ev =>
      if ev.needsLock then
        some (ev, e.record n loop { loop with phase := .check } (some ev))
      else none
    | _ => none

/-- `adopt` stores the device. -/
def store (e : Loops) (device : MtpDevice) : Loops :=
  { e with mounted := device, replaced := some e.mounted }

/-- `adopt` counts the epoch up. -/
def countUp (e : Loops) (epoch : Nat) : Loops := { e with replaced := none, current := epoch }

/-- `spawn_event_loop`. -/
def spawn (e : Loops) (device : MtpDevice) (epoch : Nat) : Loops :=
  { e with loops := e.loops ++ [⟨device, epoch, .check⟩] }

/-- The steps that loop `n` took late. -/
def lateSteps (e : Loops) (n : Nat) : List LoopStep :=
  e.log.filter fun s => s.loop == n && s.isLate

/-- The events that loop `n` handled late. -/
def lateEvents (e : Loops) (n : Nat) : List LoopStep :=
  (e.lateSteps n).filter fun s => s.handled.isSome

end Loops

/-- The loops take some steps, in any order. What is listed needs the lock. -/
inductive Turns : Loops → List BackgroundStep → Loops → Prop
  | done (e : Loops) : Turns e [] e
  | advance {e e₁ e' : Loops} {n : Nat} {next : NextEvent} {steps : List BackgroundStep} :
      e.advance n next = some e₁ → Turns e₁ steps e' → Turns e steps e'
  | handle {e e₁ e' : Loops} {n : Nat} {ev : DeviceEvent} {steps : List BackgroundStep} :
      e.handle n = some (ev, e₁) → Turns e₁ steps e' → Turns e (.event ev :: steps) e'
  | filler {e e' : Loops} {id : Nat} {fault : Option WriteFault} {steps : List BackgroundStep} :
      Turns e steps e' → Turns e (.filler id fault :: steps) e'

/-- Any device; the loops run beside the callbacks, and also between the stores that come
before a spawn. `init` has both in place already. -/
inductive LoopAnswer : Answers Call Answer Loops
  | spawn {e e₁ e₂ e₃ : Loops} {device : MtpDevice} {epoch : Nat} :
      Turns e [] e₁ → Turns (e₁.store device) [] e₂ → Turns (e₂.countUp epoch) [] e₃ →
      LoopAnswer e (.spawnEventLoop device epoch) () (e₃.spawn device epoch)
  | background {e e' : Loops} {steps : List BackgroundStep} :
      Turns e steps e' → LoopAnswer e .background steps e'
  | other {e e' : Loops} {c : Call} {a : Answer c} : c ≠ .background →
      (∀ device epoch, c ≠ .spawnEventLoop device epoch) → Turns e [] e' → LoopAnswer e c a e'

namespace LoopPhase

/-- How many steps a loop that was left behind may still take. -/
def stepsLeft : LoopPhase → Nat
  | .check => 1
  | .poll => 3
  | .handle _ => 2
  | .ended => 0

/-- How many events it may still handle. -/
def eventsLeft : LoopPhase → Nat
  | .check | .ended => 0
  | .poll | .handle _ => 1

theorem stepsLeft_le (p : LoopPhase) : p.stepsLeft ≤ 3 := by cases p <;> simp [stepsLeft]

theorem eventsLeft_le (p : LoopPhase) : p.eventsLeft ≤ 1 := by cases p <;> simp [eventsLeft]

end LoopPhase

namespace Loops

/-- What the loop may still do late, with what it did, stays within the bounds. -/
def Within (e : Loops) (n : Nat) (loop : EventLoop) : Prop :=
  if loop.epoch = e.current then e.lateSteps n = []
  else (e.lateSteps n).length + loop.phase.stepsLeft ≤ 3 ∧
    (e.lateEvents n).length + loop.phase.eventsLeft ≤ 1

/-- What holds of the loops in every run. -/
structure Ordered (e : Loops) : Prop where
  past : ∀ (n : Nat) (loop : EventLoop), e.loops[n]? = some loop → loop.epoch ≤ e.current
  own : ∀ (n : Nat) (loop : EventLoop), e.loops[n]? = some loop → loop.epoch = e.current →
    loop.device = e.replaced.getD e.mounted
  within : ∀ (n : Nat) (loop : EventLoop), e.loops[n]? = some loop → e.Within n loop
  started : ∀ s ∈ e.log, s.loop < e.loops.length
  inTime : ∀ s ∈ e.log, s.isLate = false → s.device = s.replaced.getD s.mounted
  /-- A reconnect has the lock. -/
  locked : ∀ s ∈ e.log, ∀ ev, s.handled = some ev → ev.needsLock = true → s.replaced = none

variable {e e' : Loops} {n : Nat}

/-- What the loops read of the mount is the same. -/
structure OnSame (e' e : Loops) : Prop where
  current : e'.current = e.current
  mounted : e'.mounted = e.mounted
  replaced : e'.replaced = e.replaced

theorem OnSame.refl (e : Loops) : e.OnSame e := ⟨rfl, rfl, rfl⟩

theorem OnSame.trans {e₁ e₂ e₃ : Loops} (h : e₁.OnSame e₂) (h' : e₂.OnSame e₃) : e₁.OnSame e₃ :=
  ⟨h.current.trans h'.current, h.mounted.trans h'.mounted, h.replaced.trans h'.replaced⟩

theorem ordered_new (device : MtpDevice) : (new device).Ordered where
  past := fun _ _ h => nomatch h
  own := fun _ _ h => nomatch h
  within := fun _ _ h => nomatch h
  started := fun _ h => nomatch h
  inTime := fun _ h => nomatch h
  locked := fun _ h => nomatch h

@[simp] theorem record_current (loop loop' : EventLoop) (ev : Option DeviceEvent) :
    (e.record n loop loop' ev).current = e.current := rfl

@[simp] theorem record_mounted (loop loop' : EventLoop) (ev : Option DeviceEvent) :
    (e.record n loop loop' ev).mounted = e.mounted := rfl

theorem lateSteps_record (loop loop' : EventLoop) (ev : Option DeviceEvent) (m : Nat) :
    (e.record n loop loop' ev).lateSteps m = e.lateSteps m ++
      if n = m ∧ loop.epoch ≠ e.current then
        [⟨n, loop.device, loop.epoch, e.mounted, e.replaced, e.current, ev⟩] else [] := by
  unfold lateSteps record
  rw [List.filter_append]
  by_cases h : n = m <;> by_cases h' : loop.epoch = e.current <;> simp [LoopStep.isLate, h, h']

theorem lateEvents_record (loop loop' : EventLoop) (ev : Option DeviceEvent) (m : Nat) :
    ((e.record n loop loop' ev).lateEvents m).length = (e.lateEvents m).length +
      if n = m ∧ loop.epoch ≠ e.current ∧ ev.isSome then 1 else 0 := by
  unfold lateEvents
  rw [lateSteps_record, List.filter_append, List.length_append]
  by_cases h : n = m ∧ loop.epoch ≠ e.current
  · cases ev <;> simp [h]
  · have h' : ¬ (n = m ∧ loop.epoch ≠ e.current ∧ ev.isSome) := fun h' => h ⟨h'.1, h'.2.1⟩
    simp [h, h']

/-- A step of a loop that the bounds allow. -/
theorem Ordered.record (h : e.Ordered) {loop loop' : EventLoop} {ev : Option DeviceEvent}
    (hn : e.loops[n]? = some loop) (hd : loop'.device = loop.device) (he : loop'.epoch = loop.epoch)
    (hsteps : loop.epoch ≠ e.current → loop'.phase.stepsLeft + 1 ≤ loop.phase.stepsLeft)
    (hevents : loop.epoch ≠ e.current →
      loop'.phase.eventsLeft + (if ev.isSome then 1 else 0) ≤ loop.phase.eventsLeft)
    (hlocked : ∀ ev', ev = some ev' → ev'.needsLock = true → e.replaced = none) : (e.record n loop loop' ev).Ordered := by
  have hlt : n < e.loops.length := (List.getElem?_eq_some_iff.mp hn).1
  have hset : ∀ m l, (e.loops.set n loop')[m]? = some l →
      (m = n ∧ l = loop') ∨ (m ≠ n ∧ e.loops[m]? = some l) := by
    intro m l hl
    rw [List.getElem?_set] at hl
    split at hl
    · rename_i hm
      exact .inl ⟨hm.symm, (Option.some.inj hl).symm⟩
    · rename_i hm
      exact .inr ⟨fun h => hm h.symm, hl⟩
  constructor
  · intro m l hl
    obtain ⟨rfl, rfl⟩ | ⟨-, hl⟩ := hset m l hl
    · rw [he]
      exact h.past m loop hn
    · exact h.past m l hl
  · intro m l hl hcur
    obtain ⟨rfl, rfl⟩ | ⟨-, hl⟩ := hset m l hl
    · rw [hd]
      exact h.own m loop hn (he.symm.trans hcur)
    · exact h.own m l hl hcur
  · intro m l hl
    have hw := h.within m
    unfold Within at hw ⊢
    obtain ⟨rfl, rfl⟩ | ⟨hm, hl⟩ := hset m l hl
    · specialize hw loop hn
      rw [lateSteps_record, lateEvents_record, he]
      by_cases hcur : loop.epoch = e.current
      · simpa [hcur] using hw
      · have hs := hsteps hcur
        have hv := hevents hcur
        simp only [hcur, record_current, if_false] at hw ⊢
        cases ev <;> simp_all <;> omega
    · specialize hw l hl
      rw [lateSteps_record, lateEvents_record]
      simpa [Ne.symm hm] using hw
  · intro s hs
    have hlen : (e.record n loop loop' ev).loops.length = e.loops.length := List.length_set
    rw [hlen]
    rcases List.mem_append.mp hs with hs | hs
    · exact h.started s hs
    · cases List.mem_singleton.mp hs
      exact hlt
  · intro s hs hlate
    rcases List.mem_append.mp hs with hs | hs
    · exact h.inTime s hs hlate
    · cases List.mem_singleton.mp hs
      simp only [LoopStep.isLate, bne_eq_false_iff_eq] at hlate
      exact h.own n loop hn hlate
  · intro s hs ev' hhandled hneeds
    rcases List.mem_append.mp hs with hs | hs
    · exact h.locked s hs ev' hhandled hneeds
    · cases List.mem_singleton.mp hs
      exact hlocked ev' hhandled hneeds

theorem Ordered.advance {next : NextEvent} (h : e.Ordered) (ha : e.advance n next = some e') :
    e'.Ordered ∧ e'.OnSame e := by
  obtain ⟨loop, hn, ha⟩ := Option.bind_eq_some_iff.mp ha
  obtain ⟨loop', hstep, rfl⟩ := Option.map_eq_some_iff.mp ha
  refine ⟨?_, rfl, rfl, rfl⟩
  unfold EventLoop.step at hstep
  split at hstep
  · rename_i hp
    cases hstep
    refine h.record hn rfl rfl (fun hcur => ?_) (fun hcur => ?_) fun ev hev => ?_
    · simp [hp, Ne.symm hcur, LoopPhase.stepsLeft]
    · simp [hp, Ne.symm hcur, LoopPhase.eventsLeft, LoopPhase.event?]
    · simp [hp, LoopPhase.event?] at hev
  · rename_i hp
    cases hstep
    refine h.record hn rfl rfl (fun _ => ?_) (fun _ => ?_) fun ev hev => ?_
    · cases next <;> simp [hp, LoopPhase.stepsLeft]
    · cases next <;> simp [hp, LoopPhase.eventsLeft, LoopPhase.event?]
    · simp [hp, LoopPhase.event?] at hev
  · rename_i ev hp
    split at hstep
    · cases hstep
    · rename_i hfree
      cases hstep
      refine h.record hn rfl rfl (fun _ => ?_) (fun _ => ?_) fun ev' hev hneeds => ?_
      · simp [hp, LoopPhase.stepsLeft]
      · simp [hp, LoopPhase.eventsLeft, LoopPhase.event?]
      · rw [hp] at hev
        cases hev
        exact absurd hneeds hfree
  · cases hstep

theorem Ordered.handle {ev : DeviceEvent} (h : e.Ordered) (hlock : e.replaced = none)
    (ha : e.handle n = some (ev, e')) : e'.Ordered ∧ e'.OnSame e := by
  obtain ⟨loop, hn, ha⟩ := Option.bind_eq_some_iff.mp ha
  split at ha
  · rename_i ev' hp
    split at ha
    · cases ha
      refine ⟨h.record hn rfl rfl (fun _ => ?_) (fun _ => ?_) fun _ _ _ => hlock, rfl, rfl, rfl⟩
      · simp [hp, LoopPhase.stepsLeft]
      · simp [hp, LoopPhase.eventsLeft]
    · cases ha
  · cases ha

/-- What is listed is done under the lock. -/
theorem Ordered.turns {steps : List BackgroundStep} (h : e.Ordered)
    (hlock : steps = [] ∨ e.replaced = none) (ht : Turns e steps e') :
    e'.Ordered ∧ e'.OnSame e := by
  induction ht with
  | done => exact ⟨h, .refl _⟩
  | advance ha _ ih =>
    obtain ⟨h₁, hs⟩ := h.advance ha
    obtain ⟨h₂, hs'⟩ := ih h₁ (hlock.imp_right hs.replaced.trans)
    exact ⟨h₂, hs'.trans hs⟩
  | handle ha _ ih =>
    have hfree := hlock.resolve_left (List.cons_ne_nil _ _)
    obtain ⟨h₁, hs⟩ := h.handle hfree ha
    obtain ⟨h₂, hs'⟩ := ih h₁ (.inr (hs.replaced.trans hfree))
    exact ⟨h₂, hs'.trans hs⟩
  | filler _ ih => exact ih h (.inr (hlock.resolve_left (List.cons_ne_nil _ _)))

/-- The loops of the epoch are those of the device before. -/
theorem Ordered.store (h : e.Ordered) (hnone : e.replaced = none) (device : MtpDevice) :
    (e.store device).Ordered where
  past := h.past
  own := fun n loop hn hcur => by
    have hown := h.own n loop hn hcur
    rw [hnone] at hown
    exact hown
  within := h.within
  started := h.started
  inTime := h.inTime
  locked := h.locked

/-- No loop has the new epoch yet. -/
theorem Ordered.countUp (h : e.Ordered) {epoch : Nat}
    (hs : epoch = e.current + 1 ∨ epoch = e.current ∧ e.replaced.getD e.mounted = e.mounted) :
    (e.countUp epoch).Ordered where
  past := fun n loop hn => by
    have hpast := h.past n loop hn
    change loop.epoch ≤ epoch
    omega
  own := fun n loop hn hcur => by
    have hpast := h.past n loop hn
    change loop.epoch = epoch at hcur
    rcases hs with hs | ⟨hs, hsame⟩
    · omega
    · exact (h.own n loop hn (hcur.trans hs)).trans hsame
  within := fun n loop hn => by
    have hpast := h.past n loop hn
    have hw := h.within n loop hn
    unfold Within at hw
    change if loop.epoch = epoch then e.lateSteps n = [] else
      (e.lateSteps n).length + loop.phase.stepsLeft ≤ 3 ∧
        (e.lateEvents n).length + loop.phase.eventsLeft ≤ 1
    by_cases hcur : loop.epoch = e.current
    · rw [if_pos hcur] at hw
      have hev : e.lateEvents n = [] := by rw [lateEvents, hw, List.filter_nil]
      simp [hw, hev, LoopPhase.stepsLeft_le, LoopPhase.eventsLeft_le]
    · rw [if_neg hcur] at hw
      rw [if_neg (by omega)]
      exact hw
  started := h.started
  inTime := h.inTime
  locked := h.locked

/-- A loop of the session the mount is on. -/
theorem Ordered.spawn (h : e.Ordered) {device : MtpDevice} {epoch : Nat} (hcur : e.current = epoch)
    (hm : e.replaced.getD e.mounted = device) : (e.spawn device epoch).Ordered := by
  have hget : ∀ m l, (e.spawn device epoch).loops[m]? = some l →
      e.loops[m]? = some l ∨ m = e.loops.length ∧ l = ⟨device, epoch, .check⟩ := by
    intro m l hl
    dsimp only [Loops.spawn] at hl
    rw [List.getElem?_append] at hl
    split at hl
    · exact .inl hl
    · refine .inr ?_
      rw [List.getElem?_singleton] at hl
      split at hl
      · exact ⟨by omega, (Option.some.inj hl).symm⟩
      · cases hl
  constructor
  · intro m l hl
    rcases hget m l hl with hl | ⟨-, rfl⟩
    · exact h.past m l hl
    · exact Nat.le_of_eq hcur.symm
  · intro m l hl hepoch
    rcases hget m l hl with hl | ⟨-, rfl⟩
    · exact h.own m l hl hepoch
    · exact hm.symm
  · intro m l hl
    rcases hget m l hl with hl | ⟨rfl, rfl⟩
    · exact h.within m l hl
    · refine (if_pos hcur.symm).mpr (List.filter_eq_nil_iff.mpr fun s hlog => ?_)
      have := Nat.ne_of_lt (h.started s hlog)
      simp [this]
  · intro s hs
    have hlen : (e.spawn device epoch).loops.length = e.loops.length + 1 := List.length_append
    exact hlen ▸ Nat.lt_succ_of_lt (h.started s hs)
  · exact h.inTime
  · exact h.locked

end Loops

/-- The loops are in order, and know what the mount is on. -/
structure Link.Watched (l : Link) (e : Loops) : Prop where
  epoch : l.eventEpoch = e.current
  device : l.device = e.mounted
  settled : e.replaced = none
  loops : e.Ordered

namespace Link.Watched

variable {l : Link} {e e' : Loops}

/-- A call that spawns no loop only lets them run. -/
theorem answered {c : Call} {a : Answer c} (h : l.Watched e)
    (hc : ∀ device epoch, c ≠ .spawnEventLoop device epoch) (hr : LoopAnswer e c a e') :
    l.Watched e' := by
  have hturns : ∃ steps, Turns e steps e' := by
    cases hr with
    | spawn => exact absurd rfl (hc _ _)
    | background ht => exact ⟨_, ht⟩
    | other _ _ ht => exact ⟨_, ht⟩
  obtain ⟨steps, ht⟩ := hturns
  obtain ⟨ho, hs⟩ := h.loops.turns (.inr h.settled) ht
  exact ⟨h.epoch.trans hs.current.symm, h.device.trans hs.mounted.symm,
    hs.replaced.trans h.settled, ho⟩

theorem spawned {device : MtpDevice} {epoch : Nat} {a : Answer (.spawnEventLoop device epoch)}
    (h : l.Watched e) (hs : epoch = l.eventEpoch + 1 ∨ epoch = l.eventEpoch ∧ device = l.device)
    (hr : LoopAnswer e (.spawnEventLoop device epoch) a e') :
    e'.current = epoch ∧ e'.mounted = device ∧ e'.replaced = none ∧ e'.Ordered := by
  cases hr with
  | @spawn e e₁ e₂ e₃ _ _ ht₁ ht₂ ht₃ =>
    obtain ⟨ho₁, hs₁⟩ := h.loops.turns (.inl rfl) ht₁
    obtain ⟨ho₂, hs₂⟩ := (ho₁.store (hs₁.replaced.trans h.settled) device).turns (.inl rfl) ht₂
    have hcur : e₂.current = l.eventEpoch := by rw [hs₂.current, h.epoch, ← hs₁.current]; rfl
    have hbefore : e₂.replaced.getD e₂.mounted = l.device := by
      rw [hs₂.replaced, h.device, ← hs₁.mounted]
      rfl
    have hcount : epoch = e₂.current + 1 ∨
        epoch = e₂.current ∧ e₂.replaced.getD e₂.mounted = e₂.mounted := by
      rw [hcur, hbefore, hs₂.mounted]
      exact hs.imp_right fun hsame => ⟨hsame.1, hsame.2.symm⟩
    obtain ⟨ho₃, hs₃⟩ := (ho₂.countUp hcount).turns (.inl rfl) ht₃
    have hm : e₃.mounted = device := hs₃.mounted.trans hs₂.mounted
    have hnone : e₃.replaced = none := hs₃.replaced
    refine ⟨hs₃.current, hm, hnone, ho₃.spawn hs₃.current ?_⟩
    rw [hnone]
    exact hm
  | other _ hc => exact absurd rfl (hc device epoch)

end Link.Watched

theorem linkInvariant_watched :
    LinkInvariant LoopAnswer (fun _ _ => True) Link.Watched (fun _ _ => True) where
  token := fun _ _ => trivial
  aside := fun {l e c} hc h => ⟨trivial, fun a e' hr =>
    ⟨h.answered (fun _ _ hs => by subst hs; cases hc) hr, fun _ h => h⟩⟩
  query := fun {l e c _ _} _ ht h _ _ => ⟨trivial, fun a e' hr =>
    ⟨h.answered (fun _ _ hs => by subst hs; cases ht) hr, fun _ h => h, fun _ _ => trivial⟩⟩
  setHandle := fun h _ => ⟨h.epoch, h.device, h.settled, h.loops⟩
  syncChildren := fun h _ _ => ⟨h.epoch, h.device, h.settled, h.loops⟩
  loaded := fun h _ _ => ⟨h.epoch, h.device, h.settled, h.loops⟩
  rootLoaded := fun h => ⟨h.epoch, h.device, h.settled, h.loops⟩
  forget := fun _ h => ⟨h.epoch, h.device, h.settled, h.loops⟩
  giveUp := fun h => ⟨h.epoch, h.device, h.settled, h.loops⟩
  invalidate := fun {l e} h => by
    refine ⟨trivial, fun a e' hr => ?_⟩
    obtain ⟨he, hd, hn, ho⟩ := h.answered (fun _ _ hs => by cases hs) hr
    exact ⟨he, hd, hn, ho⟩
  reopen := fun {l e} h => by
    refine ⟨trivial, fun a e₁ hr₁ => ?_⟩
    have h₁ := h.answered (fun _ _ hs => by cases hs) hr₁
    refine ⟨h₁, fun device _ => ⟨trivial, fun b e₂ hr₂ => ?_⟩⟩
    have h₂ := h₁.answered (fun _ _ hs => by cases hs) hr₂
    refine ⟨h₂, fun infos _ => ⟨trivial, fun u e₃ hr₃ => ⟨trivial, fun v e₄ hr₄ => ?_⟩⟩⟩
    have h₃ := h₂.answered (fun _ _ hs => by cases hs) hr₃
    obtain ⟨hcur, hm, hn, ho⟩ := h₃.spawned (.inl rfl) hr₄
    exact ⟨hcur.symm, hm.symm, hn, ho⟩
  mutation := fun {l e c _ _} _ _ ht h _ _ => ⟨trivial, fun a e' hr =>
    ⟨h.answered (fun _ _ hs => by subst hs; cases ht) hr, fun _ h => h, fun _ _ => trivial⟩⟩
  record := fun _ h _ _ _ _ _ => ⟨h.epoch, h.device, h.settled, h.loops⟩
  init := fun h => ⟨trivial, fun a e' hr => h.answered (fun _ _ hs => by cases hs) hr⟩
  addStorage := fun _ _ _ h => ⟨h.epoch, h.device, h.settled, h.loops⟩
  setStorages := fun _ h => ⟨h.epoch, h.device, h.settled, h.loops⟩
  spawn := fun {l e} h => by
    refine ⟨trivial, fun a e' hr => ?_⟩
    obtain ⟨hcur, hm, hn, ho⟩ := h.spawned (.inr ⟨rfl, rfl⟩) hr
    exact ⟨hcur.symm, hm.symm, hn, ho⟩
  addObject := fun _ _ _ _ _ h _ _ => ⟨h.epoch, h.device, h.settled, h.loops⟩
  remove := fun _ h _ => ⟨h.epoch, h.device, h.settled, h.loops⟩
  rename := fun _ _ _ h _ => ⟨h.epoch, h.device, h.settled, h.loops⟩
  panic := fun _ _ _ => trivial

/-- A run of a mount and its event loops. -/
abbrev LoopRun (fs₀ : MtpFs) (h : List (Callback × Reply)) (fs : MtpFs) (e : Loops) : Prop :=
  Served LoopAnswer dispatch (fun _ _ _ _ => True) fs₀ (.new fs₀.link.device) h fs e

/-- In every run, a loop of an epoch that is over took at most three steps since
then, at most one of which handled an event. Every event handled in time under the lock
was of the device that the mount was on, and every other step taken in time was of it or,
while a reconnect was between its two stores, of the device before. -/
theorem superseded_loop {device : MtpDevice} {describe : String} {config : MtpFsConfig}
    {h : List (Callback × Reply)} {fs : MtpFs} {e : Loops}
    (hr : LoopRun (.new device describe config) h fs e) :
    (∀ n, (e.lateSteps n).length ≤ 3 ∧ (e.lateEvents n).length ≤ 1) ∧
    (∀ s ∈ e.log, s.isLate = false → s.device = s.replaced.getD s.mounted ∧
      ∀ ev, s.handled = some ev → ev.needsLock = true → s.device = s.mounted) ∧
    ∀ loop ∈ e.loops, loop.epoch = fs.link.eventEpoch → loop.device = fs.link.device := by
  have h₀ : (MtpFs.new device describe config).link.Watched (.new device) :=
    ⟨rfl, rfl, rfl, Loops.ordered_new device⟩
  have hw := (linkInvariant_watched.mount.served h₀ hr).1
  refine ⟨fun n => ?_, fun s hs hlate => ?_, fun loop hl he => ?_⟩
  · cases hn : e.loops[n]? with
    | none =>
      -- no loop of that number has taken a step
      have hnil : e.lateSteps n = [] := by
        refine List.filter_eq_nil_iff.mpr fun s hs => ?_
        have := Nat.ne_of_lt (Nat.lt_of_lt_of_le (hw.loops.started s hs)
          (List.getElem?_eq_none_iff.mp hn))
        simp [this]
      simp [Loops.lateEvents, hnil]
    | some loop =>
      have hwithin := hw.loops.within n loop hn
      unfold Loops.Within at hwithin
      split at hwithin
      · simp [Loops.lateEvents, hwithin]
      · omega
  · have hdevice := hw.loops.inTime s hs hlate
    refine ⟨hdevice, fun ev hhandled hneeds => ?_⟩
    rw [hw.loops.locked s hs ev hhandled hneeds] at hdevice
    exact hdevice
  · obtain ⟨n, hn⟩ := List.getElem?_of_mem hl
    have hown := hw.loops.own n loop hn (he.trans hw.epoch)
    rw [hw.settled] at hown
    exact hown.trans hw.device.symm

/-- A poll of the first loop times out, and the loop goes on to its next poll. -/
def Loops.pollAgain (e : Loops) : Loops :=
  ((e.advance 0 .quiet).bind fun e' => e'.advance 0 .quiet).getD e

/-- A phone that drops out at its first listing. Its loop is in a poll by then, polls once
more before the reconnect has counted the epoch up, and gets an event out of that poll
after the reconnect. -/
def departingDevice (e : Loops) : (c : Call) → Option (Answer c × Loops)
  | .spawnEventLoop device epoch =>
    some ((), ((e.store device).pollAgain.countUp epoch).spawn device epoch)
  | .background => match e.handle 0 with
    | some (ev, e') => some ([.event ev], e')
    | none => (e.advance 0 .quiet).map fun e' => ([], e')
  | .listObjects storage _ => (e.advance 0 (.event .storageChanged)).map fun e' =>
      (if storage.session = 0 then .error .disconnected else .ok [], e')
  | .storages _ => some (.ok [⟨⟨1⟩, "Card", 100, 50⟩], e)
  | .openDevice => some (.ok ⟨1, true, true⟩, e)
  | c => (undisturbed c).map fun a => (a, e)

theorem Loops.turns_pollAgain (e : Loops) : Turns e [] e.pollAgain := by
  unfold pollAgain
  cases h : (e.advance 0 .quiet).bind fun e' => e'.advance 0 .quiet with
  | none => exact .done e
  | some e' =>
    obtain ⟨e₁, h₁, h₂⟩ := Option.bind_eq_some_iff.mp h
    exact .advance h₁ (.advance h₂ (.done e'))

theorem departingDevice_answers (e : Loops) (c : Call) (a : Answer c) (e' : Loops)
    (h : departingDevice e c = some (a, e')) : LoopAnswer e c a e' := by
  cases c with
  | spawnEventLoop device epoch =>
    cases h
    exact .spawn (.done e) (e.store device).turns_pollAgain (.done _)
  | background =>
    dsimp only [departingDevice] at h
    split at h
    · cases h
      exact .background (.handle ‹_› (.done _))
    · obtain ⟨e₁, ha, h⟩ := Option.map_eq_some_iff.mp h
      cases h
      exact .background (.advance ha (.done _))
  | listObjects storage parent =>
    obtain ⟨e₁, ha, h⟩ := Option.map_eq_some_iff.mp h
    cases h
    exact .other (fun hc => by cases hc) (fun _ _ hc => by cases hc) (.advance ha (.done _))
  | _ =>
    first
      | cases h
        exact .other (fun hc => by cases hc) (fun _ _ hc => by cases hc) (.done _)
      | cases h

/-- The loop left behind takes its three steps, and the mount handles an event of
the session it is no longer on. Before that it polls in time, when the mount has the new
device already. -/
theorem superseded_loop_late : ∃ h fs e, LoopRun writableMount h fs e ∧ fs.link.eventEpoch = 1 ∧
    (e.lateSteps 0).length = 3 ∧ (e.lateEvents 0).length = 1 ∧
    (∃ s ∈ e.log, s.isLate = false ∧ s.device ≠ s.mounted ∧ s.device = s.replaced.getD s.mounted) ∧
    ∀ n, (e.lateSteps n).length ≤ 3 ∧ (e.lateEvents n).length ≤ 1 := by
  obtain ⟨h, fs, e, hr, ht⟩ : ∃ h fs e, LoopRun writableMount h fs e ∧ _ :=
    Served.of_test departingDevice_answers [.init, .readdir 2 0 10, .idle, .idle]
      (fun _ _ _ _ _ => trivial)
      (fun (r : List (Callback × Reply) × MtpFs × Loops) => decide (r.2.1.link.eventEpoch = 1 ∧
        (r.2.2.lateSteps 0).length = 3 ∧ (r.2.2.lateEvents 0).length = 1 ∧
        ∃ s ∈ r.2.2.log, s.isLate = false ∧ s.device ≠ s.mounted))
      (by rfl)
  obtain ⟨hcur, hsteps, hevents, s, hs, hlate, hdevice⟩ := of_decide_eq_true ht
  have hloops := superseded_loop hr
  exact ⟨h, fs, e, hr, hcur, hsteps, hevents, ⟨s, hs, hlate, hdevice, (hloops.2.1 s hs hlate).1⟩,
    hloops.1⟩

end MtpMount
