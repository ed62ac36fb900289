import Mathlib.Init

/-!
# Riding out a disconnect

The policy says how long to wait for a device that went away; its schedule is a
capped exponential backoff, in milliseconds.
-/

namespace MtpMount

/-- First pause after a disconnect. -/
def FIRST_DELAY : Nat := 250

/-- Longest pause between two reopen attempts. -/
def MAX_DELAY : Nat := 2000

structure ReconnectPolicy where
  timeout : Nat
  deriving DecidableEq, Repr

/-- What the iterator still has to give. -/
structure Backoff where
  remaining : Nat
  next : Nat
  deriving DecidableEq, Repr

namespace Backoff

/-- One `next` of the iterator. -/
def advance (b : Backoff) : Option (Nat × Backoff) :=
  if b.remaining = 0 then none
  else
    let delay := min b.next b.remaining
    some (delay, { remaining := b.remaining - delay, next := min (b.next * 2) MAX_DELAY })

/-- The pauses up to the end of the window, at most `fuel` of them. -/
def delays : Nat → Backoff → List Nat
  | 0, _ => []
  | fuel + 1, b =>
    match b.advance with
    | none => []
    | some (delay, b) => delay :: b.delays fuel

end Backoff

namespace ReconnectPolicy

def fromSecs (secs : Nat) : ReconnectPolicy := ⟨secs * 1000⟩

def isDisabled (p : ReconnectPolicy) : Bool := p.timeout == 0

/-- The pauses to take before each reopen attempt. Every pause takes at least a
millisecond off the window, so there are no more of them than that. -/
def schedule (p : ReconnectPolicy) : List Nat :=
  (Backoff.mk p.timeout FIRST_DELAY).delays p.timeout

end ReconnectPolicy

end MtpMount
