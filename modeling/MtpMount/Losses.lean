import MtpMount.Reached

/-!
# Requests whose link is lost

A request that makes or deletes an object takes effect or does not, and the
mount hears of it or loses the link. To the mount a lost link looks the same
either way.

* `Naming.Loses`: the device at the end of such a link. What becomes of the
  requests that change it is given by their `Fate`s; whatever else is asked of it
  may fail at any time, and is answered truthfully if it does not.
-/

namespace MtpMount

open Interaction

/-! ## The device -/

/-- What becomes of a request: it takes effect and is answered, it is refused, or
the link is lost before it arrives or after it took effect. -/
inductive Fate where
  | answered
  | refused
  | lostBefore
  | lostAfter
  deriving DecidableEq, Repr

/-- The device, and how many requests to change it were sent. -/
structure Wire where
  phone : Phone
  sent : Nat

def Phone.drop (s : Phone) (o : Nat) (c : Call) : Phone where
  objects := fun x => if x = o then none else s.objects x
  done := s.done ++ [c]

/-- A request that would take effect as `Takes` has it, with the answer to it. -/
inductive Fated {α : Type} (fates : Nat → Fate) (Takes : α → Phone → Prop) (w : Wire) :
    Except Error α → Wire → Prop
  | answered {a : α} {s : Phone} :
      fates w.sent = .answered → Takes a s → Fated fates Takes w (.ok a) ⟨s, w.sent + 1⟩
  | refused {err : Error} :
      fates w.sent = .refused → isLinkLost err = false →
      Fated fates Takes w (.error err) ⟨w.phone, w.sent + 1⟩
  | lostBefore {err : Error} :
      fates w.sent = .lostBefore → isLinkLost err = true →
      Fated fates Takes w (.error err) ⟨w.phone, w.sent + 1⟩
  | lostAfter {a : α} {s : Phone} {err : Error} :
      fates w.sent = .lostAfter → Takes a s → isLinkLost err = true →
      Fated fates Takes w (.error err) ⟨s, w.sent + 1⟩

namespace Naming

variable (N : Naming)

/-- A new object, whatever else has its name, and the handle it is given. -/
def Creates (s : Phone) (storage : Storage) (parent : Option ObjectHandle) (name : String)
    (content : Option Bytes) (c : Call) (a : ObjectHandle) (s' : Phone) : Prop :=
  ∃ st folder o, N.store storage.session storage.id = some st ∧
    N.Folder s storage.session parent folder ∧ s.objects o = none ∧
    N.object storage.session a = some o ∧ s' = s.put o ⟨st, folder, name, content⟩ c

def Deletes (s : Phone) (storage : Storage) (handle : ObjectHandle) (_ : Unit) (s' : Phone) : Prop :=
  ∃ o, N.object storage.session handle = some o ∧ (s.objects o).isSome = true ∧
    s' = s.drop o (.delete storage handle)

/-- The device at the end of a link that may be lost. -/
def Loses (stores : List Nat) (fates : Nat → Fate) (w : Wire) (c : Call) (a : Answer c)
    (w' : Wire) : Prop :=
  match c, a with
  | .listObjects storage parent, answer =>
    w' = w ∧ ∀ objects, answer = .ok objects → N.Reports w.phone storage parent objects
  | .storages device, answer =>
    w' = w ∧ ∀ infos, answer = .ok infos → N.Tells stores device.session infos
  | .upload storage parent info stream, answer =>
    Fated fates (N.Creates w.phone storage parent info.filename (some stream.flatten)
      (.upload storage parent info stream)) w answer.1 w'
  | .createFolder storage parent name, answer =>
    Fated fates (N.Creates w.phone storage parent name none (.createFolder storage parent name)) w
      answer w'
  | .delete storage handle, answer => Fated fates (N.Deletes w.phone storage handle) w answer w'
  | .rename .., _ | .moveObject .., _ => True
  | _, _ => w' = w

end Naming

variable {N : Naming} {stores : List Nat} {fates : Nat → Fate}

theorem Naming.comesBack_loses : ComesBack N stores (N.Loses stores fates) := by
  refine ⟨fun {w w' c a} hc hr => ?_, fun hr => hr.2 _ rfl⟩
  cases c with
  | storages device => exact hr.1
  | isUnplugged | sleep _ | openDevice | invalidated | spawnEventLoop _ _ => exact hr
  | _ => cases hc

theorem Naming.tellsTruth_loses : TellsTruth N Wire.phone (N.Loses stores fates) where
  still := fun hr => hr.1
  reports := fun hr => hr.2 _ rfl

end MtpMount
