import Mathlib.Init

/-!
# Errors

The errors of the device library that the mount tells apart, the local ones,
and the two questions asked of a device error: is its session gone, and is only
its handle dead.
-/

namespace MtpMount

/-- A failed operation on a local file. -/
structure IoError where
  message : String
  deriving DecidableEq, Repr

/-- An error of the device library. `other` stands for every variant that no
code here looks for. -/
inductive Error where
  | notFound
  | disconnected
  | deviceReset
  | noDevice
  | staleHandle
  | io (message : String)
  | other (text : String)
  deriving DecidableEq, Repr

inductive MountError where
  | io (e : IoError)
  | other (text : String)
  deriving DecidableEq, Repr

/-- The session is gone, and every handle in it. -/
def isLinkLost : Error → Bool
  | .disconnected | .deviceReset | .noDevice => true
  | _ => false

/-- The device no longer knows the handle; the session is fine. -/
def Error.isStaleHandle : Error → Bool
  | .staleHandle => true
  | _ => false

def ioError (e : IoError) : Error := .io e.message

end MtpMount
