import StoreWarden.Call
import StoreWarden.Sidecar.Progress

/-!
# The sidecar as a service

The sidecar is asked for three things: how far initialization is, to begin it, and for the
document of the member.  Nothing is assumed about what it answers.  The calls of each kind are
numbered from 0, and a call may depend on its number and on the time at which it is made.
-/

namespace StoreWarden.Sidecar

/-- The sidecar, by the call that each request comes to. -/
structure Service where
  /-- The state of initialization. -/
  status : (n t : Nat) → Call Progress
  /-- Begins initialization with the given depth of validation. -/
  trigger : (n t : Nat) → Depth → Call Unit
  /-- Fetches the document, and answers with the path where it was put. -/
  document : (n t : Nat) → Call Path

inductive Request where
  | status
  | trigger (depth : Depth)
  | document
deriving DecidableEq, Repr

structure Asked where
  time : Nat
  request : Request
deriving DecidableEq, Repr

end StoreWarden.Sidecar
