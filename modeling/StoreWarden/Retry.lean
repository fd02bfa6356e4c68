import StoreWarden.Call

/-!
# Repeated attempts

An operation is attempted again after a failure, with a wait between two attempts, as long as
attempts are left, the policy accepts the failure and the run is not cancelled.  Every attempt is
a call that may depend on its number and on the time at which it starts.

When the end of a wait and the cancellation come together, either may be noticed first; which one
is a parameter here, and nothing that a caller sees depends on it.
-/

namespace StoreWarden

structure Retry where
  /-- The name of the operation, for the failure of not attempting it at all. -/
  name : String
  /-- The most attempts made. -/
  attempts : Nat
  /-- The wait between the end of one attempt and the start of the next. -/
  backoff : Nat
  /-- Which failures are worth another attempt. -/
  accepts : Failure → Bool

namespace Retry

def always (_ : Failure) : Bool := true

def never (_ : Failure) : Bool := false

/-- What came of repeated attempts: when each started, and how the whole ended, if it did. -/
structure Outcome (α : Type) where
  starts : List Nat
  ending : Ending α

/-- The operation to repeat: the call that attempt `n`, counted from 0, makes at time `t`. -/
abbrev Operation (α : Type) := (n : Nat) → (t : Nat) → Call α

/-- Makes up to `left` attempts, of which the first has number `n`.  `tie n` tells whether the end
of the wait after attempt `n` is noticed before a cancellation at the same time.  `earlier` holds
the starts of the attempts made so far, the latest first. -/
def loop {α : Type} (r : Retry) (op : Operation α) (tie : Nat → Bool) :
    (left n : Nat) → (earlier : List Nat) → Moment → Outcome α
  | 0, _, earlier, m => ⟨earlier.reverse, some (m, .error (.misuse (.zeroAttempts r.name)))⟩
  | left + 1, n, earlier, m =>
    if m.isCancelled then ⟨earlier.reverse, some (m, .error .cancelled)⟩
    else
      let starts := m.now :: earlier
      match (op n m.now).run m with
      | none => ⟨starts.reverse, none⟩
      | some (m, .ok value) => ⟨starts.reverse, some (m, .ok value)⟩
      | some (m, .error failure) =>
        if !r.accepts failure || left = 0 then ⟨starts.reverse, some (m, .error failure)⟩
        else
          match m.wait r.backoff (tie n) with
          | (m, .cancelled) => ⟨starts.reverse, some (m, .error .cancelled)⟩
          | (m, .elapsed) => r.loop op tie left (n + 1) starts m

/-- Attempts an operation until it succeeds or is given up. -/
def run {α : Type} (r : Retry) (op : Operation α) (tie : Nat → Bool) (m : Moment) : Outcome α :=
  r.loop op tie r.attempts 0 [] m

end Retry

end StoreWarden
