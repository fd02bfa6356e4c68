import StoreWarden.Call
import StoreWarden.Engine.Member
import StoreWarden.Readiness.Watch

/-!
# The member as a child process

A child may end by itself at any time.  When the run is cancelled it is asked to end, and ended by
force if it has not done so within a grace period.  However it ends, an exit status that is no
success is reported first and the stop afterwards.  Meanwhile the member is checked until it
serves; the check in flight is always waited for.

When the child ends and the run is cancelled at one time, either may be noticed first; `tie` tells
whether the end is.
-/

namespace StoreWarden.Engine

/-- A child process, counted from its start. -/
structure Child where
  /-- When it ends by itself and how, if it does. -/
  ends : Option (Nat × ExitStatus)
  /-- How long after it is asked to it ends and how, if it does. -/
  yields : Option (Nat × ExitStatus)

inductive Nudge where
  /-- Asks it to end. -/
  | ask
  /-- Ends it. -/
  | force
deriving DecidableEq, Repr

/-- What came of a child: how it ended, if it did, and the signals it was sent. -/
structure Fate where
  stopped : Option (Nat × ExitStatus)
  nudges : List (Nat × Nudge)
deriving DecidableEq, Repr

structure Supervisor where
  program : String
  /-- How long the child gets to end when asked. -/
  grace : Nat := 10000
  /-- The wait before each check until the member serves. -/
  readyPoll : Nat := 500

namespace Child

/-- The earlier of two ends, the first if they come together. -/
def earlierEnd : Option (Nat × ExitStatus) → Option (Nat × ExitStatus) → Option (Nat × ExitStatus)
  | none, b => b
  | a, none => a
  | some a, some b => some (if a.1 ≤ b.1 then a else b)

/-- The end of a child that was started at `start`, as a time. -/
def endFrom (start : Nat) (e : Option (Nat × ExitStatus)) : Option (Nat × ExitStatus) :=
  e.map fun (d, status) => (start + d, status)

/-- How a child ends that is asked to at time `t`. -/
def stop (c : Child) (start grace t : Nat) : Fate :=
  match earlierEnd (endFrom start c.ends) (endFrom t c.yields) with
  | some (e, status) =>
    if e ≤ t + grace then ⟨some (e, status), [(t, .ask)]⟩
    else ⟨some (t + grace, .signal 9), [(t, .ask), (t + grace, .force)]⟩
  | none => ⟨some (t + grace, .signal 9), [(t, .ask), (t + grace, .force)]⟩

/-- What comes of a child that was started at `start`. -/
def fate (c : Child) (start grace : Nat) (token : Cancellation) (tie : Bool) : Fate :=
  match endFrom start c.ends, token.seenFrom start with
  | none, none => ⟨none, []⟩
  | some e, none => ⟨some e, []⟩
  | none, some t => c.stop start grace t
  | some e, some t =>
    if e.1 < t || e.1 = t && tie then ⟨some e, []⟩ else c.stop start grace t

end Child

namespace Supervisor

def arguments (document : Path) : List Bytes := [Bytes.ofString "--config-file", document.bytes]

/-- When the member is found to serve, within at most the given number of checks, of which the
first has number `n`.  Nothing is checked after the run is cancelled or the member has stopped. -/
def readyAt (s : Supervisor) (checks : Nat → Readiness.Check) (token : Cancellation)
    (stopped : Option Nat) : (rounds n now : Nat) → Option Nat
  | 0, _, _ => none
  | rounds + 1, n, now =>
    let wake := now + s.readyPoll
    if (earliest (token.seenFrom now) stopped).any (· ≤ wake) then none
    else
      match (checks n).takes with
      | none => none
      | some d =>
        if (checks n).serves then some (wake + d)
        else s.readyAt checks token stopped rounds (n + 1) (wake + d)

def farewell (t : Nat) (status : ExitStatus) : Timeline :=
  (if status.isSuccess then [] else [(t, .reported (.failure (.engine (.exited status))))]) ++
    [(t, .reported .stopped)]

/-- Everything that is reported of a child that was started at `start`. -/
def timeline (s : Supervisor) (child : Child) (checks : Nat → Readiness.Check) (rounds start : Nat)
    (tie : Bool) (token : Cancellation) : Timeline :=
  let stopped := (child.fate start s.grace token tie).stopped
  let ending : Timeline := (stopped.map fun (t, status) => farewell t status).getD []
  match s.readyAt checks token (stopped.map (·.1)) rounds 0 start with
  | some t => ending.insert t (.reported .ready)
  | none => ending

/-- Starts the member on a document.  `spawn` starts a program with arguments. -/
def start (s : Supervisor) (spawn : String → List Bytes → Except Os.Fault Child)
    (checks : Nat → Readiness.Check) (rounds : Nat) (tie : Bool) (document : Path) :
    Action Member := fun m =>
  match spawn s.program (arguments document) with
  | .error fault => some (m, .error (.engine (.notStarted s.program fault)))
  | .ok child =>
    some (m, .ok (Member.launched m.now (s.timeline child checks rounds m.now tie) m.token))

end Supervisor

end StoreWarden.Engine
