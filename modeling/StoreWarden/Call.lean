import StoreWarden.Clock
import StoreWarden.Failure
import StoreWarden.Os.FileSystem

/-!
# Calls

A run happens in moments: the time, the shared cancellation and the files.  An action takes one
moment to a later one and ends with a value or a failure, or never ends.  A call is the plainest
action: after some time it changes files, may cancel, and answers; one that heeds the cancellation
gives up as soon as that fires, before it has done anything.
-/

namespace StoreWarden

/-- What a run has at one point of time. -/
structure Moment where
  now : Nat
  token : Cancellation
  files : Os.FileSystem

namespace Moment

def isCancelled (m : Moment) : Bool := m.token.isFired m.now

/-- The moment in which the cancellation is fired, if it has not been. -/
def cancel (m : Moment) : Moment := { m with token := m.token.cancel m.now }

/-- The same files and cancellation at another time. -/
def moveTo (m : Moment) (t : Nat) : Moment := { m with now := t }

def after (m : Moment) (d : Nat) : Moment := m.moveTo (m.now + d)

end Moment

/-- How an action ends, if it does: the moment then, and its value or failure. -/
abbrev Ending (α : Type) := Option (Moment × Except Failure α)

abbrev Action (α : Type) := Moment → Ending α

/-- One call of another party, as it turns out. -/
structure Call (α : Type) where
  /-- How long it takes to answer, if it ever does. -/
  after : Option Nat
  /-- Whether it gives up once the cancellation has fired. -/
  heeds : Bool
  /-- Whether it fires the cancellation just before it answers. -/
  cancels : Bool
  /-- What it does to the files, and its answer. -/
  effect : Os.FileSystem → Os.FileSystem × Except Failure α

namespace Call

/-- A call that answers at once and changes nothing. -/
def immediate {α : Type} (answer : Except Failure α) : Call α :=
  ⟨some 0, false, false, fun fs => (fs, answer)⟩

/-- When a call made at `now` gives up, if it does before it answers.  At the same time giving up
comes first. -/
def givesUpAt {α : Type} (c : Call α) (now : Nat) (token : Cancellation) : Option Nat :=
  match c.heeds, token.seenFrom now with
  | true, some seen =>
    match c.after with
    | none => some seen
    | some d => if seen ≤ now + d then some seen else none
  | _, _ => none

def run {α : Type} (c : Call α) : Action α := fun m =>
  match c.givesUpAt m.now m.token with
  | some t => some (m.moveTo t, .error .cancelled)
  | none =>
    match c.after with
    | none => none
    | some d =>
      let (files, answer) := c.effect m.files
      let done : Moment := { m.after d with files }
      some (if c.cancels then done.cancel else done, answer)

end Call

namespace Action

/-- An action followed by another on its value; a failure ends both. -/
def andThen {α β : Type} (first : Action α) (next : α → Action β) : Action β := fun m =>
  match first m with
  | none => none
  | some (m, .error failure) => some (m, .error failure)
  | some (m, .ok value) => next value m

def pure {α : Type} (answer : Except Failure α) : Action α := fun m => some (m, answer)

end Action

inductive Wake where
  /-- The time has passed. -/
  | elapsed
  /-- The cancellation came first. -/
  | cancelled
deriving DecidableEq, Repr

/-- Waits for `d`, or until the cancellation fires.  If both come at one time then `tie` decides
whether the time has passed. -/
def Moment.wait (m : Moment) (d : Nat) (tie : Bool) : Moment × Wake :=
  match m.token.seenFrom m.now with
  | none => (m.after d, .elapsed)
  | some seen =>
    if seen < m.now + d then (m.moveTo seen, .cancelled)
    else if seen = m.now + d && !tie then (m.moveTo seen, .cancelled)
    else (m.after d, .elapsed)

end StoreWarden
